import NodeWatch.Kind
import NodeWatch.Fault

/-! Subscribers and the events they are sent. A subscriber is told apart by the object behind it
and by the role in which that object was handed over. -/

namespace NodeWatch

/-- The identity of an object handed over as a callback. Objects without a name are numbered. -/
inductive Identity where
  | named (name : String)
  | anonymous (serial : Nat)
  deriving DecidableEq, Repr

/-- The party a watch belongs to. `fallible` watchers may report a fault, which is logged;
`default` stands for all the listeners of the client. -/
inductive Subscriber where
  | default
  | watcher (object : Identity)
  | fallible (object : Identity)
  deriving DecidableEq, Repr

/-- One live registration. -/
structure Entry where
  path : String
  kind : Kind
  subscriber : Subscriber
  deriving DecidableEq, Repr

/-- Whom a removal selects. -/
inductive Target where
  | one (subscriber : Subscriber)
  | all
  deriving DecidableEq, Repr

def Target.selects : Target → Subscriber → Bool
  | one s, t => s == t
  | all, _ => true

/-- A change of a node, of a watch on it, or, without a path, of the connection. -/
structure WatchedEvent where
  type : EventType
  state : LinkState
  path : Option String
  deriving DecidableEq, Repr

namespace WatchedEvent

def linkChange (state : LinkState) : WatchedEvent :=
  ⟨.none, state, none⟩

/-- Tells the subscriber of an entry that the entry is gone. -/
def removed (e : Entry) (state : LinkState) : WatchedEvent :=
  ⟨(Selector.only e.kind).announced, state, some e.path⟩

/-- A removal announced on a live connection was asked for by this client. -/
def confirmsRemoval (e : WatchedEvent) : Bool :=
  e.type.isRemoval && e.state == .syncConnected

end WatchedEvent

/-- What listeners and background callbacks are handed. -/
inductive ClientEvent where
  | watched (event : WatchedEvent) (kind : Option Kind)
  | removal (path : String) (kind : Selector) (code : ResultCode) (confirmed : Bool)
  deriving DecidableEq, Repr

/-- Whether the event reports that a removal asked for by this client took something away. -/
def ClientEvent.confirmed : ClientEvent → Bool
  | watched event _ => event.confirmsRemoval
  | removal _ _ _ confirmed => confirmed

end NodeWatch
