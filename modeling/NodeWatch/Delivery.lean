import NodeWatch.Subscriber

/-! Deliveries, the calls of user code that carry them out, and what user code may do when it is
called. -/

namespace NodeWatch

inductive Delivery where
  /-- An event for the subscriber of one entry. -/
  | watched (subscriber : Subscriber) (kind : Kind) (event : WatchedEvent)
  /-- A change of the connection, for the listeners. -/
  | state (event : WatchedEvent)
  /-- The result of a background removal, for its callback. -/
  | completion (callback : String) (event : ClientEvent)
  deriving DecidableEq, Repr

/-- Tells the subscriber of an entry that its watch was removed, or lost with the session. -/
def Delivery.removed (e : Entry) (state : LinkState) : Delivery :=
  .watched e.subscriber e.kind (.removed e state)

/-- One call of user code. -/
inductive Call where
  | watcher (object : Identity) (event : WatchedEvent)
  | fallible (object : Identity) (event : WatchedEvent)
  | listener (name : String) (event : ClientEvent)
  | callback (name : String) (event : ClientEvent)
  deriving DecidableEq, Repr

/-- What is called, as named in diagnostics. -/
def Call.role : Call → String
  | watcher .. | fallible .. => "watcher"
  | listener .. => "listener"
  | callback .. => "background callback"

/-- What user code may do to the client while it is called. -/
inductive Deed where
  | close
  | addListener (name : String)
  | removeListener (name : String)
  deriving DecidableEq, Repr

/-- How a call of user code ends. A panic carries its message if it is a text. -/
inductive Ending where
  | returns
  | fails (fault : Fault)
  | panics (message : Option String)
  deriving DecidableEq, Repr

structure Conduct where
  deeds : List Deed := []
  ending : Ending := .returns
  deriving DecidableEq, Repr

/-- The calls that carry out a delivery, given the listeners at that moment. -/
def Delivery.calls (listeners : List String) : Delivery → List Call
  | watched .default k e => listeners.map fun l => .listener l (.watched e (some k))
  | watched (.watcher o) _ e => [.watcher o e]
  | watched (.fallible o) _ e => [.fallible o e]
  | state e => listeners.map fun l => .listener l (.watched e none)
  | completion f e => [.callback f e]

end NodeWatch
