/-! The two kinds of watch, the selectors that range over them, and the events that consume
them. A node event consumes the kinds it triggers; a removal announces the kind removed. -/

namespace NodeWatch

/-- What a watch on a node waits for: a change of the node itself, or of its list of children. -/
inductive Kind where
  | data
  | children
  deriving DecidableEq, Repr

/-- The kinds a removal ranges over. `any` selects, and is never the kind of a watch. -/
inductive Selector where
  | only (kind : Kind)
  | any
  deriving DecidableEq, Repr

namespace Selector

/-- The kinds selected, `data` before `children`. -/
def kinds : Selector → List Kind
  | only k => [k]
  | any => [.data, .children]

def selects (s : Selector) (k : Kind) : Bool :=
  s.kinds.contains k

def isConcrete : Selector → Bool
  | only _ => true
  | any => false

def label : Selector → String
  | only .data => "data"
  | only .children => "children"
  | any => "any"

def ofLabel? : String → Option Selector
  | "data" => some (only .data)
  | "children" => some (only .children)
  | "any" => some any
  | _ => none

/-- The capitalised spelling used inside diagnostics. -/
def constructorName : Selector → String
  | only .data => "Data"
  | only .children => "Children"
  | any => "Any"

end Selector

namespace Kind

def label (k : Kind) : String :=
  (Selector.only k).label

/-- Watches at one path are listed with `data` first. -/
def rank : Kind → Nat
  | data => 0
  | children => 1

end Kind

/-- What happened to a node, or to a watch on it. `none` marks a change of connection state. -/
inductive EventType where
  | none
  | nodeCreated
  | nodeDeleted
  | nodeDataChanged
  | nodeChildrenChanged
  | dataWatchRemoved
  | childWatchRemoved
  deriving DecidableEq, Repr

namespace EventType

/-- The kinds of watch that a server notification of this type fires and consumes. -/
def triggered : EventType → List Kind
  | nodeCreated | nodeDataChanged => [.data]
  | nodeChildrenChanged => [.children]
  | nodeDeleted => [.data, .children]
  | none | dataWatchRemoved | childWatchRemoved => []

def isRemoval : EventType → Bool
  | dataWatchRemoved | childWatchRemoved => true
  | _ => false

def all : List EventType :=
  [none, nodeCreated, nodeDeleted, nodeDataChanged, nodeChildrenChanged, dataWatchRemoved,
    childWatchRemoved]

def label : EventType → String
  | none => "None"
  | nodeCreated => "NodeCreated"
  | nodeDeleted => "NodeDeleted"
  | nodeDataChanged => "NodeDataChanged"
  | nodeChildrenChanged => "NodeChildrenChanged"
  | dataWatchRemoved => "DataWatchRemoved"
  | childWatchRemoved => "ChildWatchRemoved"

def ofLabel? (s : String) : Option EventType :=
  all.find? fun t => t.label == s

end EventType

/-- The event type that announces the removal of a watch of this kind. -/
def Kind.removedEvent : Kind → EventType
  | data => .dataWatchRemoved
  | children => .childWatchRemoved

def Selector.removedEvent? : Selector → Option EventType
  | only k => some k.removedEvent
  | any => none

/-- The event type under which a removal is announced. A selector that has none of its own falls
back on that of data. -/
def Selector.announced (s : Selector) : EventType :=
  s.removedEvent?.getD .dataWatchRemoved

/-- The connection state that every event carries. -/
inductive LinkState where
  | syncConnected
  | disconnected
  | expired
  deriving DecidableEq, Repr

namespace LinkState

def label : LinkState → String
  | syncConnected => "SyncConnected"
  | disconnected => "Disconnected"
  | expired => "Expired"

def ofLabel? : String → Option LinkState
  | "SyncConnected" => some syncConnected
  | "Disconnected" => some disconnected
  | "Expired" => some expired
  | _ => none

end LinkState

/-- A change in the life of the session. After `expired` the server holds no watch of ours. -/
inductive SessionEvent where
  | disconnected
  | reconnected
  | expired
  deriving DecidableEq, Repr

namespace SessionEvent

def ofLabel? : String → Option SessionEvent
  | "Disconnected" => some disconnected
  | "Reconnected" => some reconnected
  | "Expired" => some expired
  | _ => none

end SessionEvent

end NodeWatch
