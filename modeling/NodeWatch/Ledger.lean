import NodeWatch.Kind
import NodeWatch.Settings

/-! The counters of a client. Each counter counts one thing that happened; counters of one family
differ in their labels. -/

namespace NodeWatch

/-- Whether a removal may contact the server, or is settled against the registry only. -/
inductive RemovalMode where
  | server
  | registryOnly
  deriving DecidableEq, Repr

/-- How a removal ended: it took something out, it found nothing and that was fine, it found
nothing, or it failed otherwise. -/
inductive RemovalOutcome where
  | ok
  | noop
  | noWatcher
  | failed
  deriving DecidableEq, Repr

/-- One counter. -/
inductive Meter where
  | registered (kind : Kind)
  | triggered (type : EventType)
  | removals (mode : RemovalMode) (outcome : RemovalOutcome)
  | recoveries (policy : RecoveryPolicy)
  deriving DecidableEq, Repr

inductive Family where
  | registered
  | triggered
  | removals
  | recoveries
  deriving DecidableEq, Repr

namespace RemovalMode

def label : RemovalMode → String
  | server => "server"
  | registryOnly => "local"

end RemovalMode

namespace RemovalOutcome

def label : RemovalOutcome → String
  | ok => "ok"
  | noop => "noop"
  | noWatcher => "no_watcher"
  | failed => "failed"

end RemovalOutcome

namespace Family

def name : Family → String
  | registered => "watches_registered_total"
  | triggered => "watches_triggered_total"
  | removals => "watch_removals_total"
  | recoveries => "watch_session_recoveries_total"

def help : Family → String
  | registered => "Watches armed after a server-accepted operation"
  | triggered => "Watch entries consumed by a server notification"
  | removals => "Watch removal requests by mode and outcome"
  | recoveries => "Session-expiry recoveries by policy"

def labelNames : Family → List String
  | registered => ["kind"]
  | triggered => ["event_type"]
  | removals => ["mode", "outcome"]
  | recoveries => ["policy"]

/-- The families in the order of their names. -/
def byName : List Family :=
  [removals, recoveries, registered, triggered]

def ofLabel? : String → Option Family
  | "registered" => some registered
  | "triggered" => some triggered
  | "removals" => some removals
  | "recoveries" => some recoveries
  | _ => none

end Family

namespace Meter

def family : Meter → Family
  | registered _ => .registered
  | triggered _ => .triggered
  | removals .. => .removals
  | recoveries _ => .recoveries

def labels : Meter → List String
  | registered k => [k.label]
  | triggered t => [t.label]
  | removals m o => [m.label, o.label]
  | recoveries p => [p.label]

/-- The name of a counter, with its labels. -/
def series (m : Meter) : String :=
  let labels := m.family.labelNames.zipWith (fun n v => n ++ "=" ++ v) m.labels
  m.family.name ++ "\x7b" ++ String.intercalate "," labels ++ "\x7d"

def all : List Meter :=
  [registered .data, registered .children] ++ EventType.all.map triggered ++
    [RemovalMode.server, RemovalMode.registryOnly].flatMap (fun m =>
      [RemovalOutcome.ok, .noop, .noWatcher, .failed].map (removals m)) ++
    [recoveries .resubmitAll, recoveries .dropAll]

end Meter

structure Ledger where
  count : Meter → Nat

namespace Ledger

def zero : Ledger :=
  ⟨fun _ => 0⟩

def add (l : Ledger) (m : Meter) (n : Nat) : Ledger :=
  ⟨fun x => if x = m then l.count x + n else l.count x⟩

theorem count_add (l : Ledger) (m x : Meter) (n : Nat) :
    (l.add m n).count x = if x = m then l.count x + n else l.count x :=
  rfl

/-- The counters that have counted something. -/
def touched (l : Ledger) : List (Meter × Nat) :=
  (Meter.all.map fun m => (m, l.count m)).filter fun x => x.2 != 0

end Ledger

end NodeWatch
