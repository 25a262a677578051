import NodeWatch.Engine
import NodeWatch.Scenario.Activity

/-! The world of a scenario: an engine, a clock that moves only when everybody waits, the rules and
the server that answer its requests, and the tasks that are ready to run. The engine changes by
its own actions only. -/

namespace NodeWatch.Scenario

/-- Who runs: the scenario itself, or one of the three that work for the client. -/
inductive Task where
  | main
  | dispatcher
  | worker
  | listener
  deriving DecidableEq, Repr

/-- An engine together with the fact that it came about by actions. -/
structure Run where
  settings : Settings
  feed : Option Nat
  engine : Engine
  reachable : Engine.Reachable settings feed engine

namespace Run

def ofBuilt {settings : Settings} {feed : Option Nat} {s : Engine}
    (h : Engine.build settings feed = .built s) : Run :=
  ⟨settings, feed, s, .built h⟩

def act? (r : Run) (a : Engine.Action) : Option Run :=
  match h : Engine.act a r.engine with
  | some s => some { r with engine := s, reachable := .step a r.reachable h }
  | none => none

end Run

structure World where
  run : Run
  clock : Nat
  /-- The tasks that are ready, the next one first. -/
  ready : List Task
  /-- Whether the scenario itself has something to do. -/
  stirred : Bool
  /-- The task that runs, and whether it was readied since it began to. -/
  running : Task
  again : Bool
  /-- How much the running task may still do in this turn. -/
  allowance : Nat
  /-- The tasks that notice when the client is closed, in the order in which they began to. -/
  alert : List Task
  /-- The tasks whose turn was over too soon, with what they were at, latest first. -/
  deferred : List (Task × Option Signal)
  /-- All signals so far. -/
  signals : Array Signal
  /-- Whether the user still has the client, and how many steps hold it. -/
  handle : Bool
  holders : Nat
  rules : List (Rule Step)
  server : Option Server
  /-- The task that carries each call. -/
  carriers : List (Nat × Task)
  workerWork : Work Activity
  listenerWork : Work Activity
  /-- How many watchers without a name, and how many deadlines and crowds, there were so far. -/
  strangers : Nat
  serial : Nat
  /-- The requests and the results of nested steps since the last report, latest first. -/
  requests : List (Request × Nat)
  nested : List Result
  /-- How much of the journal has been reported. -/
  reported : Nat

namespace World

/-- How often a task may send, receive, or find that a deadline has come, in one turn. -/
def turnLength : Nat :=
  128

def ofRun (run : Run) (server : Option Server) : World where
  run := run
  clock := 0
  ready := [.dispatcher, .worker, .listener]
  stirred := false
  running := .main
  again := false
  allowance := turnLength
  alert := []
  deferred := []
  signals := #[]
  handle := true
  holders := 0
  rules := []
  server := server
  carriers := []
  workerWork := {}
  listenerWork := {}
  strangers := 0
  serial := 0
  requests := []
  nested := []
  reported := 0

def engine (w : World) : Engine :=
  w.run.engine

def client (w : World) : Client :=
  w.run.engine.client

def carrier (w : World) : Party → Task
  | .caller id => (w.carriers.lookup id).getD .main
  | .remover => .worker
  | .listener => .listener

def wake (w : World) (t : Task) : World :=
  match t with
  | .main => { w with stirred := true }
  | t =>
    if t = w.running then { w with again := true }
    else if t ∈ w.ready then w
    else { w with ready := w.ready ++ [t] }

def rouse (w : World) (x : Task × Option Signal) : World :=
  { w with signals := w.signals ++ x.2.toList }.wake x.1

def awaits (w : World) (t : Task) : Bool :=
  w.alert.contains t && (t ≠ .worker || w.engine.worker.isIdle)

def hasEnded (w : World) : Task → Bool
  | .main => false
  | .dispatcher => !w.engine.dispatching
  | .worker => w.engine.worker.isStopped
  | .listener => w.engine.listener.isStopped

/-- A task begins to wait for something to do, or for its work to go on. -/
def watch (w : World) (t : Task) : World :=
  if t ∈ w.alert || w.hasEnded t then w else { w with alert := w.alert ++ [t] }

def unwatch (w : World) (t : Task) : World :=
  { w with alert := w.alert.filter (· ≠ t) }

/-- The parties that a change of a queue lets go on: those admitted, or all on closing. -/
def freed {α : Type} (old new : Queue α) : List Party :=
  if new.isOpen then new.admitted.filter fun p => p ∉ old.admitted
  else old.line ++ old.admitted

def roused (w : World) (new : Engine) : List (Task × Option Signal) :=
  let old := w.engine
  let task := fun (t : Task) (news : Bool) =>
    if news && w.awaits t then [(t, (none : Option Signal))] else []
  let party := fun p => (w.carrier p, some (Signal.party p))
  task .dispatcher
    (old.client.deliveries.items.length < new.client.deliveries.items.length) ++
  task .worker (old.client.removals.items.length < new.client.removals.items.length) ++
  (freed old.client.deliveries new.client.deliveries).map party ++
  (freed old.client.removals new.client.removals).map party ++
  (if !old.client.closed && new.client.closed then w.alert.map fun t => (t, none) else []) ++
  task .listener (old.feed.unread.length + old.feed.lost < new.feed.unread.length + new.feed.lost ||
    old.feed.isOpen && !new.feed.isOpen) ++
  task .worker (!old.orphaned && new.orphaned) ++
  task .dispatcher (!old.silent && new.silent)

def act? (w : World) (a : Engine.Action) : Option World :=
  (w.run.act? a).map fun run => (w.roused run.engine).foldl rouse { w with run }

def act (w : World) (a : Engine.Action) : World :=
  (w.act? a).getD w

def spend (w : World) : World :=
  { w with allowance := w.allowance - 1 }

/-- The running task cannot go on in this turn. -/
def putOff (w : World) (s : Option Signal) : World :=
  { w with deferred := (w.running, s) :: w.deferred }

def rouseDeferred (w : World) : World :=
  w.deferred.foldl rouse { w with deferred := [] }

def deadline (w : World) (ms : Nat) : Deadline × World :=
  (⟨w.clock + ms, w.serial, false⟩, { w with serial := w.serial + 1 })

def setDeadline (w : World) (d : Deadline) : Deadline × World :=
  if d.isSet then (d, w)
  else (⟨d.time, w.serial, true⟩, { w with serial := w.serial + 1 })

def isDue (w : World) (d : Deadline) : Bool :=
  d.time ≤ w.clock

def crowd (w : World) (size : Nat) : Crowd × World :=
  (⟨w.serial, size, List.range size, w.signals.size⟩, { w with serial := w.serial + 1 })

/-- So many steps let go of the client; it is released when the last holder does. -/
def letGo (w : World) (steps : Nat) : World :=
  let w := { w with holders := w.holders - steps }
  if !w.handle && w.holders == 0 then w.act .release else w

def drop (w : World) (a : Activity) : World :=
  (a.calls.foldl (fun w id => w.act (.abandon id)) w).letGo a.holders

def ask (w : World) (r : Request) : Answer × World :=
  match w.server with
  | none => (accept r, w)
  | some s =>
    let (a, s) := s.answer r
    (a, { w with server := some s })

/-- Submits a request: the oldest rule for it says what happens. -/
def exchange (w : World) (r : Request) : Exchange Activity × World :=
  let w := { w with requests := (r, w.clock) :: w.requests }
  match useRule r w.rules with
  | none => (⟨r, none, [], none⟩, w)
  | some (x, rules) =>
    let steps := List.map fun s => (Activity.fresh s, true)
    let delay := x.delay.toList.map fun d => (.delay d, false)
    (⟨r, none, steps x.before ++ delay ++ steps x.after, x.reply⟩, { w with rules })

end World

end NodeWatch.Scenario
