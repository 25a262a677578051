import NodeWatch.Feed
import NodeWatch.Operation
import NodeWatch.Worker

/-! A client at work: its state, the calls in progress, its two workers and the listener of the
session feed. An action is what one of them does between two points at which it may be
interrupted; every run is a sequence of actions, in whatever order. -/

namespace NodeWatch

structure Engine where
  client : Client
  /-- The calls in progress, by number. -/
  calls : List (Nat × Operation)
  nextCall : Nat
  worker : Worker
  /-- Whether the dispatch worker runs. -/
  dispatching : Bool
  listener : Listener
  feed : Feed
  /-- Whether the user still has the client. -/
  held : Bool

namespace Engine

/-- How the construction of a client ends. It breaks down, with a message, when a queue of a size
that the settings allow cannot be made. -/
inductive Construction where
  | rejected (fault : Fault)
  | brokenDown (message : String)
  | built (engine : Engine)

def initial (settings : Settings) (deliveries : Queue Delivery)
    (removals : Queue BackgroundRemoval) (feed : Option Nat) : Engine where
  client :=
    { settings, registry := .empty, listeners := [], deliveries, removals, connected := true,
      closed := false, ledger := .zero
      journal :=
        if Settings.largeQueue < settings.eventQueueSize then
          [.remarked (.largeQueue settings.eventQueueSize)]
        else [] }
  calls := []
  nextCall := 0
  worker := .idle
  dispatching := true
  listener := if feed.isSome then .idle else .stopped
  feed := .ofCapacity (feed.getD 0)
  held := true

/-- Makes a client, with a session feed if a capacity for one is given. -/
def build (settings : Settings) (feed : Option Nat) : Construction :=
  match settings.validate with
  | .error f => .rejected f
  | .ok () =>
    match Queue.ofCapacity settings.eventQueueSize with
    | .error m => .brokenDown m
    | .ok d =>
      match Queue.ofCapacity settings.backgroundQueueSize with
      | .error m => .brokenDown m
      | .ok r => .built (initial settings d r feed)

inductive Action where
  | begin (order : Order)
  | resume (party : Party)
  | answer (party : Party) (slot : Nat) (answer : Answer)
  | timeOut (party : Party) (slot : Nat)
  | retry (party : Party) (slot : Nat)
  /-- The dispatch worker carries out a delivery, or stops. -/
  | dispatch (conduct : Client → Call → Conduct)
  /-- The background worker's turn, and its going to sleep. -/
  | turn
  | sleep
  /-- The feed's listener takes the next event, or stops. -/
  | listen
  | feed (event : SessionEvent)
  | endFeed
  | perform (deed : Deed)
  /-- The user lets go of the client. -/
  | release
  /-- A call is dropped before its end. -/
  | abandon (call : Nat)
  /-- The outcome of a call is taken. -/
  | collect (call : Nat)

def call? (s : Engine) (id : Nat) : Option Operation :=
  s.calls.lookup id

def setCall (s : Engine) (id : Nat) (o : Operation) (c : Client) : Engine :=
  { s with
    calls := s.calls.map fun x => if x.1 = id then (id, o) else x
    client := c }

/-- No call can be begun any more, and none is in progress. -/
def orphaned (s : Engine) : Bool :=
  !s.held && s.calls.isEmpty

/-- Nobody is left who could put a delivery on the queue. -/
def silent (s : Engine) : Bool :=
  s.orphaned && s.worker.isStopped && s.listener.isStopped

def begin (o : Order) (s : Engine) : Option Engine :=
  if s.held then
    let (op, c) := Operation.start o s.client
    some { s with
      calls := s.calls ++ [(s.nextCall, op)]
      nextCall := s.nextCall + 1
      client := c }
  else none

def updateCall (id : Nat) (f : Operation → Client → Option (Operation × Client)) (s : Engine) :
    Option Engine := do
  let o ← s.call? id
  let (o, c) ← f o s.client
  some (s.setCall id o c)

def updateWorker (f : Worker → Client → Option (Worker × Client)) (s : Engine) : Option Engine :=
  (f s.worker s.client).map fun (worker, client) => { s with worker, client }

def updateListener (f : Session.Stage → Client → Option (Session.Stage × Client)) (s : Engine) :
    Option Engine :=
  (s.listener.update f s.client).map fun (listener, client) => { s with listener, client }

def resume : Party → Engine → Option Engine
  | .caller id => updateCall id (Operation.resume (.caller id))
  | .remover => updateWorker Worker.resume
  | .listener => updateListener (Session.resume .listener)

def answer (slot : Nat) (x : Answer) : Party → Engine → Option Engine
  | .caller id => updateCall id (Operation.answer slot x)
  | .remover => updateWorker (Worker.answer slot x)
  | .listener => updateListener (Session.answer slot x)

def timeOut (slot : Nat) : Party → Engine → Option Engine
  | .caller id => updateCall id (Operation.timeOut slot)
  | .remover => fun _ => none
  | .listener => updateListener (Session.timeOut slot)

def retry (slot : Nat) : Party → Engine → Option Engine
  | .caller id => updateCall id (Operation.retry slot)
  | .remover => fun _ => none
  | .listener => updateListener (Session.retry slot)

/-- Whether a party's next step is to offer something to a queue. -/
def offers (s : Engine) : Party → Bool
  | .caller id => (s.call? id).any Operation.offers
  | .remover => s.worker.offers
  | .listener => s.listener.offers

/-- Whether a party waits in line for a queue. -/
def inLine (s : Engine) (p : Party) : Bool :=
  s.client.deliveries.line.contains p || s.client.removals.line.contains p

def stopDispatching (s : Engine) (c : Client) : Engine :=
  { s with dispatching := false, client := { c with deliveries := c.deliveries.close } }

/-- Closing comes before any delivery that is queued. -/
def dispatch (conduct : Client → Call → Conduct) (s : Engine) : Option Engine :=
  if !s.dispatching then none
  else if s.client.closed then some (s.stopDispatching s.client)
  else match s.client.deliveries.take? with
    | some (d, q) =>
      some { s with client := { s.client with deliveries := q }.deliver conduct d }
    | none =>
      if s.silent then some (s.stopDispatching (s.client.remark .deliveryQueueClosed)) else none

def listen (s : Engine) : Option Engine :=
  (s.listener.listen s.feed s.client).map fun (listener, feed, client) =>
    { s with listener, feed, client }

/-- Nothing is sent to a feed that has ended or that nobody reads. -/
def feedEvent (e : SessionEvent) (s : Engine) : Option Engine :=
  if s.feed.isOpen && !s.listener.isStopped then some { s with feed := s.feed.send e } else none

def abandon (id : Nat) (s : Engine) : Option Engine :=
  (s.call? id).map fun _ =>
    { s with
      calls := s.calls.filter fun x => x.1 ≠ id
      client := { s.client with
        deliveries := s.client.deliveries.withdraw (.caller id)
        removals := s.client.removals.withdraw (.caller id) } }

def outcome? (s : Engine) (id : Nat) : Option Outcome :=
  (s.call? id).bind Operation.outcome?

def collect (id : Nat) (s : Engine) : Option Engine :=
  (s.outcome? id).map fun _ => { s with calls := s.calls.filter fun x => x.1 ≠ id }

/-- The engine after an action; none when the action is not possible. -/
def act : Action → Engine → Option Engine
  | .begin o => begin o
  | .resume p => resume p
  | .answer p slot x => answer slot x p
  | .timeOut p slot => timeOut slot p
  | .retry p slot => retry slot p
  | .dispatch conduct => dispatch conduct
  | .turn => fun s => s.updateWorker (Worker.turn s.orphaned)
  | .sleep => fun s => s.worker.sleep.map fun worker => { s with worker }
  | .listen => listen
  | .feed e => feedEvent e
  | .endFeed => fun s => some { s with feed := s.feed.close }
  | .perform d => fun s => if s.held then some { s with client := s.client.apply d } else none
  | .release => fun s => if s.held then some { s with held := false } else none
  | .abandon id => abandon id
  | .collect id => collect id

/-- What the parts of a party's work wait for, by slot. -/
def waits (s : Engine) : Party → List (Option Wait)
  | .caller id => ((s.call? id).map (Operation.waits s.client.settings.resubmit)).getD []
  | .remover => s.worker.waits
  | .listener => s.listener.waits s.client.settings.resubmit

/-- The engines that a client built with these settings can become. -/
inductive Reachable (settings : Settings) (feed : Option Nat) : Engine → Prop
  | built {s : Engine} (h : build settings feed = .built s) : Reachable settings feed s
  | step {s t : Engine} (a : Action) (hs : Reachable settings feed s) (h : act a s = some t) :
    Reachable settings feed t

end Engine

end NodeWatch
