import NodeWatch.Ledger
import NodeWatch.Queue
import NodeWatch.Registry
import NodeWatch.Remark
import NodeWatch.Request

/-! The state that the operations and workers of a client share, and the changes they make to it.
A journal keeps everything that happened, the latest first. -/

namespace NodeWatch

/-- A removal as asked for. -/
structure RemovalRequest where
  path : String
  kind : Selector
  target : Target
  /-- Settle against the registry only, without the server. -/
  registryOnly : Bool
  /-- Finding nothing to remove is success. -/
  quiet : Bool
  deriving DecidableEq, Repr

def RemovalRequest.mode (r : RemovalRequest) : RemovalMode :=
  if r.registryOnly then .registryOnly else .server

/-- A removal handed to the background worker, with the callback that is told its result. -/
structure BackgroundRemoval where
  request : RemovalRequest
  callback : Option String
  deriving DecidableEq, Repr

/-- Why entries left the registry: an event fired them, a removal selected them, or the session
expired. -/
inductive Cause where
  | fired (event : WatchedEvent)
  | removed
  | expired
  deriving DecidableEq, Repr

inductive Occurrence where
  /-- A request was submitted to the server. -/
  | asked (request : Request)
  /-- An entry that was not there before was registered. -/
  | armed (entry : Entry)
  | taken (cause : Cause) (entries : List Entry)
  /-- A delivery was put on the queue. -/
  | queued (delivery : Delivery)
  /-- A delivery was refused because the dispatch worker had stopped. -/
  | dropped (delivery : Delivery)
  /-- User code was called. -/
  | called (call : Call)
  /-- A removal that passed its checks ended. -/
  | settled (mode : RemovalMode) (outcome : RemovalOutcome)
  /-- A session event began to be handled. -/
  | handling (event : SessionEvent)
  /-- A recovery from an expired session began. -/
  | recovering (policy : RecoveryPolicy)
  | remarked (remark : Remark)
  deriving DecidableEq, Repr

structure Client where
  settings : Settings
  registry : Registry
  listeners : List String
  deliveries : Queue Delivery
  removals : Queue BackgroundRemoval
  connected : Bool
  closed : Bool
  ledger : Ledger
  journal : List Occurrence

namespace Client

def note (c : Client) (o : Occurrence) : Client :=
  { c with journal := o :: c.journal }

def remark (c : Client) (r : Remark) : Client :=
  c.note (.remarked r)

def submit (c : Client) (r : Request) : Client :=
  c.note (.asked r)

def count (c : Client) (m : Meter) (n : Nat) : Client :=
  { c with ledger := c.ledger.add m n }

/-- Registers a watch that the server accepted. -/
def arm (c : Client) (e : Entry) : Client :=
  match c.registry.insert e.path e.kind e.subscriber with
  | (true, r) => ({ c with registry := r }.count (.registered e.kind) 1).note (.armed e)
  | (false, _) => c

/-- Takes out the entries that an event at `path` fires, before any of them is told. -/
def fire (c : Client) (path : String) (e : WatchedEvent) : List Entry × Client :=
  match c.registry.takeTriggered path e.type with
  | ([], r) => ([], { c with registry := r })
  | (es, r) =>
    let c := { c with registry := r }.count (.triggered e.type) es.length
    (es, c.note (.taken (.fired e) es))

/-- Takes out the entries that a removal selects at its path. -/
def unregister (c : Client) (cause : Cause) (path : String) (kind : Selector) (target : Target) :
    List Entry × Client :=
  let (es, r) := c.registry.unregister path kind target
  (es, { c with registry := r }.note (.taken cause es))

/-- Takes out every entry, because the session expired. -/
def drain (c : Client) : List Entry × Client :=
  let (es, r) := c.registry.drain
  (es, { c with registry := r }.note (.taken .expired es))

/-- Offers a delivery on behalf of a party. The flag says that the party need not wait: the
delivery was put on the queue, or dropped because nobody takes deliveries any more. -/
def send (c : Client) (p : Party) (d : Delivery) : Bool × Client :=
  match c.deliveries.offer p d with
  | .refused => (true, (c.remark .deliveryDropped).note (.dropped d))
  | .accepted q => (true, { c with deliveries := q }.note (.queued d))
  | .mustWait q => (false, { c with deliveries := q })

def addListener (c : Client) (name : String) : Client :=
  { c with listeners := c.listeners ++ [name] }

/-- Removes every copy of a listener. The flag says whether there was one. -/
def removeListener (c : Client) (name : String) : Bool × Client :=
  (c.listeners.contains name, { c with listeners := c.listeners.filter (· != name) })

def close (c : Client) : Client :=
  { c with closed := true }

/-- The outcome under which a removal is counted. -/
def outcomeOf : Except Fault (List Entry) → RemovalOutcome
  | .ok [] => .noop
  | .ok _ => .ok
  | .error f => if f.isNoWatcher then .noWatcher else .failed

/-- Counts the end of a removal. -/
def settle (c : Client) (mode : RemovalMode) (result : Except Fault (List Entry)) : Client :=
  (c.count (.removals mode (outcomeOf result)) 1).note (.settled mode (outcomeOf result))

def apply (c : Client) : Deed → Client
  | .close => c.close
  | .addListener l => c.addListener l
  | .removeListener l => (c.removeListener l).2

/-- The log entry, if any, that the end of a call of user code leaves. -/
def endingRemark (call : Call) : Ending → Option Remark
  | .returns => none
  | .fails f => match call with
    | .fallible _ e => some (.watcherFailed e f)
    | _ => none
  | .panics m => some (.panicked call m)

/-- One call of user code; whatever it does, the client goes on. -/
def call (conduct : Client → Call → Conduct) (c : Client) (x : Call) : Client :=
  let c := c.note (.called x)
  let behaviour := conduct c x
  let c := behaviour.deeds.foldl apply c
  match endingRemark x behaviour.ending with
  | some r => c.remark r
  | none => c

/-- Carries out a delivery: the listeners are those at its start. -/
def deliver (conduct : Client → Call → Conduct) (c : Client) (d : Delivery) : Client :=
  (d.calls c.listeners).foldl (call conduct) c

end Client

end NodeWatch
