import NodeWatch.Removal

/-! The background worker. It carries out the removals handed to it one at a time, in order, and
tells the callback of each its result. It looks whether the client was closed before it takes a
removal, before it begins it and whenever it wakes, and then drops what it has. -/

namespace NodeWatch

inductive Worker where
  | idle
  /-- A removal was taken and not begun. -/
  | received (removal : BackgroundRemoval)
  /-- Awake while it runs, asleep while it waits for an answer or for room in the queue. -/
  | removing (removal : BackgroundRemoval) (stage : Removal.Stage) (awake : Bool)
  | reporting (callback : String) (event : ClientEvent) (awake : Bool)
  | stopped

namespace Worker

def isStopped : Worker → Bool
  | stopped => true
  | _ => false

def isIdle : Worker → Bool
  | idle => true
  | _ => false

def stop (c : Client) : Worker × Client :=
  (stopped, { c with
    deliveries := c.deliveries.withdraw .remover
    removals := c.removals.close })

/-- The worker's turn comes: it stops, takes a removal, begins it, or goes on with it. Without a
caller left it stops when the queue is empty. -/
def turn (orphaned : Bool) (w : Worker) (c : Client) : Option (Worker × Client) :=
  match w with
  | idle =>
    if c.closed then some (stop c)
    else match c.removals.take? with
      | some (b, q) => some (received b, { c with removals := q })
      | none => if orphaned then some (stop c) else none
  | received b =>
    if c.closed then some (stop c)
    else
      let (stage, c) := Removal.start b.request c
      some (removing b stage true, c)
  | removing b s false => if c.closed then some (stop c) else some (removing b s true, c)
  | reporting f e false => if c.closed then some (stop c) else some (reporting f e true, c)
  | removing _ _ true | reporting _ _ true | stopped => none

def sleep : Worker → Option Worker
  | removing b s true => some (removing b s false)
  | reporting f e true => some (reporting f e false)
  | _ => none

/-- What a callback is told about the removal it stands for. -/
def completion (r : RemovalRequest) (result : Except Fault (List Entry)) : ClientEvent :=
  .removal r.path r.kind (ResultCode.ofResult result) (match result with
    | .ok es => !es.isEmpty
    | .error _ => false)

/-- A removal has ended: its callback is told, or its fault is written to the log. -/
def conclude (b : BackgroundRemoval) (result : Except Fault (List Entry)) (c : Client) :
    Worker × Client :=
  match b.callback, result with
  | some f, _ => (reporting f (completion b.request result) true, c)
  | none, .ok _ => (idle, c)
  | none, .error x => (idle, c.remark (.backgroundFailed b.request.path b.request.kind x))

/-- Whether the next step is to offer a delivery. -/
def offers : Worker → Bool
  | removing _ s true => Removal.offers s
  | reporting _ _ true => true
  | _ => false

def resume (w : Worker) (c : Client) : Option (Worker × Client) :=
  match w with
  | removing b (.done result) true => some (conclude b result c)
  | removing b s true =>
    (Removal.resume b.request .remover s c).map fun (s, c) => (removing b s true, c)
  | reporting f e true =>
    if c.deliveries.stalls .remover then none
    else match c.send .remover (.completion f e) with
      | (true, c) => some (idle, c)
      | (false, c) => some (reporting f e true, c)
  | _ => none

def answer (slot : Nat) (x : Answer) (w : Worker) (c : Client) : Option (Worker × Client) :=
  match w with
  | removing b s true =>
    (Removal.answer b.request slot x s c).map fun (s, c) => (removing b s true, c)
  | _ => none

def waits : Worker → List (Option Wait)
  | removing b s _ => Removal.waits b.request s
  | _ => []

end Worker

end NodeWatch
