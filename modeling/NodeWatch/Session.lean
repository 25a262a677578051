import NodeWatch.Backoff

/-! Session events. A lost connection keeps the watches, since the server keeps them as long as
the session lives. After an expiry the recovery policy decides: the watches are dropped, or every
path and kind that is watched is armed again, each by a task of its own, and dropped if that
fails. The connection counts as live again when the recovery is over. -/

namespace NodeWatch.Session

/-- The watch that one task arms again, for all of its subscribers. -/
structure Spot where
  path : String
  kind : Kind
  deriving DecidableEq, Repr

def Spot.request (s : Spot) : Request :=
  .register s.path (.rearming s.kind)

structure Task where
  spot : Spot
  stage : Backoff.Stage

inductive Stage where
  /-- The expiry waits to be reported. -/
  | expiring
  /-- The expiry is reported and the recovery not begun. -/
  | expired
  | resubmitting (tasks : List Task)
  /-- The results still to be acted upon, and the entries still to be told. -/
  | dropping (results : List (Spot × Answer)) (rest : List Entry)
  /-- A state of the connection waits to be reported. -/
  | reporting (state : LinkState)
  | done

/-- Offers a change of state for the listeners. -/
def report (p : Party) (state : LinkState) (c : Client) : Stage × Client :=
  match c.send p (.state (.linkChange state)) with
  | (true, c) => (.done, c)
  | (false, c) => (.reporting state, c)

def expire (p : Party) (c : Client) : Stage × Client :=
  match c.send p (.state (.linkChange .expired)) with
  | (true, c) => (.expired, c)
  | (false, c) => (.expiring, c)

/-- Begins to handle an event on an open client. -/
def start (e : SessionEvent) (c : Client) : Stage × Client :=
  let c := c.note (.handling e)
  match e with
  | .disconnected =>
    (.reporting .disconnected,
      { c with connected := false }.remark (.connectionLost c.registry.pathCount))
  | .reconnected => (.reporting .syncConnected, { c with connected := true })
  | .expired => (.expiring, c.remark (.sessionExpired c.settings.recovery))

/-- Handles an event given through the public interface. -/
def startOpen (e : SessionEvent) (c : Client) : Stage × Client :=
  if c.closed then (.done, c) else start e c

/-- The watches to arm again, by path and kind. Entries of one path and kind are neighbours. -/
def spots : List Entry → List Spot
  | [] => []
  | e :: es =>
    match spots es with
    | [] => [⟨e.path, e.kind⟩]
    | s :: ss => if s = ⟨e.path, e.kind⟩ then s :: ss else ⟨e.path, e.kind⟩ :: s :: ss

def recover (c : Client) : Stage × Client :=
  let c := (c.count (.recoveries c.settings.recovery) 1).note (.recovering c.settings.recovery)
  match c.settings.recovery with
  | .dropAll =>
    let (es, c) := c.drain
    (.dropping [] es, c)
  | .resubmitAll =>
    (.resubmitting ((spots (c.registry.snapshot none)).map (Task.mk · .unstarted)), c)

/-- Starts the first task that is not started yet. -/
def startNext (p : BackoffPolicy) : List Task → Client → Option (List Task × Client)
  | [], _ => none
  | t :: ts, c =>
    if Backoff.isUnstarted t.stage then
      let (stage, c) := Backoff.start p t.spot.request c
      some ({ t with stage } :: ts, c)
    else (startNext p ts c).map fun (ts, c) => (t :: ts, c)

/-- The results, once every task has ended. -/
def results? (ts : List Task) : Option (List (Spot × Answer)) :=
  ts.mapM fun t => (Backoff.result? t.stage).map (t.spot, ·)

/-- Changes the task numbered `slot`. -/
def update (slot : Nat) (f : Task → Client → Option (Backoff.Stage × Client)) (stage : Stage)
    (c : Client) : Option (Stage × Client) :=
  match stage with
  | .resubmitting ts => do
    let t ← ts[slot]?
    let (stage, c) ← f t c
    some (.resubmitting (ts.set slot { t with stage }), c)
  | _ => none

def answer (slot : Nat) (x : Answer) (stage : Stage) (c : Client) : Option (Stage × Client) :=
  update slot (fun t => Backoff.answer c.settings.resubmit x t.stage) stage c

def timeOut (slot : Nat) (stage : Stage) (c : Client) : Option (Stage × Client) :=
  update slot (fun t => Backoff.timeOut c.settings.resubmit t.stage) stage c

def retry (slot : Nat) (stage : Stage) (c : Client) : Option (Stage × Client) :=
  update slot (fun t => Backoff.retry c.settings.resubmit t.spot.request t.stage) stage c

def waits (p : BackoffPolicy) : Stage → List (Option Wait)
  | .resubmitting ts => ts.map fun t => Backoff.wait? p t.spot.request t.stage
  | _ => []

/-- Whether the next step is to offer a delivery. -/
def offers : Stage → Bool
  | .expiring | .reporting _ | .dropping _ (_ :: _) => true
  | _ => false

/-- The next step that waits neither for an answer nor for time. -/
def resume (p : Party) (stage : Stage) (c : Client) : Option (Stage × Client) :=
  match stage with
  | .expiring => if c.deliveries.stalls p then none else some (expire p c)
  | .expired => some (recover c)
  | .resubmitting ts =>
    match startNext c.settings.resubmit ts c with
    | some (ts, c) => some (.resubmitting ts, c)
    | none => (results? ts).map fun rs => (.dropping rs [], c)
  | .dropping rs (e :: es) =>
    if c.deliveries.stalls p then none
    else match c.send p (.removed e .expired) with
      | (true, c) => some (.dropping rs es, c)
      | (false, c) => some (.dropping rs (e :: es), c)
  | .dropping ((_, .ok _) :: rs) [] => some (.dropping rs [], c)
  | .dropping ((s, .error f) :: rs) [] =>
    let (es, c) := (c.remark (.rearmAbandoned s.path s.kind f)).unregister .expired s.path
      (.only s.kind) .all
    some (.dropping rs es, c)
  | .dropping [] [] => some (.reporting .syncConnected, { c with connected := true })
  | .reporting s => if c.deliveries.stalls p then none else some (report p s c)
  | .done => none

end NodeWatch.Session
