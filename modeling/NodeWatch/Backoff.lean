import NodeWatch.Client

/-! A request that is repeated until it succeeds. Every attempt has the same time to be answered,
and the pauses between attempts double until they reach a bound. -/

namespace NodeWatch.Backoff

inductive Stage where
  | unstarted
  /-- The attempt, counted from one, and the pause that follows should it fail. -/
  | trying (attempt delay : Nat)
  | pausing (attempt delay : Nat)
  | ended (result : Answer)

/-- A policy without retries still makes one attempt. -/
def attempts (p : BackoffPolicy) : Nat :=
  max 1 p.maxRetries

def start (p : BackoffPolicy) (r : Request) (c : Client) : Stage × Client :=
  (.trying 1 p.baseDelayMs, c.submit r)

/-- After the last attempt its fault is the result. -/
def failed (p : BackoffPolicy) (attempt delay : Nat) (f : Fault) (c : Client) : Stage × Client :=
  if attempt < attempts p then (.pausing attempt delay, c)
  else (.ended (.error f), c.remark (.gaveUp attempt))

def answer (p : BackoffPolicy) (x : Answer) (stage : Stage) (c : Client) :
    Option (Stage × Client) :=
  match stage, x with
  | .trying _ _, .ok x => some (.ended (.ok x), c)
  | .trying n d, .error f => some (failed p n d f (c.remark (.attemptFailed n f)))
  | _, _ => none

/-- The attempt was not answered in time. -/
def timeOut (p : BackoffPolicy) (stage : Stage) (c : Client) : Option (Stage × Client) :=
  match stage with
  | .trying n d =>
    let limit := Duration.ofMillis p.timeoutMs
    some (failed p n d (.timeout limit) (c.remark (.attemptTimedOut n limit)))
  | _ => none

/-- The pause is over. -/
def retry (p : BackoffPolicy) (r : Request) (stage : Stage) (c : Client) :
    Option (Stage × Client) :=
  match stage with
  | .pausing n d => some (.trying (n + 1) (min (2 * d) p.maxDelayMs), c.submit r)
  | _ => none

def wait? (p : BackoffPolicy) (r : Request) : Stage → Option Wait
  | .trying _ _ => some (.answer r (some p.timeoutMs))
  | .pausing _ d => some (.pause d)
  | .unstarted | .ended _ => none

def isUnstarted : Stage → Bool
  | .unstarted => true
  | _ => false

def result? : Stage → Option Answer
  | .ended r => some r
  | _ => none

end NodeWatch.Backoff
