import NodeWatch.Fault

/-! The settings of a client: what to do when the session expires, how to retry while recovering,
and how long the queues of the two workers may grow. -/

namespace NodeWatch

/-- What happens to the watches of an expired session: they are armed again on the new session,
or dropped. -/
inductive RecoveryPolicy where
  | resubmitAll
  | dropAll
  deriving DecidableEq, Repr

namespace RecoveryPolicy

def label : RecoveryPolicy → String
  | resubmitAll => "resubmit_all"
  | dropAll => "drop_all"

def ofLabel? : String → Option RecoveryPolicy
  | "resubmit_all" => some resubmitAll
  | "drop_all" => some dropAll
  | _ => none

end RecoveryPolicy

/-- How a request is repeated while recovering. Times are in milliseconds. -/
structure BackoffPolicy where
  maxRetries : Nat := 3
  timeoutMs : Nat := 3000
  baseDelayMs : Nat := 100
  maxDelayMs : Nat := 5000
  deriving DecidableEq, Repr

structure Settings where
  recovery : RecoveryPolicy := .resubmitAll
  resubmit : BackoffPolicy := {}
  eventQueueSize : Nat := 1024
  backgroundQueueSize : Nat := 256
  deriving DecidableEq, Repr

namespace BackoffPolicy

def validate (p : BackoffPolicy) (name : String) : Except Fault Unit :=
  if p.timeoutMs = 0 then
    .error (.settings s!"{name}.timeout_ms must be greater than 0")
  else if p.maxDelayMs < p.baseDelayMs then
    .error (.settings
      s!"{name}.base_delay_ms ({p.baseDelayMs}) exceeds max_delay_ms ({p.maxDelayMs})")
  else .ok ()

end BackoffPolicy

namespace Settings

/-- The first fault of the settings, the retry policy before the queues. -/
def validate (s : Settings) : Except Fault Unit :=
  match s.resubmit.validate "session.resubmit" with
  | .error f => .error f
  | .ok () =>
    if s.eventQueueSize = 0 then
      .error (.settings "dispatch.event_queue_size must be greater than 0")
    else if s.backgroundQueueSize = 0 then
      .error (.settings "dispatch.background_queue_size must be greater than 0")
    else .ok ()

/-- Delivery queues longer than this are allowed, with a warning. -/
def largeQueue : Nat :=
  100000

end Settings

end NodeWatch
