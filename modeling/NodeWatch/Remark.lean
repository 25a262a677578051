import NodeWatch.Delivery
import NodeWatch.Settings

/-! What the client writes to its log: warnings and errors, each with a message and fields. -/

namespace NodeWatch

inductive Severity where
  | warning
  | error
  deriving DecidableEq, Repr

inductive Remark where
  | largeQueue (size : Nat)
  | deliveryDropped
  | deliveryQueueClosed
  | watcherFailed (event : WatchedEvent) (fault : Fault)
  | panicked (call : Call) (message : Option String)
  | feedLagged (skipped : Nat)
  | removalFailed (path : String) (kind : Kind) (fault : Fault)
  | rearming (path : String) (kind : Kind)
  | rearmFailed (path : String) (kind : Kind) (fault : Fault)
  | backgroundFailed (path : String) (kind : Selector) (fault : Fault)
  | connectionLost (watchedPaths : Nat)
  | sessionExpired (policy : RecoveryPolicy)
  | attemptFailed (attempt : Nat) (fault : Fault)
  | attemptTimedOut (attempt : Nat) (limit : Duration)
  | gaveUp (attempts : Nat)
  | rearmAbandoned (path : String) (kind : Kind) (fault : Fault)
  deriving DecidableEq, Repr

namespace Remark

def severity : Remark → Severity
  | watcherFailed .. | panicked .. | backgroundFailed .. => .error
  | _ => .warning

def message : Remark → String
  | largeQueue n =>
    s!"dispatch.event_queue_size ({n}) is very large and may consume significant memory"
  | deliveryDropped => "Dispatch worker stopped, delivery dropped"
  | deliveryQueueClosed => "Watch delivery channel closed unexpectedly"
  | watcherFailed _ f => s!"Watcher failed: {f.diagnostic}"
  | panicked _ m => "Panic during event delivery: " ++ m.getD "non-string panic payload"
  | feedLagged _ => "Session event feed lagged"
  | removalFailed _ _ f => s!"Watch removal failed: {f.diagnostic}"
  | rearming .. => "Watch registered during server removal, re-arming"
  | rearmFailed _ _ f => s!"Re-arm after removal failed: {f.diagnostic}"
  | backgroundFailed _ _ f => s!"Background watch removal failed: {f.diagnostic}"
  | connectionLost _ => "Connection lost, keeping local watches"
  | sessionExpired _ => "Session expired"
  | attemptFailed _ f => s!"task failed with error: {f.diagnostic}"
  | attemptTimedOut _ d => s!"task timed out after {d.text}"
  | gaveUp n => s!"Task failed after {n} attempts"
  | rearmAbandoned _ _ f => s!"Could not re-arm watch, dropping it: {f.diagnostic}"

def optionalText : Option String → String
  | some s => "Some(" ++ Text.quoteString s ++ ")"
  | none => "None"

def fields : Remark → List (String × String)
  | watcherFailed e _ => [("path", optionalText e.path), ("event_type", e.type.label)]
  | panicked c _ => [("callee", c.role)]
  | feedLagged n => [("skipped", toString n)]
  | removalFailed p k _ | rearming p k | rearmFailed p k _ | rearmAbandoned p k _ =>
    [("path", p), ("kind", k.label)]
  | backgroundFailed p k _ => [("path", p), ("kind", k.label)]
  | connectionLost n => [("watched_paths", toString n)]
  | sessionExpired p => [("policy", p.label)]
  | attemptFailed n _ | attemptTimedOut n _ => [("attempt", toString n)]
  | largeQueue _ | deliveryDropped | deliveryQueueClosed | gaveUp _ => []

end Remark

end NodeWatch
