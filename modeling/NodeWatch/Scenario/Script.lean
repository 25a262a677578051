import NodeWatch.Operation
import NodeWatch.Scenario.Cast
import NodeWatch.Scenario.Server

/-! The steps of a scenario, the rules that decide how requests are answered in it, and the
results that steps have. -/

namespace NodeWatch.Scenario

/-- How long something takes; none is forever. -/
abbrev Delay := Option Nat

/-- Which requests a rule is for; what is not given matches all. No request is of any kind at
once. -/
structure Pattern where
  removal : Option Bool := none
  path : Option String := none
  kind : Option Selector := none
  deriving DecidableEq, Repr

def Pattern.covers (p : Pattern) (r : Request) : Bool :=
  let isRemoval := match r with
    | .register .. => false
    | .remove .. => true
  p.removal.all (· == isRemoval) && p.path.all (· == r.path) && p.kind.all (· == .only r.kind)

/-- A rule, over what it does before and after its delay. Without a reply of its own it asks the
server when the time has come. -/
structure Rule (α : Type) where
  pattern : Pattern
  /-- How often the rule may be used; none is without limit. -/
  times : Option Nat
  before : List α
  /-- How long the answer is withheld, if at all. A delay of no time is not the same as none. -/
  delay : Option Delay
  after : List α
  reply : Option Answer

inductive Step where
  /-- Arms a watch; without a name, for a fallible watcher that nobody else knows. -/
  | arm (read : Read) (path : String) (who : Option String)
  | remove (request : RemovalRequest)
  | enrol (removal : BackgroundRemoval)
  | notify (event : WatchedEvent)
  | session (event : SessionEvent)
  | feed (events : List SessionEvent)
  | endFeed
  | listen (name : String)
  | unlisten (name : String)
  | snapshot (path : Option String)
  | settings
  | close
  /-- Lets go of the client. -/
  | release
  | pause (length : Delay)
  | join (steps : List Step)
  | rule (rule : Rule Step)
  | clearRules
  | server (deed : Server.Deed)

inductive Result where
  | ok
  | fault (fault : Fault)
  | response (response : Response)
  | sent (count : Nat)
  | listening (count : Nat)
  | unlistened (removed : Bool) (count : Nat)
  | entries (entries : List Entry)
  | settings (settings : Settings)
  | closed (isClosed : Bool)
  | together (results : List Result)
  /-- The step needs the client, which is gone. -/
  | released
  /-- The step does not end. -/
  | hangs

def Result.ofOutcome : Outcome → Result
  | .read (.ok r) => response r
  | .removal (.ok _) | .enrolment (.ok ()) | .handled => ok
  | .read (.error f) | .removal (.error f) | .enrolment (.error f) => fault f

/-- The oldest rule that is for a request and may still be used, and the rules after its use. -/
def useRule {α : Type} (r : Request) : List (Rule α) → Option (Rule α × List (Rule α))
  | [] => none
  | x :: xs =>
    if x.pattern.covers r && x.times != some 0 then
      some (x, { x with times := x.times.map (· - 1) } :: xs)
    else (useRule r xs).map fun (y, ys) => (y, x :: ys)

end NodeWatch.Scenario
