import NodeWatch.Scenario.Script

/-! Steps under way. They form a tree: a step may have parts that go on beside one another, and a
request of a step may be answered only after further steps. Whatever waits in the tree waits for
a signal. -/

namespace NodeWatch.Scenario

/-- A moment to wait for. The clock knows of it once it is set; of those that fall together the
one that was set first comes first. -/
structure Deadline where
  time : Nat
  serial : Nat
  isSet : Bool
  deriving DecidableEq, Repr

/-- What lets something go on that waits. -/
inductive Signal where
  | deadline (serial : Nat)
  /-- The party need not wait for a queue any longer. -/
  | party (party : Party)
  | crowd (serial : Nat)
  deriving DecidableEq, Repr

/-- Parts that are too many to look at all of them each time. A part is looked at when it was
signalled, in the order of the signals; at first all are. -/
structure Crowd where
  serial : Nat
  /-- How many parts have not ended. -/
  left : Nat
  /-- The parts to look at, the next one first. -/
  queue : List Nat
  /-- How many signals have been heard. -/
  heard : Nat
  deriving Repr

def Crowd.limit : Nat :=
  30

/-- A request under way: what is happening, what is to happen before it is answered, and the
answer, unless it is the server's. Of what happens, the steps are marked: their results are
shown. -/
structure Exchange (α : Type) where
  request : Request
  current : Option (α × Bool)
  rest : List (α × Bool)
  reply : Option Answer

inductive Slot (α : Type) where
  | asking (exchange : Exchange α) (deadline : Option Deadline)
  | pausing (deadline : Deadline)

/-- What the parts of a party's work are at, by number. -/
structure Work (α : Type) where
  slots : List (Nat × Slot α) := []
  crowd : Option Crowd := none

inductive Activity where
  | fresh (step : Step)
  /-- A step that has begun. It holds the client until it ends. -/
  | step (inner : Activity)
  | call (id : Nat) (work : Work Activity)
  | delay (length : Delay)
  /-- Without a deadline it never ends. -/
  | pausing (deadline : Option Deadline)
  | together (parts : List Activity) (crowd : Option Crowd)
  | finished (result : Result)

abbrev Slots := List (Nat × Slot Activity)

namespace Slot

def activities : Slot Activity → List Activity
  | .asking e _ => e.current.toList.map Prod.fst
  | .pausing _ => []

def deadline? : Slot Activity → Option Deadline
  | .asking _ d => d
  | .pausing d => some d

end Slot

namespace Activity

def children : Activity → List Activity
  | step a => [a]
  | call _ work => work.slots.flatMap fun x => x.2.activities
  | together parts _ => parts
  | fresh _ | delay _ | pausing _ | finished _ => []

def inside : Nat → Activity → List Activity
  | 0, a => [a]
  | n + 1, a => a :: a.children.flatMap (inside n)

/-- Deeper than activities are nested. -/
def depth : Nat :=
  10000

def calls (a : Activity) : List Nat :=
  (a.inside depth).filterMap fun x => match x with
    | call id _ => some id
    | _ => none

def holders (a : Activity) : Nat :=
  (a.inside depth).countP fun x => match x with
    | step _ => true
    | _ => false

def deadlines (a : Activity) : List Deadline :=
  (a.inside depth).flatMap fun x => match x with
    | call _ work => work.slots.filterMap fun y => y.2.deadline?
    | pausing d => d.toList
    | _ => []

def crowds (a : Activity) : List Crowd :=
  (a.inside depth).flatMap fun x => match x with
    | call _ work => work.crowd.toList
    | together _ c => c.toList
    | _ => []

def signals (a : Activity) : List Signal :=
  a.calls.map (.party <| .caller ·) ++ a.deadlines.map (.deadline ·.serial) ++
    a.crowds.map (.crowd ·.serial)

def isFinished : Activity → Bool
  | finished _ => true
  | _ => false

end Activity

namespace Slots

def get? (slots : Slots) (i : Nat) : Option (Slot Activity) :=
  slots.lookup i

def put (slots : Slots) (i : Nat) (s : Slot Activity) : Slots :=
  (i, s) :: slots.filter fun x => x.1 ≠ i

def clear (slots : Slots) (i : Nat) : Slots :=
  slots.filter fun x => x.1 ≠ i

def signals (s : Slot Activity) : List Signal :=
  s.deadline?.toList.map (.deadline ·.serial) ++ s.activities.flatMap Activity.signals

def part? (slots : Slots) (s : Signal) : Option Nat :=
  (slots.find? fun x => (signals x.2).contains s).map Prod.fst

end Slots

def Activity.part? (parts : List Activity) (s : Signal) : Option Nat :=
  parts.findIdx? fun a => a.signals.contains s

end NodeWatch.Scenario
