import NodeWatch.Settings
import NodeWatch.Settings.Document
import NodeWatch.Settings.Number

/-! Reading settings from a document. Fields that are not there take their defaults and unknown
fields are ignored. How a leaf is converted depends on where the document comes from. -/

namespace NodeWatch.Settings

/-- The rules by which the leaves of a document are converted. -/
structure Reading where
  number : Document → Option Nat
  policy : Document → Option RecoveryPolicy
  /-- Whether a section written as a list may hold more items than the section has fields. -/
  surplus : Bool

namespace Reading

/-- Numbers are whole and fit 64 bits, and names are spelled exactly. -/
def exact : Reading where
  number
    | .int n => if 0 ≤ n ∧ n.toNat < Number.wordLimit then some n.toNat else none
    | _ => none
  policy
    | .text s => RecoveryPolicy.ofLabel? s
    | .table [(s, .null)] => RecoveryPolicy.ofLabel? s
    | _ => none
  surplus := false

def truthWords : List String :=
  ["true", "on", "yes"]

def falsityWords : List String :=
  ["false", "off", "no"]

/-- Texts that say yes or no count one or zero; all others must be numbers. -/
def textNumber (s : String) : Option Nat :=
  if truthWords.contains s.toLower then some 1
  else if falsityWords.contains s.toLower then some 0
  else Number.word? s.toList

/-- Anything that can stand for a number is one: a fraction is rounded, half away from zero, and
brought into 64 bits. Names are read in any letter case. -/
def tolerant : Reading where
  number
    | .int n => if 0 ≤ n then some n.toNat else none
    | .bool b => some b.toNat
    | .real x => some x.round.toUInt64.toNat
    | .text s => textNumber s
    | _ => none
  policy
    | .text s => RecoveryPolicy.ofLabel? s.toLower
    | .table [(s, _)] => RecoveryPolicy.ofLabel? s.toLower
    | _ => none
  surplus := true

/-- The fields of a section: by name in a table, by position in a list. -/
def section? (r : Reading) (names : List String) : Document → Option (List (Option Document))
  | .table fs => some (names.map (Document.Fields.get? fs))
  | .list items =>
    if r.surplus ∨ items.length ≤ names.length then
      some ((List.range names.length).map fun i => items[i]?)
    else none
  | _ => none

def field {α : Type} (read : Document → Option α) (default : α) : Option Document → Option α
  | none => some default
  | some d => read d

def backoff? (r : Reading) (d : Document) : Option BackoffPolicy := do
  let fs ← r.section? ["max_retries", "timeout_ms", "base_delay_ms", "max_delay_ms"] d
  let p : BackoffPolicy := {}
  match fs with
  | [a, b, c, e] =>
    some
      { maxRetries := ← field r.number p.maxRetries a
        timeoutMs := ← field r.number p.timeoutMs b
        baseDelayMs := ← field r.number p.baseDelayMs c
        maxDelayMs := ← field r.number p.maxDelayMs e }
  | _ => none

def session? (r : Reading) (d : Document) : Option (RecoveryPolicy × BackoffPolicy) := do
  match ← r.section? ["recovery", "resubmit"] d with
  | [a, b] => some (← field r.policy .resubmitAll a, ← field r.backoff? {} b)
  | _ => none

def dispatch? (r : Reading) (d : Document) : Option (Nat × Nat) := do
  let s : Settings := {}
  match ← r.section? ["event_queue_size", "background_queue_size"] d with
  | [a, b] =>
    some (← field r.number s.eventQueueSize a, ← field r.number s.backgroundQueueSize b)
  | _ => none

/-- The settings a document stands for. -/
def settings? (r : Reading) (d : Document) : Option Settings := do
  let s : Settings := {}
  match ← r.section? ["session", "dispatch"] d with
  | [a, b] =>
    let (recovery, resubmit) ← field r.session? (s.recovery, s.resubmit) a
    let (events, background) ← field r.dispatch? (s.eventQueueSize, s.backgroundQueueSize) b
    some ⟨recovery, resubmit, events, background⟩
  | _ => none

end Reading

end NodeWatch.Settings
