import NodeWatch.Settings.Number
import NodeWatch.Settings.Toml.Reader

/-! Dates and times in TOML. They are checked against the calendar and kept as texts. -/

namespace NodeWatch.Settings.Toml

/-- A number of two digits within bounds. -/
def twoDigits (low high : Nat) : Reader (Nat × List Char) := do
  let cs ← get
  set (cs.drop 2)
  match Number.natural? 10 (cs.take 2) with
  | some n =>
    if (cs.take 2).length = 2 ∧ low ≤ n ∧ n ≤ high then return (n, cs.take 2) else refuse
  | none => refuse

def timeOfDay : Reader (List Char) := do
  let (_, h) ← twoDigits 0 23
  expect ':'
  let (_, m) ← twoDigits 0 59
  expect ':'
  let (_, s) ← twoDigits 0 60
  let fraction ← if ← take? ['.'] then do
      let ds ← takeWhile Char.isDigit
      if ds.isEmpty then refuse else pure ('.' :: ds)
    else pure []
  return h ++ ':' :: m ++ ':' :: s ++ fraction

def offset : Reader (List Char) := do
  match ← get with
  | 'Z' :: cs | 'z' :: cs => set cs; return ['Z']
  | c :: cs =>
    if c = '+' ∨ c = '-' then
      set cs
      let (_, h) ← twoDigits 0 23
      expect ':'
      let (_, m) ← twoDigits 0 59
      return c :: h ++ ':' :: m
    else return []
  | [] => return []

def isLeapYear (year : Nat) : Bool :=
  year % 4 == 0 && (year % 100 != 0 || year % 400 == 0)

def daysInMonth (year month : Nat) : Nat :=
  if month = 2 then (if isLeapYear year then 29 else 28)
  else if month = 4 ∨ month = 6 ∨ month = 9 ∨ month = 11 then 30
  else 31

def date : Reader (List Char) := do
  let digits ← takeWhile Char.isDigit
  match Number.natural? 10 digits with
  | none => refuse
  | some year =>
    if digits.length ≠ 4 then refuse
    expect '-'
    let (month, m) ← twoDigits 1 12
    expect '-'
    let (_, d) ← twoDigits 1 (daysInMonth year month)
    return digits ++ '-' :: m ++ '-' :: d

/-- A date, a time, or both with an optional offset. -/
def moment : Reader (List Char) := do
  let cs ← get
  if cs.length > 2 ∧ cs[2]? = some ':' then timeOfDay
  else
    let d ← date
    match ← get with
    | c :: h :: _ =>
      if c = 'T' ∨ c = 't' ∨ (c = ' ' ∧ h.isDigit) then
        set ((← get).drop 1)
        let t ← timeOfDay
        return d ++ 'T' :: t ++ (← offset)
      else return d
    | _ => return d

def startsMoment (cs : List Char) : Bool :=
  let lead := cs.takeWhile Char.isDigit
  match cs.drop lead.length with
  | '-' :: _ => lead.length == 4
  | ':' :: _ => lead.length == 2
  | _ => false

/-- The moment that a whole text stands for. -/
def moment? (text : String) : Option String :=
  match moment.run text.toList with
  | some (m, []) => some (String.ofList m)
  | _ => none

end NodeWatch.Settings.Toml
