import NodeWatch.Settings.Number

/-! Places in a document, as keys name them: a name at the top, then names after full stops and
positions in square brackets. A key that is not written so is one name. -/

namespace NodeWatch.Settings

/-- A step from a document to one of its parts. A negative position counts from the end. -/
inductive Part where
  | field (name : String)
  | item (position : Int)
  deriving DecidableEq, Repr

/-- The way down to a place from the top of a document. -/
abbrev Place := List Part

namespace Place

/-- What names are written with. A space is part of a name, wherever it stands. -/
def isNameChar (c : Char) : Bool :=
  c.isAlphanum || c == '_' || c == '-' || c == ' '

def isBlank (c : Char) : Bool :=
  c == ' ' || c == '\t'

/-- A name at the front, and the rest. -/
def name? (cs : List Char) : Option (String × List Char) :=
  let name := cs.takeWhile isNameChar
  if name.isEmpty then none else some (String.ofList name, cs.dropWhile isNameChar)

/-- A position up to its closing bracket, and the rest. Blanks may stand around the number, which
fits 64 bits. -/
def position? (cs : List Char) : Option (Int × List Char) := do
  let (negative, cs) := match cs.dropWhile isBlank with
    | '-' :: cs => (true, cs)
    | cs => (false, cs)
  let n ← Number.natural? 10 (cs.takeWhile Char.isDigit)
  let i ← Number.ofSign? negative n
  match (cs.dropWhile Char.isDigit).dropWhile isBlank with
  | ']' :: rest => some (i, rest)
  | _ => none

/-- The parts after the first name. Each takes at least one character. -/
def parts? : Nat → List Char → Option Place
  | _, [] => some []
  | 0, _ :: _ => none
  | n + 1, c :: cs =>
    if c = '.' then do
      let (name, rest) ← name? cs
      return .field name :: (← parts? n rest)
    else if c = '[' then do
      let (i, rest) ← position? cs
      return .item i :: (← parts? n rest)
    else none

def parse? (key : String) : Option Place := do
  let (name, rest) ← name? key.toList
  return .field name :: (← parts? rest.length rest)

/-- The place that a key names. -/
def ofKey (key : String) : Place :=
  (parse? key).getD [.field key]

end Place

end NodeWatch.Settings
