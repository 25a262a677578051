/-! Node paths. A path is valid when it is `/`, or a slash before each of its segments, where a
segment is not empty, is neither `.` nor `..`, and holds no forbidden character. The faults of a
path are looked for in a fixed order, and the first one found is reported. -/

namespace NodeWatch.Path

/-- Control characters, the private use area, and the end of the basic plane. -/
def forbidden (c : Char) : Bool :=
  c.toNat ≤ 0x1f || (0x7f ≤ c.toNat && c.toNat ≤ 0x9f) ||
    (0xe000 ≤ c.toNat && c.toNat ≤ 0xf8ff) || (0xfff0 ≤ c.toNat && c.toNat ≤ 0xffff)

/-- The pieces between slashes; there is always one more piece than slashes. -/
def pieces : List Char → List (List Char)
  | [] => [[]]
  | c :: cs =>
    if c = '/' then [] :: pieces cs
    else match pieces cs with
      | [] => [[c]]
      | p :: ps => (c :: p) :: ps

inductive Fault where
  | empty
  | notAbsolute
  | trailingSlash
  | emptySegment
  | relativeSegment
  | forbiddenChar (c : Char)
  deriving DecidableEq, Repr

def segmentFault? (s : List Char) : Option Fault :=
  if s = [] then some .emptySegment
  else if s = ['.'] ∨ s = ['.', '.'] then some .relativeSegment
  else none

/-- The first fault of a path given by its characters. -/
def faultOf? : List Char → Option Fault
  | [] => some .empty
  | '/' :: rest =>
    if rest = [] then none
    else if rest.getLast? = some '/' then some .trailingSlash
    else match (pieces rest).findSome? segmentFault? with
      | some f => some f
      | none => (rest.find? forbidden).map .forbiddenChar
  | _ :: _ => some .notAbsolute

def fault? (path : String) : Option Fault :=
  faultOf? path.toList

end NodeWatch.Path
