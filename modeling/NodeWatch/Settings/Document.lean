import NodeWatch.Settings.Place

/-! Documents that settings are read from: nested tables whose leaves are not yet converted.
Documents are laid over one another leaf by leaf, the later one winning, and the letter case of
names does not count. -/

namespace NodeWatch.Settings

inductive Document where
  | null
  | bool (value : Bool)
  | int (value : Int)
  | real (value : Float)
  | text (value : String)
  /-- A date, a time of day, or both. -/
  | moment (value : String)
  | list (items : List Document)
  | table (fields : List (String × Document))
  deriving Inhabited

/-- Lower case. The Kelvin sign is the one character outside ASCII whose lower case is inside. -/
def lowerChar (c : Char) : Char :=
  if c = '\u212a' then 'k' else c.toLower

/-- The form in which names are kept. -/
def lowerName (s : String) : String :=
  String.ofList (s.toList.map lowerChar)

namespace Document

abbrev Fields := List (String × Document)

def Fields.get? (fields : Fields) (key : String) : Option Document :=
  match fields with
  | [] => none
  | (k, v) :: rest => if k = key then some v else Fields.get? rest key

/-- Sets one field, in place when it is there already. -/
def Fields.set (fields : Fields) (key : String) (value : Document) : Fields :=
  match fields with
  | [] => [(key, value)]
  | (k, v) :: rest =>
    if k = key then (key, value) :: rest else (k, v) :: Fields.set rest key value

theorem Fields.get?_set (fields : Fields) (key k : String) (value : Document) :
    Fields.get? (Fields.set fields key value) k =
      if key = k then some value else Fields.get? fields k := by
  induction fields with
  | nil => simp [Fields.set, Fields.get?]
  | cons f fs ih =>
    obtain ⟨a, v⟩ := f
    by_cases ha : a = key
    · subst ha
      by_cases hk : a = k <;> simp [Fields.set, Fields.get?, hk]
    · by_cases hk : a = k
      · subst hk
        simp [Fields.set, Fields.get?, ha, Ne.symm ha]
      · simp [Fields.set, Fields.get?, ha, hk, ih]

/-- The fields of a table; anything else has none. -/
def fields : Document → Fields
  | table fs => fs
  | _ => []

/-- The items of a list; anything else has none. -/
def items : Document → List Document
  | list l => l
  | _ => []

mutual

/-- Lays `over` over `base`. A table is laid over field by field, in place of a leaf if it has
any fields; a leaf or a list replaces what was there. -/
def overlay (base : Option Document) : Document → Document
  | table [] => base.getD (table [])
  | table (f :: fs) =>
    table (overlayFields ((base.map fields).getD []) (f :: fs))
  | null => null
  | bool b => bool b
  | int n => int n
  | real x => real x
  | text s => text s
  | moment s => moment s
  | list l => list l

def overlayFields (base : Fields) : Fields → Fields
  | [] => base
  | (k, v) :: rest =>
    let name := lowerName k
    overlayFields (Fields.set base name (overlay (Fields.get? base name) v)) rest

end

/-- Items with a place for one at a position, and its index. Places that were missing are empty;
they come in front if the position counts from the end. -/
def reach (items : List Document) (position : Int) : List Document × Nat :=
  if 0 ≤ position then
    let n := position.toNat
    (items ++ List.replicate (n + 1 - items.length) null, n)
  else
    let back := position.natAbs
    (List.replicate (back - items.length) null ++ items, items.length - back)

/-- Puts a value at a place. What is in the way there gives way to a table or a list. A field that
is a table already is laid over, and everything else replaced. -/
def put (value : Document) : Place → Document → Document
  | [], _ => value
  | [.field k], d =>
    let name := lowerName k
    table (Fields.set d.fields name (overlay (Fields.get? d.fields name) value))
  | .field k :: rest, d =>
    let name := lowerName k
    table (Fields.set d.fields name (put value rest ((Fields.get? d.fields name).getD null)))
  | .item i :: rest, d =>
    let (items, n) := reach d.items i
    list (items.set n (put value rest (items[n]?.getD null)))

/-- Lays the fields of a source over a document, one after another. Its keys name places. -/
def layer (root : Document) (source : Fields) : Document :=
  source.foldl (fun d f => put f.2 (.ofKey f.1) d) root

end Document

end NodeWatch.Settings
