import NodeWatch.Settings.Toml.Moment
import NodeWatch.Settings.Document

/-! The tables of a TOML file while it is read. Headers and dotted keys open tables, and no table
is defined twice. -/

namespace NodeWatch.Settings.Toml

/-- Values are closed once they are written. A table is implicit until a header names it, and
dotted when a dotted key opened it. An array of tables lists its tables newest first. -/
inductive Node where
  | leaf (value : Document)
  | list (items : List Node)
  | inline (fields : List (String × Node))
  | table (implicit dotted : Bool) (fields : List (String × Node))
  | tables (newest : List (String × Node)) (older : List (List (String × Node)))

abbrev NodeFields := List (String × Node)

namespace NodeFields

def get? (fs : NodeFields) (k : String) : Option Node :=
  match fs with
  | [] => none
  | (a, v) :: rest => if a = k then some v else NodeFields.get? rest k

def set (fs : NodeFields) (k : String) (v : Node) : NodeFields :=
  match fs with
  | [] => [(k, v)]
  | (a, x) :: rest => if a = k then (k, v) :: rest else (a, x) :: NodeFields.set rest k v

/-- Puts a field behind all others, wherever it was. -/
def setLast (fs : NodeFields) (k : String) (v : Node) : NodeFields :=
  fs.filter (fun f => f.1 ≠ k) ++ [(k, v)]

end NodeFields

/-- Applies `f` to the fields of the table at a path, opening implicit tables on the way. -/
def descend (dotted : Bool) (f : NodeFields → Option NodeFields) :
    List String → NodeFields → Option NodeFields
  | [], fs => f fs
  | k :: ks, fs =>
    match fs.get? k with
    | none => (descend dotted f ks []).map fun inner => fs.set k (.table true dotted inner)
    | some (.table implicit d inner) =>
      if dotted && !implicit then none
      else (descend dotted f ks inner).map fun inner => fs.set k (.table implicit d inner)
    | some (.tables newest older) =>
      (descend dotted f ks newest).map fun newest => fs.set k (.tables newest older)
    | some _ => none

/-- Whether the table at a path was opened by a dotted key. -/
def openedByKey : List String → NodeFields → Bool
  | [], _ => false
  | k :: ks, fs =>
    match fs.get? k with
    | some (.table _ d inner) => if ks.isEmpty then d else openedByKey ks inner
    | some (.tables newest _) => if ks.isEmpty then false else openedByKey ks newest
    | none => true
    | some _ => false

/-- Defines the last name of a key inside a table. -/
def define (key : List String) (v : Node) (fs : NodeFields) : Option NodeFields :=
  match key.getLast? with
  | none => none
  | some last =>
    let path := key.dropLast
    if !path.isEmpty && !openedByKey path fs then none
    else
      descend true (fun inner =>
        if (inner.get? last).isSome then none else some (inner.set last v)) path fs

/-- Opens the table named by a header. Its place is where the header stands. -/
def openTable (last : String) (fs : NodeFields) : Option NodeFields :=
  match fs.get? last with
  | none => some (fs.set last (.table false false []))
  | some (.table true false inner) => some (fs.setLast last (.table false false inner))
  | some _ => none

/-- Adds a table to the array of tables named by a header. -/
def pushTable (last : String) (fs : NodeFields) : Option NodeFields :=
  match fs.get? last with
  | none => some (fs.set last (.tables [] []))
  | some (.tables newest older) => some (fs.set last (.tables [] (newest :: older)))
  | some _ => none

/-- Applies `f` inside the table of the current header. -/
def within (f : NodeFields → Option NodeFields) : List String → NodeFields → Option NodeFields
  | [], fs => f fs
  | k :: ks, fs =>
    match fs.get? k with
    | some (.table i d inner) =>
      (within f ks inner).map fun inner => fs.set k (.table i d inner)
    | some (.tables newest older) =>
      (within f ks newest).map fun newest => fs.set k (.tables newest older)
    | _ => none

/-- A table whose first field has this name stands for the moment that the field holds; nothing
else in it is looked at. -/
def momentField : String :=
  "$__toml_private_datetime"

mutual

/-- What a node stands for. -/
def Node.document? : Node → Option Document
  | .leaf v => some v
  | .list items => (items? items).map .list
  | .inline fs => table? fs
  | .table _ _ fs => table? fs
  | .tables newest older => do
    let older ← olderTables? older
    return .list (older ++ [← table? newest])

def items? : List Node → Option (List Document)
  | [] => some []
  | v :: rest => do
    let v ← v.document?
    return v :: (← items? rest)

/-- What a table with these fields stands for. -/
def table? : List (String × Node) → Option Document
  | [] => some (.table [])
  | (k, v) :: rest =>
    if k = momentField then
      match v with
      | .leaf (.text s) => (moment? s).map .moment
      | _ => none
    else do
      let v ← v.document?
      return .table ((k, v) :: (← fields? rest))

def fields? : List (String × Node) → Option Document.Fields
  | [] => some []
  | (k, v) :: rest => do
    let v ← v.document?
    return (k, v) :: (← fields? rest)

def olderTables? : List (List (String × Node)) → Option (List Document)
  | [] => some []
  | fs :: rest => do
    let rest ← olderTables? rest
    return rest ++ [← table? fs]

end

end NodeWatch.Settings.Toml
