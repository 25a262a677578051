import NodeWatch.Settings.Toml.Node
import NodeWatch.Settings.Toml.Quoted
import NodeWatch.Settings.Toml.Scalar

/-! Reading TOML. A file is a sequence of key lines and headers. -/

namespace NodeWatch.Settings.Toml

mutual

/-- A value that is nested so deeply. -/
def value : Nat → Nat → Reader Node
  | 0, _ => refuse
  | n + 1, depth => do
    match ← peek with
    | some '"' | some '\'' => return .leaf (.text (String.ofList (← quoted true)))
    | some '[' =>
      expect '['
      if depthLimit ≤ depth + 1 then refuse
      return .list (← arrayTail n (depth + 1))
    | some '\x7b' =>
      expect '\x7b'
      if depthLimit ≤ depth + 1 then refuse
      skipBlanks
      return .inline (← if ← take? ['\x7d'] then pure [] else inlineTail n (depth + 1) [])
    | _ => return .leaf (← scalar)

/-- The items of an array up to the closing bracket. -/
def arrayTail : Nat → Nat → Reader (List Node)
  | 0, _ => refuse
  | n + 1, depth => do
    skipLines (← get).length
    if ← take? [']'] then return []
    else
      let v ← value n depth
      skipLines (← get).length
      if ← take? [','] then return v :: (← arrayTail n depth)
      else
        expect ']'
        return [v]

/-- The fields of a table written on one line, up to the closing brace. -/
def inlineTail : Nat → Nat → NodeFields → Reader NodeFields
  | 0, _, _ => refuse
  | n + 1, depth, fs => do
    let k ← dottedKey
    expect '='
    skipBlanks
    let v ← value n depth
    skipBlanks
    match define k v fs with
    | none => refuse
    | some fs =>
      if ← take? [','] then
        skipBlanks
        inlineTail n depth fs
      else
        expect '\x7d'
        return fs

end

/-- A header, after its opening bracket: its key, and whether it names an array of tables. -/
def header : Reader (List String × Bool) := do
  let array ← take? ['[']
  let k ← dottedKey
  expect ']'
  if array then expect ']'
  endOfLine
  return (k, array)

/-- Reads the lines of a file; `here` is the path of the current header. -/
def lines : Nat → List String → NodeFields → Reader NodeFields
  | 0, _, _ => refuse
  | n + 1, here, root => do
    skipBlanks
    match ← peek with
    | none => return root
    | some '[' =>
      expect '['
      let (key, array) ← header
      match key.getLast? with
      | none => refuse
      | some last =>
        let open_ := if array then pushTable last else openTable last
        match descend false open_ key.dropLast root with
        | some root => lines n key root
        | none => refuse
    | some c =>
      if c = '#' ∨ c = '\n' ∨ c = '\r' then
        endOfLine
        lines n here root
      else
        let size := (← get).length
        let key ← dottedKey
        expect '='
        skipBlanks
        let v ← value (size + 1) 0
        endOfLine
        match within (define key v) here root with
        | some root => lines n here root
        | none => refuse

/-- The fields of a file, or nothing when it is malformed. -/
def parse? (text : String) : Option Document.Fields :=
  let cs := match text.toList with
    | '\ufeff' :: rest => rest
    | cs => cs
  match (lines (cs.length + 1) [] []).run cs with
  | some (root, []) =>
    match table? root with
    | some (.table fs) => some fs
    | _ => none
  | _ => none

end NodeWatch.Settings.Toml
