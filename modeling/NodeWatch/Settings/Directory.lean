import NodeWatch.Path

/-! The directory that settings files are looked for in. A file is asked for by its name, or by
its name without the extension. -/

namespace NodeWatch.Settings

/-- Texts by file name. -/
abbrev Directory := List (String × String)

namespace Directory

/-- The pieces of a path between slashes, as long as they say something. -/
def pieces (path : String) : List String :=
  ((Path.pieces path.toList).map String.ofList).filter fun p => p ≠ "" ∧ p ≠ "."

/-- The name of the file that a path leads to, if it leads to one in the directory itself. -/
def fileName? (path : String) : Option String :=
  if path.startsWith "/" then none
  else match pieces path with
    | [name] => if name = ".." then none else some name
    | _ => none

/-- Whether the end of a path says that it leads to a directory. -/
def namesDirectory (path : String) : Bool :=
  path.endsWith "/" || path.endsWith "/."

/-- The letters after the last full stop of a name that does not start with it. -/
def extension (name : String) : String :=
  let reversed := name.toList.reverse
  let ext := reversed.takeWhile (· != '.')
  match reversed.drop ext.length with
  | '.' :: _ :: _ => String.ofList ext.reverse
  | _ => ""

/-- Writes a file, over one of the same name. -/
def write (d : Directory) (path text : String) : Directory :=
  match fileName? path with
  | some name => (name, text) :: d.filter fun f => f.1 ≠ name
  | none => d

/-- The text found under a path, or under that path with the extension added. A file that is there
is not passed over, whatever its extension. -/
def find? (d : Directory) (path : String) : Option String := do
  let name ← fileName? path
  match if namesDirectory path then none else d.lookup name with
  | some text => if extension name = "toml" then some text else none
  | none => d.lookup (name ++ ".toml")

end Directory

end NodeWatch.Settings
