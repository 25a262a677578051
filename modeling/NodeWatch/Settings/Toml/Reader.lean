/-! Reading a TOML file from front to back: blanks, comments and line ends. -/

namespace NodeWatch.Settings.Toml

/-- A reader consumes characters from the front, or refuses. -/
abbrev Reader (α : Type) := StateT (List Char) Option α

def refuse {α : Type} : Reader α :=
  StateT.lift none

def peek : Reader (Option Char) := do
  return (← get).head?

/-- Consumes the given characters if they come next. -/
def take? (s : List Char) : Reader Bool := do
  let cs ← get
  if s.isPrefixOf cs then
    set (cs.drop s.length)
    return true
  else return false

def expect (c : Char) : Reader Unit := do
  if ← take? [c] then return () else refuse

def takeWhile (p : Char → Bool) : Reader (List Char) := do
  let cs ← get
  set (cs.dropWhile p)
  return cs.takeWhile p

def isBlank (c : Char) : Bool :=
  c == ' ' || c == '\t'

def skipBlanks : Reader Unit := do
  let _ ← takeWhile isBlank

/-- Control characters other than the tab may not be written in comments and texts. -/
def isPlain (c : Char) : Bool :=
  c == '\t' || (0x20 ≤ c.toNat && c.toNat != 0x7f)

def skipComment : Reader Unit := do
  if ← take? ['#'] then
    let _ ← takeWhile isPlain

def newline? : Reader Bool := do
  if ← take? ['\n'] then return true
  else take? ['\r', '\n']

/-- Blanks and a comment up to the end of the line or of the file. -/
def endOfLine : Reader Unit := do
  skipBlanks
  skipComment
  if (← get).isEmpty then return ()
  else if ← newline? then return ()
  else refuse

/-- Blanks and line ends. -/
def skipEmptyLines : Nat → Reader Unit
  | 0 => return ()
  | n + 1 => do
    skipBlanks
    if ← newline? then skipEmptyLines n

/-- Blanks, comments and line ends, as they may stand between the items of an array. -/
def skipLines : Nat → Reader Unit
  | 0 => return ()
  | n + 1 => do
    skipBlanks
    skipComment
    if ← newline? then skipLines n

/-- Values and keys may be nested less deeply than this. -/
def depthLimit : Nat :=
  80

end NodeWatch.Settings.Toml
