import NodeWatch.Settings.Number
import NodeWatch.Settings.Toml.Reader

/-! Quoted texts in TOML, on one line or over several, and keys, which may be quoted. -/

namespace NodeWatch.Settings.Toml

/-- A character given by its code point in hexadecimal digits. -/
def codePoint (digits : Nat) : Reader Char := do
  let cs ← get
  set (cs.drop digits)
  match Number.natural? 16 (cs.take digits) with
  | some n =>
    if (cs.take digits).length = digits ∧ n.isValidChar then return Char.ofNat n else refuse
  | none => refuse

/-- What follows a backslash, other than a line end. -/
def escape : Reader Char := do
  match ← get with
  | 'b' :: cs => set cs; return '\x08'
  | 't' :: cs => set cs; return '\t'
  | 'n' :: cs => set cs; return '\n'
  | 'f' :: cs => set cs; return '\x0c'
  | 'r' :: cs => set cs; return '\r'
  | '"' :: cs => set cs; return '"'
  | '\\' :: cs => set cs; return '\\'
  | 'u' :: cs => set cs; codePoint 4
  | 'U' :: cs => set cs; codePoint 8
  | _ => refuse

/-- The rest of a text in double quotes on one line. -/
def basicTail : Nat → Reader (List Char)
  | 0 => refuse
  | n + 1 => do
    match ← get with
    | '"' :: cs => set cs; return []
    | '\\' :: cs => do
      set cs
      let c ← escape
      return c :: (← basicTail n)
    | c :: cs => if isPlain c then do set cs; return c :: (← basicTail n) else refuse
    | [] => refuse

/-- The rest of a text in single quotes on one line, in which nothing is escaped. -/
def literalTail : Reader (List Char) := do
  let cs ← takeWhile fun c => isPlain c && c != '\''
  expect '\''
  return cs

/-- Up to two quotes directly before the closing quotes belong to the text. -/
def closingQuotes (q : Char) : Reader (Option (List Char)) := do
  if ← take? [q, q, q, q, q] then return some [q, q]
  else if ← take? [q, q, q, q] then return some [q]
  else if ← take? [q, q, q] then return some []
  else return none

/-- A backslash at the end of a line removes it and all blanks and lines up to the next text. -/
def lineContinuation? : Reader Bool := do
  let start ← get
  skipBlanks
  if ← newline? then
    skipEmptyLines start.length
    return true
  else
    set start
    return false

/-- The rest of a text over several lines, `escaped` when in double quotes. -/
def linesTail (q : Char) (escaped : Bool) : Nat → Reader (List Char)
  | 0 => refuse
  | n + 1 => do
    match ← closingQuotes q with
    | some l => return l
    | none =>
      if ← newline? then return '\n' :: (← linesTail q escaped n)
      else match ← get with
        | [] => refuse
        | c :: cs =>
          set cs
          if escaped && c == '\\' then
            if ← lineContinuation? then linesTail q escaped n
            else
              let e ← escape
              return e :: (← linesTail q escaped n)
          else if isPlain c then return c :: (← linesTail q escaped n)
          else refuse

/-- A quoted text, after nothing of it has been read. -/
def quoted (lines : Bool) : Reader (List Char) := do
  let size := (← get).length
  if ← take? ['"', '"', '"'] then
    if lines then
      let _ ← newline?
      linesTail '"' true (size + 1)
    else refuse
  else if ← take? ['\'', '\'', '\''] then
    if lines then
      let _ ← newline?
      linesTail '\'' false (size + 1)
    else refuse
  else if ← take? ['"'] then basicTail (size + 1)
  else if ← take? ['\''] then literalTail
  else refuse

def isBareKeyChar (c : Char) : Bool :=
  c.isAlphanum || c == '_' || c == '-'

/-- An empty quoted key looks like the start of a text over several lines. -/
def simpleKey : Reader String := do
  match ← get with
  | '"' :: '"' :: cs => set cs; return ""
  | '\'' :: '\'' :: cs => set cs; return ""
  | '"' :: _ | '\'' :: _ => return String.ofList (← quoted false)
  | _ =>
    let cs ← takeWhile isBareKeyChar
    if cs.isEmpty then refuse else return String.ofList cs

/-- Names with full stops between them. -/
def names : Nat → Reader (List String)
  | 0 => refuse
  | n + 1 => do
    skipBlanks
    let k ← simpleKey
    skipBlanks
    if ← take? ['.'] then return k :: (← names n) else return [k]

/-- A key of one or more names. -/
def dottedKey : Reader (List String) := do
  let key ← names (← get).length
  if key.length < depthLimit then return key else refuse

end NodeWatch.Settings.Toml
