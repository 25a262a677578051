import NodeWatch.Text.Printable

/-! Quoting of characters and strings in diagnostics. The usual control characters have short
escapes, the quote and the backslash are escaped, and every other character that does not
print on its own is written by its code point in hexadecimal. -/

namespace NodeWatch.Text

def hexDigits (n : Nat) : List Char :=
  Nat.toDigits 16 n

/-- A code point in braces, in lower case and without leading zeros. -/
def codePoint (c : Char) : List Char :=
  ['\\', 'u', '\x7b'] ++ hexDigits c.toNat ++ ['\x7d']

/-- One character inside quotes `quote`. -/
def escapeChar (quote : Char) (c : Char) : List Char :=
  if c = '\x00' then ['\\', '0']
  else if c = '\t' then ['\\', 't']
  else if c = '\r' then ['\\', 'r']
  else if c = '\n' then ['\\', 'n']
  else if c = '\\' then ['\\', '\\']
  else if c = quote then ['\\', quote]
  else if standsAlone c then [c]
  else codePoint c

def quoteChar (c : Char) : String :=
  String.ofList ('\'' :: escapeChar '\'' c ++ ['\''])

def quoteString (s : String) : String :=
  String.ofList ('"' :: s.toList.flatMap (escapeChar '"') ++ ['"'])

end NodeWatch.Text
