/-! Numbers as they are written in settings. -/

namespace NodeWatch.Settings.Number

def digit? (base : Nat) (c : Char) : Option Nat :=
  let d :=
    if '0' ≤ c ∧ c ≤ '9' then c.toNat - '0'.toNat
    else if 'a' ≤ c ∧ c ≤ 'z' then c.toNat - 'a'.toNat + 10
    else if 'A' ≤ c ∧ c ≤ 'Z' then c.toNat - 'A'.toNat + 10
    else base
  if d < base then some d else none

def digits? (base : Nat) (cs : List Char) : Option (List Nat) :=
  if cs.isEmpty then none else cs.mapM (digit? base)

def ofDigits (base : Nat) (ds : List Nat) : Nat :=
  ds.foldl (fun n d => n * base + d) 0

def natural? (base : Nat) (cs : List Char) : Option Nat :=
  (digits? base cs).map (ofDigits base)

/-- A sign, if there is one, and the rest. The flag is set for a minus sign. -/
def signed : List Char → Bool × List Char
  | '-' :: cs => (true, cs)
  | '+' :: cs => (false, cs)
  | cs => (false, cs)

/-- The first whole number that does not fit 64 bits with a sign. -/
def integerLimit : Nat :=
  9223372036854775808

/-- The first whole number that does not fit 64 bits without a sign. -/
def wordLimit : Nat :=
  UInt64.size

/-- The whole number of 64 bits with this sign and size. -/
def ofSign? (negative : Bool) (n : Nat) : Option Int :=
  if negative then (if n ≤ integerLimit then some (-(n : Int)) else none)
  else if n < integerLimit then some (n : Int) else none

/-- Whole numbers of 64 bits with a sign. -/
def integer? (cs : List Char) : Option Int :=
  let (negative, rest) := signed cs
  (natural? 10 rest).bind (ofSign? negative)

/-- Whole numbers of 64 bits without a sign; a leading plus is accepted. -/
def word? (cs : List Char) : Option Nat :=
  match natural? 10 (match cs with | '+' :: rest => rest | _ => cs) with
  | some n => if n < wordLimit then some n else none
  | none => none

/-- The binary number nearest to `mantissa * 10 ^ exponent`. Exponents far outside the range of
binary numbers are cut off, which does not change the result. -/
def nearestReal (negative : Bool) (mantissa : Nat) (exponent : Int) : Float :=
  let size := exponent + (Nat.toDigits 10 mantissa).length
  let x :=
    if mantissa = 0 then 0.0
    else if size > 400 then 1.0 / 0.0
    else if size < -400 then 0.0
    else if exponent < 0 then Float.ofScientific mantissa true exponent.natAbs
    else Float.ofScientific mantissa false exponent.natAbs
  if negative then -x else x

def lower (cs : List Char) : List Char :=
  cs.map Char.toLower

/-- The part after `e`, or zero when there is none. -/
def exponent? : List Char → Option Int
  | [] => some 0
  | c :: cs =>
    if c = 'e' ∨ c = 'E' then
      let (negative, rest) := signed cs
      (natural? 10 rest).map fun n => if negative then -(n : Int) else n
    else none

/-- Decimal numbers with an optional fraction and exponent, and the words for infinity and for
what is not a number. There must be a digit before the exponent. -/
def real? (cs : List Char) : Option Float :=
  let (negative, rest) := signed cs
  let word := lower rest
  if word = "inf".toList ∨ word = "infinity".toList then
    some (if negative then -(1.0 / 0.0) else 1.0 / 0.0)
  else if word = "nan".toList then some (0.0 / 0.0)
  else
    let whole := rest.takeWhile Char.isDigit
    let (places, tail) := match rest.dropWhile Char.isDigit with
      | '.' :: r => (r.takeWhile Char.isDigit, r.dropWhile Char.isDigit)
      | r => ([], r)
    match natural? 10 (whole ++ places), exponent? tail with
    | some m, some e => some (nearestReal negative m (e - places.length))
    | _, _ => none

end NodeWatch.Settings.Number
