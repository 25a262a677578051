import NodeWatch.Settings.Document
import NodeWatch.Settings.Toml.Moment

/-! Numbers, truth values and moments in TOML. -/

namespace NodeWatch.Settings.Toml

/-- Drops underscores that stand between two digits; refuses any other underscore. -/
def dropUnderscores (isDigit : Char → Bool) : List Char → Option (List Char)
  | [] => some []
  | a :: '_' :: b :: cs =>
    if isDigit a && isDigit b then (dropUnderscores isDigit (b :: cs)).map (a :: ·) else none
  | c :: cs => if c = '_' then none else (dropUnderscores isDigit cs).map (c :: ·)

/-- A whole number in base 10 has no leading zero. -/
def decimalInteger? (cs : List Char) : Option Int := do
  let (negative, digits) := Number.signed cs
  let plain ← dropUnderscores Char.isDigit digits
  match plain with
  | '0' :: _ :: _ => none
  | _ =>
    let n ← Number.natural? 10 plain
    Number.ofSign? negative n

def based? (base : Nat) (cs : List Char) : Option Int := do
  let plain ← dropUnderscores (fun c => (Number.digit? base c).isSome) cs
  let n ← Number.natural? base plain
  Number.ofSign? false n

def integer? : List Char → Option Int
  | '0' :: 'x' :: cs => based? 16 cs
  | '0' :: 'o' :: cs => based? 8 cs
  | '0' :: 'b' :: cs => based? 2 cs
  | cs => decimalInteger? cs

/-- The digits before the point follow the rule for whole numbers, and a point has digits on both
sides. A number written in digits must not be so large that it counts as infinite. -/
def real? (cs : List Char) : Option Float := do
  let (negative, rest) := Number.signed cs
  if rest = "inf".toList then some (if negative then -(1.0 / 0.0) else 1.0 / 0.0)
  else if rest = "nan".toList then some (0.0 / 0.0)
  else
    let part := fun c => Char.isDigit c || c == '_'
    let whole ← dropUnderscores Char.isDigit (rest.takeWhile part)
    let (places, tail) ← match rest.dropWhile part with
      | '.' :: r => do
        let p ← dropUnderscores Char.isDigit (r.takeWhile part)
        if p.isEmpty then none else some (p, r.dropWhile part)
      | r => if r.isEmpty then none else some ([], r)
    let leadingZero := match whole with
      | '0' :: _ :: _ => true
      | _ => false
    if whole.isEmpty || leadingZero then none
    else
      let tail ← dropUnderscores Char.isDigit tail
      let m ← Number.natural? 10 (whole ++ places)
      let e ← Number.exponent? tail
      let x := Number.nearestReal negative m (e - places.length)
      if x == 1.0 / 0.0 then none else some x

def isScalarChar (c : Char) : Bool :=
  c.isAlphanum || c == '_' || c == '-' || c == '+' || c == '.'

def scalar : Reader Document := do
  if startsMoment (← get) then return .moment (String.ofList (← moment))
  else
    let cs ← takeWhile isScalarChar
    if cs = "true".toList then return .bool true
    else if cs = "false".toList then return .bool false
    else match integer? cs with
      | some n => return .int n
      | none => match real? cs with
        | some x => return .real x
        | none => refuse

end NodeWatch.Settings.Toml
