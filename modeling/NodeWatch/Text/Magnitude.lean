/-! Whole numbers as they read once only 53 significant bits of them are kept: rounded to the
nearest such number, and written with the fewest digits that still tell it apart. -/

namespace NodeWatch.Text

/-- The nearest multiple of `unit`; a tie goes to the even multiple. -/
def nearestMultiple (unit n : Nat) : Nat :=
  let q := n / unit
  let r := n % unit
  if 2 * r < unit then q * unit
  else if unit < 2 * r then (q + 1) * unit
  else if q % 2 = 0 then q * unit
  else (q + 1) * unit

/-- The distance between `n` and the next number of 53 significant bits. -/
def spacing (n : Nat) : Nat :=
  1 <<< (n.log2 - 52)

/-- Whether `c` is rounded to `v`, which has 53 significant bits. The gap below a power of two is
half as wide as the gap above it. -/
def readsAs (v c : Nat) : Bool :=
  nearestMultiple (spacing c) c == v

/-- The multiple of the largest power of ten `10 ^ k`, `k` at most the bound, that reads as `v`;
of two such multiples the nearer one. -/
def fewestDigits (v : Nat) : Nat → Nat
  | 0 => v
  | k + 1 =>
    let unit := Nat.pow 10 (k + 1)
    let low := v / unit * unit
    let high := low + unit
    match readsAs v low, readsAs v high with
    | true, true => if v - low ≤ high - v then low else high
    | true, false => low
    | false, true => high
    | false, false => fewestDigits v k

/-- The digits of a count in a report. -/
def magnitude (n : Nat) : String :=
  if n < 9007199254740992 then toString n
  else
    let v := nearestMultiple (spacing n) n
    toString (fewestDigits v 20)

end NodeWatch.Text
