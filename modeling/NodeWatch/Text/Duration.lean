/-! Spans of time, counted in nanoseconds, and their text: the largest unit that leaves a whole
part, then a decimal fraction without trailing zeros. -/

namespace NodeWatch

structure Duration where
  nanos : Nat
  deriving DecidableEq, Repr

namespace Duration

def ofMillis (ms : Nat) : Duration :=
  ⟨ms * 1000000⟩

def ofSecsNanos (secs nanos : Nat) : Duration :=
  ⟨secs * 1000000000 + nanos⟩

/-- The digits of `n` after a decimal point in units of `10 ^ places`, trailing zeros dropped. -/
def fraction (places n : Nat) : List Char :=
  let digits := Nat.toDigits 10 n
  let padded := List.replicate (places - digits.length) '0' ++ digits
  (padded.reverse.dropWhile (· == '0')).reverse

def inUnit (places : Nat) (symbol : String) (nanos : Nat) : String :=
  let unit := Nat.pow 10 places
  let rest := fraction places (nanos % unit)
  let tail := if rest.isEmpty then "" else "." ++ String.ofList rest
  toString (nanos / unit) ++ tail ++ symbol

def text (d : Duration) : String :=
  if d.nanos ≥ 1000000000 then inUnit 9 "s" d.nanos
  else if d.nanos ≥ 1000000 then inUnit 6 "ms" d.nanos
  else if d.nanos ≥ 1000 then inUnit 3 "µs" d.nanos
  else inUnit 0 "ns" d.nanos

end Duration

end NodeWatch
