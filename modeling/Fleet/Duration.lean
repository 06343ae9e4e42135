/-!
# Spans of time

The text of a span given in nanoseconds. The unit is the largest of seconds, milliseconds, microseconds
and nanoseconds that gives a whole part above zero, and the rest follows the point with its trailing
zeros left out: `20s`, `1.5s`, `350ms`, `12.345µs`, `0ns`.
-/

namespace Fleet.Duration

/-- Nanoseconds in a millisecond. -/
def perMilli : Nat := 1000000

/-- The `width` last decimal digits of `n`. -/
def lastDigits : Nat → Nat → List Char
  | 0, _ => []
  | width + 1, n => lastDigits width (n / 10) ++ [Nat.digitChar (n % 10)]

/-- The `width` last decimal digits of `n` up to the last one that is not zero. -/
def fractionDigits (width n : Nat) : List Char :=
  ((lastDigits width n).reverse.dropWhile (· = '0')).reverse

/-- `n` units of `10 ^ width` nanoseconds each, `n` given in nanoseconds. -/
def inUnit (width n : Nat) (unit : String) : String :=
  let fraction := fractionDigits width n
  toString (n / Nat.pow 10 width) ++
    (if fraction = [] then "" else "." ++ String.ofList fraction) ++ unit

/-- The text of a span of `n` nanoseconds. -/
def text (n : Nat) : String :=
  if 1000000000 ≤ n then inUnit 9 n "s"
  else if perMilli ≤ n then inUnit 6 n "ms"
  else if 1000 ≤ n then inUnit 3 n "µs"
  else inUnit 0 n "ns"

example : text 20000000000 = "20s" := by decide +kernel
example : text 1500000000 = "1.5s" := by decide +kernel
example : text 350000000 = "350ms" := by decide +kernel
example : text 12345 = "12.345µs" := by decide +kernel
example : text 1000000001 = "1.000000001s" := by decide +kernel
example : text 0 = "0ns" := by decide +kernel

end Fleet.Duration
