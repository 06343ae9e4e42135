/-!
# Growing delays

The delay before the next attempt starts at a first value, grows by a constant factor and is capped. The
factor is a binary64 number, the delays are whole milliseconds; `RetryPolicy` and `PollPolicy` are the two
uses of it.
-/

namespace Fleet

namespace Backoff

/-- `acc` times `base` to the power `n`, by repeated squaring from the lowest binary digit on. The order
of the multiplications decides how the result is rounded. -/
def powerFrom (acc base : Float) (n : Nat) : Float :=
  let acc := if n % 2 = 1 then acc * base else acc
  if n / 2 = 0 then acc else powerFrom acc (base * base) (n / 2)

/-- `base` to an integral power; a negative power is the reciprocal of the positive one. -/
def power (base : Float) (n : Int) : Float :=
  let r := powerFrom 1.0 base n.natAbs
  if n < 0 then 1.0 / r else r

/-- The smaller of two numbers, where anything is smaller than what is not a number. -/
def smaller (x y : Float) : Float :=
  if x.isNaN then y else if y.isNaN then x else if x ≤ y then x else y

/-- The attempt as an exponent: a 32-bit word read with a sign. -/
def exponent (attempt : Nat) : Int := Int.bmod attempt UInt32.size

/-- The delay in milliseconds after `attempt` earlier ones, cut to a whole number that fits into 64 bits. -/
def delay (initialMs maxMs : Nat) (multiplier : Float) (attempt : Nat) : Nat :=
  (smaller (initialMs.toFloat * power multiplier (exponent attempt)) maxMs.toFloat).toUInt64.toNat

end Backoff

/-- How often and at what intervals a request is sent again when the platform cannot be reached. -/
structure RetryPolicy where
  maxAttempts : Nat
  initialMs : Nat
  maxMs : Nat
  multiplier : Float

namespace RetryPolicy

def standard : RetryPolicy := ⟨3, 1000, 30000, 2.0⟩

/-- The delay after the attempt with the given index, counted from 0. -/
def delayMs (p : RetryPolicy) (attempt : Nat) : Nat :=
  Backoff.delay p.initialMs p.maxMs p.multiplier attempt

end RetryPolicy

/-- At what intervals a running operation is asked for, and for how long. -/
structure PollPolicy where
  initialMs : Nat
  maxMs : Nat
  multiplier : Float
  timeoutMs : Nat

namespace PollPolicy

def standard : PollPolicy := ⟨500, 5000, 1.5, 600000⟩

/-- The delay after the poll with the given index, counted from 0. -/
def intervalMs (p : PollPolicy) (poll : Nat) : Nat :=
  Backoff.delay p.initialMs p.maxMs p.multiplier poll

end PollPolicy

end Fleet
