/-!
# Unsigned numerals

Reading a natural number below a limit from digits. Decimal numerals may have a single leading plus sign and
leading zeros; blanks, other signs and anything else are not allowed.
-/

namespace Fleet.Text

/-- Whether a character is one of the ten decimal digits. -/
def isDecimalDigit (c : Char) : Bool := '0' ≤ c && c ≤ '9'

/-- The number written by decimal digits, when it lies below `limit`. -/
def digitsBelow? (limit : Nat) (ds : List Char) : Option Nat :=
  if ds = [] ∨ ds.any (fun c => !isDecimalDigit c) then none
  else
    let n := Nat.ofDigitChars 10 ds 0
    if n < limit then some n else none

/-- The number below `limit` that a numeral denotes; one leading plus sign is allowed. -/
def unsignedBelow? (limit : Nat) : List Char → Option Nat
  | '+' :: ds => digitsBelow? limit ds
  | ds => digitsBelow? limit ds

/-- The value of a hexadecimal digit. -/
def hexValue? (c : Char) : Option Nat :=
  if '0' ≤ c && c ≤ '9' then some (c.toNat - '0'.toNat)
  else if 'a' ≤ c && c ≤ 'f' then some (c.toNat - 'a'.toNat + 10)
  else if 'A' ≤ c && c ≤ 'F' then some (c.toNat - 'A'.toNat + 10)
  else none

/-- The number below `limit` that digits to a base of at most sixteen denote. -/
def basedBelow? (base limit : Nat) (ds : List Char) : Option Nat := do
  let values ← ds.mapM hexValue?
  if values.isEmpty || values.any (base ≤ ·) then none
  else
    let n := values.foldl (fun n d => n * base + d) 0
    if n < limit then some n else none

/-- One more than the largest 8-bit number. -/
def limit8 : Nat := UInt8.size
/-- One more than the largest 16-bit number. -/
def limit16 : Nat := UInt16.size
/-- One more than the largest 32-bit number. -/
def limit32 : Nat := UInt32.size
/-- One more than the largest 64-bit number. -/
def limit64 : Nat := UInt64.size

end Fleet.Text
