import Fleet.Text.Blank
import Fleet.Text.Numeral

/-!
# Points in time

Reading a date with a time and an offset: `2012-11-28T06:41:05.060Z`. The parts may have blanks around them,
a blank may stand for the `T`, and fractions of a second are cut off after nine digits. A second numbered 60
is the end of the second before it.
-/

namespace Fleet

/-- A point in time: seconds since 1970-01-01T00:00:00Z, and nanoseconds on top. -/
structure Instant where
  seconds : Int
  nanos : Nat
  deriving DecidableEq, Repr

namespace Instant

/-! ### The calendar -/

def isLeapYear (year : Int) : Bool := year % 4 = 0 && (year % 100 ≠ 0 || year % 400 = 0)

def daysInMonth (year : Int) (month : Nat) : Nat :=
  match month with
  | 2 => if isLeapYear year then 29 else 28
  | 4 => 30
  | 6 => 30
  | 9 => 30
  | 11 => 30
  | _ => 31

/-- The days from 0000-03-01 to the first of March of a year. -/
def daysToMarch (year : Int) : Int := 365 * year + year / 4 - year / 100 + year / 400

/-- The days from 1970-01-01 to a date. Years are counted from March, so that a leap day is the last day of
its year. -/
def dayNumber (year : Int) (month day : Nat) : Int :=
  let year := if month ≤ 2 then year - 1 else year
  let monthFromMarch := (month + 9) % 12
  daysToMarch year + (153 * monthFromMarch + 2) / 5 + day - 1 - 719468

/-- The years that are counted. -/
def isYear (year : Int) : Bool := -262143 ≤ year && year ≤ 262142

/-! ### Reading -/

def skipBlank (cs : List Char) : List Char := cs.dropWhile Text.isBlank

/-- A number of one to `width` digits, and the rest. -/
def number? (width : Nat) (cs : List Char) : Option (Nat × List Char) :=
  let ds := (cs.take width).takeWhile Text.isDecimalDigit
  if ds.isEmpty then none else some (Nat.ofDigitChars 10 ds 0, cs.drop ds.length)

/-- A year of up to four digits, or of any number of digits after a sign. -/
def year? (cs : List Char) : Option (Int × List Char) :=
  match skipBlank cs with
  | '-' :: cs => (number? cs.length cs).map fun r => (-r.1, r.2)
  | '+' :: cs => (number? cs.length cs).map fun r => (r.1, r.2)
  | cs => (number? 4 cs).map fun r => (r.1, r.2)

/-- A number of up to two digits between bounds, with blanks before it. -/
def part? (low high : Nat) (cs : List Char) : Option (Nat × List Char) := do
  let (n, cs) ← number? 2 (skipBlank cs)
  if low ≤ n && n ≤ high then some (n, cs) else none

/-- A character with blanks before it. -/
def mark? (c : Char) (cs : List Char) : Option (List Char) :=
  match skipBlank cs with
  | d :: cs => if d = c then some cs else none
  | [] => none

/-- The nanoseconds that the digits after a point denote; digits after the ninth are passed over. -/
def fraction? : List Char → Option (Nat × List Char)
  | '.' :: cs => do
    let (n, rest) ← number? 9 cs
    let width := cs.length - rest.length
    return (n * Nat.pow 10 (9 - width), rest.dropWhile Text.isDecimalDigit)
  | cs => some (0, cs)

def isSign (c : Char) : Option Int :=
  match c with
  | '+' => some 1
  | '-' => some (-1)
  | '−' => some (-1)
  | _ => none

/-- Two digits. -/
def twoDigits? : List Char → Option (Nat × List Char)
  | a :: b :: cs =>
    if Text.isDecimalDigit a && Text.isDecimalDigit b then some (Nat.ofDigitChars 10 [a, b] 0, cs) else none
  | _ => none

/-- The offset in seconds: `Z`, `UTC`, or a sign with hours and minutes. -/
def offset? (cs : List Char) : Option (Int × List Char) :=
  if (cs.take 3).map Char.toUpper = ['U', 'T', 'C'] then some (0, cs.drop 3)
  else
    match cs with
    | 'Z' :: cs => some (0, cs)
    | 'z' :: cs => some (0, cs)
    | c :: cs => do
      let sign ← isSign c
      let (hours, cs) ← twoDigits? cs
      let (minutes, cs) ← twoDigits? (cs.dropWhile fun c => c == ':' || Text.isBlank c)
      if hours < 24 && minutes < 60 then some (sign * (hours * 3600 + minutes * 60), cs) else none
    | [] => none

/-- The `T` between date and time, or a blank. -/
def separator? : List Char → Option (List Char)
  | 'T' :: cs => some cs
  | 't' :: cs => some cs
  | ' ' :: cs => some cs
  | _ => none

/-- Reads a date with time and offset. -/
def ofText? (s : String) : Option Instant := do
  let (year, cs) ← year? s.toList
  let (month, cs) ← part? 1 12 (← mark? '-' cs)
  let (day, cs) ← part? 1 31 (← mark? '-' cs)
  let cs ← separator? cs
  let (hour, cs) ← part? 0 23 cs
  let (minute, cs) ← part? 0 59 (← mark? ':' cs)
  let (second, cs) ← part? 0 60 (← mark? ':' cs)
  let (nanos, cs) ← fraction? cs
  let (offset, cs) ← offset? (skipBlank cs)
  if !(skipBlank cs).isEmpty || !isYear year || daysInMonth year month < day then none
  -- A leap second is the second before it with more nanoseconds.
  let clock : Int := hour * 3600 + minute * 60 + min second 59
  return ⟨dayNumber year month day * 86400 + clock - offset, if second = 60 then 1000000000 + nanos else nanos⟩

example : ofText? "1969-12-31T23:59:59.999Z" = some ⟨-1, 999000000⟩ := by decide +kernel
example : ofText? "2012-11-28T06:41:05+05:30" = some ⟨1354065065, 0⟩ := by decide +kernel
example : ofText? "1900-02-29T00:00:00Z" = none := by decide +kernel

end Instant

end Fleet
