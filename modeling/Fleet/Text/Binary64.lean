import Fleet.Text.Numeral

/-!
# Decimal numerals as binary64 numbers

Reading a decimal numeral as the nearest binary64 number. A numeral may have a sign, a fraction and an
exponent, and needs at least one digit before the exponent.
-/

namespace Fleet.Text

/-- The binary64 number nearest to `mantissa * 10 ^ exponent`. Beyond the range of the format the order of
magnitude decides. -/
def nearest (mantissa : Nat) (exponent : Int) : Float :=
  let magnitude : Int := (Nat.toDigits 10 mantissa).length + exponent
  -- Far out the result is known, while the power of ten would be huge.
  if mantissa = 0 || magnitude < -400 then 0.0
  else if 400 < magnitude then 1.0 / 0.0
  else Float.ofScientific mantissa (exponent < 0) exponent.natAbs

/-- A sign, if there is one, and whether it is a minus. -/
def sign (cs : List Char) : Bool × List Char :=
  match cs with
  | '-' :: cs => (true, cs)
  | '+' :: cs => (false, cs)
  | cs => (false, cs)

/-- The whole number that digits with an optional sign denote. -/
def wholeNumber? (cs : List Char) : Option Int :=
  let (negative, ds) := sign cs
  if ds.isEmpty || ds.any (fun c => !isDecimalDigit c) then none
  else
    let n : Int := Nat.ofDigitChars 10 ds 0
    some (if negative then -n else n)

/-- The exponent that follows the digits of a numeral. -/
def exponentPart? : List Char → Option Int
  | [] => some 0
  | c :: cs => if c == 'e' || c == 'E' then wholeNumber? cs else none

/-- The number that a numeral without words denotes. -/
def numeral64? (cs : List Char) : Option Float := do
  let (negative, cs) := sign cs
  let whole := cs.takeWhile isDecimalDigit
  let rest := cs.dropWhile isDecimalDigit
  let (fraction, rest) := match rest with
    | '.' :: rest => (rest.takeWhile isDecimalDigit, rest.dropWhile isDecimalDigit)
    | rest => ([], rest)
  if (whole ++ fraction).isEmpty then none
  let exponent ← exponentPart? rest
  let x := nearest (Nat.ofDigitChars 10 (whole ++ fraction) 0) (exponent - fraction.length)
  return if negative then -x else x

/-- The number that a numeral denotes; infinities and what is not a number have names. -/
def binary64? (cs : List Char) : Option Float :=
  let (negative, word) := sign cs
  match String.ofList (word.map Char.toLower) with
  | "inf" => some (if negative then -1.0 / 0.0 else 1.0 / 0.0)
  | "infinity" => some (if negative then -1.0 / 0.0 else 1.0 / 0.0)
  | "nan" => some (0.0 / 0.0)
  | _ => numeral64? cs

end Fleet.Text
