import Fleet.Json.Basic
import Fleet.Text.Numeral

/-!
# Reading JSON

A reader takes a value off the front of a text and returns it with the rest. Values nest, and the reader's
fuel is the length of the text: every array, object, item and member takes at least one character.
-/

namespace Fleet

namespace Json

/-- The four blank characters of the format. -/
def isGap (c : Char) : Bool := c == ' ' || c == '\t' || c == '\n' || c == '\r'

def skipGap (cs : List Char) : List Char := cs.dropWhile isGap

/-! ### Texts -/

/-- The number that four hexadecimal digits denote. -/
def hex4? (a b c d : Char) : Option Nat := do
  return ((← Text.hexValue? a) * 16 + (← Text.hexValue? b)) * 256 + (← Text.hexValue? c) * 16 + (← Text.hexValue? d)

/-- The characters that stand for another one after a backslash. -/
def shortEscape? (c : Char) : Option Char :=
  match c with
  | '"' => some '"'
  | '\\' => some '\\'
  | '/' => some '/'
  | 'b' => some '\x08'
  | 'f' => some '\x0c'
  | 'n' => some '\n'
  | 'r' => some '\r'
  | 't' => some '\t'
  | _ => none

/-- What a text consists of: characters and 16-bit units that are written by number. -/
inductive Piece
  | char (c : Char)
  | unit (n : Nat)

/-- Reads up to the closing quote. -/
def pieces? : List Char → Option (List Piece × List Char)
  | '"' :: cs => some ([], cs)
  | '\\' :: 'u' :: a :: b :: c :: d :: cs => do
    let n ← hex4? a b c d
    let (ps, rest) ← pieces? cs
    return (.unit n :: ps, rest)
  | '\\' :: c :: cs => do
    -- A `u` without four characters behind it comes here, too, and is no short escape.
    let c ← shortEscape? c
    let (ps, rest) ← pieces? cs
    return (.char c :: ps, rest)
  | c :: cs =>
    if c.toNat < 0x20 || c == '\\' then none
    else do
      let (ps, rest) ← pieces? cs
      return (.char c :: ps, rest)
  | [] => none

/-- The characters of a text; two surrogates in a row are one character, and one alone is none. -/
def assemble? : List Piece → Option (List Char)
  | [] => some []
  | .char c :: ps => do return c :: (← assemble? ps)
  | .unit n :: ps =>
    if n < 0xD800 || 0xE000 ≤ n then do return Char.ofNat n :: (← assemble? ps)
    else
      match ps with
      | .unit m :: ps =>
        if n < 0xDC00 && 0xDC00 ≤ m && m < 0xE000 then do
          return Char.ofNat (0x10000 + (n - 0xD800) * 0x400 + (m - 0xDC00)) :: (← assemble? ps)
        else none
      | _ => none

/-- Reads a text after its opening quote; a text that cannot be assembled is missing. -/
def text? (cs : List Char) : Option (Option String × List Char) :=
  (pieces? cs).map fun r => ((assemble? r.1).map String.ofList, r.2)

/-! ### Numbers -/

/-- The digits at the front of a text, and the rest. -/
def digitsOf (cs : List Char) : List Char × List Char :=
  (cs.takeWhile Text.isDecimalDigit, cs.dropWhile Text.isDecimalDigit)

/-- The digits after a point, if there is one. -/
def fraction? : List Char → Option (List Char × List Char)
  | '.' :: cs =>
    match digitsOf cs with
    | ([], _) => none
    | r => some r
  | cs => some ([], cs)

def signed (cs : List Char) : Bool × List Char :=
  match cs with
  | '-' :: cs => (true, cs)
  | '+' :: cs => (false, cs)
  | cs => (false, cs)

/-- The exponent after an `e`, if there is one. -/
def exponent? : List Char → Option (Option Int × List Char)
  | c :: cs =>
    if c == 'e' || c == 'E' then
      let (negative, cs) := signed cs
      match digitsOf cs with
      | ([], _) => none
      | (ds, rest) =>
        let n : Int := Nat.ofDigitChars 10 ds 0
        some (some (if negative then -n else n), rest)
    else some (none, c :: cs)
  | [] => some (none, [])

/-- Whether digits may be the whole part of a number: they are there, and no zero stands before others. -/
def isWhole : List Char → Bool
  | [] => false
  | ['0'] => true
  | '0' :: _ => false
  | _ => true

/-- Reads a number whose sign has been read. -/
def numeral? (negative : Bool) (cs : List Char) : Option (Numeral × List Char) := do
  let (whole, cs) := digitsOf cs
  if !isWhole whole then none
  let (fraction, cs) ← fraction? cs
  let (exponent, cs) ← exponent? cs
  let mantissa := Nat.ofDigitChars 10 (whole ++ fraction) 0
  return (⟨negative, mantissa, exponent.getD 0 - fraction.length, fraction.isEmpty && exponent.isNone⟩, cs)

/-! ### Values -/

mutual

/-- Reads a value. -/
def value? (fuel : Nat) (cs : List Char) : Option (Json × List Char) :=
  match fuel with
  | 0 => none
  | fuel + 1 =>
    match skipGap cs with
    | 'n' :: 'u' :: 'l' :: 'l' :: cs => some (null, cs)
    | 't' :: 'r' :: 'u' :: 'e' :: cs => some (bool true, cs)
    | 'f' :: 'a' :: 'l' :: 's' :: 'e' :: cs => some (bool false, cs)
    | '"' :: cs => (text? cs).map fun r => (r.1.elim broken str, r.2)
    | '-' :: cs => (numeral? true cs).map fun r => (num r.1, r.2)
    | '[' :: cs =>
      match skipGap cs with
      | ']' :: cs => some (arr [], cs)
      | cs => (items? fuel cs).map fun r => (arr r.1, r.2)
    | '\x7b' :: cs =>
      match skipGap cs with
      | '\x7d' :: cs => some (obj [], cs)
      | cs => (members? fuel cs).map fun r => (obj r.1, r.2)
    | cs => (numeral? false cs).map fun r => (num r.1, r.2)

/-- Reads the items of an array and the closing bracket. -/
def items? (fuel : Nat) (cs : List Char) : Option (List Json × List Char) :=
  match fuel with
  | 0 => none
  | fuel + 1 => do
    let (j, cs) ← value? fuel cs
    match skipGap cs with
    | ',' :: cs =>
      let (js, cs) ← items? fuel cs
      return (j :: js, cs)
    | ']' :: cs => return ([j], cs)
    | _ => none

/-- Reads the members of an object and the closing brace. -/
def members? (fuel : Nat) (cs : List Char) : Option (List (Option String × Json) × List Char) :=
  match fuel with
  | 0 => none
  | fuel + 1 =>
    match skipGap cs with
    | '"' :: cs => do
      let (name, cs) ← text? cs
      match skipGap cs with
      | ':' :: cs =>
        let (j, cs) ← value? fuel cs
        match skipGap cs with
        | ',' :: cs =>
          let (ms, cs) ← members? fuel cs
          return ((name, j) :: ms, cs)
        | '\x7d' :: cs => return ([(name, j)], cs)
        | _ => none
      | _ => none
    | _ => none

end

/-- Reads a text that is one value with blanks around it. -/
def parse? (text : String) : Option Json :=
  -- An item takes fuel twice, as a value and as part of its array.
  match value? (2 * text.length + 1) text.toList with
  | some (j, rest) => if (skipGap rest).isEmpty then some j else none
  | none => none

/-- Reads a text as one sound value. -/
def parseSound? (text : String) : Option Json := (parse? text).bind (sound? depthLimit)

end Json

end Fleet
