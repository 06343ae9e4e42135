/-!
# JSON values

A value as it was written: members are in the order of the text and may repeat, and numbers keep the form of
their numerals. A text with an unpaired surrogate is a value of its own, `broken`, because it denotes no
sequence of characters.
-/

namespace Fleet

/-- A decimal numeral: `mantissa * 10 ^ exponent`, negated if `negative`. -/
structure Numeral where
  negative : Bool
  mantissa : Nat
  exponent : Int
  /-- Whether the numeral has neither a fraction nor an exponent. -/
  integral : Bool
  deriving DecidableEq

namespace Numeral

def ofNat (n : Nat) : Numeral := ⟨false, n, 0, true⟩

def ofInt (n : Int) : Numeral := ⟨n < 0, n.natAbs, 0, true⟩

/-- The natural number below `limit` that an integral numeral denotes. Negative zero is no integer. -/
def natBelow? (limit : Nat) (n : Numeral) : Option Nat :=
  if n.integral && !n.negative && n.mantissa < limit then some n.mantissa else none

/-- The numbers from here on are rounded to infinity as binary64 numbers. -/
def overflow : Nat := Nat.pow 2 1024 - Nat.pow 2 970

/-- Whether a numeral denotes a finite binary64 number. Numerals of an extreme order of magnitude are
decided by their length. -/
def isFinite (n : Numeral) : Bool :=
  let magnitude : Int := (Nat.toDigits 10 n.mantissa).length + n.exponent
  if n.mantissa = 0 || magnitude < 300 then true
  else if 400 < magnitude then false
  else if 0 ≤ n.exponent then n.mantissa * Nat.pow 10 n.exponent.toNat < overflow
  else n.mantissa < overflow * Nat.pow 10 (-n.exponent).toNat

end Numeral

inductive Json where
  | null
  | bool (b : Bool)
  | num (n : Numeral)
  | str (s : String)
  /-- A text with an unpaired surrogate. -/
  | broken
  | arr (items : List Json)
  /-- The members of an object; a name that is no sequence of characters is missing. -/
  | obj (members : List (Option String × Json))
  deriving Inhabited

namespace Json

/-- The object with the given members. -/
def object (members : List (String × Json)) : Json := obj (members.map fun m => (some m.1, m.2))

def nat (n : Nat) : Json := num (.ofNat n)

def int (n : Int) : Json := num (.ofInt n)

/-- A value that may be missing. -/
def opt {α : Type} (write : α → Json) : Option α → Json
  | none => null
  | some a => write a

def array {α : Type} (write : α → Json) (as : List α) : Json := arr (as.map write)

def texts (ss : List String) : Json := array str ss

/-- The members of an object; other values have none. -/
def members : Json → List (Option String × Json)
  | obj ms => ms
  | _ => []

/-- The last member of a name. -/
def get? (j : Json) (name : String) : Option Json :=
  (j.members.reverse.find? fun m => m.1 == some name).map (·.2)

/-- The object with the members of `j` and then those of `k`. -/
def append (j k : Json) : Json := obj (j.members ++ k.members)

/-- The members of an object with the later ones of a name kept. -/
def lastOfEach : List (Option String × Json) → List (Option String × Json)
  | [] => []
  | m :: ms => if ms.any fun n => n.1 == m.1 then lastOfEach ms else m :: lastOfEach ms

mutual

/-- The value if it is sound: its numbers are finite, its texts are sequences of characters, and it nests
fewer than `depth` arrays and objects. Of members with the same name the last one counts. -/
def sound? (depth : Nat) : Json → Option Json
  | null => some null
  | bool b => some (bool b)
  | num n => if n.isFinite then some (num n) else none
  | str s => some (str s)
  | broken => none
  | arr items =>
    match depth with
    | 0 => none
    | 1 => none
    | depth + 1 => (soundItems? depth items).map arr
  | obj ms =>
    match depth with
    | 0 => none
    | 1 => none
    | depth + 1 => (soundMembers? depth ms).map fun ms => obj (lastOfEach ms)

def soundItems? (depth : Nat) : List Json → Option (List Json)
  | [] => some []
  | j :: js => do return (← sound? depth j) :: (← soundItems? depth js)

def soundMembers? (depth : Nat) : List (Option String × Json) → Option (List (Option String × Json))
  | [] => some []
  | (none, _) :: _ => none
  | (some k, j) :: ms => do return (some k, ← sound? depth j) :: (← soundMembers? depth ms)

end

/-- How many arrays and objects may be open at once, and one more. -/
def depthLimit : Nat := 128

end Json

end Fleet
