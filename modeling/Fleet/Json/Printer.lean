import Fleet.Json.Basic

/-!
# Writing JSON

The compact form of a value: no blanks, members in their order, and only those characters escaped that have
to be.
-/

namespace Fleet

namespace Json

def hexDigit (n : Nat) : Char := Nat.digitChar (n % 16)

/-- A character inside a text. -/
def escaped (c : Char) : List Char :=
  match c with
  | '"' => ['\\', '"']
  | '\\' => ['\\', '\\']
  | '\n' => ['\\', 'n']
  | '\r' => ['\\', 'r']
  | '\t' => ['\\', 't']
  | '\x08' => ['\\', 'b']
  | '\x0c' => ['\\', 'f']
  | c => if c.toNat < 0x20 then ['\\', 'u', '0', '0', hexDigit (c.toNat / 16), hexDigit c.toNat] else [c]

def quoted (s : String) : String := "\"" ++ String.ofList (s.toList.flatMap escaped) ++ "\""

def numeralText (n : Numeral) : String :=
  (if n.negative then "-" else "") ++ toString n.mantissa ++ (if n.integral then "" else "e" ++ toString n.exponent)

/-- Texts with commas between them. -/
def commas : List String → String
  | [] => ""
  | [s] => s
  | s :: ss => s ++ "," ++ commas ss

mutual

/-- The compact form of a value. -/
def compact : Json → String
  | null => "null"
  | bool b => if b then "true" else "false"
  | num n => numeralText n
  | str s => quoted s
  | broken => quoted "�"
  | arr js => "[" ++ commas (compactItems js) ++ "]"
  | obj ms => "\x7b" ++ commas (compactMembers ms) ++ "\x7d"

def compactItems : List Json → List String
  | [] => []
  | j :: js => compact j :: compactItems js

def compactMembers : List (Option String × Json) → List String
  | [] => []
  | (k, j) :: ms => (quoted (k.getD "�") ++ ":" ++ compact j) :: compactMembers ms

end

end Json

end Fleet
