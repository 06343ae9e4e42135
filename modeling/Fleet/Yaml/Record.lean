import Fleet.Text.Binary64
import Fleet.Yaml.Node

/-!
# Reading values and records

What a node denotes depends on what is asked for: any scalar is a text, while numbers and truth values have
to be written plainly, or as a literal block with their tag. A record is a mapping whose known keys do not
repeat; other keys are passed over. Where nothing is written there is an empty record or an empty list.
-/

namespace Fleet

namespace Yaml

/-- The tag of the basic types. -/
def typeTag (name : String) : String := "tag:yaml.org,2002:" ++ name

namespace Node

/-- Whether nothing is written. -/
def isEmpty : Node → Bool
  | scalar _ .plain "" => true
  | _ => false

/-! ### Scalars -/

def asText : Node → Option String
  | scalar _ _ s => some s
  | _ => none

/-- The characters of a scalar that may denote a value of a type. -/
def asWord (type : String) : Node → Option (List Char)
  | scalar _ .plain s => some s.toList
  | scalar tag .literal s => if tag == some (typeTag type) then some s.toList else none
  | _ => none

def asBool (n : Node) : Option Bool := do
  match String.ofList (← n.asWord "bool") with
  | "true" => return true
  | "True" => return true
  | "TRUE" => return true
  | "false" => return false
  | "False" => return false
  | "FALSE" => return false
  | _ => none

/-- The natural number that a word denotes. The base is told by the start of the word, and a number to the
base ten has no leading zeros. -/
def natBelow? (limit : Nat) (word : List Char) : Option Nat :=
  let digits := match word with
    | '+' :: cs => cs
    | cs => cs
  match digits with
  | '0' :: 'x' :: ds => Text.basedBelow? 16 limit ds
  | '0' :: 'o' :: ds => Text.basedBelow? 8 limit ds
  | '0' :: 'b' :: ds => Text.basedBelow? 2 limit ds
  | '0' :: _ :: _ => none
  | ds => Text.digitsBelow? limit ds

def asNatBelow (limit : Nat) (n : Node) : Option Nat := do natBelow? limit (← n.asWord "int")

/-- The number that a word denotes. The infinities and what is not a number are written with a point, and no
numeral stands for them. -/
def number64? (word : List Char) : Option Float := do
  let plain := match word with
    | '+' :: cs => cs
    | cs => cs
  match String.ofList plain with
  | ".inf" => return 1.0 / 0.0
  | ".Inf" => return 1.0 / 0.0
  | ".INF" => return 1.0 / 0.0
  | _ =>
    match String.ofList word with
    | "-.inf" => return -1.0 / 0.0
    | "-.Inf" => return -1.0 / 0.0
    | "-.INF" => return -1.0 / 0.0
    | ".nan" => return 0.0 / 0.0
    | ".NaN" => return 0.0 / 0.0
    | ".NAN" => return 0.0 / 0.0
    | _ =>
      if word.head? == some '+' && (plain.head? == some '+' || plain.head? == some '-') then none
      let x ← Text.numeral64? plain
      if x.isFinite then some x else none

def asNumber64 (n : Node) : Option Float := do number64? (← n.asWord "float")

/-! ### Collections -/

def asList {α : Type} (read : Node → Option α) : Node → Option (List α)
  | sequence items => items.mapM read
  | n => if n.isEmpty then some [] else none

/-- Whether a plain word stands for no value. -/
def isNull (word : String) : Bool := ["null", "Null", "NULL", "~"].contains word

/-- A value that may be missing: nothing is written, or a word that stands for nothing. -/
def asOption {α : Type} (read : Node → Option α) (n : Node) : Option (Option α) :=
  match n with
  | scalar none .plain s => if s = "" || isNull s then some none else (read n).map some
  | scalar (some tag) .plain s =>
    if tag = typeTag "null" then (if isNull s then some none else none) else (read n).map some
  | n => (read n).map some

end Node

/-! ### Records -/

/-- The fields of a record as they were found. -/
abbrev Record := List (String × Node)

def hasRepeat : List String → Bool
  | [] => false
  | s :: ss => ss.contains s || hasRepeat ss

/-- The fields with the given names. -/
def Node.record? (names : List String) : Node → Option Record
  | mapping pairs => do
    let fields ← pairs.mapM fun p => p.1.asText.map fun k => (k, p.2)
    let known := fields.filter fun f => names.contains f.1
    if hasRepeat (known.map (·.1)) then none else some known
  | n => if n.isEmpty then some [] else none

namespace Record

variable {α : Type}

def required (r : Record) (name : String) (read : Node → Option α) : Option α := (r.lookup name).bind read

def defaulted (r : Record) (name : String) (usual : α) (read : Node → Option α) : Option α :=
  match r.lookup name with
  | none => some usual
  | some n => read n

def optional (r : Record) (name : String) (read : Node → Option α) : Option (Option α) :=
  r.defaulted name none (Node.asOption read)

end Record

end Yaml

end Fleet
