import Fleet.Json.Basic
import Fleet.Text.Numeral

/-!
# Reading records

A record is written as an object or as the array of its fields in order. Unknown members of an object are
passed over and known ones must not repeat. A field is required, optional (missing and null mean nothing) or
has a default (a missing one means the default, while null has to be readable).
-/

namespace Fleet

namespace Json

/-- The fields of a record as they were found. -/
structure Record where
  /-- Whether the fields are known by their places only. -/
  positional : Bool
  found : List (String × Json)

def hasRepeat : List String → Bool
  | [] => false
  | s :: ss => ss.contains s || hasRepeat ss

/-- The fields with the given names. -/
def record? (names : List String) : Json → Option Record
  | obj ms =>
    match ms.mapM fun m => m.1.map fun k => (k, m.2) with
    | none => none
    | some ms =>
      let known := ms.filter fun m => names.contains m.1
      if hasRepeat (known.map (·.1)) then none else some ⟨false, known⟩
  | arr items => if names.length < items.length then none else some ⟨true, names.zip items⟩
  | _ => none

namespace Record

variable {α : Type}

def required (r : Record) (name : String) (read : Json → Option α) : Option α :=
  (r.found.lookup name).bind read

/-- A field that may be null, and in an object also missing. -/
def optional (r : Record) (name : String) (read : Json → Option α) : Option (Option α) :=
  match r.found.lookup name with
  | none => if r.positional then none else some none
  | some null => some none
  | some j => (read j).map some

def defaulted (r : Record) (name : String) (dflt : α) (read : Json → Option α) : Option α :=
  match r.found.lookup name with
  | none => some dflt
  | some j => read j

end Record

/-! ### Plain values -/

def asText : Json → Option String
  | str s => some s
  | _ => none

def asBool : Json → Option Bool
  | bool b => some b
  | _ => none

def asNatBelow (limit : Nat) : Json → Option Nat
  | num n => n.natBelow? limit
  | _ => none

def asList {α : Type} (read : Json → Option α) : Json → Option (List α)
  | arr js => js.mapM read
  | _ => none

/-- A value of any form; `depth` is how many arrays and objects it may nest, and one more. -/
def asSound (depth : Nat) (j : Json) : Option Json := sound? depth j

/-- The members of an object under their names. -/
def asMembers {α : Type} (read : Json → Option α) : Json → Option (List (String × α))
  | obj ms => ms.mapM fun m => do return (← m.1, ← read m.2)
  | _ => none

end Json

end Fleet
