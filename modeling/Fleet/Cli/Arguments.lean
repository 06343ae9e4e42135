import Fleet.Text.Segments

/-!
# Arguments

A command takes words by their places and options with values. An option is called by its long name or by a
letter, the value follows in the same word or in the next one, and after a double dash all words count by
their places. A word with a dash never is a value of its own.
-/

namespace Fleet

namespace Cli

/-- How an option is called. -/
structure OptionForm where
  name : String
  letter : Option Char
  /-- Whether it may be given more than once. -/
  repeats : Bool

/-- The words and the options of a call, in order. -/
structure Arguments where
  words : List String
  options : List (String × String)

namespace Arguments

def empty : Arguments := ⟨[], []⟩

/-- The values of an option. -/
def all (a : Arguments) (name : String) : List String :=
  a.options.filterMap fun o => if o.1 = name then some o.2 else none

/-- The value of an option that is not given more than once. -/
def one? (a : Arguments) (name : String) : Option String := (a.all name).head?

end Arguments

/-- What a call comes to unless it is wrong. -/
inductive Call (α : Type)
  | run (a : α)
  /-- The user asks how to call the command. -/
  | help

/-- What a single argument is. -/
inductive Argument
  | word (s : String)
  | long (name : String) (value : Option String)
  | short (letter : Char) (rest : List Char)
  /-- The double dash. -/
  | escape

def Argument.ofText (s : String) : Argument :=
  match s.toList with
  | ['-', '-'] => .escape
  | '-' :: '-' :: cs =>
    match Text.splitFirst '=' cs with
    | some (name, value) => .long (String.ofList name) (some (String.ofList value))
    | none => .long (String.ofList cs) none
  | '-' :: c :: cs => .short c cs
  | _ => .word s

/-- The value in the word of an option's letter. -/
def attached? : List Char → Option String
  | [] => none
  | '=' :: cs => some (String.ofList cs)
  | cs => some (String.ofList cs)

namespace Arguments

/-- Adds an option unless it is there and must not repeat. -/
def put? (a : Arguments) (f : OptionForm) (value : String) : Option Arguments :=
  if !f.repeats && (a.one? f.name).isSome then none
  else some { a with options := a.options ++ [(f.name, value)] }

/-- Reads a call with at most `limit` words; `waiting` is the option whose value comes next. -/
def read? (forms : List OptionForm) (limit : Nat) (escaped : Bool) (waiting : Option OptionForm)
    (a : Arguments) : List String → Option (Call Arguments)
  | [] => if waiting.isSome then none else some (.run a)
  | s :: ss =>
    let give (f : Option OptionForm) (value : Option String) : Option (Call Arguments) :=
      match f, value with
      | none, _ => none
      | some f, none => read? forms limit escaped f a ss
      | some f, some v => (a.put? f v).bind fun a => read? forms limit escaped none a ss
    let place : Option (Call Arguments) :=
      if a.words.length < limit then read? forms limit escaped none { a with words := a.words ++ [s] } ss
      else none
    -- Behind the double dash, a word with a dash is a word like any other.
    match waiting, if escaped then .word s else Argument.ofText s with
    | some f, .word v => give f v
    | some _, _ => none
    | none, .word _ => place
    | none, .escape => read? forms limit true none a ss
    | none, .long "help" none => some .help
    | none, .long name value => give (forms.find? fun f => f.name == name) value
    | none, .short 'h' _ => some .help
    | none, .short c rest => give (forms.find? fun f => f.letter == some c) (attached? rest)

end Arguments

end Cli

end Fleet
