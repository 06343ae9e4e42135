import Fleet.Cli.Arguments
import Fleet.Setup

/-!
# Commands

What the user can ask for, and how it is written.
-/

namespace Fleet

namespace Cli

inductive Command
  | create (group : String) (count : Nat) (overrides : NodeOverrides)
  | destroy (node : String)
  | destroyGroup (group : String)
  | reclaim (network : String)
  | list (group : Option String)
  | version
  deriving DecidableEq

namespace Command

def names : List String := ["create", "destroy", "destroy-group", "reclaim", "list", "version"]

def createForms : List OptionForm :=
  [⟨"count", some 'n', false⟩, ⟨"tag", some 't', true⟩, ⟨"network", none, false⟩, ⟨"port", some 'p', true⟩,
    ⟨"machine-type", none, false⟩, ⟨"image", none, false⟩, ⟨"disk-size", none, false⟩]

def listForms : List OptionForm := [⟨"group", some 'g', false⟩]

/-- The number below `limit` that a text with an optional sign denotes. -/
def signedBelow? (limit : Nat) (s : String) : Option Nat :=
  match Text.wholeNumber? s.toList with
  | some (.ofNat n) => if n < limit then some n else none
  | _ => none

/-- The launch that arguments ask for. -/
def create? (a : Arguments) : Option Command := do
  let count ← (a.one? "count").elim (some 1) fun s => Text.unsignedBelow? Text.limit64 s.toList
  -- Unlike the count, these may be written with a minus sign, as in `-0`.
  let ports ← (a.all "port").mapM (signedBelow? Text.limit16)
  let diskSize ← (a.one? "disk-size").mapM (signedBelow? Text.limit32)
  let overrides := ⟨a.all "tag", a.one? "network", ports, a.one? "machine-type", a.one? "image", diskSize⟩
  match a.words with
  | [group] => return create group count overrides
  | _ => none

/-- A command that takes a single word. -/
def ofWord? (make : String → Command) (a : Arguments) : Option Command :=
  match a.words with
  | [s] => some (make s)
  | _ => none

/-- Reads the arguments of a command with `words` places. -/
def ofArguments? (forms : List OptionForm) (words : Nat) (make : Arguments → Option Command)
    (args : List String) : Option (Call Command) :=
  match Arguments.read? forms words false none .empty args with
  | some (.run a) => (make a).map .run
  | some .help => some .help
  | none => none

/-- Whether a call for help names a command, or none. -/
def isHelpTopic : List String → Bool
  | [] => true
  | [s] => s = "help" || names.contains s
  | _ => false

/-- What the user asks for, if the call is right. -/
def read? : List String → Option (Call Command)
  | [] => none
  | "create" :: args => ofArguments? createForms 1 create? args
  | "destroy" :: args => ofArguments? [] 1 (ofWord? destroy) args
  | "destroy-group" :: args => ofArguments? [] 1 (ofWord? destroyGroup) args
  | "reclaim" :: args => ofArguments? [] 1 (ofWord? reclaim) args
  | "list" :: args => ofArguments? listForms 0 (fun a => some (list (a.one? "group"))) args
  | "version" :: args => ofArguments? [] 0 (fun _ => some version) args
  | "help" :: args => if isHelpTopic args then some .help else none
  | s :: _ =>
    match Argument.ofText s with
    | .long "help" none => some .help
    | .short 'h' _ => some .help
    | _ => none

end Command

end Cli

end Fleet
