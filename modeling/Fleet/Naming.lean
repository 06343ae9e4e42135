import Fleet.Failure
import Fleet.Text.Numeral

/-!
# Names

The grammar of resource names, the names derived from a node, a network or a group, the choice of names
for new nodes, and node identifiers of the form `<zone>/<name>`.
-/

namespace Fleet

namespace Naming

/-- The network that the platform provides; it is never taken away. -/
def defaultNetwork : String := "default"

/-- The metadata keys that a launch sets on its instances. -/
def sshKeysKey : String := "sshKeys"
def groupKey : String := "gceflow-group"
def imageKey : String := "gceflow-image"
def deleteBootDiskKey : String := "gceflow-delete-boot-disk"

/-- The greatest number of bytes in a name. -/
def maxNameBytes : Nat := 63

/-- The bytes that a group's name leaves free for what is appended to it. -/
def groupAllowance : Nat := 10

def bootDiskName (node : String) : String := node ++ "-boot"

/-- The name of the firewall that opens `ports` on a network: `test` and `[22, 80]` give
`test-port-22-80`. -/
def firewallName (network : String) (ports : List Nat) : String :=
  ports.foldl (fun acc p => acc ++ "-" ++ toString p) (network ++ "-port")

def groupNetworkName (stem group : String) : String := stem ++ "-" ++ group

/-- The name of the node of a group with the given index. -/
def nodeName (group : String) (index : Nat) : String := group ++ "-" ++ toString index

def isLower (c : Char) : Bool := 'a' ≤ c && c ≤ 'z'

/-- The characters that a name may hold. -/
def isNameChar (c : Char) : Bool := isLower c || Text.isDecimalDigit c || c == '-'

/-- Names have at most 63 bytes, all of them lowercase letters, digits or hyphens, start with a letter and
do not end with a hyphen. -/
def isValidName (name : String) : Bool :=
  let cs := name.toList
  cs.head?.any isLower && name.utf8ByteSize ≤ maxNameBytes && cs.getLast? != some '-' &&
    cs.all isNameChar

def validateName (name : String) : Except Failure Unit :=
  if isValidName name then .ok ()
  else .error (.invalidConfig ("'" ++ name ++ "' is not a valid resource name (lowercase letters, digits and '-', starting with a letter)"))

/-- A group's name is a name that leaves room for a node's index and its disk. -/
def validateGroup (group : String) : Except Failure Unit := do
  validateName group
  if group.utf8ByteSize + groupAllowance > maxNameBytes then
    .error (.invalidConfig ("group name '" ++ group ++ "' is too long"))

/-- The index that an existing name takes in a group: what follows `<group>-`, when that is a numeral. -/
def takenIndex? (group name : String) : Option Nat :=
  (Text.dropStart? (group ++ "-").toList name.toList).bind (Text.unsignedBelow? Text.limit32)

/-- The `count` lowest numbers from `start` on that are not in `taken`. Among `count` more numbers than
`taken` has there are always enough. -/
def lowestFree (taken : List Nat) (start count : Nat) : List Nat :=
  ((List.range' start (count + taken.length)).filter fun n => !taken.contains n).take count

/-- The names for `count` new nodes: those with the lowest indices, from 1 on, that no name in `existing`
takes. -/
def nextNodeNames (group : String) (existing : List String) (count : Nat) : List String :=
  (lowestFree (existing.filterMap (takenIndex? group)) 1 count).map (nodeName group)

end Naming

/-- The identifier of a node: its zone and its name in that zone. -/
structure NodeId where
  zone : String
  name : String
  deriving DecidableEq, Repr

namespace NodeId

def text (id : NodeId) : String := id.zone ++ "/" ++ id.name

/-- Reads `<zone>/<name>`; both are non-empty and there is no other slash. -/
def ofText? (s : String) : Except Failure NodeId :=
  match Text.splitFirst '/' s.toList with
  | some (zone, name) =>
    if zone ≠ [] ∧ name ≠ [] ∧ '/' ∉ name then .ok ⟨String.ofList zone, String.ofList name⟩
    else .error (.invalidNodeId s)
  | none => .error (.invalidNodeId s)

end NodeId

end Fleet
