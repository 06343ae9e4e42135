import Fleet.Naming
import Fleet.Platform.Basic

/-!
# A platform in memory

A platform that keeps its resources in a map and carries out every operation at a fixed number of polls.
It keeps a journal of the calls and one of the changes that took effect, and can be told to go wrong:
operations that fail, fetches that do not get through, records that get lost, conflicting changes of tags
and inserts whose answer is lost.
-/

namespace Fleet

/-- A resource is stored under its kind, its scope and its name. -/
abbrev ResourceKey := Kind × Scope × String

/-- The key of a resource; the scope counts for zonal kinds only. -/
def resourceKey (kind : Kind) (scope : Scope) (name : String) : ResourceKey :=
  (kind, if kind.isZonal then scope else .global, name)

def Resource.key (r : Resource) : ResourceKey := resourceKey r.kind r.scope r.name

/-- An entry of the journals. -/
inductive JournalEntry
  | get (kind : Kind) (name : String)
  | list (kind : Kind)
  | insert (kind : Kind) (name : String)
  | delete (kind : Kind) (name : String)
  | setTags (instanceName : String) (items : List String) (fingerprint : Option String)
  deriving DecidableEq

def JournalEntry.isMutation : JournalEntry → Bool
  | get _ _ => false
  | list _ => false
  | _ => true

/-- What an operation does when it is carried out. -/
inductive Effect
  | create (resource : Resource)
  | delete (key : ResourceKey)
  | setTags (key : ResourceKey) (items : List String)
  deriving DecidableEq

/-- The record of an operation: its last snapshot, how often it was asked for and what is still to do. -/
structure OperationRecord where
  operation : Operation
  polls : Nat
  effect : Option Effect
  deriving DecidableEq

structure Memory where
  project : String
  /-- The poll at which an operation is carried out. -/
  pollsUntilDone : Nat
  resources : OrderedMap ResourceKey Resource
  operations : OrderedMap String OperationRecord
  /-- How many operations, fingerprints and addresses have been given out. -/
  operationCount : Nat
  fingerprintCount : Nat
  addressCount : Nat
  calls : List JournalEntry
  applied : List JournalEntry
  /-- How many of the next fetches of an operation do not get through. -/
  failingFetches : Nat
  /-- The errors with which the next operation on a name fails. -/
  scriptedFailures : OrderedMap String OperationError
  /-- How many of the next changes of tags meet a conflict. -/
  tagConflicts : Nat
  /-- The names whose next insert takes effect at once while its answer is lost. -/
  lostInserts : OrderedMap String Unit

namespace Memory

/-- The empty platform of a project. -/
def empty (project : String) : Memory where
  project := project
  pollsUntilDone := 3
  resources := .empty
  operations := .empty
  operationCount := 0
  fingerprintCount := 0
  addressCount := 0
  calls := []
  applied := []
  failingFetches := 0
  scriptedFailures := .empty
  tagConflicts := 0
  lostInserts := .empty

/-- The platform on which operations take the given number of polls, at least one. -/
def withPollsUntilDone (m : Memory) (polls : Nat) : Memory := { m with pollsUntilDone := max polls 1 }

/-! ### Links and numbers -/

def apiBase : String := "https://www.googleapis.com/compute/v1"

def selfLink (m : Memory) (kind : Kind) (scope : Scope) (name : String) : String :=
  apiBase ++ "/projects/" ++ m.project ++ "/" ++ (resourceKey kind scope name).2.1.path ++ "/" ++
    kind.collection ++ "/" ++ name

def imageLink (imageProject image : String) : String :=
  apiBase ++ "/projects/" ++ imageProject ++ "/global/images/" ++ image

def machineTypeLink (m : Memory) (zone machineType : String) : String :=
  apiBase ++ "/projects/" ++ m.project ++ "/zones/" ++ zone ++ "/machineTypes/" ++ machineType

/-- The text of a number with zeros in front, up to four digits. -/
def fourDigits (n : Nat) : String :=
  let digits := Nat.toDigits 10 n
  String.ofList (List.replicate (4 - digits.length) '0' ++ digits)

/-- A fingerprint that has not been given out before. -/
def newFingerprint (m : Memory) : String × Memory :=
  ("fp-" ++ fourDigits (m.fingerprintCount + 1), { m with fingerprintCount := m.fingerprintCount + 1 })

/-! ### What is stored -/

def find? (m : Memory) (kind : Kind) (scope : Scope) (name : String) : Option Resource :=
  m.resources.find? (resourceKey kind scope name)

def has (m : Memory) (kind : Kind) (scope : Scope) (name : String) : Bool := (m.find? kind scope name).isSome

/-- The names of the resources of a kind, over all scopes. -/
def namesOf (m : Memory) (kind : Kind) : List String :=
  (m.resources.keys.filter fun k => k.1 == kind).map fun k => k.2.2

/-- The journal of the calls that ask for a change. -/
def submitted (m : Memory) : List JournalEntry := m.calls.filter JournalEntry.isMutation

/-- How often an operation has been asked for. -/
def pollsOf (m : Memory) (operation : String) : Nat :=
  match m.operations.find? operation with
  | some r => r.polls
  | none => 0

/-! ### Changes from outside -/

/-- Puts a resource into the store, over what is there under its key. -/
def seed (m : Memory) (r : Resource) : Memory := { m with resources := m.resources.insert r.key r }

/-- The network that a seeded node is on. -/
def seedNetwork (m : Memory) (network : String) : Network where
  name := network
  selfLink := m.selfLink .network .global network
  ipv4Range := some "10.0.0.0/8"
  gatewayIpv4 := some "10.0.0.1"
  description := none

/-- The boot disk of a seeded node. -/
def seedDisk (m : Memory) (zone name : String) : Disk where
  name := Naming.bootDiskName name
  selfLink := m.selfLink .disk (.zone zone) (Naming.bootDiskName name)
  zone := zone
  sizeGb := 10
  sourceImage := some (imageLink "debian-cloud" "debian-7-wheezy-v20140718")
  status := some "READY"

/-- The instance of a seeded node. -/
def seedInstance (m : Memory) (zone name network group fingerprint : String) : Instance where
  name := name
  selfLink := m.selfLink .instance (.zone zone) name
  zone := zone
  machineType := m.machineTypeLink zone "f1-micro"
  status := .running
  tags := ⟨[], some fingerprint⟩
  networkInterfaces := [⟨m.selfLink .network .global network, some "10.0.0.100", none⟩]
  disks := [⟨m.selfLink .disk (.zone zone) (Naming.bootDiskName name), true, true⟩]
  metadata := .ofList [(Naming.groupKey, group)]

/-- Puts a running node of a group into the store, and its network unless that is there. -/
def seedNode (m : Memory) (zone name network group : String) : Instance × Memory :=
  let m := if m.has .network .global network then m else m.seed (.network (m.seedNetwork network))
  let m := m.seed (.disk (m.seedDisk zone name))
  let (fingerprint, m) := m.newFingerprint
  let i := m.seedInstance zone name network group fingerprint
  (i, m.seed (.instance i))

/-- The next `count` fetches of operations do not get through. -/
def failNextFetches (m : Memory) (count : Nat) : Memory := { m with failingFetches := count }

/-- The record of an operation gets lost. -/
def expire (m : Memory) (operation : String) : Memory := { m with operations := m.operations.erase operation }

/-- The next operation on a name fails. -/
def failOperation (m : Memory) (name : String) (code : ErrorCode) (message : String) : Memory :=
  { m with scriptedFailures := m.scriptedFailures.insert name ⟨code, message, none⟩ }

/-- The next insert of a name takes effect at once while its answer is lost. -/
def dropInsert (m : Memory) (name : String) : Memory := { m with lostInserts := m.lostInserts.insert name () }

/-- The next `count` changes of tags meet a conflict. -/
def injectTagConflicts (m : Memory) (count : Nat) : Memory := { m with tagConflicts := count }

end Memory

end Fleet
