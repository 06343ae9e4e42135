import Fleet.Node

/-!
# Reports

What a launch or a teardown did, node by node, and what became of the networks.
-/

namespace Fleet

structure FailedNode where
  name : String
  failure : Failure
  deriving DecidableEq

/-- What became of a network and its firewalls. -/
inductive NetworkOutcome
  /-- The network is gone, and so are the named firewalls. -/
  | reclaimed (network : String) (firewalls : List String)
  /-- The network stays for the instances on it, of which there are `remaining`. -/
  | inUse (network : String) (remaining : Nat)
  /-- There was nothing to take away. -/
  | retained (network : String)
  | failed (network message : String)
  deriving DecidableEq

namespace NetworkOutcome

def network : NetworkOutcome → String
  | reclaimed n _ => n
  | inUse n _ => n
  | retained n => n
  | failed n _ => n

def isFailed : NetworkOutcome → Bool
  | failed _ _ => true
  | _ => false

end NetworkOutcome

/-- The nodes of a launch in the order in which they were finished. -/
structure LaunchReport where
  created : List Instance
  failed : List FailedNode
  shared : List NetworkOutcome
  durationMs : Nat
  deriving DecidableEq

namespace LaunchReport

def empty : LaunchReport := ⟨[], [], [], 0⟩

def isSuccess (r : LaunchReport) : Bool := r.failed.isEmpty

def addSuccess (r : LaunchReport) (i : Instance) : LaunchReport := { r with created := r.created ++ [i] }

def addFailure (r : LaunchReport) (name : String) (f : Failure) : LaunchReport :=
  { r with failed := r.failed ++ [⟨name, f⟩] }

def addShared (r : LaunchReport) (o : NetworkOutcome) : LaunchReport := { r with shared := r.shared ++ [o] }

def nodes (r : LaunchReport) : List Node := r.created.map Node.ofInstance

/-- The instances, or the first failure when there is one. -/
def result (r : LaunchReport) : Except Failure (List Instance) :=
  match r.failed with
  | [] => .ok r.created
  | f :: _ => .error f.failure

end LaunchReport

/-- The nodes of a teardown in the order in which they were finished. -/
structure TeardownReport where
  destroyed : List String
  failed : List FailedNode
  shared : List NetworkOutcome
  durationMs : Nat
  deriving DecidableEq

namespace TeardownReport

def empty : TeardownReport := ⟨[], [], [], 0⟩

/-- A network that could not be reclaimed counts as a failure too. -/
def isSuccess (r : TeardownReport) : Bool := r.failed.isEmpty && !r.shared.any NetworkOutcome.isFailed

def addSuccess (r : TeardownReport) (name : String) : TeardownReport :=
  { r with destroyed := r.destroyed ++ [name] }

def addFailure (r : TeardownReport) (name : String) (f : Failure) : TeardownReport :=
  { r with failed := r.failed ++ [⟨name, f⟩] }

def addShared (r : TeardownReport) (o : NetworkOutcome) : TeardownReport :=
  { r with shared := r.shared ++ [o] }

end TeardownReport

end Fleet
