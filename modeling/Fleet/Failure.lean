import Fleet.Duration
import Fleet.Resource.Kind

/-!
# Failures

What can go wrong while resources are read, created and deleted, with the wording of each cause in one
function (`Failure.message`). Decisions are taken from the cause and the error code of the platform, never
from the wording.
-/

namespace Fleet

/-- The reason that the platform gives for a refusal. -/
inductive ErrorCode
  | notFound
  | alreadyExists
  /-- A stale fingerprint or another precondition that does not hold. -/
  | conditionNotMet
  | resourceInUse
  | quotaExceeded
  | other (text : String)
  deriving DecidableEq, Repr

namespace ErrorCode

/-- Reads the reason of a refused request (`alreadyExists`) as well as the code of a failed operation
(`RESOURCE_ALREADY_EXISTS`). -/
def ofText (s : String) : ErrorCode :=
  if s ∈ ["NOT_FOUND", "RESOURCE_NOT_FOUND", "notFound"] then notFound
  else if s ∈ ["ALREADY_EXISTS", "RESOURCE_ALREADY_EXISTS", "alreadyExists"] then alreadyExists
  else if s ∈ ["CONDITION_NOT_MET", "conditionNotMet"] then conditionNotMet
  else if s ∈ ["RESOURCE_IN_USE", "RESOURCE_IN_USE_BY_ANOTHER_RESOURCE",
      "resourceInUseByAnotherResource"] then resourceInUse
  else if s ∈ ["QUOTA_EXCEEDED", "quotaExceeded"] then quotaExceeded
  else other s

def text : ErrorCode → String
  | notFound => "NOT_FOUND"
  | alreadyExists => "ALREADY_EXISTS"
  | conditionNotMet => "CONDITION_NOT_MET"
  | resourceInUse => "RESOURCE_IN_USE"
  | quotaExceeded => "QUOTA_EXCEEDED"
  | other s => s

end ErrorCode

/-- The causes of a failed request, operation or command. -/
inductive Failure
  /-- The platform could not be reached; the request may be sent again. -/
  | transport (message : String)
  /-- The platform could not be reached in any of the permitted attempts. -/
  | transportExhausted (attempts : Nat) (message : String)
  /-- The platform refused the request. -/
  | rejected (code : ErrorCode) (message : String)
  /-- The operation ended with errors, of which the first is given. -/
  | operationFailed (operation : String) (code : ErrorCode) (message : String)
  /-- The operation was still running after the given number of nanoseconds. -/
  | timeout (operation : String) (waited : Nat)
  /-- The platform no longer has a record of the operation. -/
  | lost (operation : String)
  | conflict (resource message : String)
  | missing (resource : String)
  | wrongKind (expected actual : Kind)
  | invalidNodeId (text : String)
  | invalidConfig (message : String)
  | cancelled (name : String)
  /-- A text is not the JSON that it should be. -/
  | malformed (message : String)
  deriving DecidableEq, Repr

namespace Failure

/-- The wording of a failure. -/
def message : Failure → String
  | transport m => "Transport error: " ++ m
  | transportExhausted n m => "Transport failed after " ++ toString n ++ " attempts: " ++ m
  | rejected c m => "API error [" ++ c.text ++ "]: " ++ m
  | operationFailed o c m => "Operation " ++ o ++ " failed [" ++ c.text ++ "]: " ++ m
  | timeout o w => "Timeout: operation " ++ o ++ " not done after " ++ Duration.text w
  | lost o => "Operation lost: " ++ o
  | conflict r m => "Conflict on " ++ r ++ ": " ++ m
  | missing r => "Resource not found: " ++ r
  | wrongKind e a => "Unexpected resource: expected " ++ e.text ++ ", got " ++ a.text
  | invalidNodeId t => "Invalid node id: " ++ t ++ " (expected <zone>/<name>)"
  | invalidConfig m => "Invalid configuration: " ++ m
  | cancelled n => "Cancelled: " ++ n
  | malformed m => "JSON error: " ++ m

/-- The code that the platform gave, when the failure comes from the platform. -/
def code? : Failure → Option ErrorCode
  | rejected c _ => some c
  | operationFailed _ c _ => some c
  | _ => none

def isNotFound : Failure → Bool
  | missing _ => true
  | f => f.code? == some .notFound

def isAlreadyExists (f : Failure) : Bool := f.code? == some .alreadyExists

def isConflict : Failure → Bool
  | conflict _ _ => true
  | f => f.code? == some .conditionNotMet

def isInUse (f : Failure) : Bool := f.code? == some .resourceInUse

/-- Only a failure to reach the platform is worth another attempt. -/
def isTransient : Failure → Bool
  | transport _ => true
  | _ => false

theorem isTransient_iff {f : Failure} : f.isTransient = true ↔ ∃ message, f = .transport message := by
  cases f <;> simp [isTransient]

end Failure

end Fleet
