import Fleet.Instant
import Fleet.Resource.Basic

/-!
# Operations

Every change of the platform is an operation that the platform carries out after the request was accepted.
The handle names the operation, and a snapshot tells how far it is.
-/

namespace Fleet

inductive OperationKind
  | insert
  | delete
  | update
  deriving DecidableEq, Repr

namespace OperationKind

def text : OperationKind → String
  | insert => "insert"
  | delete => "delete"
  | update => "update"

/-- Whatever neither inserts nor deletes is an update. -/
def ofText (s : String) : OperationKind :=
  if s = "insert" then insert else if s = "delete" then delete else update

end OperationKind

/-- What is needed to ask for an operation, and the resource that it changes. -/
structure OperationHandle where
  name : String
  selfLink : String
  kind : OperationKind
  scope : Scope
  target : Summary
  deriving DecidableEq

def OperationHandle.text (h : OperationHandle) : String :=
  h.name ++ " (" ++ h.kind.text ++ " " ++ h.target.kind.text ++ " " ++ h.target.name ++ ")"

inductive OperationStatus
  | pending
  | running
  | done
  deriving DecidableEq, Repr

namespace OperationStatus

def text : OperationStatus → String
  | pending => "PENDING"
  | running => "RUNNING"
  | done => "DONE"

def ofText? (s : String) : Option OperationStatus :=
  [pending, running, done].find? fun t => t.text == s

end OperationStatus

structure OperationError where
  code : ErrorCode
  message : String
  location : Option String
  deriving DecidableEq

/-- A snapshot of an operation. -/
structure Operation where
  handle : OperationHandle
  status : OperationStatus
  errors : List OperationError
  /-- The part that is done, in percent. -/
  progress : Option Nat
  insertedAt : Option Instant
  endedAt : Option Instant
  deriving DecidableEq

namespace Operation

def isDone (o : Operation) : Bool := o.status == .done

def primaryError? (o : Operation) : Option OperationError := o.errors.head?

end Operation

end Fleet
