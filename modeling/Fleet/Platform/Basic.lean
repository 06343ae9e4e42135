import Fleet.Filter
import Fleet.Operation
import Fleet.World

/-!
# Platforms

The questions that can be put to a platform and their answers. A platform is a service that answers them;
programs on a platform are written in `Action`, which stops at the first failure.
-/

namespace Fleet

/-- The calls of a platform. -/
inductive Call
  | get (kind : Kind) (scope : Scope) (name : String)
  | list (kind : Kind) (filter : Filter)
  | insert (scope : Scope) (spec : ResourceSpec)
  | delete (kind : Kind) (scope : Scope) (name : String)
  /-- Replaces the tags of an instance. -/
  | setTags (kind : Kind) (scope : Scope) (name : String) (tags : Tags)
  | operation (handle : OperationHandle)
  deriving DecidableEq

namespace Call

/-- What a successful call returns. -/
abbrev Value : Call → Type
  | get _ _ _ => Option Resource
  | list _ _ => List Resource
  | insert _ _ => OperationHandle
  | delete _ _ _ => OperationHandle
  | setTags _ _ _ _ => OperationHandle
  | operation _ => Operation

/-- Whether a call asks for a change. -/
def isMutation : Call → Bool
  | insert _ _ => true
  | delete _ _ _ => true
  | setTags _ _ _ _ => true
  | _ => false

end Call

/-- Calls that succeed or fail. -/
abbrev Cloud : Signature := ⟨Call, fun c => Except Failure c.Value⟩

/-- A platform: a service for calls, with a name. -/
class Platform (σ : Type) extends Service Cloud σ where
  name : String

/-- A program on a platform that ends with a result or a failure. -/
abbrev Action (α : Type) := ExceptT Failure (Program Cloud) α

namespace Action

/-- Makes one call. -/
def call (c : Call) : Action c.Value := Program.query (S := Cloud) c

/-- Runs an action and returns its failure as a value. -/
def outcome {α : Type} (a : Action α) : Action (Except Failure α) := ExceptT.mk (a.run.bind fun r => .done (.ok r))

theorem run_bind {σ α β : Type} [Service Cloud σ] (a : Action α) (k : α → Action β) (w : World Cloud σ) :
    (a >>= k).run.run w = match a.run.run w with
      | (.ok v, w') => (k v).run.run w'
      | (.error f, w') => (.error f, w') := by
  refine (Program.run_bind a.run _ w).trans ?_
  rcases a.run.run w with ⟨f | v, w'⟩
  · rfl
  · rfl

/-- After an action that succeeds, the rest is run on its result. -/
theorem run_bind_of_ok {σ α β : Type} [Service Cloud σ] {a : Action α} {w w' : World Cloud σ} {v : α}
    (h : a.run.run w = (.ok v, w')) (k : α → Action β) : (a >>= k).run.run w = (k v).run.run w' := by
  rw [run_bind, h]

theorem run_outcome {σ α : Type} [Service Cloud σ] (a : Action α) (w : World Cloud σ) :
    a.outcome.run.run w = (.ok (a.run.run w).1, (a.run.run w).2) :=
  Program.run_bind a.run _ w

end Action

end Fleet
