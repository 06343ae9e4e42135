import Fleet.Proofs.Wording.TwoRuns
import Fleet.Report
import Fleet.Platform.Basic

/-!
# Without the wording

Failures, operations and reports with every message taken out (`Failure.silent` and the like). Two answers of a platform
are alike when they differ in messages only, and two actions are alike when that is the only difference they make
(`Action.Alike`). No question that is asked of a failure depends on its messages.
-/

namespace Fleet

variable {α β : Type}

/-! ### Taking the messages out -/

/-- The failure without its message. -/
def Failure.silent : Failure → Failure
  | transport _ => transport ""
  | transportExhausted n _ => transportExhausted n ""
  | rejected c _ => rejected c ""
  | operationFailed o c _ => operationFailed o c ""
  | conflict r _ => conflict r ""
  | invalidConfig _ => invalidConfig ""
  | malformed _ => malformed ""
  | f => f

/-- The outcome without messages, where `e` takes them out of a result. -/
def silenced (e : α → α) : Except Failure α → Except Failure α
  | .ok a => .ok (e a)
  | .error f => .error f.silent

def OperationError.silent (x : OperationError) : OperationError := { x with message := "" }

def Operation.silent (o : Operation) : Operation := { o with errors := o.errors.map OperationError.silent }

/-- What a call returns, without messages: only operations have some. -/
def Call.silent : (c : Call) → c.Value → c.Value
  | .operation _, o => Operation.silent o
  | .get _ _ _, r => r
  | .list _ _, r => r
  | .insert _ _, r => r
  | .delete _ _ _, r => r
  | .setTags _ _ _ _, r => r

def NetworkOutcome.silent : NetworkOutcome → NetworkOutcome
  | failed network _ => failed network ""
  | o => o

def FailedNode.silent (x : FailedNode) : FailedNode := { x with failure := x.failure.silent }

def LaunchReport.silent (r : LaunchReport) : LaunchReport :=
  { r with failed := r.failed.map FailedNode.silent, shared := r.shared.map NetworkOutcome.silent }

def TeardownReport.silent (r : TeardownReport) : TeardownReport :=
  { r with failed := r.failed.map FailedNode.silent, shared := r.shared.map NetworkOutcome.silent }

/-! ### What is asked of a failure -/

namespace Failure

variable {f g : Failure}

private theorem code?_silent (f : Failure) : f.silent.code? = f.code? := by
  cases f <;> rfl

private theorem isNotFound_silent (f : Failure) : f.silent.isNotFound = f.isNotFound := by
  cases f <;> rfl

private theorem isConflict_silent (f : Failure) : f.silent.isConflict = f.isConflict := by
  cases f <;> rfl

private theorem isTransient_silent (f : Failure) : f.silent.isTransient = f.isTransient := by
  cases f <;> rfl

theorem isNotFound_congr (h : f.silent = g.silent) : f.isNotFound = g.isNotFound := by
  rw [← isNotFound_silent f, h, isNotFound_silent g]

theorem isConflict_congr (h : f.silent = g.silent) : f.isConflict = g.isConflict := by
  rw [← isConflict_silent f, h, isConflict_silent g]

theorem isTransient_congr (h : f.silent = g.silent) : f.isTransient = g.isTransient := by
  rw [← isTransient_silent f, h, isTransient_silent g]

private theorem code?_congr (h : f.silent = g.silent) : f.code? = g.code? := by
  rw [← code?_silent f, h, code?_silent g]

theorem isAlreadyExists_congr (h : f.silent = g.silent) : f.isAlreadyExists = g.isAlreadyExists := by
  rw [isAlreadyExists, isAlreadyExists, code?_congr h]

theorem isInUse_congr (h : f.silent = g.silent) : f.isInUse = g.isInUse := by
  rw [isInUse, isInUse, code?_congr h]

end Failure

/-- Alike outcomes are two results or two failures. -/
theorem silenced_eq_cases {e : α → α} {r s : Except Failure α} (h : silenced e r = silenced e s) :
    (∃ a b, r = .ok a ∧ s = .ok b ∧ e a = e b) ∨ ∃ f g, r = .error f ∧ s = .error g ∧ f.silent = g.silent := by
  rcases r with f | a <;> rcases s with g | b
  · exact .inr ⟨f, g, rfl, rfl, Except.error.inj h⟩
  · cases h
  · cases h
  · exact .inl ⟨a, b, rfl, rfl, Except.ok.inj h⟩

/-! ### Actions -/

/-- Two answers of a platform that differ in messages only. -/
def AlikeAnswers (c : Call) (r s : Except Failure c.Value) : Prop := silenced c.silent r = silenced c.silent s

namespace Action

/-- Two actions that go on alike after answers that differ in messages only, and end with outcomes that differ in
messages only, where `e` takes them out of a result. -/
def Alike (e : α → α) (a b : Action α) : Prop :=
  Program.Alike (S := Cloud) AlikeAnswers (fun r s => silenced e r = silenced e s) a.run b.run

variable {e : α → α} {d : β → β}

theorem alike_result {r s : Except Failure α} (h : silenced e r = silenced e s) :
    Alike e (ExceptT.mk (.done r)) (ExceptT.mk (.done s)) := Program.Alike.done h

theorem alike_pure {x y : α} (h : e x = e y) : Alike e (pure x) (pure y) := alike_result (congrArg Except.ok h)

theorem alike_throw {f g : Failure} (h : f.silent = g.silent) : Alike e (throw f) (throw g) :=
  alike_result (congrArg Except.error h)

theorem Alike.bind {a b : Action α} (h : Alike e a b) {k l : α → Action β}
    (hkl : ∀ x y, e x = e y → Alike d (k x) (l y)) : Alike d (a >>= k) (b >>= l) := by
  refine Program.Alike.bind h fun r s hrs => ?_
  rcases silenced_eq_cases hrs with ⟨x, y, rfl, rfl, hxy⟩ | ⟨f, g, rfl, rfl, hfg⟩
  · exact hkl x y hxy
  · exact alike_throw hfg

/-- When results have no messages, the two actions go on with the same result. -/
theorem Alike.bind_id {a b : Action α} (h : Alike id a b) {k l : α → Action β} (hkl : ∀ x, Alike d (k x) (l x)) :
    Alike d (a >>= k) (b >>= l) := by
  refine h.bind fun x y hxy => ?_
  obtain rfl : x = y := hxy
  exact hkl x

theorem Alike.outcome {a b : Action α} (h : Alike e a b) : Alike (silenced e) a.outcome b.outcome :=
  Program.Alike.bind h fun _ _ hrs => alike_pure hrs

theorem alike_lift {P : α → α → Prop} {p q : Program Cloud α} (h : p.Alike (S := Cloud) AlikeAnswers P q)
    {k l : α → Action β} (hkl : ∀ x y, P x y → Alike d (k x) (l y)) :
    Alike d (ExceptT.lift p >>= k) (ExceptT.lift q >>= l) := by
  have hlift : Program.Alike (S := Cloud) AlikeAnswers (fun r s => ∃ x y, r = .ok x ∧ s = .ok y ∧ P x y)
      (ExceptT.lift p : Action α).run (ExceptT.lift q : Action α).run :=
    h.bind fun x y hxy => .done ⟨x, y, rfl, rfl, hxy⟩
  refine Program.Alike.bind hlift fun r s hrs => ?_
  obtain ⟨x, y, rfl, rfl, hxy⟩ := hrs
  exact hkl x y hxy

theorem alike_now {k l : Nat → Action α} (h : ∀ t, Alike e (k t) (l t)) :
    Alike e (ExceptT.lift Program.now >>= k) (ExceptT.lift Program.now >>= l) := Program.Alike.clock h

theorem Alike.discard {a b : Action α} (h : Alike e a b) : Alike id (discard a) (discard b) := by
  refine Program.Alike.bind h fun r s hrs => ?_
  rcases silenced_eq_cases hrs with ⟨x, y, rfl, rfl, -⟩ | ⟨f, g, rfl, rfl, hfg⟩
  · exact alike_pure rfl
  · exact alike_throw hfg

end Action

end Fleet
