/-!
# Programs that ask and wait

A program asks questions of a signature, one after the other, and may sleep, look at the clock and look
whether it has been cancelled in between. Every program ends: its next step is a smaller program, whatever
the answers are. `Program.bind` runs one program after another, and with it programs form a monad
(`bind_assoc`).
-/

namespace Fleet

/-- Questions, and for each of them the type of its answers. -/
structure Signature where
  Query : Type
  Answer : Query → Type

/-- A program over a signature with a result in `α`. -/
inductive Program (S : Signature) (α : Type) : Type where
  | done (result : α)
  | ask (query : S.Query) (next : S.Answer query → Program S α)
  | sleep (ms : Nat) (next : Program S α)
  | clock (next : Nat → Program S α)
  | cancelled (next : Bool → Program S α)

namespace Program

variable {S : Signature} {α β γ : Type}

/-- The program that goes on with the result of another one. -/
def bind : Program S α → (α → Program S β) → Program S β
  | done a, f => f a
  | ask q k, f => ask q fun r => (k r).bind f
  | sleep ms k, f => sleep ms (k.bind f)
  | clock k, f => clock fun t => (k t).bind f
  | cancelled k, f => cancelled fun b => (k b).bind f

instance : Monad (Program S) where
  pure := done
  bind := bind

/-- The program that asks one question and returns the answer. -/
def query (q : S.Query) : Program S (S.Answer q) := ask q done

/-- The program that waits for a number of milliseconds. -/
def wait (ms : Nat) : Program S Unit := sleep ms (done ())

/-- The program that reads the clock, in milliseconds. -/
def now : Program S Nat := clock done

/-- The program that finds out whether it should not start any more. -/
def isCancelled : Program S Bool := cancelled done

@[simp] theorem bind_done (p : Program S α) : p.bind done = p := by
  induction p with
  | done a => rfl
  | ask q k ih => exact congrArg (ask q) (funext ih)
  | sleep ms k ih => exact congrArg (sleep ms) ih
  | clock k ih => exact congrArg clock (funext ih)
  | cancelled k ih => exact congrArg cancelled (funext ih)

theorem bind_assoc (p : Program S α) (f : α → Program S β) (g : β → Program S γ) :
    (p.bind f).bind g = p.bind fun a => (f a).bind g := by
  induction p with
  | done a => rfl
  | ask q k ih => exact congrArg (ask q) (funext ih)
  | sleep ms k ih => exact congrArg (sleep ms) ih
  | clock k ih => exact congrArg clock (funext ih)
  | cancelled k ih => exact congrArg cancelled (funext ih)

/-! ### What is left of a program after it has slept -/

/-- `q.IsRestOf p`: after some answers and at least one sleep, `p` goes on as `q`. -/
inductive IsRestOf : Program S α → Program S α → Prop where
  | wake (ms : Nat) (k : Program S α) : IsRestOf k (sleep ms k)
  | sleep (ms : Nat) {q k : Program S α} (h : IsRestOf q k) : IsRestOf q (sleep ms k)
  | ask (c : S.Query) (k : S.Answer c → Program S α) (r : S.Answer c) {q : Program S α}
      (h : IsRestOf q (k r)) : IsRestOf q (ask c k)
  | clock (k : Nat → Program S α) (t : Nat) {q : Program S α} (h : IsRestOf q (k t)) :
      IsRestOf q (clock k)
  | cancelled (k : Bool → Program S α) (b : Bool) {q : Program S α} (h : IsRestOf q (k b)) :
      IsRestOf q (cancelled k)

/-- No program sleeps forever. -/
theorem acc_isRestOf (p : Program S α) : Acc IsRestOf p := by
  induction p with
  | done a => exact ⟨_, fun q h => nomatch h⟩
  | ask c k ih => exact ⟨_, fun q h => match h with | .ask _ _ r h => (ih r).inv h⟩
  | sleep ms k ih => exact ⟨_, fun q h => match h with | .wake _ _ => ih | .sleep _ h => ih.inv h⟩
  | clock k ih => exact ⟨_, fun q h => match h with | .clock _ t h => (ih t).inv h⟩
  | cancelled k ih => exact ⟨_, fun q h => match h with | .cancelled _ b h => (ih b).inv h⟩

end Program

end Fleet
