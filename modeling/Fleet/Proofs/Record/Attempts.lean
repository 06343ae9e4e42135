import Fleet.Proofs.Record.Polling
import Mathlib.Data.ENat.Lattice

/-!
# Attempts and their outcomes

A program that is tried again leaves the world as its attempts one after the other do, with the delays of the policy
between them and no others (`RetryPolicy.run_retry`). For a call that comes to given outcomes this says how often and
when it is made (`retry_attempts`).
-/

namespace Fleet

variable {S : Signature} {σ α : Type}

/-- The attempt has come to something else than the failure to reach the service. -/
def Reached (r : Except Failure α) : Prop := ∀ message, r ≠ .error (.transport message)

private theorem exists_message_of_not_reached {r : Except Failure α} (h : ¬Reached r) :
    ∃ message, r = .error (.transport message) := by
  simpa [Reached] using h

namespace RetryPolicy

theorem limit_pos (p : RetryPolicy) : 0 < p.limit := Nat.lt_of_lt_of_le Nat.one_pos (Nat.le_max_right _ _)

/-- What is returned when the attempt with the index `k` is the last one. -/
def concluded (k : ℕ) (r : Except Failure α) : Except Failure α :=
  match r with
  | .error (.transport message) => .error (.transportExhausted (k + 1) message)
  | r => r

theorem concluded_of_reached {k : ℕ} {r : Except Failure α} (h : Reached r) : concluded k r = r := by
  unfold concluded
  split
  · next message => exact absurd rfl (h message)
  · rfl

/-! ### Programs that are tried again -/

section Attempts

variable [Service S σ] (p : RetryPolicy) (attempt : Program S (Except Failure α)) (w : World S σ)

/-- The world in which the attempt with the given index is made: each one follows the delay after the one before. -/
def worldBefore : ℕ → World S σ
  | 0 => w
  | i + 1 =>
    let after := (attempt.run (worldBefore i)).2
    after.advanceTo (after.now + p.delayMs i)

/-- What the attempt with the given index comes to. -/
def outcomeAt (i : ℕ) : Except Failure α := (attempt.run (p.worldBefore attempt w i)).1

/-- After `made` attempts, `k` further ones do not reach the service, and the one after them does or is the last. -/
private theorem run_retryFrom (left made : ℕ) {k : ℕ} (hk : k ≤ left)
    (hlost : ∀ i < k, ¬Reached (p.outcomeAt attempt w (made + i)))
    (hlast : k = left ∨ Reached (p.outcomeAt attempt w (made + k))) :
    (p.retryFrom attempt left made).run (p.worldBefore attempt w made) =
      ((concluded (made + k) (p.outcomeAt attempt w (made + k)), made + k + 1),
        (attempt.run (p.worldBefore attempt w (made + k))).2) := by
  have hfirst : (attempt.run (p.worldBefore attempt w made)).1 = p.outcomeAt attempt w made := rfl
  induction k generalizing left made with
  | zero =>
    rw [Nat.add_zero] at hlast ⊢
    by_cases hreached : Reached (p.outcomeAt attempt w made)
    · rw [concluded_of_reached hreached]
      cases left <;>
      · rw [retryFrom, Program.run_bind, hfirst]
        split
        · next message h => exact absurd h (hreached message)
        · rfl
    · obtain ⟨message, hmessage⟩ := exists_message_of_not_reached hreached
      obtain rfl : 0 = left := hlast.resolve_right hreached
      rw [retryFrom, Program.run_bind, hfirst, hmessage]
      rfl
  | succ k ih =>
    obtain ⟨message, hmessage⟩ := exists_message_of_not_reached (hlost 0 (Nat.succ_pos k))
    obtain ⟨left, rfl⟩ : ∃ n, left = n + 1 := ⟨left - 1, by omega⟩
    have hindex (i : ℕ) : made + 1 + i = made + (i + 1) := by omega
    have hrest := ih left (made + 1) (by omega) (fun i hi => by rw [hindex]; exact hlost (i + 1) (by omega))
      (hlast.imp (by omega) fun h => by rwa [hindex]) rfl
    rw [hindex] at hrest
    rw [Nat.add_zero] at hmessage
    rw [retryFrom, Program.run_bind, hfirst, hmessage]
    -- This attempt is lost, and the next one is made after the delay that follows it.
    exact hrest

/-- When `k` attempts do not reach the service, and the one after them does or is the last that the policy allows, then
this one concludes the run. -/
theorem run_retry {k : ℕ} (hk : k < p.limit) (hlost : ∀ i < k, ¬Reached (p.outcomeAt attempt w i))
    (hlast : k + 1 = p.limit ∨ Reached (p.outcomeAt attempt w k)) :
    (p.retry attempt).run w =
      (concluded k (p.outcomeAt attempt w k), (attempt.run (p.worldBefore attempt w k)).2) := by
  have hlimit : p.limit = max p.maxAttempts 1 := rfl
  have hfrom := p.run_retryFrom attempt w (max p.maxAttempts 1 - 1) 0 (k := k) (by omega)
    (fun i hi => by rw [Nat.zero_add]; exact hlost i hi) (hlast.imp (by omega) fun h => by rwa [Nat.zero_add])
  rw [Nat.zero_add] at hfrom
  rw [retry, retryCounted, Program.run_bind, show w = p.worldBefore attempt w 0 from rfl, hfrom]
  rfl

end Attempts

end RetryPolicy

/-! ### A call with given outcomes -/

/-- The position of the first attempt that reaches the service, infinite when there is none. -/
noncomputable def firstReached (o : ℕ → Except Failure α) : ℕ∞ := ⨅ (i : ℕ) (_ : Reached (o i)), (i : ℕ∞)

private theorem le_firstReached {o : ℕ → Except Failure α} {n : ℕ} (hlost : ∀ i < n, ¬Reached (o i)) :
    (n : ℕ∞) ≤ firstReached o :=
  le_iInf₂ fun i hi => Nat.cast_le.2 (not_lt.1 fun hlt => hlost i hlt hi)

private theorem firstReached_eq {o : ℕ → Except Failure α} {j : ℕ} (hj : Reached (o j))
    (hlost : ∀ i < j, ¬Reached (o i)) : firstReached o = j :=
  le_antisymm (iInf₂_le j hj) (le_firstReached hlost)

/-- The question whether a call gets through. -/
abbrev Trial (α : Type) : Signature := ⟨Unit, fun _ => Except Failure α⟩

/-- A service that gives the outcomes of a sequence one after the other. -/
instance : Service (Trial α) (ℕ → Except Failure α) where
  answer _ o := (o 0, fun i => o (i + 1))

/-- The one call to such a service. -/
def Trial.call (α : Type) : Program (Trial α) (Except Failure α) := Program.query (S := Trial α) ()

/-- The attempt with the given index, when the first one is made at the time `t`. -/
def RetryPolicy.trial (p : RetryPolicy) (o : ℕ → Except Failure α) (t i : ℕ) : Exchange (Trial α) :=
  ⟨t + p.attemptMs i, (), o i⟩

section Trials

variable (p : RetryPolicy) (o : ℕ → Except Failure α) (t : ℕ)

/-- The world at the time `now` in which `n` attempts have been made. -/
private def tried (n now : ℕ) : World (Trial α) (ℕ → Except Failure α) :=
  ⟨fun i => o (n + i), now, ((List.range n).map (p.trial o t)).reverse, [], none, none⟩

private theorem run_call (n : ℕ) : (Trial.call α).run (tried p o t n (t + p.attemptMs n)) =
    (o n, tried p o t (n + 1) (t + p.attemptMs n)) := by
  have hrest : (fun i => o (n + (i + 1))) = fun i => o (n + 1 + i) := by
    funext i
    rw [Nat.add_right_comm, Nat.add_assoc]
  have hcalls : ((List.range (n + 1)).map (p.trial o t)).reverse =
      p.trial o t n :: ((List.range n).map (p.trial o t)).reverse := by
    rw [List.range_succ, List.map_append, List.reverse_append]
    rfl
  rw [tried, tried, hcalls, ← hrest]
  rfl

private theorem worldBefore_start (i : ℕ) :
    p.worldBefore (Trial.call α) (World.start o t) i = tried p o t i (t + p.attemptMs i) := by
  induction i with
  | zero =>
    rw [tried]
    simp only [Nat.zero_add]
    rfl
  | succ i ih =>
    have hnow : max (t + p.attemptMs i) (t + p.attemptMs i + p.delayMs i) = t + p.attemptMs (i + 1) := by
      rw [RetryPolicy.attemptMs]
      omega
    rw [RetryPolicy.worldBefore, ih, run_call]
    simp only [tried, World.advanceTo, hnow]
    rfl

private theorem outcomeAt_start (i : ℕ) : p.outcomeAt (Trial.call α) (World.start o t) i = o i := by
  rw [RetryPolicy.outcomeAt, worldBefore_start, run_call]

private theorem run_retry_start {k : ℕ} (hk : k < p.limit) (hlost : ∀ i < k, ¬Reached (o i))
    (hlast : k + 1 = p.limit ∨ Reached (o k)) : (p.retry (Trial.call α)).run (World.start o t) =
      (RetryPolicy.concluded k (o k), tried p o t (k + 1) (t + p.attemptMs k)) := by
  have hrun := p.run_retry (Trial.call α) (World.start o t) hk (fun i hi => by rw [outcomeAt_start]; exact hlost i hi)
    (hlast.imp_right fun h => by rwa [outcomeAt_start])
  rwa [outcomeAt_start, worldBefore_start, run_call] at hrun

end Trials

/-- With `j` as the position of the first outcome that is no failure to reach the service, there are `j + 1` attempts,
or as many as the policy allows when these are fewer. The attempt with the index `i` is made after the delays that
follow the attempts before it, and nothing is waited for after the last one. The outcome is that of the attempt `j`, or
tells that all attempts were lost, how many there were, and the message of the last. -/
theorem retry_attempts (p : RetryPolicy) (o : ℕ → Except Failure α) (t : ℕ) :
    ∃ n : ℕ, (n : ℕ∞) = min (firstReached o + 1) p.limit ∧
      let r := (p.retry (Trial.call α)).run (World.start o t)
      r.2.record.reverse = (List.range n).map (p.trial o t) ∧ r.2.now = t + p.attemptMs (n - 1) ∧
      if firstReached o < p.limit then r.1 = o (firstReached o).toNat
      else ∃ message, o (p.limit - 1) = .error (.transport message) ∧
        r.1 = .error (.transportExhausted p.limit message) := by
  classical
  have hpos := p.limit_pos
  by_cases hfirst : ∃ k, k < p.limit ∧ Reached (o k)
  · obtain ⟨hk, hreached⟩ := Nat.find_spec hfirst
    have hlost : ∀ i < Nat.find hfirst, ¬Reached (o i) := fun i hi h => Nat.find_min hfirst hi ⟨by omega, h⟩
    generalize Nat.find hfirst = k at hk hreached hlost
    have hj : firstReached o = k := firstReached_eq hreached hlost
    refine ⟨k + 1, ?_, ?_⟩
    · rw [hj, min_eq_left (by exact_mod_cast hk)]
      norm_cast
    · rw [run_retry_start p o t hk hlost (.inr hreached), hj]
      refine ⟨List.reverse_reverse _, rfl, ?_⟩
      rw [if_pos (by exact_mod_cast hk)]
      exact RetryPolicy.concluded_of_reached hreached
  · have hlost : ∀ i < p.limit, ¬Reached (o i) := fun i hi h => hfirst ⟨i, hi, h⟩
    obtain ⟨message, hmessage⟩ := exists_message_of_not_reached (hlost (p.limit - 1) (by omega))
    have hj : (p.limit : ℕ∞) ≤ firstReached o := le_firstReached hlost
    refine ⟨p.limit, ?_, ?_⟩
    · rw [min_eq_right (hj.trans le_self_add)]
    · have hlast : p.limit - 1 + 1 = p.limit := by omega
      rw [run_retry_start p o t (by omega) (fun i hi => hlost i (by omega)) (.inl hlast), hlast, hmessage]
      refine ⟨List.reverse_reverse _, rfl, ?_⟩
      rw [if_neg (not_lt.2 hj)]
      refine ⟨message, rfl, ?_⟩
      rw [RetryPolicy.concluded, hlast]

end Fleet
