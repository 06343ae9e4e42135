import Fleet.Client
import Fleet.Proofs.Memory.Regime

/-!
# Sending requests and waiting for operations

The rules for sending a request again (`RetryPolicy.retryFrom_obeys`) and for waiting until an operation is done
(`Regime.awaitDone_obeys`). An operation that is waited for ends with its plan carried out, unless the client gives
up; in a steady regime a client that is patient enough never gives up.
-/

namespace Fleet

open Memory

variable {ι α β : Type}

/-- A failure with which a client gives up on an operation, or on reaching the platform, without knowing what
became of its request. -/
def Failure.GivesUp : Failure → Prop
  | .transportExhausted _ _ => True
  | .timeout _ _ => True
  | .lost _ => True
  | _ => False

/-- The time after which an operation is asked for, when `k` earlier polls have got through at once. -/
def PollPolicy.pollTime (p : PollPolicy) : Nat → Nat
  | 0 => 0
  | k + 1 => min (p.pollTime k + p.intervalMs k) p.timeoutMs

/-- An operation that is done at the poll `polls`, which is a 32-bit number, does not time out: every earlier poll
comes before the deadline. -/
def PollPolicy.Patient (p : PollPolicy) (polls : Nat) : Prop :=
  polls < UInt32.size ∧ ∀ k, k + 1 < polls → p.pollTime k < p.timeoutMs

theorem PollPolicy.patient_one (p : PollPolicy) : p.Patient 1 := ⟨by decide, fun k hk => absurd hk (by omega)⟩

/-! ### Sending again -/

/-- What holds of the outcome of an attempt: one thing when it failed in transport, another one otherwise. -/
def RetryPolicy.Attempted (again : String → Prop) (ended : Except Failure α → Prop) : Except Failure α → Prop
  | .error (.transport text) => again text
  | r => ended r

theorem RetryPolicy.attempted_of_ne {again : String → Prop} {ended : Except Failure α → Prop}
    {r : Except Failure α} (hr : ∀ text, r ≠ .error (.transport text)) (h : ended r) : Attempted again ended r := by
  rcases r with f | v
  · cases f with
    | transport text => exact absurd rfl (hr text)
    | _ => exact h
  · exact h

/-- An attempt that either fails in transport and leaves everything ready for the next one, or ends as wanted. -/
theorem RetryPolicy.retryFrom_obeys {S : Signature} {σ γ : Type} [Service S σ] {c : Conduct S σ ι γ} {i : ι}
    (p : RetryPolicy) {attempt : Program S (Except Failure α)} {P : Nat → σ × γ → Nat → Prop}
    {Q : Except Failure α × Nat → σ × γ → Nat → Prop}
    (h : ∀ made x t, P made x t → attempt.Obeys c i (fun r y s => Attempted
      (fun text => Q (.error (.transportExhausted (made + 1) text), made + 1) y s ∧
        ∀ z ms, c.drift i y z → P (made + 1) z (s + ms))
      (fun r => Q (r, made + 1) y s) r) x t) (left made : Nat) {x : σ × γ} {t : Nat} (hP : P made x t) :
    (p.retryFrom attempt left made).Obeys c i Q x t := by
  induction left generalizing made x t with
  | zero =>
    unfold retryFrom
    refine Program.obeys_bind.2 ((h made x t hP).mono fun r y s hr => ?_)
    rcases r with f | v
    · cases f with
      | transport text => exact hr.1
      | _ => exact hr
    · exact hr
  | succ left ih =>
    unfold retryFrom
    refine Program.obeys_bind.2 ((h made x t hP).mono fun r y s hr => ?_)
    rcases r with f | v
    · cases f with
      | transport text => exact fun z hz => ih (made + 1) (hr.2 z _ hz)
      | _ => exact hr
    · exact hr

namespace Regime

variable {R : Regime ι} {i : ι}

/-- A call whose answer is not a failure of transport is made once. -/
theorem obeys_send (c : Client) {call : Call} {Q : Except Failure call.Value → Memory × (Nat → Option ι) → Nat → Prop}
    {x : Memory × (Nat → Option ι)} {t : Nat} (hmay : R.conduct.may i call x)
    (hno : ∀ text, (answer call x.1).1 ≠ .error (.transport text))
    (hQ : Q (answer call x.1).1 (R.conduct.after i call x) t) : (c.send call).run.Obeys R.conduct i Q x t := by
  show ((c.retry.retryFrom (Program.query (S := Cloud) call) _ 0).bind fun r => .done r.1).Obeys R.conduct i Q x t
  refine Program.obeys_bind.2 (c.retry.retryFrom_obeys (P := fun made y s => made = 0 ∧ y = x ∧ s = t)
    (fun made y s ⟨_, hy, hs⟩ => ?_) _ 0 ⟨rfl, rfl, rfl⟩)
  subst hy hs
  exact ⟨hmay, RetryPolicy.attempted_of_ne hno hQ⟩

/-! ### Asking for an operation -/

/-- The program of `i` waits for its operation, which has been asked for `k` times, and keeps `A` meanwhile. Where
the regime is not steady, the record may be gone. -/
structure Waits (R : Regime ι) (i : ι) (A : Memory → Prop) (h : OperationHandle) (k : Nat)
    (plan : Except OperationError Effect) (x : Memory × (Nat → Option ι)) : Prop where
  inv : R.inv x.1
  holds : A x.1
  owns : Owns i h x
  record : (∃ r, x.1.operations.find? h.name = some r ∧ Awaits r k plan) ∨
    (¬ R.steady ∧ x.1.operations.find? h.name = none)

/-- From `A`, the plan may be carried out, and what comes of it is in `Z`. -/
def Finishes (R : Regime ι) (i : ι) (A : Memory → Prop) (plan : Except OperationError Effect)
    (Z : Except OperationError Unit → Memory → Prop) : Prop :=
  ∀ m, R.inv m → A m → R.Allows i m (m.perform plan).2 ∧ Z (m.perform plan).1 (m.perform plan).2

variable {A : Memory → Prop} {h : OperationHandle} {k : Nat} {plan : Except OperationError Effect}
  {Z : Except OperationError Unit → Memory → Prop} {x y : Memory × (Nat → Option ι)} {t : Nat}

theorem Waits.drift (hw : R.Waits i A h k plan x) (hA : R.Stable i A) (hd : R.conduct.drift i x y) :
    R.Waits i A h k plan y := by
  have hl := hd hw.inv
  obtain ⟨n, hn, hname, hi⟩ := hw.owns
  refine ⟨hl.inv, hA x.1 y.1 hw.inv hl.inv hl.keeps hw.holds,
    ⟨n, Nat.le_trans hn hl.count, hname, (hl.owner n hn).trans hi⟩, ?_⟩
  have hrec := hl.record n hn hi
  have hwas := hw.record
  rw [hname] at hwas ⊢
  rcases hrec with hrec | hrec
  · rw [hrec]
    exact hwas
  · exact .inr hrec

/-- A program that asks for the operation that it waits for gets no answer, or is told that there is no record, unless
the regime is steady; otherwise the operation goes on, or carries out its plan. -/
theorem Waits.answer_cases (hw : R.Waits i A h k plan x) :
    (¬ R.steady ∧ (∃ text, (answer (.operation h) x.1).1 = .error (.transport text)) ∧
      x.1.Quiet (answer (.operation h) x.1).2 ∧ (answer (.operation h) x.1).2.operations = x.1.operations) ∨
    (¬ R.steady ∧ (∃ text, (answer (.operation h) x.1).1 = .error (.rejected .notFound text)) ∧
      (answer (.operation h) x.1).2 = x.1) ∨
    (k + 1 < x.1.pollsUntilDone ∧ x.1.Quiet (answer (.operation h) x.1).2 ∧ ∃ o r,
      (answer (.operation h) x.1).1 = .ok o ∧ o.isDone = false ∧
      (answer (.operation h) x.1).2.operations.find? h.name = some r ∧ Awaits r (k + 1) plan) ∨
    ((x.1.perform plan).2.Quiet (answer (.operation h) x.1).2 ∧ ∃ o,
      (answer (.operation h) x.1).1 = .ok o ∧ o.isDone = true ∧ o.primaryError? = error? (x.1.perform plan).1) := by
  rcases x.1.answer_operation h with ⟨hf, htext, hq, ho, -⟩ | ⟨-, hnone, htext, hm⟩ | ⟨-, r, hr, hcases⟩
  · have hsteady : ¬ R.steady := fun hst => by
      have := R.fetches hst hw.inv
      omega
    exact .inl ⟨hsteady, htext, hq, ho⟩
  · have hsteady : ¬ R.steady := by
      rcases hw.record with ⟨r, hr, -⟩ | ⟨hst, -⟩
      · cases hnone.symm.trans hr
      · exact hst
    exact .inr (.inl ⟨hsteady, htext, hm⟩)
  · rcases hw.record with ⟨r', hr', ha⟩ | ⟨-, hnone⟩
    · obtain rfl : r = r' := Option.some.inj (hr.symm.trans hr')
      exact .inr (.inr ((hcases k plan ha).imp id fun h => h.2))
    · cases hnone.symm.trans hr

theorem Waits.allows (hw : R.Waits i A h k plan x) (hZ : R.Finishes i A plan Z) :
    R.Allows i x.1 (answer (.operation h) x.1).2 := by
  rcases hw.answer_cases with ⟨-, -, hq, -⟩ | ⟨-, -, hm⟩ | ⟨-, hq, -⟩ | ⟨hq, -⟩
  · exact allows_of_quiet hw.inv hq
  · rw [hm]
    exact allows_of_quiet hw.inv (.refl _)
  · exact allows_of_quiet hw.inv hq
  · exact (hZ x.1 hw.inv hw.holds).1.of_quiet hw.inv (.refl _) hq

theorem Waits.may (hw : R.Waits i A h k plan x) (hZ : R.Finishes i A plan Z) :
    R.conduct.may i (.operation h) x := by
  refine ⟨fun h' hh => ?_, hw.allows hZ⟩
  cases hh
  exact hw.owns

theorem Owns.after (ho : Owns i h x) (q : Call) : Owns i h (R.conduct.after i q x) := by
  obtain ⟨n, hn, hname, hi⟩ := ho
  refine ⟨n, Nat.le_trans hn (operationCount_le_answer q x.1), hname, ?_⟩
  show (if x.1.operationCount < n ∧ _ then some i else x.2 n) = some i
  rw [if_neg (by omega)]
  exact hi

/-- What a snapshot tells: the operation goes on, or is done with its plan carried out, or nothing is known. -/
def Snapshot (R : Regime ι) (i : ι) (A : Memory → Prop) (h : OperationHandle) (k : Nat)
    (plan : Except OperationError Effect) (Z : Except OperationError Unit → Memory → Prop) (t : Nat) :
    Except Failure Operation → Memory × (Nat → Option ι) → Nat → Prop
  | .ok o, y, s => (R.steady → s = t) ∧
      ((o.isDone = false ∧ k + 1 < y.1.pollsUntilDone ∧ R.Waits i A h (k + 1) plan y) ∨
        (o.isDone = true ∧ R.inv y.1 ∧ ∃ u, Z u y.1 ∧ o.primaryError? = error? u))
  | .error f, y, _ => ¬ R.steady ∧ f.GivesUp ∧ R.inv y.1 ∧ A y.1

theorem snapshot_obeys (c : Client) (hA : R.Stable i A) (hZ : R.Finishes i A plan Z) (hstill : ∀ u, R.Still (Z u))
    (hw : R.Waits i A h k plan x) :
    (c.snapshot h).run.Obeys R.conduct i (R.Snapshot i A h k plan Z t) x t := by
  show ((c.send (.operation h)).run.bind _).Obeys R.conduct i _ x t
  refine Program.obeys_bind.2 ?_
  show ((c.retry.retryFrom (Program.query (S := Cloud) (.operation h)) _ 0).bind fun r => .done r.1).Obeys R.conduct i
    _ x t
  refine Program.obeys_bind.2 (c.retry.retryFrom_obeys
    (P := fun _ y s => R.Waits i A h k plan y ∧ (R.steady → s = t)) (fun made y s ⟨hy, hs⟩ => ?_) _ 0
    ⟨hw, fun _ => rfl⟩)
  refine ⟨hy.may hZ, ?_⟩
  have hinv := (hy.allows hZ).inv
  have howns : Owns i h (R.conduct.after i (.operation h) y) := hy.owns.after _
  show RetryPolicy.Attempted _ _ (answer (.operation h) y.1).1
  rcases hy.answer_cases with ⟨hsteady, ⟨text, ht⟩, hq, ho⟩ | ⟨hsteady, ⟨text, ht⟩, hm⟩ |
    ⟨hk, hq, o, r, hans, hrun, hrec, haw⟩ | ⟨hq, o, hans, hdone, herr⟩
  · have hA' : A (answer (.operation h) y.1).2 := hA.still y.1 _ hy.inv hq hy.holds
    rw [ht]
    refine ⟨⟨hsteady, trivial, hinv, hA'⟩, fun z ms hz => ⟨?_, fun hst => absurd hst hsteady⟩⟩
    refine Waits.drift ⟨hinv, hA', howns, ?_⟩ hA hz
    show (∃ r, (answer (.operation h) y.1).2.operations.find? h.name = some r ∧ _) ∨
      (_ ∧ (answer (.operation h) y.1).2.operations.find? h.name = none)
    rw [ho]
    exact hy.record
  · rw [ht]
    refine ⟨hsteady, trivial, hinv, ?_⟩
    show A (answer (.operation h) y.1).2
    rw [hm]
    exact hy.holds
  · rw [hans]
    refine ⟨hs, .inl ⟨hrun, ?_, hinv, hA.still y.1 _ hy.inv hq hy.holds, howns, .inl ⟨r, hrec, haw⟩⟩⟩
    show k + 1 < (answer (.operation h) y.1).2.pollsUntilDone
    rw [hq.polls]
    exact hk
  · obtain ⟨hallow, hz⟩ := hZ y.1 hy.inv hy.holds
    rw [hans]
    exact ⟨hs, .inr ⟨hdone, hinv, _, hstill _ _ _ hallow.inv hq hz, herr⟩⟩

/-! ### Waiting until an operation is done -/

/-- How waiting ends: the plan is carried out, or the client has given up. -/
def Awaited (R : Regime ι) (A : Memory → Prop) (h : OperationHandle) (Z : Except OperationError Unit → Memory → Prop) :
    Except Failure Summary → Memory → Prop
  | .ok s, m => s = h.target ∧ Z (.ok ()) m
  | .error f, m => (∃ e, f.code? = some e.code ∧ Z (.error e) m) ∨ (¬ R.steady ∧ f.GivesUp ∧ A m)

private theorem awaited_settled {o : Operation} {u : Except OperationError Unit} {m : Memory} (hz : Z u m)
    (ho : o.primaryError? = error? u) : R.Awaited A h Z (Client.settled h o) m := by
  unfold Client.settled
  rw [ho]
  rcases u with e | u
  · exact .inl ⟨e, rfl, hz⟩
  · exact ⟨rfl, hz⟩

/-- One poll, with whatever comes after it while the operation goes on. -/
private theorem round_obeys (c : Client) (hA : R.Stable i A) (hZ : R.Finishes i A plan Z)
    (hstill : ∀ u, R.Still (Z u)) (hw : R.Waits i A h k plan x) {next : Nat → Action Summary}
    (hnext : ∀ y s, (R.steady → s = t) → k + 1 < y.1.pollsUntilDone → R.Waits i A h (k + 1) plan y →
      (next s).run.Obeys R.conduct i (fun r y _ => R.inv y.1 ∧ R.Awaited A h Z r y.1) y s) :
    (do
      let o ← c.snapshot h
      if o.isDone then ExceptT.mk (.done (Client.settled h o))
      else
        let now ← ExceptT.lift Program.now
        next now : Action Summary).run.Obeys R.conduct i (fun r y _ => R.inv y.1 ∧ R.Awaited A h Z r y.1) x t := by
  refine Program.obeys_bind.2 ((snapshot_obeys c hA hZ hstill hw).mono fun r y s hr => ?_)
  rcases r with f | o
  · exact ⟨hr.2.2.1, .inr ⟨hr.1, hr.2.1, hr.2.2.2⟩⟩
  · obtain ⟨hs, ⟨hrun, hk, hy⟩ | ⟨hdone, hinv, u, hz, ho⟩⟩ := hr
    · simp only [ExceptT.bindCont, hrun, Bool.false_eq_true, if_false]
      exact hnext y s hs hk hy
    · simp only [ExceptT.bindCont, hdone, if_true]
      exact ⟨hinv, awaited_settled hz ho⟩

private theorem awaitFrom_obeys (c : Client) (hA : R.Stable i A) (hZ : R.Finishes i A plan Z)
    (hstill : ∀ u, R.Still (Z u)) (hp : R.steady → c.poll.Patient R.polls) {started fuel poll : Nat}
    (hw : R.Waits i A h poll plan x)
    (ht : R.steady → t = started + c.poll.pollTime poll ∧ fuel + poll = Client.pollLimit c.poll.timeoutMs) :
    (c.awaitFrom h started (started + c.poll.timeoutMs) fuel poll).run.Obeys R.conduct i
      (fun r y _ => R.inv y.1 ∧ R.Awaited A h Z r y.1) x t := by
  -- A steady client that still waits has not reached the deadline, and its fuel lasts for further polls.
  have early {y : Memory × (Nat → Option ι)} {k : Nat} (hst : R.steady) (hy : R.inv y.1)
      (hk : k + 1 < y.1.pollsUntilDone) :
      c.poll.pollTime k < c.poll.timeoutMs ∧ k + 1 < Client.pollLimit c.poll.timeoutMs := by
    rw [R.polls_eq hy] at hk
    have hlt := (hp hst).1
    refine ⟨(hp hst).2 k hk, ?_⟩
    unfold Client.pollLimit
    omega
  induction fuel generalizing poll x t with
  | zero =>
    unfold Client.awaitFrom
    refine round_obeys c hA hZ hstill hw fun y s hs hk hy => ?_
    have hsteady : ¬ R.steady := fun hst => by
      have := (early hst hy.inv hk).2
      have := (ht hst).2
      omega
    split <;> exact ⟨hy.inv, .inr ⟨hsteady, trivial, hy.holds⟩⟩
  | succ fuel ih =>
    unfold Client.awaitFrom
    refine round_obeys c hA hZ hstill hw fun y s hs hk hy => ?_
    split
    · next hlate =>
      refine ⟨hy.inv, .inr ⟨fun hst => ?_, trivial, hy.holds⟩⟩
      have := (early hst hy.inv hk).1
      have := (ht hst).1
      have := hs hst
      omega
    · intro z hz
      refine ih (hy.drift hA hz) fun hst => ?_
      have := (ht hst).1
      have := (ht hst).2
      have := hs hst
      rw [PollPolicy.pollTime]
      omega

-- The fuel is a large number that must not be computed with, so it is a variable here.
private theorem clock_obeys (c : Client) (hA : R.Stable i A) (hZ : R.Finishes i A plan Z)
    (hstill : ∀ u, R.Still (Z u)) (hp : R.steady → c.poll.Patient R.polls) (hw : R.Waits i A h 0 plan x) {fuel : Nat}
    (hfuel : fuel = Client.pollLimit c.poll.timeoutMs) :
    (Program.clock fun started => (c.awaitFrom h started (started + c.poll.timeoutMs) fuel 0).run).Obeys R.conduct i
      (fun r y _ => R.inv y.1 ∧ R.Awaited A h Z r y.1) x t :=
  awaitFrom_obeys c hA hZ hstill hp hw fun _ => ⟨rfl, hfuel⟩

/-- An operation that is waited for ends with its plan carried out, unless the client gives up. -/
theorem awaitDone_obeys (c : Client) (hA : R.Stable i A) (hZ : R.Finishes i A plan Z)
    (hstill : ∀ u, R.Still (Z u)) (hp : R.steady → c.poll.Patient R.polls) (hw : R.Waits i A h 0 plan x) :
    (c.awaitDone h).run.Obeys R.conduct i (fun r y _ => R.inv y.1 ∧ R.Awaited A h Z r y.1) x t := by
  rw [c.run_awaitDone]
  exact clock_obeys c hA hZ hstill hp hw rfl

end Regime

end Fleet
