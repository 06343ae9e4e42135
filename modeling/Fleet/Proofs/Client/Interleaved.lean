import Fleet.Proofs.Client.Requests
import Fleet.Proofs.Conduct.Interleaving
import Fleet.Proofs.Memory.Canonical

/-!
# Clients whose calls are interleaved

The rules for clients on a platform without faults when the calls of others may come in between any two of their own
calls. `Regime.Achieves` is the triple that they are stated with. What has been read may be outdated before the next
call, so only what the others do not spoil is known after a call. Clocks show any time, so an operation that is waited
for may always time out; otherwise it ends with its effect carried out or refused (`Regime.achieves_submit`).
-/

namespace Fleet

open Memory

variable {ι α β : Type}

/-- The failure of a client that has waited too long for an operation. -/
def Failure.TimesOut : Failure → Prop
  | .timeout _ _ => True
  | _ => False

namespace Regime

/-- Nothing goes wrong on the platform. -/
structure Faultless (R : Regime ι) : Prop where
  steady : R.steady
  faultFree : ∀ m, R.inv m → m.FaultFree

/-- From a state in `A`, the action of `i` ends with a result in `B` or a failure in `E`, whatever the others do before
each of its calls and in the end. -/
structure Achieves (R : Regime ι) (i : ι) (A : Memory → Prop) (a : Action α) (B : α → Memory → Prop)
    (E : Failure → Memory → Prop) : Prop where
  heeds : ∀ x, R.inv x.1 → A x.1 → a.run.Heeds R.conduct i (fun r y => R.inv y.1 ∧ Ends B E r y.1) x

variable {R : Regime ι} {i : ι} {A : Memory → Prop} {B : α → Memory → Prop} {E : Failure → Memory → Prop}
  {x y : Memory × (Nat → Option ι)}

/-! ### Putting actions together -/

theorem inv_of_drift (hx : R.inv x.1) (hd : R.conduct.drift i x y) : R.inv y.1 := (hd hx).inv

theorem Stable.of_drift (hA : R.Stable i A) (hx : R.inv x.1) (hd : R.conduct.drift i x y) (h : A x.1) : A y.1 :=
  hA x.1 y.1 hx (hd hx).inv (hd hx).keeps h

theorem Achieves.conseq {A' : Memory → Prop} {B' : α → Memory → Prop} {E' : Failure → Memory → Prop} {a : Action α}
    (h : R.Achieves i A a B E) (hA : ∀ m, R.inv m → A' m → A m) (hB : ∀ v m, R.inv m → B v m → B' v m)
    (hE : ∀ f m, R.inv m → E f m → E' f m) : R.Achieves i A' a B' E' := by
  refine ⟨fun x hx hA' => ?_⟩
  have hheeds := h.heeds x hx (hA x.1 hx hA')
  rw [← Program.bind_done a.run]
  refine hheeds.bind fun r y hr z hz => ⟨(hr z hz).1, ?_⟩
  have hends := (hr z hz).2
  cases r with
  | ok v => exact hB v z.1 (hr z hz).1 hends
  | error f => exact hE f z.1 (hr z hz).1 hends

theorem achieves_throw {f : Failure} (hA : R.Stable i A) (h : ∀ m, R.inv m → A m → E f m) :
    R.Achieves i A (throw f : Action α) B E := by
  refine ⟨fun x hx hAx y hy => ?_⟩
  have hinv := inv_of_drift hx hy
  exact ⟨hinv, h y.1 hinv (hA.of_drift hx hy hAx)⟩

theorem Achieves.bind {a : Action α} {k : α → Action β} {C : β → Memory → Prop} (h : R.Achieves i A a B E)
    (hk : ∀ v, R.Achieves i (B v) (k v) C E) : R.Achieves i A (a >>= k) C E := by
  refine ⟨fun x hx hA => (h.heeds x hx hA).bind fun r y hr => ?_⟩
  cases r with
  | ok v =>
    have hy := hr y (R.conduct.drift_refl i y)
    exact (hk v).heeds y hy.1 hy.2
  | error f => exact fun z hz => hr z hz

theorem Achieves.outcome {a : Action α} (h : R.Achieves i A a B E) {E' : Failure → Memory → Prop} :
    R.Achieves i A a.outcome (Ends B E) E' :=
  ⟨fun x hx hA => (h.heeds x hx hA).bind fun _ _ hr z hz => hr z hz⟩

/-! ### Calls -/

/-- A call that cannot fail in transport is made once. -/
theorem heeds_send (c : Client) {call : Call} {Q : Except Failure call.Value → Memory × (Nat → Option ι) → Prop}
    (h : ∀ y, R.conduct.drift i x y → R.conduct.may i call y ∧
      (∀ text, (answer call y.1).1 ≠ .error (.transport text)) ∧
      ∀ z, R.conduct.drift i (R.conduct.after i call y) z → Q (answer call y.1).1 z) :
    (c.send call).run.Heeds R.conduct i Q x := by
  have honce (left : Nat) : (c.retry.retryFrom (Program.query (S := Cloud) call) left 0).Heeds R.conduct i
      (fun r z => Q r.1 z) x := by
    have hask : (Program.query (S := Cloud) call).Heeds R.conduct i
        (fun r z => (∀ text, r ≠ .error (.transport text)) ∧ Q r z) x := by
      intro y hy
      obtain ⟨hmay, hno, hQ⟩ := h y hy
      exact ⟨hmay, fun z hz => ⟨hno, hQ z hz⟩⟩
    unfold RetryPolicy.retryFrom
    refine hask.bind fun r y hr => ?_
    rcases r with f | v
    · cases f with
      | transport text => exact absurd rfl ((hr y (R.conduct.drift_refl i y)).1 text)
      | _ => exact fun z hz => (hr z hz).2
    · exact fun z hz => (hr z hz).2
  show ((c.retry.retryFrom (Program.query (S := Cloud) call) _ 0).bind fun r => .done r.1).Heeds R.conduct i Q x
  exact (honce _).bind fun r y hr => hr

/-- A call after which the platform stores what it has stored before. -/
theorem heeds_send_of_quiet (c : Client) {call : Call} (hx : R.inv x.1)
    {Q : Except Failure call.Value → Memory × (Nat → Option ι) → Prop}
    (hq : ∀ m, R.inv m → m.Quiet (answer call m).2) (hne : ∀ h, call ≠ .operation h)
    (hno : ∀ m text, R.inv m → (answer call m).1 ≠ .error (.transport text))
    (hQ : ∀ y, R.conduct.drift i x y → R.inv y.1 →
      ∀ z, R.conduct.drift i (R.conduct.after i call y) z → Q (answer call y.1).1 z) :
    (c.send call).run.Heeds R.conduct i Q x := by
  refine heeds_send c fun y hy => ?_
  have hinv := inv_of_drift hx hy
  exact ⟨may_of_quiet hinv (hq y.1 hinv) hne, fun text => hno y.1 text hinv, hQ y hy hinv⟩

/-! ### Reading -/

variable {kind : Kind} {scope : Scope} {name : String}

/-- Reading finds what is stored and stays; what it does not find has been missing at that time. -/
theorem achieves_fetch? (c : Client) (hA : R.Stable i A)
    (hstays : ∀ r, R.Stable i fun m => m.resources.find? (resourceKey kind scope name) = some r) :
    R.Achieves i A (c.fetch? kind scope name) (fun v m => A m ∧
      (∀ a, v = some a → m.resources.find? (resourceKey kind scope name) = some (Resource.ofRecord kind a)) ∧
      (v = none → ∃ m', R.inv m' ∧ A m' ∧ m'.resources.find? (resourceKey kind scope name) = none)) E := by
  refine ⟨fun x hx hAx => ?_⟩
  have hget : (c.send (.get kind scope name)).run.Heeds R.conduct i (fun r z => R.inv z.1 ∧ A z.1 ∧
      ∃ v, r = .ok v ∧ (∀ s, v = some s → z.1.resources.find? (resourceKey kind scope name) = some s) ∧
        (v = none → ∃ m', R.inv m' ∧ A m' ∧ m'.resources.find? (resourceKey kind scope name) = none)) x := by
    refine heeds_send_of_quiet c hx (fun m _ => m.quiet_get kind scope name) (by simp) (by simp [answer]) ?_
    intro y hy hinv z hz
    have hq := y.1.quiet_get kind scope name
    have hinv' : R.inv (R.conduct.after i (.get kind scope name) y).1 := R.inv_quiet hinv hq
    have hAy := hA.of_drift hx hy hAx
    have hAz := hA.of_drift hinv' hz (hA.still y.1 _ hinv hq hAy)
    refine ⟨inv_of_drift hinv' hz, hAz, y.1.find? kind scope name, rfl, fun s hs => ?_, fun hnone => ?_⟩
    · exact (hstays s).of_drift hinv' hz ((hstays s).still y.1 _ hinv hq hs)
    · exact ⟨y.1, hinv, hAy, hnone⟩
  refine hget.bind fun r y hr => ?_
  obtain ⟨hinv, -, v, rfl, hsome, -⟩ := hr y (R.conduct.drift_refl i y)
  cases v with
  | none =>
    intro z hz
    obtain ⟨hinv', hA', v, hv, -, hnone⟩ := hr z hz
    cases hv
    exact ⟨hinv', hA', fun a ha => absurd ha (by simp), fun _ => hnone rfl⟩
  | some s =>
    have hkind : s.kind = kind := (R.wellKeyed hinv).kind_eq (hsome s rfl)
    obtain ⟨a, ha, hs⟩ := Resource.exists_ofKind? hkind
    show (Program.done ((Resource.ofKind? kind s).map some)).Heeds R.conduct i _ y
    rw [ha]
    intro z hz
    obtain ⟨hinv', hA', v, hv, hsome', -⟩ := hr z hz
    cases hv
    refine ⟨hinv', hA', fun b hb => ?_, fun hnone => absurd hnone (by simp)⟩
    obtain rfl := Option.some.inj hb
    exact (hsome' s rfl).trans (congrArg some hs)

/-- What is stored is read. -/
theorem achieves_fetch_stored (c : Client) (hA : R.Stable i A)
    (hstays : ∀ r, R.Stable i fun m => m.resources.find? (resourceKey kind scope name) = some r)
    (hstored : ∀ m, R.inv m → A m → ∃ r, m.resources.find? (resourceKey kind scope name) = some r) :
    R.Achieves i A (c.fetch kind scope name) (fun v m =>
      m.resources.find? (resourceKey kind scope name) = some (Resource.ofRecord kind v)) E := by
  refine (achieves_fetch? c hA hstays).bind fun v => ?_
  cases v with
  | none =>
    refine ⟨fun x hx hnone => ?_⟩
    obtain ⟨m, hm, hAm, hmissing⟩ := hnone.2.2 rfl
    obtain ⟨r, hr⟩ := hstored m hm hAm
    rw [hmissing] at hr
    exact absurd hr (by simp)
  | some a =>
    refine ⟨fun x hx hsome y hy => ⟨inv_of_drift hx hy, ?_⟩⟩
    exact (hstays _).of_drift hx hy (hsome.2.1 a rfl)

/-! ### Waiting for operations -/

variable {h : OperationHandle} {k : Nat} {plan : Except OperationError Effect}
  {Z : Except OperationError Unit → Memory → Prop}

/-- A snapshot tells that the operation goes on, or that it is done with its plan carried out. -/
theorem snapshot_heeds (hR : R.Faultless) (c : Client) (hA : R.Stable i A) (hZ : R.Finishes i A plan Z)
    (hstable : ∀ u, R.Stable i (Z u)) (hw : R.Waits i A h k plan x) :
    (c.snapshot h).run.Heeds R.conduct i (fun r y => R.inv y.1 ∧ ∃ o, r = .ok o ∧
      ((o.isDone = false ∧ R.Waits i A h (k + 1) plan y) ∨
        (o.isDone = true ∧ ∃ u, Z u y.1 ∧ o.primaryError? = error? u))) x := by
  have hsend : (c.send (.operation h)).run.Heeds R.conduct i (fun r y => R.inv y.1 ∧ ∃ o, r = .ok o ∧
      ((o.isDone = false ∧ R.Waits i A h (k + 1) plan y) ∨
        (o.isDone = true ∧ ∃ u, Z u y.1 ∧ o.primaryError? = error? u))) x := by
    refine heeds_send c fun y hd => ?_
    have hy := hw.drift hA hd
    have hmay := hy.may hZ
    have hinv : R.inv (R.conduct.after i (.operation h) y).1 := (hy.allows hZ).inv
    have howns : Owns i h (R.conduct.after i (.operation h) y) := hy.owns.after _
    rcases hy.answer_cases with ⟨hnot, -⟩ | ⟨hnot, -⟩ | ⟨hk, hq, o, r, hans, hrun, hrec, haw⟩ |
      ⟨hq, o, hans, hdone, herr⟩
    · exact absurd hR.steady hnot
    · exact absurd hR.steady hnot
    · have hwaits : R.Waits i A h (k + 1) plan (R.conduct.after i (.operation h) y) :=
        ⟨hinv, hA.still y.1 _ hy.inv hq hy.holds, howns, .inl ⟨r, hrec, haw⟩⟩
      refine ⟨hmay, by rw [hans]; simp, fun z hz => ⟨inv_of_drift hinv hz, o, hans, .inl ⟨hrun, ?_⟩⟩⟩
      exact hwaits.drift hA hz
    · obtain ⟨hallow, hz⟩ := hZ y.1 hy.inv hy.holds
      have hZ' := (hstable _).still _ _ hallow.inv hq hz
      refine ⟨hmay, by rw [hans]; simp, fun z hz => ⟨inv_of_drift hinv hz, o, hans, .inr ⟨hdone, _, ?_, herr⟩⟩⟩
      exact (hstable _).of_drift hinv hz hZ'
  show ((c.send (.operation h)).run.bind _).Heeds R.conduct i _ x
  refine hsend.bind fun r y hr => ?_
  obtain ⟨-, o, rfl, -⟩ := hr y (R.conduct.drift_refl i y)
  exact fun z hz => hr z hz

/-- How waiting ends: the plan is carried out, or it has taken too long. -/
def Settles (Z : Except OperationError Unit → Memory → Prop) : Except Failure Summary → Memory → Prop
  | .ok _, m => Z (.ok ()) m
  | .error f, m => (∃ e, f.code? = some e.code ∧ Z (.error e) m) ∨ f.TimesOut

private theorem settles_settled {o : Operation} {u : Except OperationError Unit} {m : Memory} (hz : Z u m)
    (ho : o.primaryError? = error? u) : Settles Z (Client.settled h o) m := by
  unfold Client.settled
  rw [ho]
  rcases u with e | u
  · exact .inl ⟨e, rfl, hz⟩
  · exact hz

/-- One round of waiting: a snapshot, and if the operation goes on, a look at the clock. -/
private theorem round_heeds (hR : R.Faultless) (c : Client) (hA : R.Stable i A) (hZ : R.Finishes i A plan Z)
    (hstable : ∀ u, R.Stable i (Z u)) (hw : R.Waits i A h k plan x) (deadline : Nat) (giveUp : Nat → Failure)
    (hlate : ∀ t, (giveUp t).TimesOut) {next : Nat → Action Summary}
    (hnext : ∀ t y, R.Waits i A h (k + 1) plan y →
      (next t).run.Heeds R.conduct i (fun r y => R.inv y.1 ∧ Settles Z r y.1) y) :
    (do let o ← c.snapshot h
        if o.isDone then ExceptT.mk (.done (Client.settled h o))
        else
          let now ← ExceptT.lift Program.now
          if deadline ≤ now then throw (giveUp now) else next now : Action Summary).run.Heeds R.conduct i
      (fun r y => R.inv y.1 ∧ Settles Z r y.1) x := by
  refine (snapshot_heeds hR c hA hZ hstable hw).bind fun r y hr => ?_
  obtain ⟨-, o, rfl, ⟨hrun, hwaits⟩ | ⟨hdone, -⟩⟩ := hr y (R.conduct.drift_refl i y)
  · simp only [ExceptT.bindCont, hrun, Bool.false_eq_true, if_false]
    intro t
    show (if _ then _ else _ : Action Summary).run.Heeds R.conduct i _ y
    split
    · exact fun z hz => ⟨(hr z hz).1, .inr (hlate t)⟩
    · exact hnext t y hwaits
  · simp only [ExceptT.bindCont, hdone, if_true]
    intro z hz
    obtain ⟨hinv, o', ho', ⟨hrun, -⟩ | ⟨-, u, hu, herr⟩⟩ := hr z hz
    · cases ho'
      rw [hdone] at hrun
      exact absurd hrun (by simp)
    · cases ho'
      exact ⟨hinv, settles_settled hu herr⟩

private theorem awaitFrom_heeds (hR : R.Faultless) (c : Client) (hA : R.Stable i A) (hZ : R.Finishes i A plan Z)
    (hstable : ∀ u, R.Stable i (Z u)) (started deadline fuel poll : Nat) (hw : R.Waits i A h k plan x) :
    (c.awaitFrom h started deadline fuel poll).run.Heeds R.conduct i (fun r y => R.inv y.1 ∧ Settles Z r y.1) x := by
  let late (now : Nat) : Failure := .timeout h.name ((now - started) * Duration.perMilli)
  induction fuel generalizing poll k x with
  | zero =>
    unfold Client.awaitFrom
    refine round_heeds hR c hA hZ hstable hw deadline late (fun _ => trivial) fun t y hy z hz => ?_
    exact ⟨inv_of_drift hy.inv hz, .inr trivial⟩
  | succ fuel ih =>
    unfold Client.awaitFrom
    refine round_heeds hR c hA hZ hstable hw deadline late (fun _ => trivial) fun t y hy => ?_
    exact ih (poll + 1) hy

/-- An operation that is waited for ends with its plan carried out, unless that takes too long. -/
theorem awaitDone_heeds (hR : R.Faultless) (c : Client) (hA : R.Stable i A) (hZ : R.Finishes i A plan Z)
    (hstable : ∀ u, R.Stable i (Z u)) (hw : R.Waits i A h 0 plan x) :
    (c.awaitDone h).run.Heeds R.conduct i (fun r y => R.inv y.1 ∧ Settles Z r y.1) x := by
  have hclock (fuel : Nat) : (Program.clock fun started =>
      (c.awaitFrom h started (started + c.poll.timeoutMs) fuel 0).run).Heeds R.conduct i
        (fun r y => R.inv y.1 ∧ Settles Z r y.1) x :=
    fun started => awaitFrom_heeds hR c hA hZ hstable started _ fuel 0 hw
  exact hclock _

/-! ### Creating -/

/-- A request to create a resource leads to its effect or to the refusal, unless it takes too long. -/
theorem achieves_submit (hR : R.Faultless) (c : Client) {scope : Scope} {spec : ResourceSpec} {B : Memory → Prop}
    (hA : R.Stable i A) (hB : R.Stable i B) (hE : ∀ f, R.Stable i (E f))
    (heffect : ∀ m r, R.inv m → A m → Makes R.project scope spec r →
      R.Allows i m (m.apply (.create r)).2 ∧ Comes B E (m.apply (.create r)).1 (m.apply (.create r)).2)
    (hlate : ∀ m f, R.inv m → f.TimesOut → E f m) :
    R.Achieves i A (do let o ← c.submitInsert scope spec; c.awaitDone o) (fun _ => B) E := by
  refine ⟨fun x hx hAx => ?_⟩
  have hinsert : (c.send (.insert scope spec)).run.Heeds R.conduct i (fun r z => ∃ o s, r = .ok o ∧
      Makes R.project scope spec s ∧ R.Waits i A o 0 (.ok (.create s)) z) x := by
    refine heeds_send c fun y hy => ?_
    have hinv := inv_of_drift hx hy
    have hfree := hR.faultFree y.1 hinv
    obtain ⟨s, m₁, hmakes, -, -, -, ⟨hlost, -⟩ | ⟨hlost, -⟩ | ⟨o, hans, hs⟩⟩ := y.1.answer_insert scope spec
    · rw [hfree.lost] at hlost
      exact absurd hlost (by simp)
    · rw [hfree.lost] at hlost
      exact absurd hlost (by simp)
    · rw [R.project_eq hinv] at hmakes
      refine ⟨may_of_quiet hinv hs.quiet (by simp), by rw [hans]; simp, fun z hz => ⟨o, s, hans, hmakes, ?_⟩⟩
      have hplan : y.1.planFor s.summary.name (.create s) = .ok (.create s) := by rw [planFor, hfree.scripted]
      have hrecord := hs.record
      rw [hplan] at hrecord
      -- The operation has just been started, and it is the caller's own.
      have hwaits : R.Waits i A o 0 (.ok (.create s)) (R.conduct.after i (.insert scope spec) y) := by
        refine ⟨R.inv_quiet hinv hs.quiet, hA.still y.1 _ hinv hs.quiet (hA.of_drift hx hy hAx),
          ⟨y.1.operationCount + 1, Nat.le_of_eq hs.count.symm, hs.name, ?_⟩, .inl hrecord⟩
        exact if_pos ⟨by omega, Nat.le_of_eq hs.count.symm⟩
      exact hwaits.drift hA hz
  refine hinsert.bind fun r y hr => ?_
  obtain ⟨o, s, rfl, hmakes, hw⟩ := hr y (R.conduct.drift_refl i y)
  have hstable (u : Except OperationError Unit) : R.Stable i (Comes B E u) := by
    rcases u with e | u
    · exact fun m m' hm hm' hk hc f hf => hE f m m' hm hm' hk (hc f hf)
    · exact hB
  have hfinishes : R.Finishes i A (.ok (.create s)) (Comes B E) := fun m hm hAm => heffect m s hm hAm hmakes
  have hawait := awaitDone_heeds hR c hA hfinishes hstable hw
  show (c.awaitDone o).run.Heeds R.conduct i _ y
  rw [← Program.bind_done (c.awaitDone o).run]
  refine hawait.bind fun r z hr w hwz => ⟨(hr w hwz).1, ?_⟩
  have hsettles := (hr w hwz).2
  rcases r with f | v
  · rcases hsettles with ⟨e, he, hf⟩ | hf
    · exact hf f he
    · exact hlate w.1 f (hr w hwz).1 hf
  · exact hsettles

end Regime

end Fleet
