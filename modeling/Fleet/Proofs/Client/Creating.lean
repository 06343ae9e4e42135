import Fleet.Proofs.Client.Requests

/-!
# Rules for creating resources

A request to create a resource may have to be sent again, although the first one has taken effect: then the
resource is there, the next attempt is refused, and `create` takes the resource over (`does_create`). A resource
that is shared is taken over whoever has created it (`does_ensure`).
-/

namespace Fleet

open Memory

variable {ι α β : Type}

/-- A failure that the platform has caused. -/
def Failure.FromPlatform (f : Failure) : Prop := f.GivesUp ∨ ∃ code, f.code? = some code

namespace Memory

/-- A request for a zonal resource names a zone. -/
def Fits (scope : Scope) (spec : ResourceSpec) : Prop := spec.kind.isZonal = true → ∃ z, scope = .zone z

theorem Makes.key_eq {project : String} {scope : Scope} {spec : ResourceSpec} {r : Resource}
    (h : Makes project scope spec r) (hs : Fits scope spec) : r.key = resourceKey spec.kind scope spec.name := by
  obtain ⟨m, -, rfl⟩ := h
  cases spec with
  | network n => rfl
  | firewall f => rfl
  | disk d =>
    obtain ⟨z, rfl⟩ := hs rfl
    rfl
  | «instance» i =>
    obtain ⟨z, rfl⟩ := hs rfl
    rfl

theorem Makes.name_eq {project : String} {scope : Scope} {spec : ResourceSpec} {r : Resource}
    (h : Makes project scope spec r) : r.name = spec.name := by
  obtain ⟨m, -, rfl⟩ := h
  cases spec <;> rfl

theorem apply_create_of_stored {m : Memory} {r s : Resource} (h : m.resources.find? r.key = some s) :
    m.apply (.create r) = (.error (alreadyExists r), m) := by
  rcases m.apply_create r with ⟨-, ha⟩ | ⟨hn, -⟩ | ⟨hn, -⟩
  · exact ha
  · rw [hn] at h
    exact absurd h (by simp)
  · rw [hn] at h
    exact absurd h (by simp)

end Memory

namespace Regime

variable {R : Regime ι} {i : ι} {A : Memory → Prop} {C : Resource → Memory → Prop} {E : Failure → Memory → Prop}
  {kind : Kind} {scope : Scope} {spec : ResourceSpec}

/-- Whether the answer to a request with a name may get lost. -/
def Lossy (R : Regime ι) (name : String) : Prop := ∃ m, R.inv m ∧ m.lostInserts.contains name = true

/-- What has to be known of a request to create a resource: from `A`, the new resource `r` leads to `C r`. -/
structure Creation (R : Regime ι) (i : ι) (A : Memory → Prop) (scope : Scope) (spec : ResourceSpec)
    (C : Resource → Memory → Prop) (E : Failure → Memory → Prop) : Prop where
  fits : Fits scope spec
  stable : R.Stable i A
  stable_created : ∀ r, R.Stable i (C r)
  still_failed : ∀ f, R.Still (E f)
  present : ∀ m r, R.inv m → C r m → m.resources.find? (resourceKey spec.kind scope spec.name) = some r
  effect : ∀ m r, R.inv m → A m → Makes R.project scope spec r → R.Unscripted spec.name m →
    R.Allows i m (m.apply (.create r)).2 ∧ Comes (C r) E (m.apply (.create r)).1 (m.apply (.create r)).2
  ordered : ∀ m x, R.inv m → A m → m.scriptedFailures.find? spec.name = some x →
    ∀ m' f, R.inv m' → A m' → f.code? = some x.code → E f m'
  given_up : ¬ R.steady → ∀ m f, R.inv m → A m → f.GivesUp → E f m
  /-- The resource has been created, but the answer is lost. -/
  lost : R.Lossy spec.name → ∀ m r f, R.inv m → C r m → f.FromPlatform → E f m

/-- Before the first attempt nothing is known but `A`; after a lost answer the resource is there. -/
private def Trying (R : Regime ι) (A : Memory → Prop) (spec : ResourceSpec) (C : Resource → Memory → Prop)
    (made : Nat) (m : Memory) : Prop :=
  R.inv m ∧ ((made = 0 ∧ A m) ∨ (0 < made ∧ R.Lossy spec.name ∧ ∃ r, C r m))

/-- What is left of a creation after the request has been sent. -/
def afterSending (c : Client) (kind : Kind) (scope : Scope) (name : String)
    (p : Except Failure OperationHandle × Nat) : Action kind.Record := do
  let done ← match p.1 with
    | .ok h => (c.awaitDone h).outcome
    | .error f => pure (.error f)
  match done with
  | .ok _ => c.fetch kind scope name
  | .error f =>
    if f.isAlreadyExists ∧ 1 < p.2 then c.fetch kind scope name else throw f

theorem run_create (c : Client) (scope : Scope) (spec : ResourceSpec) :
    (c.create spec.kind scope spec).run =
      (c.retry.retryCounted (Action.call (.insert scope spec)).run).bind fun p =>
        (afterSending c spec.kind scope spec.name p).run := by
  unfold Client.create
  simp only [ne_eq, not_true_eq_false, if_false]
  show Program.bind (Program.bind _ _) _ = _
  rw [Program.bind_assoc]
  refine congrArg (Program.bind _) (funext fun p => ?_)
  rcases p with ⟨f | h, n⟩
  · rfl
  · simp only [Function.comp_apply, Program.bind, ExceptT.bindCont, afterSending]
    rfl

private theorem does_take (c : Client) (h : R.Creation i A scope spec C E) :
    R.Does i (fun m => ∃ r, C r m) (c.fetch spec.kind scope spec.name)
      (fun v m => C (Resource.ofRecord spec.kind v) m) E := by
  have hstable : R.Stable i fun m => ∃ r, C r m := Stable.exists h.stable_created
  refine (does_fetch_stored c spec.kind scope spec.name hstable.still fun m hm ⟨r, hr⟩ => ⟨r, ?_⟩).conseq
    (fun _ _ hm => hm) (fun v m hm ⟨⟨r, hr⟩, hv⟩ => ?_) (fun _ _ _ hf => hf)
  · exact h.present m r hm hr
  · rw [h.present m r hm hr] at hv
    exact Option.some.inj hv ▸ hr

/-- What is left of a creation after the `n`-th attempt comes to a good end. -/
private def Concludes (R : Regime ι) (i : ι) (c : Client) (scope : Scope) (spec : ResourceSpec)
    (C : Resource → Memory → Prop) (E : Failure → Memory → Prop) (p : Except Failure OperationHandle × Nat)
    (y : Memory × (Nat → Option ι)) (t : Nat) : Prop :=
  (afterSending c spec.kind scope spec.name p).run.Obeys R.conduct i
    (fun v z _ => R.inv z.1 ∧ Ends (fun v m => C (Resource.ofRecord spec.kind v) m) E v z.1) y t

variable {c : Client} {n : Nat} {x y : Memory × (Nat → Option ι)} {t : Nat}

private theorem concludes_of_failed (hn : n ≤ 1) {f : Failure} (hy : R.inv y.1)
    (hE : E f y.1) : Concludes R i c scope spec C E (.error f, n) y t := by
  show (if _ then _ else _ : Action spec.kind.Record).run.Obeys R.conduct i _ y t
  rw [if_neg fun hx => by omega]
  exact ⟨hy, hE⟩

private theorem concludes_of_done (h : R.Creation i A scope spec C E) {o : OperationHandle} {r : Resource} (hn : n ≤ 1)
    (ho : (c.awaitDone o).run.Obeys R.conduct i (fun v z _ => R.inv z.1 ∧ Ends (fun _ => C r) E v z.1) y t) :
    Concludes R i c scope spec C E (.ok o, n) y t := by
  refine Program.obeys_bind.2 (Program.obeys_bind.2 (ho.mono fun v z s ⟨hz, hv⟩ => ?_))
  rcases v with f | v
  · exact concludes_of_failed hn hz hv
  · exact (does_take c h).obeys z s hz ⟨r, hv⟩

/-- An attempt after the resource has been created fails, and then the resource is taken over or given up. -/
private theorem concludes_of_created (h : R.Creation i A scope spec C E) (hl : R.Lossy spec.name) {f : Failure}
    (hy : R.inv y.1) (hC : ∃ r, C r y.1) (hf : f.FromPlatform) : Concludes R i c scope spec C E (.error f, n) y t := by
  show (if _ then _ else _ : Action spec.kind.Record).run.Obeys R.conduct i _ y t
  split
  · exact (does_take c h).obeys y t hy hC
  · obtain ⟨r, hr⟩ := hC
    exact ⟨hy, h.lost hl y.1 r f hy hr hf⟩

private theorem Creation.apply_eq (h : R.Creation i A scope spec C E) {r r' : Resource}
    (hr : Makes R.project scope spec r') {m : Memory} (hm : R.inv m) (hC : C r m) :
    m.apply (.create r') = (.error (alreadyExists r'), m) := by
  have hfound := h.present m r hm hC
  rw [← hr.key_eq h.fits] at hfound
  exact apply_create_of_stored hfound

/-- An operation that was started after the resource has been created fails, too. -/
private theorem concludes_of_submitted (hp : R.Patient c) (h : R.Creation i A scope spec C E) (hl : R.Lossy spec.name)
    {r r' : Resource} (hr : Makes R.project scope spec r') {q : Call} {o : OperationHandle} (hx : R.inv x.1)
    (hC : C r x.1) (hs : x.1.Submitted r'.summary (.create r') o (answer q x.1).2) :
    Concludes R i c scope spec C E (.ok o, n) (R.conduct.after i q x) t := by
  have hchange : R.Change i (C r) (fun _ => True) spec.name (.create r') (fun _ => False)
      (fun f m => C r m ∧ f.FromPlatform) := by
    refine ⟨h.stable_created r, fun _ _ _ _ hB => hB, fun f m m' hm hq hE => ?_, fun m hm hCm _ => ?_,
      fun m e _ _ _ _ m' f _ hC' hf => ⟨hC', .inr ⟨_, hf⟩⟩, fun _ m f _ hC' hf => ⟨hC', .inl hf⟩⟩
    · exact ⟨(h.stable_created r).still m m' hm hq hE.1, hE.2⟩
    · rw [h.apply_eq hr hm hCm]
      exact ⟨allows_of_quiet hm (.refl m), fun f hf => ⟨hCm, .inr ⟨_, hf⟩⟩⟩
  have hawait := hchange.awaited hp hr.name_eq hx hC trivial hs t
  refine Program.obeys_bind.2 (Program.obeys_bind.2 (hawait.mono fun v z s' ⟨hz, hv⟩ => ?_))
  rcases v with f | v
  · exact concludes_of_created h hl hz ⟨r, hv.1⟩ hv.2
  · exact hv.elim

/-- How an attempt has to end: a failure of transport leaves everything ready for the next attempt. -/
private def AttemptEnds (R : Regime ι) (i : ι) (c : Client) (A : Memory → Prop) (scope : Scope) (spec : ResourceSpec)
    (C : Resource → Memory → Prop) (E : Failure → Memory → Prop) (made : Nat) (r : Except Failure OperationHandle)
    (y : Memory × (Nat → Option ι)) (t : Nat) : Prop :=
  RetryPolicy.Attempted
    (fun text => Concludes R i c scope spec C E (.error (.transportExhausted (made + 1) text), made + 1) y t ∧
      ∀ z (_ : Nat), R.conduct.drift i y z → Trying R A spec C (made + 1) z.1)
    (fun r => Concludes R i c scope spec C E (r, made + 1) y t) r

private theorem attemptEnds_of_ne {made : Nat} {r : Except Failure OperationHandle}
    (hr : ∀ text, r ≠ .error (.transport text)) (h : Concludes R i c scope spec C E (r, made + 1) y t) :
    AttemptEnds R i c A scope spec C E made r y t :=
  RetryPolicy.attempted_of_ne hr h

/-- When the answer to an insert that has taken effect is lost, the resource is there. -/
private theorem attemptEnds_of_lost (h : R.Creation i A scope spec C E) (hl : R.Lossy spec.name) {made : Nat}
    {r : Resource} {text : String} (hy : R.inv y.1) (hC : C r y.1) :
    AttemptEnds R i c A scope spec C E made (.error (.transport text)) y t := by
  refine ⟨concludes_of_created h hl hy ⟨r, hC⟩ (.inl trivial), fun z _ hz => ?_⟩
  have hleaves := hz hy
  exact ⟨hleaves.inv, .inr ⟨Nat.succ_pos _, hl, r, h.stable_created r y.1 z.1 hy hleaves.inv hleaves.keeps hC⟩⟩

private theorem attempt_first (hp : R.Patient c) (h : R.Creation i A scope spec C E) (hx : R.inv x.1) (hA : A x.1) :
    (Action.call (.insert scope spec)).run.Obeys R.conduct i (AttemptEnds R i c A scope spec C E 0) x t := by
  obtain ⟨r, m₁, hmakes, hq, -, -, hcases⟩ := x.1.answer_insert scope spec
  rw [R.project_eq hx] at hmakes
  have hx₁ := R.inv_quiet hx hq
  have hA₁ := h.stable.still x.1 m₁ hx hq hA
  have carried (hlost : x.1.lostInserts.contains spec.name = true) :=
    h.effect m₁ r hx₁ hA₁ hmakes fun ht => hq.scripted_none (R.lost_unscripted ht hx hlost)
  show R.conduct.may i _ x ∧ AttemptEnds R i c A scope spec C E 0 (answer (.insert scope spec) x.1).1 _ t
  -- When the answer is lost, the effect has been refused or has come through; otherwise an operation has started.
  rcases hcases with ⟨hlost, e, he, hans⟩ | ⟨hlost, hok, text, hans⟩ | ⟨o, hans, hs⟩
  · obtain ⟨hallow, hcomes⟩ := carried hlost
    have hst : (R.conduct.after i (.insert scope spec) x).1 = (m₁.apply (.create r)).2 := congrArg Prod.snd hans
    rw [he] at hcomes
    refine ⟨⟨by simp, by rw [hans]; exact hallow.of_quiet hx hq (.refl _)⟩, ?_⟩
    rw [hans]
    refine attemptEnds_of_ne (by simp [rejection]) (concludes_of_failed (Nat.le_refl 1) ?_ ?_)
    · rw [hst]
      exact hallow.inv
    · rw [hst]
      exact hcomes _ rfl
  · obtain ⟨hallow, hcomes⟩ := carried hlost
    have hst : (R.conduct.after i (.insert scope spec) x).1 = (m₁.apply (.create r)).2 := congrArg Prod.snd hans
    rw [hok] at hcomes
    refine ⟨⟨by simp, by rw [hans]; exact hallow.of_quiet hx hq (.refl _)⟩, ?_⟩
    rw [hans]
    refine attemptEnds_of_lost h ⟨x.1, hx, hlost⟩ (r := r) ?_ ?_
    · rw [hst]
      exact hallow.inv
    · rw [hst]
      exact hcomes
  · refine ⟨may_of_quiet hx hs.quiet (by simp), ?_⟩
    rw [hans]
    have hchange : R.Change i A (fun _ => True) spec.name (.create r) (C r) E :=
      ⟨h.stable, (h.stable_created r).still, h.still_failed,
        fun m hm hAm hun => h.effect m r hm hAm hmakes hun, fun m x hm hAm _ => h.ordered m x hm hAm, h.given_up⟩
    exact attemptEnds_of_ne (by simp)
      (concludes_of_done h (Nat.le_refl 1) (hchange.awaited hp hmakes.name_eq hx hA trivial hs t))

private theorem attempt_again (hp : R.Patient c) (h : R.Creation i A scope spec C E) {made : Nat}
    (hl : R.Lossy spec.name) {r : Resource} (hx : R.inv x.1) (hC : C r x.1) :
    (Action.call (.insert scope spec)).run.Obeys R.conduct i (AttemptEnds R i c A scope spec C E made) x t := by
  obtain ⟨r', m₁, hmakes, hq, -, -, hcases⟩ := x.1.answer_insert scope spec
  rw [R.project_eq hx] at hmakes
  have hx₁ := R.inv_quiet hx hq
  have hC₁ := (h.stable_created r).still x.1 m₁ hx hq hC
  -- What the earlier attempt has created is in the way of every further one.
  have hrefused := h.apply_eq hmakes hx₁ hC₁
  show R.conduct.may i _ x ∧ AttemptEnds R i c A scope spec C E made (answer (.insert scope spec) x.1).1 _ t
  rcases hcases with ⟨-, e, -, hans⟩ | ⟨-, hok, -⟩ | ⟨o, hans, hs⟩
  · rw [hrefused] at hans
    have hst : (R.conduct.after i (.insert scope spec) x).1 = m₁ := congrArg Prod.snd hans
    refine ⟨may_of_quiet hx (by rw [hans]; exact hq) (by simp), ?_⟩
    rw [hans]
    refine attemptEnds_of_ne (by simp [rejection]) (concludes_of_created h hl ?_ ⟨r, ?_⟩ (.inr ⟨_, rfl⟩))
    · rw [hst]
      exact hx₁
    · rw [hst]
      exact hC₁
  · rw [hrefused] at hok
    exact absurd hok (by simp)
  · refine ⟨may_of_quiet hx hs.quiet (by simp), ?_⟩
    rw [hans]
    exact attemptEnds_of_ne (by simp) (concludes_of_submitted hp h hl hmakes hx hC hs)

/-- Creating a resource leads to the new resource, whether or not an answer was lost on the way. -/
theorem does_create (hp : R.Patient c) (h : R.Creation i A scope spec C E) :
    R.Does i A (c.create spec.kind scope spec) (fun v m => C (Resource.ofRecord spec.kind v) m) E := by
  refine ⟨fun x t hx hA => ?_⟩
  rw [run_create]
  refine Program.obeys_bind.2 (c.retry.retryFrom_obeys (P := fun made y _ => Trying R A spec C made y.1)
    (fun made y s hy => ?_) _ 0 ⟨hx, .inl ⟨rfl, hA⟩⟩)
  obtain ⟨hinv, ⟨rfl, hAy⟩ | ⟨-, hl, r, hC⟩⟩ := hy
  · exact attempt_first hp h hinv hAy
  · exact attempt_again hp h hl hinv hC

/-! ### Shared resources -/

/-- What has to be known of a request to create a resource that is shared and never goes while `i` works. Creating
it does not touch `A`. -/
structure Sharing (R : Regime ι) (i : ι) (A : Memory → Prop) (scope : Scope) (spec : ResourceSpec)
    (E : Failure → Memory → Prop) : Prop where
  fits : Fits scope spec
  /-- The resource needs no other ones. -/
  self_contained : ∀ (m : Memory) r, Makes R.project scope spec r → m.missingReference? r = none
  stable : R.Stable i A
  still_failed : ∀ f, R.Still (E f)
  stays : ∀ r, R.Stable i fun m => m.resources.find? (resourceKey spec.kind scope spec.name) = some r
  effect : ∀ m r, R.inv m → A m → Makes R.project scope spec r → R.Unscripted spec.name m →
    m.resources.find? (resourceKey spec.kind scope spec.name) = none →
    R.Allows i m ((m.log (.insert r.kind r.name)).seed r) ∧ A ((m.log (.insert r.kind r.name)).seed r)
  /-- After a failure that was ordered, the resource need not be there, even when the failure says so. -/
  ordered : ∀ m x, R.inv m → A m → m.scriptedFailures.find? spec.name = some x →
    ∀ m' f, R.inv m' → A m' → (f.code? = some x.code ∨ ∃ text, f = .missing text) → E f m'
  given_up : ¬ R.steady ∨ R.Lossy spec.name → ∀ m f, R.inv m → A m → f.GivesUp → E f m

/-- The resource of a request is there. -/
def Stored (A : Memory → Prop) (scope : Scope) (spec : ResourceSpec) (m : Memory) : Prop :=
  A m ∧ ∃ r, m.resources.find? (resourceKey spec.kind scope spec.name) = some r

/-- How creating a shared resource may fail: it is there already, its failure was ordered, or nothing is known. -/
private def SharedFails (R : Regime ι) (A : Memory → Prop) (scope : Scope) (spec : ResourceSpec) (f : Failure)
    (m : Memory) : Prop :=
  A m ∧ ((f.code? = some .alreadyExists ∧ Stored A scope spec m) ∨
    (∃ m₀ x, R.inv m₀ ∧ A m₀ ∧ m₀.scriptedFailures.find? spec.name = some x ∧ f.code? = some x.code) ∨
    ((¬ R.steady ∨ R.Lossy spec.name) ∧ f.GivesUp))

theorem Sharing.stable_stored (h : R.Sharing i A scope spec E) : R.Stable i (Stored A scope spec) :=
  h.stable.and (Stable.exists h.stays)

/-- The effect of creating a shared resource: afterwards it is there in any case. -/
theorem Sharing.apply (h : R.Sharing i A scope spec E) {m : Memory} {r : Resource} (hm : R.inv m) (hA : A m)
    (hr : Makes R.project scope spec r) (hun : R.Unscripted spec.name m) :
    R.Allows i m (m.apply (.create r)).2 ∧ Stored A scope spec (m.apply (.create r)).2 ∧
      ∀ e, (m.apply (.create r)).1 = .error e → e.code = .alreadyExists := by
  have hkey := hr.key_eq h.fits
  rcases m.apply_create r with ⟨⟨s, hs⟩, ha⟩ | ⟨-, k, hk, -⟩ | ⟨hn, -, ha⟩
  · rw [ha]
    refine ⟨allows_of_quiet hm (.refl m), ⟨hA, s, hkey ▸ hs⟩, fun e he => ?_⟩
    cases he
    rfl
  · rw [h.self_contained m r hr] at hk
    exact absurd hk (by simp)
  · rw [hkey] at hn
    obtain ⟨hallow, hA'⟩ := h.effect m r hm hA hr hun hn
    rw [ha]
    refine ⟨hallow, ⟨hA', r, ?_⟩, fun e he => absurd he (by simp)⟩
    exact (OrderedMap.find?_insert _ _ _ _).trans (if_pos hkey.symm)

private theorem Sharing.change (h : R.Sharing i A scope spec E) {r : Resource} (hr : Makes R.project scope spec r) :
    R.Change i A (fun _ => True) spec.name (.create r) (Stored A scope spec) (SharedFails R A scope spec) := by
  refine ⟨h.stable, h.stable_stored.still, fun f m m' hm hq hE => ?_, fun m hm hAm hun => ?_,
    fun m x hm hAm _ hx m' f _ hA' hf => ⟨hA', .inr (.inl ⟨m, x, hm, hAm, hx, hf⟩)⟩,
    fun hst m f _ hAm hf => ⟨hAm, .inr (.inr ⟨.inl hst, hf⟩)⟩⟩
  · refine ⟨h.stable.still m m' hm hq hE.1, hE.2.imp_left fun ⟨hc, hs⟩ => ⟨hc, ?_⟩⟩
    exact h.stable_stored.still m m' hm hq hs
  · obtain ⟨hallow, hs, he⟩ := h.apply hm hAm hr hun
    refine ⟨hallow, ?_⟩
    rcases hu : (m.apply (.create r)).1 with e | u
    · intro f hf
      rw [he e hu] at hf
      exact ⟨hs.1, .inl ⟨hf, hs⟩⟩
    · exact hs

private theorem does_submitShared (hp : R.Patient c) (h : R.Sharing i A scope spec E) :
    R.Does i A (do let o ← c.submitInsert scope spec; c.awaitDone o) (fun _ => Stored A scope spec)
      (SharedFails R A scope spec) := by
  refine ⟨fun x t hx hA => ?_⟩
  refine obeys_action_bind (Program.obeys_bind.2 (c.retry.retryFrom_obeys
    (P := fun made y _ => R.inv y.1 ∧ A y.1) (fun made y s ⟨hy, hAy⟩ => ?_) _ 0 ⟨hx, hA⟩))
  obtain ⟨r, m₁, hmakes, hq, -, -, hcases⟩ := y.1.answer_insert scope spec
  rw [R.project_eq hy] at hmakes
  have hy₁ := R.inv_quiet hy hq
  have hA₁ := h.stable.still y.1 m₁ hy hq hAy
  have carried (hlost : y.1.lostInserts.contains spec.name = true) :=
    h.apply hy₁ hA₁ hmakes fun ht => hq.scripted_none (R.lost_unscripted ht hy hlost)
  show R.conduct.may i _ y ∧ RetryPolicy.Attempted _ _ (answer (.insert scope spec) y.1).1
  rcases hcases with ⟨hlost, e, he, hans⟩ | ⟨hlost, hok, text, hans⟩ | ⟨o, hans, hs⟩
  · obtain ⟨hallow, hstored, hcode⟩ := carried hlost
    have hst : (R.conduct.after i (.insert scope spec) y).1 = (m₁.apply (.create r)).2 := congrArg Prod.snd hans
    refine ⟨⟨by simp, by rw [hans]; exact hallow.of_quiet hy hq (.refl _)⟩, ?_⟩
    rw [hans]
    refine RetryPolicy.attempted_of_ne (by simp [rejection]) ?_
    show R.inv (R.conduct.after i (.insert scope spec) y).1 ∧
      SharedFails R A scope spec (rejection e) (R.conduct.after i (.insert scope spec) y).1
    rw [hst]
    exact ⟨hallow.inv, hstored.1, .inl ⟨congrArg some (hcode e he), hstored⟩⟩
  · obtain ⟨hallow, hstored, -⟩ := carried hlost
    have hst : (R.conduct.after i (.insert scope spec) y).1 = (m₁.apply (.create r)).2 := congrArg Prod.snd hans
    refine ⟨⟨by simp, by rw [hans]; exact hallow.of_quiet hy hq (.refl _)⟩, ?_⟩
    rw [hans]
    refine ⟨?_, fun z _ hz => ?_⟩
    · show R.inv (R.conduct.after i (.insert scope spec) y).1 ∧
        SharedFails R A scope spec _ (R.conduct.after i (.insert scope spec) y).1
      rw [hst]
      exact ⟨hallow.inv, hstored.1, .inr (.inr ⟨.inr ⟨y.1, hy, hlost⟩, trivial⟩)⟩
    · rw [← hst] at hallow hstored
      have hleaves := hz hallow.inv
      exact ⟨hleaves.inv, h.stable _ z.1 hallow.inv hleaves.inv hleaves.keeps hstored.1⟩
  · refine ⟨may_of_quiet hy hs.quiet (by simp), ?_⟩
    rw [hans]
    refine RetryPolicy.attempted_of_ne (by simp) ?_
    show (Program.done (Except.ok o)).Obeys R.conduct i _ _ s
    exact Program.obeys_done.2 ((h.change hmakes).awaited hp hmakes.name_eq hy hAy trivial hs s)

private theorem does_createShared (hp : R.Patient c) (h : R.Sharing i A scope spec E) :
    R.Does i A (c.createShared spec.kind scope spec.name spec) (fun v m => A m ∧
      m.resources.find? (resourceKey spec.kind scope spec.name) = some (Resource.ofRecord spec.kind v)) E := by
  have taken : R.Does i (Stored A scope spec) (c.fetch spec.kind scope spec.name) (fun v m => A m ∧
      m.resources.find? (resourceKey spec.kind scope spec.name) = some (Resource.ofRecord spec.kind v)) E :=
    (does_fetch_stored c _ _ _ h.stable_stored.still fun m _ hm => hm.2).conseq (fun _ _ hm => hm)
      (fun _ _ _ hv => ⟨hv.1.1, hv.2⟩) fun _ _ _ hf => hf
  refine (does_submitShared hp h).outcome.bind fun r => ?_
  rcases r with f | v
  · show R.Does i (SharedFails R A scope spec f) (if f.isAlreadyExists = true then _ else throw f) _ E
    by_cases hf : f.isAlreadyExists = true
    · rw [if_pos hf]
      have hcode : f.code? = some .alreadyExists := by simpa [Failure.isAlreadyExists] using hf
      refine ⟨fun x t hx hfails => ?_⟩
      -- It exists indeed, or the platform was made to say so, or the client has given up.
      obtain ⟨hAx, ⟨-, hs⟩ | ⟨m₀, e, hm₀, hA₀, he, hef⟩ | ⟨-, hgone⟩⟩ := hfails
      · exact taken.obeys x t hx hs
      · refine ((does_fetch c spec.kind scope spec.name h.stable.still).conseq (fun _ _ hm => hm)
          (fun _ _ _ hv => hv) (fun g m hm hg => ?_)).obeys x t hx hAx
        exact h.ordered m₀ e hm₀ hA₀ he m g hm hg.1 (.inr ⟨_, hg.2.2⟩)
      · cases f <;> simp [Failure.GivesUp, Failure.code?] at hgone hcode
    · rw [if_neg hf]
      refine does_throw fun m hm hfails => ?_
      obtain ⟨hAm, ⟨hcode, -⟩ | ⟨m₀, e, hm₀, hA₀, he, hef⟩ | ⟨hgone, hup⟩⟩ := hfails
      · exact absurd (by simp [Failure.isAlreadyExists, hcode]) hf
      · exact h.ordered m₀ e hm₀ hA₀ he m f hm hAm (.inl hef)
      · exact h.given_up hgone m f hm hAm hup
  · exact taken

/-- Ensuring a shared resource leads to a state in which it is there. -/
theorem does_ensure (hp : R.Patient c) (h : R.Sharing i A scope spec E) :
    R.Does i A (c.ensure spec.kind scope spec.name spec) (fun v m => A m ∧
      m.resources.find? (resourceKey spec.kind scope spec.name) = some (Resource.ofRecord spec.kind v)) E := by
  refine ⟨fun x t hx hA => ?_⟩
  have hfetch := (does_fetch? (i := i) (E := E) c spec.kind scope spec.name h.stable.still).obeys x t hx hA
  refine Program.obeys_bind.2 (Program.obeys_bind.2 (hfetch.mono fun r y s ⟨hy, hr⟩ => ?_))
  rcases r with f | v
  · exact ⟨hy, hr⟩
  · cases v with
    | some a => exact ⟨hy, hr⟩
    | none => exact Program.obeys_bind.2 (((does_createShared hp h).obeys y s hy hr.1).mono fun _ _ _ hv => hv)

end Regime

end Fleet
