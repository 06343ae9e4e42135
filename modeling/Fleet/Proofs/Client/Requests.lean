import Fleet.Proofs.Client.Waiting

/-!
# Rules for requests

What a client achieves with one request on the platform in memory: reading (`does_fetch?`, `does_fetch`,
`does_list`) and changes that are waited for. `Change` collects what has to be known of an effect before an
operation with it may be started: that carrying it out is allowed, and how the request ends when it is carried
out, refused or given up.
-/

namespace Fleet

open Memory

variable {ι α β : Type}

namespace Regime

variable {R : Regime ι} {i : ι} {A : Memory → Prop} {B : α → Memory → Prop} {E : Failure → Memory → Prop}

theorem may_of_quiet {q : Call} {x : Memory × (Nat → Option ι)} (hx : R.inv x.1)
    (hq : x.1.Quiet (answer q x.1).2) (hne : ∀ h, q ≠ .operation h) : R.conduct.may i q x :=
  ⟨fun h hh => absurd hh (hne h), allows_of_quiet hx hq⟩

/-! ### Reading -/

/-- Reading finds what is stored. -/
theorem does_fetch? (c : Client) (kind : Kind) (scope : Scope) (name : String) (hA : R.Still A) :
    R.Does i A (c.fetch? kind scope name) (fun v m => A m ∧
      m.resources.find? (resourceKey kind scope name) = v.map (Resource.ofRecord kind)) E := by
  refine ⟨fun x t hx hAx => ?_⟩
  refine Program.obeys_bind.2 (obeys_send c (may_of_quiet hx (x.1.quiet_get _ _ _) (by simp)) (by simp [answer]) ?_)
  have hq := x.1.quiet_get kind scope name
  have hA' := hA x.1 _ hx hq hAx
  have hinv := R.inv_quiet hx hq
  show ((ExceptT.bindCont _ (.ok (x.1.find? kind scope name)) : Program Cloud _)).Obeys R.conduct i _ _ t
  unfold find?
  cases hf : x.1.resources.find? (resourceKey kind scope name) with
  | none => exact ⟨hinv, hA', hf⟩
  | some r =>
    have hk : r.kind = kind := (R.wellKeyed hx).kind_eq hf
    obtain ⟨a, ha, hr⟩ := Resource.exists_ofKind? hk
    simp only [ExceptT.bindCont, ha]
    exact ⟨hinv, hA', hf.trans (congrArg some hr)⟩

theorem does_fetch (c : Client) (kind : Kind) (scope : Scope) (name : String) (hA : R.Still A) :
    R.Does i A (c.fetch kind scope name) (fun v m => A m ∧
      m.resources.find? (resourceKey kind scope name) = some (Resource.ofRecord kind v))
      (fun f m => A m ∧ m.resources.find? (resourceKey kind scope name) = none ∧
        f = .missing (kind.text ++ " " ++ name)) := by
  refine (does_fetch? c kind scope name hA).bind fun v => ?_
  cases v with
  | none => exact does_throw fun m _ hm => ⟨hm.1, hm.2, rfl⟩
  | some a => exact does_pure fun m _ hm => hm

/-- What is stored is read. -/
theorem does_fetch_stored (c : Client) (kind : Kind) (scope : Scope) (name : String) (hA : R.Still A)
    (hstored : ∀ m, R.inv m → A m → ∃ r, m.resources.find? (resourceKey kind scope name) = some r) :
    R.Does i A (c.fetch kind scope name) (fun v m => A m ∧
      m.resources.find? (resourceKey kind scope name) = some (Resource.ofRecord kind v)) E := by
  refine (does_fetch c kind scope name hA).conseq (fun _ _ h => h) (fun _ _ _ h => h) fun f m hm hf => ?_
  obtain ⟨r, hr⟩ := hstored m hm hf.1
  rw [hf.2.1] at hr
  exact absurd hr (by simp)

/-- The resources of a kind that a listing shows. -/
def listed (m : Memory) (kind : Kind) (filter : Filter) : List Resource :=
  (m.resources.entries.filter fun e => e.1.1 == kind && filter.admits e.2).map (·.2)

theorem mem_listed {m : Memory} {kind : Kind} {filter : Filter} {r : Resource} :
    r ∈ listed m kind filter ↔ ∃ k, m.resources.find? k = some r ∧ k.1 = kind ∧ filter.admits r = true := by
  simp only [listed, List.mem_map, List.mem_filter, Bool.and_eq_true, beq_iff_eq]
  constructor
  · rintro ⟨⟨k, r'⟩, ⟨hm, hk, hf⟩, rfl⟩
    exact ⟨k, OrderedMap.mem_entries_iff.1 hm, hk, hf⟩
  · rintro ⟨k, hm, hk, hf⟩
    exact ⟨(k, r), ⟨OrderedMap.mem_entries_iff.2 hm, hk, hf⟩, rfl⟩

/-- A listing shows what is stored and passes the filter. -/
theorem does_list (c : Client) (kind : Kind) (filter : Filter) (hA : R.Still A) :
    R.Does i A (c.list kind filter) (fun rs m => A m ∧ rs.map (Resource.ofRecord kind) = listed m kind filter) E := by
  refine ⟨fun x t hx hAx => ?_⟩
  refine Program.obeys_bind.2 (obeys_send c (may_of_quiet hx (x.1.quiet_list _ _) (by simp)) (by simp [answer]) ?_)
  have hq := x.1.quiet_list kind filter
  have hkind : ∀ r ∈ listed x.1 kind filter, r.kind = kind := by
    intro r hr
    obtain ⟨k, hm, hk, -⟩ := mem_listed.1 hr
    rw [← hk]
    exact (R.wellKeyed hx).kind_eq hm
  obtain ⟨as, has, hrs⟩ := Resource.mapM_ofKind? hkind
  show (ExceptT.bindCont _ (.ok (listed x.1 kind filter)) : Program Cloud _).Obeys R.conduct i _ _ t
  show (Program.done ((listed x.1 kind filter).mapM (Resource.ofKind? kind))).Obeys R.conduct i _ _ t
  rw [has]
  exact ⟨R.inv_quiet hx hq, hA x.1 _ hx hq hAx, hrs⟩

/-! ### Changes that are waited for -/

/-- What comes of an effect: it takes effect, or is refused with a failure that has the code of the refusal. -/
def Comes (B : Memory → Prop) (E : Failure → Memory → Prop) : Except OperationError Unit → Memory → Prop
  | .ok _, m => B m
  | .error e, m => ∀ f, f.code? = some e.code → E f m

/-- What has to be known of an effect on a name before an operation with it is started from `A`; when it is
started, `P` holds besides. -/
structure Change (R : Regime ι) (i : ι) (A P : Memory → Prop) (name : String) (e : Effect) (B : Memory → Prop)
    (E : Failure → Memory → Prop) : Prop where
  stable : R.Stable i A
  still : R.Still B
  still_failed : ∀ f, R.Still (E f)
  effect : ∀ m, R.inv m → A m → R.Unscripted name m →
    R.Allows i m (m.apply e).2 ∧ Comes B E (m.apply e).1 (m.apply e).2
  /-- A failure may have been ordered for the name. -/
  ordered : ∀ m x, R.inv m → A m → P m → m.scriptedFailures.find? name = some x →
    ∀ m' f, R.inv m' → A m' → f.code? = some x.code → E f m'
  given_up : ¬ R.steady → ∀ m f, R.inv m → A m → f.GivesUp → E f m

/-- A client that waits long enough for the operations of a steady regime. -/
def Patient (R : Regime ι) (c : Client) : Prop := R.steady → c.poll.Patient R.polls

private theorem Change.finishes {P : Memory → Prop} {name : String} {e : Effect} {B : Memory → Prop}
    (h : R.Change i A P name e B E) {m : Memory} (hm : R.inv m) (hAm : A m) (hPm : P m) :
    R.Finishes i (fun m => A m ∧ R.Unscripted name m) (m.planFor name e) (Comes B E) := by
  intro n hn hAn
  unfold planFor
  cases hs : m.scriptedFailures.find? name with
  | none => exact h.effect n hn hAn.1 hAn.2
  | some x => exact ⟨allows_of_quiet hn (.refl n), fun f hf => h.ordered m x hm hAm hPm hs n f hn hAn.1 hf⟩

/-- An operation that has just been started is waited for. -/
theorem Change.awaited {c : Client} (hp : R.Patient c) {P : Memory → Prop} {name : String} {e : Effect}
    {B : Memory → Prop} (h : R.Change i A P name e B E) {target : Summary} (hname : target.name = name) {q : Call}
    {x : Memory × (Nat → Option ι)} (hx : R.inv x.1) (hAx : A x.1) (hPx : P x.1) {o : OperationHandle}
    (hs : x.1.Submitted target e o (answer q x.1).2) (t : Nat) :
    (c.awaitDone o).run.Obeys R.conduct i (fun r y _ => R.inv y.1 ∧ Ends (fun _ => B) E r y.1)
      (R.conduct.after i q x) t := by
  subst hname
  -- The operation has just been started: it has not been polled, and its record is there.
  have hwaits : R.Waits i (fun m => A m ∧ R.Unscripted target.name m) o 0 (x.1.planFor target.name e)
      (R.conduct.after i q x) := by
    refine ⟨R.inv_quiet hx hs.quiet, ⟨h.stable.still x.1 _ hx hs.quiet hAx, fun _ => hs.unscripted⟩,
      ⟨x.1.operationCount + 1, Nat.le_of_eq hs.count.symm, hs.name, ?_⟩, .inl hs.record⟩
    exact if_pos ⟨by omega, Nat.le_of_eq hs.count.symm⟩
  have hstill : ∀ u, R.Still (Comes B E u) := by
    intro u
    rcases u with e | u
    · exact fun m m' hm hq hc f hf => h.still_failed f m m' hm hq (hc f hf)
    · exact h.still
  refine (awaitDone_obeys c (h.stable.and (stable_unscripted _)) (h.finishes hx hAx hPx) hstill hp hwaits).mono ?_
  intro r y s ⟨hy, hr⟩
  refine ⟨hy, ?_⟩
  rcases r with f | v
  · rcases hr with ⟨e, he, hf⟩ | ⟨hst, hf, hAy⟩
    · exact hf f he
    · exact h.given_up hst y.1 f hy hAy.1 hf
  · exact hr.2

/-! ### Deleting -/

theorem does_delete {c : Client} (hp : R.Patient c) {kind : Kind} {scope : Scope} {name : String} {B : Memory → Prop}
    (h : R.Change i A (fun m => ∃ r, m.resources.find? (resourceKey kind scope name) = some r) name
      (.delete (resourceKey kind scope name)) B E)
    (missing : ∀ m f, R.inv m → A m → m.resources.find? (resourceKey kind scope name) = none →
      f.code? = some .notFound → E f m) :
    R.Does i A (c.delete kind scope name) (fun _ => B) E := by
  refine ⟨fun x t hx hAx => ?_⟩
  rcases x.1.answer_delete kind scope name with ⟨hnone, hans, hq⟩ | ⟨r, o, hr, hans, hs⟩
  · refine Program.obeys_bind.2 (obeys_send c (may_of_quiet hx hq (by simp)) (by rw [hans]; simp [rejection]) ?_)
    rw [hans]
    refine ⟨R.inv_quiet hx hq, missing _ _ (R.inv_quiet hx hq) (h.stable.still x.1 _ hx hq hAx) ?_ rfl⟩
    show (answer (.delete kind scope name) x.1).2.resources.find? _ = none
    rw [hq.resources]
    exact hnone
  · refine Program.obeys_bind.2 (obeys_send c (may_of_quiet hx hs.quiet (by simp)) (by rw [hans]; simp) ?_)
    rw [hans]
    have hname : r.summary.name = name := (R.wellKeyed hx).name_eq hr
    refine Program.obeys_bind.2 ((h.awaited hp hname hx hAx ⟨r, hr⟩ hs t).mono fun r y s hr => ?_)
    rcases r with f | v
    · exact hr
    · exact hr

/-- What has to be known of deleting what may be missing: it leads from `A` to `B` when something is deleted, and to
`N` when there was nothing. -/
structure Deletion (R : Regime ι) (i : ι) (A : Memory → Prop) (kind : Kind) (scope : Scope) (name : String)
    (B N : Memory → Prop) (E : Failure → Memory → Prop) : Prop where
  stable : R.Stable i A
  still : R.Still B
  still_missing : R.Still N
  still_failed : ∀ f, R.Still (E f)
  deleted : ∀ m r, R.inv m → A m → m.resources.find? (resourceKey kind scope name) = some r → m.user? r = none →
    R.Allows i m ((m.remove (resourceKey kind scope name)).removeWith r) ∧
      B ((m.remove (resourceKey kind scope name)).removeWith r)
  missing : ∀ m, R.inv m → A m → m.resources.find? (resourceKey kind scope name) = none → N m
  in_use : ∀ m r k u f, R.inv m → A m → m.resources.find? (resourceKey kind scope name) = some r →
    m.resources.find? k = some u → uses u r = true → f.code? = some .resourceInUse → E f m
  /-- A failure may have been ordered for the name of what is stored. -/
  ordered : ∀ m r x, R.inv m → A m → m.resources.find? (resourceKey kind scope name) = some r →
    m.scriptedFailures.find? name = some x → ∀ m' f, R.inv m' → A m' → f.code? = some x.code →
    if x.code = .notFound then N m' else E f m'
  given_up : ¬ R.steady → ∀ m f, R.inv m → A m → f.GivesUp → E f m

private theorem isNotFound_of_code {f : Failure} {code : ErrorCode} (h : f.code? = some code) :
    f.isNotFound = true ↔ code = .notFound := by
  cases f <;> simp_all [Failure.isNotFound, Failure.code?]

private theorem not_isNotFound_of_givesUp {f : Failure} (h : f.GivesUp) : f.isNotFound ≠ true := by
  cases f <;> simp_all [Failure.GivesUp, Failure.isNotFound, Failure.code?]

/-- A failure to delete: that there is nothing to be deleted is one of them. -/
private def OrMissing (N : Memory → Prop) (E : Failure → Memory → Prop) (f : Failure) (m : Memory) : Prop :=
  if f.isNotFound = true then N m else E f m

private theorem orMissing_left {N : Memory → Prop} {f : Failure} {m : Memory} (hf : f.isNotFound = true) (h : N m) :
    OrMissing N E f m := by
  rw [OrMissing, if_pos hf]
  exact h

private theorem orMissing_right {N : Memory → Prop} {f : Failure} {m : Memory} (hf : f.isNotFound ≠ true)
    (h : E f m) : OrMissing N E f m := by
  rw [OrMissing, if_neg hf]
  exact h

variable {kind : Kind} {scope : Scope} {name : String} {B N : Memory → Prop}

private theorem Deletion.change (h : R.Deletion i A kind scope name B N E) :
    R.Change i A (fun m => ∃ r, m.resources.find? (resourceKey kind scope name) = some r) name
      (.delete (resourceKey kind scope name)) B (OrMissing N E) where
  stable := h.stable
  still := h.still
  still_failed f m m' hm hq hf := by
    by_cases hnot : f.isNotFound = true
    · rw [OrMissing, if_pos hnot] at hf
      exact orMissing_left hnot (h.still_missing m m' hm hq hf)
    · rw [OrMissing, if_neg hnot] at hf
      exact orMissing_right hnot (h.still_failed f m m' hm hq hf)
  effect m hm hA _ := by
    rcases m.apply_delete (resourceKey kind scope name) with ⟨hn, ha⟩ | ⟨r, u, hr, hu, ha⟩ | ⟨r, hr, hu, ha⟩
    · rw [ha]
      refine ⟨allows_of_quiet hm (.refl m), fun f hf => ?_⟩
      exact orMissing_left ((isNotFound_of_code hf).2 rfl) (h.missing m hm hA hn)
    · rw [ha]
      obtain ⟨⟨k, hk⟩, huse⟩ := exists_of_user? hu
      refine ⟨allows_of_quiet hm (.refl m), fun f hf => ?_⟩
      exact orMissing_right (fun hnot => absurd ((isNotFound_of_code hf).1 hnot) (by simp [inUse]))
        (h.in_use m r k u f hm hA hr hk huse hf)
    · rw [ha]
      exact h.deleted m r hm hA hr hu
  ordered m x hm hA hP hx m' f hm' hA' hf := by
    obtain ⟨r, hr⟩ := hP
    have := h.ordered m r x hm hA hr hx m' f hm' hA' hf
    unfold OrMissing
    simpa only [isNotFound_of_code hf] using this
  given_up hst m f hm hA hf := orMissing_right (not_isNotFound_of_givesUp hf) (h.given_up hst m f hm hA hf)

theorem does_deleteIfExists {c : Client} (hp : R.Patient c) (h : R.Deletion i A kind scope name B N E) :
    R.Does i A (c.deleteIfExists kind scope name) (fun found m => if found = true then B m else N m) E := by
  have hdelete := does_delete hp h.change fun m f hm hA hnone hf =>
    orMissing_left ((isNotFound_of_code hf).2 rfl) (h.missing m hm hA hnone)
  refine hdelete.outcome.bind fun r => ?_
  rcases r with f | v
  · by_cases hf : f.isNotFound = true
    · simp only [hf, if_true]
      exact does_pure fun m _ hm => by simpa [Ends, OrMissing, hf] using hm
    · simp only [hf]
      exact does_throw fun m _ hm => by simpa [Ends, OrMissing, hf] using hm
  · exact does_pure fun m _ hm => by simpa [Ends] using hm

/-- Deleting what may be missing leads to `B`, whether or not there was anything. -/
theorem does_deleteIfExists_of_same {c : Client} (hp : R.Patient c) (h : R.Deletion i A kind scope name B B E) :
    R.Does i A (c.deleteIfExists kind scope name) (fun _ => B) E :=
  (does_deleteIfExists hp h).conseq (fun _ _ hA => hA) (fun _ _ _ hB => by simpa using hB) fun _ _ _ hE => hE

end Regime

end Fleet
