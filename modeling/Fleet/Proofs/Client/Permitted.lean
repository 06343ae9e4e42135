import Fleet.Proofs.Client.Tagging

/-!
# Rules for requests that are always allowed

An effect that may be carried out in any state can be asked for without knowing anything but the invariant. The
rules for such requests say what has been read in the end, and nothing of what is stored meanwhile.
-/

namespace Fleet

open Memory

variable {ι : Type}

namespace Regime

variable {R : Regime ι} {i : ι} {c : Client} {scope : Scope} {spec : ResourceSpec}

/-- The effect may be carried out in any state. -/
def Permits (R : Regime ι) (i : ι) (e : Effect) : Prop := ∀ m, R.inv m → R.Allows i m (m.apply e).2

/-- The resource under the key of a request has been read. -/
def Reads (scope : Scope) (spec : ResourceSpec) (v : spec.kind.Record) (m : Memory) : Prop :=
  m.resources.find? (resourceKey spec.kind scope spec.name) = some (Resource.ofRecord spec.kind v)

theorem still_true : R.Still fun _ => True := fun _ _ _ _ _ => trivial

theorem Permits.change {e : Effect} (h : R.Permits i e) (name : String) :
    R.Change i (fun _ => True) (fun _ => True) name e (fun _ => True) (fun _ _ => True) where
  stable := stable_const True
  still := still_true
  still_failed _ := still_true
  effect m hm _ _ := by
    refine ⟨h m hm, ?_⟩
    rcases (m.apply e).1 with x | u
    · exact fun _ _ => trivial
    · trivial
  ordered _ _ _ _ _ _ _ _ _ _ _ := trivial
  given_up _ _ _ _ _ _ := trivial

/-! ### Creating -/

/-- When a request has been accepted, its operation may be waited for. -/
private def Accepted (R : Regime ι) (i : ι) (c : Client) (r : Except Failure OperationHandle)
    (y : Memory × (Nat → Option ι)) : Prop :=
  ∀ o t, r = .ok o → (c.awaitDone o).run.Obeys R.conduct i (fun _ z _ => R.inv z.1) y t

private theorem accepted_error {f : Failure} {y : Memory × (Nat → Option ι)} : Accepted R i c (.error f) y :=
  fun _ _ h => absurd h (by simp)

section Creating

variable (hp : R.Patient c) (h : ∀ r, Makes R.project scope spec r → R.Permits i (.create r))

include hp h

private theorem attempt_obeys {x : Memory × (Nat → Option ι)} {t : Nat} (hx : R.inv x.1) :
    (Action.call (.insert scope spec)).run.Obeys R.conduct i (fun r y _ => R.inv y.1 ∧ Accepted R i c r y) x t := by
  obtain ⟨r, m₁, hmakes, hq, -, -, hcases⟩ := x.1.answer_insert scope spec
  rw [R.project_eq hx] at hmakes
  have hallow := (h r hmakes m₁ (R.inv_quiet hx hq)).of_quiet hx hq (.refl _)
  show R.conduct.may i (.insert scope spec) x ∧ R.inv (answer (.insert scope spec) x.1).2 ∧
    Accepted R i c (answer (.insert scope spec) x.1).1 (R.conduct.after i (.insert scope spec) x)
  rcases hcases with ⟨-, e, -, hans⟩ | ⟨-, -, text, hans⟩ | ⟨o, hans, hs⟩
  · rw [← congrArg Prod.snd hans] at hallow
    rw [congrArg Prod.fst hans]
    exact ⟨⟨by simp, hallow⟩, hallow.inv, accepted_error⟩
  · rw [← congrArg Prod.snd hans] at hallow
    rw [congrArg Prod.fst hans]
    exact ⟨⟨by simp, hallow⟩, hallow.inv, accepted_error⟩
  · refine ⟨may_of_quiet hx hs.quiet (by simp), R.inv_quiet hx hs.quiet, fun o' s ho => ?_⟩
    obtain rfl : o = o' := Except.ok.inj (hans.symm.trans ho)
    have hchange := (h r hmakes).change spec.name
    exact (hchange.awaited hp hmakes.name_eq hx trivial trivial hs s).mono fun _ _ _ hz => hz.1

private theorem sending_obeys {x : Memory × (Nat → Option ι)} {t : Nat} (hx : R.inv x.1) :
    (c.retry.retryCounted (Action.call (.insert scope spec)).run).Obeys R.conduct i
      (fun p y _ => R.inv y.1 ∧ Accepted R i c p.1 y) x t := by
  refine c.retry.retryFrom_obeys (P := fun _ y _ => R.inv y.1) (fun made y s hy => ?_) _ 0 hx
  refine (attempt_obeys hp h hy).mono fun r z _ hz => ?_
  rcases r with f | o
  · cases f with
    | transport text => exact ⟨⟨hz.1, accepted_error⟩, fun _ _ hw => (hw hz.1).inv⟩
    | _ => exact hz
  · exact hz

omit hp h in
private theorem does_read :
    R.Does i (fun _ => True) (c.fetch spec.kind scope spec.name) (Reads scope spec) (fun _ _ => True) :=
  (does_fetch c spec.kind scope spec.name still_true).conseq (fun _ _ hm => hm) (fun _ _ _ hv => hv.2)
    fun _ _ _ _ => trivial

/-- Creating a resource ends with what is stored under its key. -/
theorem does_create_permitted :
    R.Does i (fun _ => True) (c.create spec.kind scope spec) (Reads scope spec) (fun _ _ => True) := by
  refine ⟨fun x t hx _ => ?_⟩
  rw [run_create]
  refine Program.obeys_bind.2 ((sending_obeys hp h hx).mono fun p y s ⟨hy, hawait⟩ => ?_)
  have failed (f : Failure) (n : Nat) {z : Memory × (Nat → Option ι)} {s : Nat} (hz : R.inv z.1) :
      (if f.isAlreadyExists ∧ 1 < n then c.fetch spec.kind scope spec.name else throw f).run.Obeys R.conduct i
        (fun v z _ => R.inv z.1 ∧ Ends (Reads scope spec) (fun _ _ => True) v z.1) z s := by
    split
    · exact does_read.obeys z s hz trivial
    · exact ⟨hz, trivial⟩
  obtain ⟨f | o, n⟩ := p
  · exact failed f n hy
  · refine Program.obeys_bind.2 (Program.obeys_bind.2 ((hawait o s rfl).mono fun v z s' hz => ?_))
    rcases v with f | v
    · exact failed f n hz
    · exact does_read.obeys z s' hz trivial

private theorem does_submit :
    R.Does i (fun _ => True) (do let o ← c.submitInsert scope spec; c.awaitDone o) (fun _ _ => True)
      (fun _ _ => True) := by
  refine ⟨fun x t hx _ => ?_⟩
  refine obeys_action_bind (Program.obeys_bind.2 ((sending_obeys hp h hx).mono fun p y s ⟨hy, hawait⟩ => ?_))
  obtain ⟨f | o, n⟩ := p
  · exact ⟨hy, trivial⟩
  · have hend := (hawait o s rfl).mono (R := fun v z _ => R.inv z.1 ∧ Ends (fun _ _ => True) (fun _ _ => True) v z.1)
      fun v z _ hz => ⟨hz, by rcases v with f | v <;> trivial⟩
    show (Program.done (Except.ok o)).Obeys R.conduct i _ y s
    exact Program.obeys_done.2 hend

private theorem does_createShared_permitted :
    R.Does i (fun _ => True) (c.createShared spec.kind scope spec.name spec) (Reads scope spec) (fun _ _ => True) := by
  refine (does_submit hp h).outcome.bind fun r => ?_
  rcases r with f | v
  · show R.Does i (fun _ => True) (if f.isAlreadyExists = true then _ else throw f) _ _
    split
    · exact does_read
    · exact does_throw fun _ _ _ => trivial
  · exact does_read

/-- Ensuring a shared resource ends with what is stored under its key. -/
theorem does_ensure_permitted :
    R.Does i (fun _ => True) (c.ensure spec.kind scope spec.name spec) (Reads scope spec) (fun _ _ => True) := by
  refine ⟨fun x t hx _ => ?_⟩
  have hfetch := does_fetch? (R := R) (i := i) (E := fun _ _ => True) c spec.kind scope spec.name still_true
  refine Program.obeys_bind.2 (Program.obeys_bind.2 ((hfetch.obeys x t hx trivial).mono fun r y s ⟨hy, hr⟩ => ?_))
  rcases r with f | v
  · exact ⟨hy, trivial⟩
  · cases v with
    | some a => exact ⟨hy, hr.2⟩
    | none =>
      have hcreate := (does_createShared_permitted hp h).obeys y s hy trivial
      exact Program.obeys_bind.2 (hcreate.mono fun _ _ _ hv => hv)

end Creating

/-! ### Deleting -/

/-- Deleting what may be missing tells nothing. -/
theorem does_delete_permitted {kind : Kind} {name : String} (hp : R.Patient c)
    (h : R.Permits i (.delete (resourceKey kind scope name))) :
    R.Does i (fun _ => True) (c.deleteIfExists kind scope name) (fun _ _ => True) (fun _ _ => True) := by
  refine does_deleteIfExists_of_same hp ⟨stable_const True, still_true, still_true, fun _ => still_true,
    fun m r hm _ hr hu => ⟨?_, trivial⟩, fun _ _ _ _ => trivial, fun _ _ _ _ _ _ _ _ _ _ _ => trivial,
    fun _ _ _ _ _ _ _ _ _ _ _ _ => by split <;> trivial, fun _ _ _ _ _ _ => trivial⟩
  have hallow := h m hm
  rcases m.apply_delete (resourceKey kind scope name) with ⟨hn, -⟩ | ⟨s, u, hs, hu', -⟩ | ⟨s, hs, -, ha⟩
  · exact absurd (hn.symm.trans hr) (by simp)
  · obtain rfl : s = r := Option.some.inj (hs.symm.trans hr)
    exact absurd (hu.symm.trans hu') (by simp)
  · obtain rfl : s = r := Option.some.inj (hs.symm.trans hr)
    rwa [ha] at hallow

/-! ### Tagging -/

section Tagging

variable {name : String} (hp : R.Patient c)
  (h : ∀ m j t m', R.inv m → m.resources.find? (resourceKey .instance scope name) = some (.instance j) →
    m.Retagged (resourceKey .instance scope name) j t m' → R.Allows i m m')

include hp h

private theorem does_update_permitted (tags : Tags) :
    R.Does i (fun _ => True) (c.update .instance scope name tags) (fun _ _ => True) (fun _ _ => True) := by
  have permits : R.Permits i (.setTags (resourceKey .instance scope name) tags.items) := by
    intro m hm
    rcases m.apply_setTags_cases (resourceKey .instance scope name) tags.items with ⟨j, f, hj, -, hre⟩ | ⟨-, -, hq⟩
    · exact h m j _ _ hm hj hre
    · exact allows_of_quiet hm hq
  refine ⟨fun x t hx _ => ?_⟩
  refine obeys_action_bind ?_
  rcases x.1.answer_setTags .instance scope name tags with ⟨-, hans, hq⟩ | ⟨j, hj, hans, hcases⟩ | ⟨j, o, hj, hans, hs⟩
  · refine obeys_send c (may_of_quiet hx hq (by simp)) (by rw [hans]; simp [rejection]) ?_
    rw [hans]
    exact ⟨R.inv_quiet hx hq, trivial⟩
  · have hallow : R.Allows i x.1 (answer (.setTags .instance scope name tags) x.1).2 := by
      rcases hcases with ⟨-, t', hre⟩ | ⟨-, -, hq⟩
      · exact h x.1 j t' _ hx hj hre
      · exact allows_of_quiet hx hq
    refine obeys_send c ⟨by simp, hallow⟩ (by rw [hans]; simp [staleFingerprint]) ?_
    rw [hans]
    exact ⟨hallow.inv, trivial⟩
  · have hname : (Resource.instance j).summary.name = name := (R.wellKeyed hx).name_eq hj
    refine obeys_send c (may_of_quiet hx hs.quiet (by simp)) (by rw [hans]; simp) ?_
    rw [hans]
    exact (permits.change name).awaited hp hname hx trivial trivial hs t

private theorem does_setTagsOnce_permitted (wanted : List String) :
    R.Does i (fun _ => True) (c.setTagsOnce scope name wanted) (fun _ _ => True) (fun _ _ => True) := by
  have reads : R.Does i (fun _ => True) (c.fetch .instance scope name) (fun _ _ => True) (fun _ _ => True) :=
    (does_fetch c .instance scope name still_true).conseq (fun _ _ hm => hm) (fun _ _ _ _ => trivial)
      fun _ _ _ _ => trivial
  refine reads.bind fun v => ?_
  split
  · exact does_pure fun _ _ _ => trivial
  · refine ((does_update_permitted hp h _).outcome.pre fun _ _ _ => trivial).bind fun r => ?_
    rcases r with f | u
    · dsimp only
      split
      · exact does_pure fun _ _ _ => trivial
      · exact does_throw fun _ _ _ => trivial
    · exact reads.bind fun v => does_pure fun _ _ _ => trivial

/-- Tagging an instance tells nothing. -/
theorem does_setTags_permitted (wanted : List String) :
    R.Does i (fun _ => True) (c.setTags scope name wanted) (fun _ _ => True) (fun _ _ => True) := by
  refine (does_setTagsOnce_permitted hp h wanted).bind fun r => ?_
  rcases r with v | f
  · exact does_pure fun _ _ _ => trivial
  · refine (does_setTagsOnce_permitted hp h wanted).bind fun r => ?_
    rcases r with v | f'
    · exact does_pure fun _ _ _ => trivial
    · exact does_throw fun _ _ _ => trivial

end Tagging

end Regime

end Fleet
