import Fleet.Proofs.Client.Creating
import Fleet.Provision

/-!
# The rule for tagging an instance

An instance that nobody else touches gets the wanted tags, unless an operation fails or conflicts are met twice
(`does_setTags`). In any case it stays what it is apart from its tags.
-/

namespace Fleet

open Memory

variable {ι : Type}

namespace Tags

theorem containsAll_merged (items wanted : List String) (f : Option String) :
    containsAll ⟨merged items wanted, f⟩ wanted = true :=
  containsAll_iff.2 fun _ ht => mem_merged.2 (.inr ht)

end Tags

namespace Regime

variable {R : Regime ι} {i : ι} {T : Tags → Memory → Prop} {E : Failure → Memory → Prop} {zone : Scope}
  {name : String} {i₀ : Instance} {c : Client}

/-- Whether something may keep an instance from being tagged. -/
def Troubled (R : Regime ι) (name : String) : Prop :=
  ¬ R.steady ∨ ∃ m, R.inv m ∧ (0 < m.tagConflicts ∨ ∃ x, m.scriptedFailures.find? name = some x)

/-- What has to be known before an instance is tagged: with tags `t`, it leads to `T t`. -/
structure Tagging (R : Regime ι) (i : ι) (zone : Scope) (name : String) (i₀ : Instance) (T : Tags → Memory → Prop)
    (E : Failure → Memory → Prop) : Prop where
  stable : ∀ t, R.Stable i (T t)
  still_failed : ∀ f, R.Still (E f)
  present : ∀ t m, R.inv m → T t m →
    m.resources.find? (resourceKey .instance zone name) = some (.instance { i₀ with tags := t })
  retag : ∀ t t' m m', R.inv m → T t m →
    m.Retagged (resourceKey .instance zone name) { i₀ with tags := t } t' m' → R.Allows i m m' ∧ T t' m'
  fails : R.Troubled name → ∀ t m f, R.inv m → T t m → (f.FromPlatform ∨ ∃ n text, f = .conflict n text) → E f m

private theorem Tagging.tags_eq (h : R.Tagging i zone name i₀ T E) {t t' : Tags} {m : Memory} (hm : R.inv m)
    (ht : T t m) (ht' : T t' m) : t = t' := by
  have := (h.present t m hm ht).symm.trans (h.present t' m hm ht')
  exact congrArg Instance.tags (Resource.instance.inj (Option.some.inj this))

/-- How tagging fails: the instance is there with some tags. -/
private def TagFails (R : Regime ι) (T : Tags → Memory → Prop) (name : String) (f : Failure) (m : Memory) : Prop :=
  (∃ t, T t m) ∧ f.FromPlatform ∧ R.Troubled name

private theorem Tagging.still_tagFails (h : R.Tagging i zone name i₀ T E) (f : Failure) :
    R.Still (TagFails R T name f) :=
  fun m m' hm hq ⟨ht, hf⟩ => ⟨(Stable.exists h.stable).still m m' hm hq ht, hf⟩

private theorem Tagging.change (h : R.Tagging i zone name i₀ T E) (items : List String) (t : Tags) :
    R.Change i (T t) (fun _ => True) name (.setTags (resourceKey .instance zone name) items)
      (fun m => ∃ f, T ⟨items, f⟩ m) (TagFails R T name) := by
  refine ⟨h.stable t, (Stable.exists fun f => h.stable ⟨items, f⟩).still, h.still_tagFails, fun m hm hT _ => ?_,
    fun m x hm hT _ hx m' f _ hT' hf => ⟨⟨t, hT'⟩, .inr ⟨_, hf⟩, .inr ⟨m, hm, .inr ⟨x, hx⟩⟩⟩,
    fun hst m f _ hT hf => ⟨⟨t, hT⟩, .inl hf, .inl hst⟩⟩
  have hp := h.present t m hm hT
  rcases m.apply_setTags_cases (resourceKey .instance zone name) items with ⟨j, f, hj, hok, hre⟩ | ⟨hno, -⟩
  · obtain rfl : Instance.mk _ _ _ _ _ t _ _ _ = j := Resource.instance.inj (Option.some.inj (hp.symm.trans hj))
    obtain ⟨hallow, hT'⟩ := h.retag t _ m _ hm hT hre
    refine ⟨hallow, ?_⟩
    rw [hok]
    exact ⟨f, hT'⟩
  · exact absurd hp (hno _)

private theorem does_update (hp : R.Patient c) (h : R.Tagging i zone name i₀ T E) (items : List String) (t : Tags) :
    R.Does i (T t) (c.update .instance zone name ⟨items, t.fingerprint⟩) (fun _ m => ∃ f, T ⟨items, f⟩ m)
      (TagFails R T name) := by
  refine ⟨fun x s hx hT => ?_⟩
  have hpres := h.present t x.1 hx hT
  refine obeys_action_bind ?_
  rcases x.1.answer_setTags .instance zone name ⟨items, t.fingerprint⟩ with
    ⟨hno, -⟩ | ⟨j, hj, hans, hcases⟩ | ⟨j, o, hj, hans, hs⟩
  · exact absurd hpres (hno _)
  · obtain rfl : Instance.mk _ _ _ _ _ t _ _ _ = j := Resource.instance.inj (Option.some.inj (hpres.symm.trans hj))
    rcases hcases with ⟨hpos, t', hre⟩ | ⟨-, hne, -⟩
    · obtain ⟨hallow, hT'⟩ := h.retag t t' x.1 _ hx hT hre
      refine obeys_send c ⟨by simp, hallow⟩ (by rw [hans]; simp [staleFingerprint]) ?_
      rw [hans]
      exact ⟨hallow.inv, ⟨t', hT'⟩, .inr ⟨_, rfl⟩, .inr ⟨x.1, hx, .inl hpos⟩⟩
    · -- The fingerprint is the one that was read, so nobody else has changed the tags.
      exact absurd rfl hne
  · obtain rfl : Instance.mk _ _ _ _ _ t _ _ _ = j := Resource.instance.inj (Option.some.inj (hpres.symm.trans hj))
    have hname : (Resource.instance { i₀ with tags := t }).summary.name = name := (R.wellKeyed hx).name_eq hj
    refine obeys_send c (may_of_quiet hx hs.quiet (by simp)) (by rw [hans]; simp) ?_
    rw [hans]
    exact (h.change items t).awaited hp hname hx hT trivial hs s

/-- How one attempt at tagging ends. -/
private def Once (R : Regime ι) (i₀ : Instance) (T : Tags → Memory → Prop) (name : String) (wanted : List String) :
    Instance ⊕ Failure → Memory → Prop
  | .inl v, m => ∃ t, v = { i₀ with tags := t } ∧ T t m ∧ t.containsAll wanted = true
  | .inr _, m => (∃ t, T t m) ∧ R.Troubled name

private theorem Tagging.does_read (h : R.Tagging i zone name i₀ T E) (E' : Failure → Memory → Prop)
    {A : Memory → Prop} (hA : R.Stable i A) (hT : ∀ m, R.inv m → A m → ∃ t, T t m) :
    R.Does i A (c.fetch .instance zone name) (fun v m => ∃ t, v = { i₀ with tags := t } ∧ T t m ∧ A m) E' := by
  refine (does_fetch_stored c .instance zone name hA.still fun m hm hAm => ?_).conseq (fun _ _ hm => hm)
    (fun v m hm ⟨hAm, hv⟩ => ?_) fun _ _ _ hf => hf
  · obtain ⟨t, ht⟩ := hT m hm hAm
    exact ⟨_, h.present t m hm ht⟩
  · obtain ⟨t, ht⟩ := hT m hm hAm
    rw [h.present t m hm ht] at hv
    exact ⟨t, (Resource.instance.inj (Option.some.inj hv)).symm, ht, hAm⟩

private theorem does_setTagsOnce (hp : R.Patient c) (h : R.Tagging i zone name i₀ T E) (wanted : List String) :
    R.Does i (fun m => ∃ t, T t m) (c.setTagsOnce zone name wanted) (Once R i₀ T name wanted) E := by
  have hstable := Stable.exists h.stable
  refine (h.does_read E hstable fun _ _ hm => hm).bind fun v => ?_
  refine does_exists fun t => does_and fun hv => ?_
  subst hv
  simp only
  by_cases hall : t.containsAll wanted = true
  · rw [if_pos hall]
    exact does_pure fun m _ hm => ⟨t, rfl, hm.1, hall⟩
  · rw [if_neg hall]
    refine ((does_update hp h (Tags.merged t.items wanted) t).pre fun m _ hm => hm.1).outcome.bind fun r => ?_
    rcases r with f | u
    · simp only
      by_cases hf : f.isConflict = true
      · rw [if_pos hf]
        exact does_pure fun m _ hm => ⟨hm.1, hm.2.2⟩
      · rw [if_neg hf]
        exact does_throw fun m hm ⟨⟨t, ht⟩, hfp, htr⟩ => h.fails htr t m f hm ht (.inl hfp)
    · have hstill : R.Stable i fun m => ∃ f, T ⟨Tags.merged t.items wanted, f⟩ m :=
        Stable.exists fun f => h.stable _
      refine (h.does_read E hstill fun _ _ ⟨f, hf⟩ => ⟨_, hf⟩).bind fun v => ?_
      refine does_pure fun m hm ⟨t', hv, hT', f, hT⟩ => ⟨t', hv, hT', ?_⟩
      have htags : t' = ⟨Tags.merged t.items wanted, f⟩ := h.tags_eq hm hT' hT
      rw [htags]
      exact Tags.containsAll_merged _ _ _

/-- An instance that nobody else touches gets the wanted tags, unless something keeps it from that. -/
theorem does_setTags (hp : R.Patient c) (h : R.Tagging i zone name i₀ T E) (wanted : List String) :
    R.Does i (fun m => ∃ t, T t m) (c.setTags zone name wanted)
      (fun v m => ∃ t, v = { i₀ with tags := t } ∧ T t m ∧ t.containsAll wanted = true) E := by
  refine (does_setTagsOnce hp h wanted).bind fun r => ?_
  rcases r with v | f
  · exact does_pure fun _ _ hm => hm
  · refine ((does_setTagsOnce hp h wanted).pre fun _ _ hm => hm.1).bind fun r => ?_
    rcases r with v | f'
    · exact does_pure fun _ _ hm => hm
    · exact does_throw fun m hm ⟨⟨t, ht⟩, htr⟩ => h.fails htr t m _ hm ht (.inr ⟨_, _, rfl⟩)

end Regime

end Fleet
