import Fleet.Proofs.Memory.Lifecycle
import Fleet.Proofs.Memory.Rules
import Fleet.Proofs.Teardown.Basic

/-!
# Requests in calm weather

In a calm world nothing comes from outside and no faults are left. A patient client that works there alone knows what
each request leads to: reading shows what is stored (`World.Calm.run_fetch?`, `World.Calm.run_list`), and deleting
removes one resource when nothing uses it (`World.Calm.run_deleteIfExists`).
-/

namespace Fleet

open Memory Regime

variable {ι α : Type}

/-- The world keeps to rules that rule out faults, and nothing comes from outside. -/
structure World.Calm (R : Rules ι) (w : World Cloud Memory) : Prop where
  interventions : w.interventions = []
  holds : R.Holds w.service

namespace World.Calm

variable {R : Rules ι} {w : World Cloud Memory}

theorem within (h : w.Calm R) : w.Within R.regime.conduct fun _ => False :=
  World.within_of_quiet h.interventions (.inr trivial)

theorem of_within (h : w.Within R.regime.conduct fun _ => False) (hinv : R.Holds w.service) : w.Calm R :=
  ⟨h.interventions_eq_nil, hinv⟩

theorem bounds : R.regime.conduct.Bounds id (fun m m' => R.Holds m → R.Holds m') fun _ => False :=
  Regime.bounds fun _ hf => hf.elim

/-- An action that cannot fail is run to its end. -/
theorem run {i : ι} {A : Memory → Prop} {B : α → Memory → Prop} {a : Action α} (h : w.Calm R)
    (hdoes : R.regime.Does i A a B fun _ _ => False) (hA : A w.service) :
    ∃ v w', a.run.run w = (.ok v, w') ∧ w'.Calm R ∧ B v w'.service := by
  obtain ⟨hw', -, hinv, hends⟩ := hdoes.run bounds h.within h.holds hA
  rcases hrun : a.run.run w with ⟨f | v, w'⟩ <;> rw [hrun] at hw' hinv hends
  · exact hends.elim
  · exact ⟨v, w', rfl, of_within hw' hinv, hends⟩

end World.Calm

/-- The rules for working alone where nothing goes wrong: the store stays as it is while nothing is asked for. -/
def solitary (project : String) (polls : Nat) : Rules Unit where
  project := project
  polls := polls
  steady := True
  tame := True
  codes _ := False
  inv _ := True
  keeps _ s s' := s' = s
  respects _ _ := True
  keeps_refl _ _ := rfl
  keeps_trans _ _ _ _ h h' := h'.trans h
  respects_refl _ := trivial

/-- Whatever is promised of the store, someone who works alone can do without it. -/
theorem Rules.Holds.alone {R : Rules ι} {m : Memory} (h : R.Holds m) (hsteady : R.steady)
    (hcodes : ∀ code, ¬ R.codes code) : (solitary R.project R.polls).Holds m := by
  have hnone : ∀ n, m.scriptedFailures.find? n = none := by
    intro n
    cases hx : m.scriptedFailures.find? n with
    | none => rfl
    | some x => exact absurd (h.codes n x hx) (hcodes _)
  exact ⟨h.keyed, trivial, h.project, h.polls, fun n x hx => absurd hx (by simp [hnone]), fun _ => h.fetches hsteady,
    fun _ n _ => hnone n, fun _ _ r _ => hnone r.name⟩

theorem Memory.FaultFree.holds {m : Memory} (h : m.FaultFree) (hkeyed : m.WellKeyed) :
    (solitary m.project m.pollsUntilDone).Holds m :=
  ⟨hkeyed, trivial, rfl, rfl, fun n x hx => absurd hx (by simp [h.scripted]), fun _ => h.fetches,
    fun _ n _ => h.scripted n, fun _ _ r _ => h.scripted r.name⟩

namespace World.Calm

variable {project : String} {polls : Nat} {w : World Cloud Memory} {c : Client}

theorem still_idle (m : Memory) : (solitary project polls).regime.Still fun m' => m.Idle m' := by
  intro m₁ m₂ _ hq hm
  exact ⟨hq.resources.trans hm.1, hq.applied.trans hm.2⟩

theorem run_fetch? (h : w.Calm (solitary project polls)) (c : Client) (kind : Kind) (scope : Scope) (name : String) :
    ∃ v w', (c.fetch? kind scope name).run.run w = (.ok v, w') ∧ w'.Calm (solitary project polls) ∧
      w.service.Idle w'.service ∧
      w.service.resources.find? (resourceKey kind scope name) = v.map (Resource.ofRecord kind) := by
  obtain ⟨v, w', hrun, hw', hidle, hfind⟩ :=
    h.run (i := ()) (does_fetch? c kind scope name (still_idle w.service)) ⟨rfl, rfl⟩
  exact ⟨v, w', hrun, hw', hidle, hidle.1 ▸ hfind⟩

theorem run_list (h : w.Calm (solitary project polls)) (c : Client) (kind : Kind) (filter : Filter) :
    ∃ w', (c.list kind filter).run.run w =
        (.ok (w.service.recordsOf kind fun a => filter.admits (Resource.ofRecord kind a)), w') ∧
      w'.Calm (solitary project polls) ∧ w.service.Idle w'.service := by
  obtain ⟨as, w', hrun, hw', hidle, hlisted⟩ :=
    h.run (i := ()) (does_list c kind filter (still_idle w.service)) ⟨rfl, rfl⟩
  have hsame : as = w.service.recordsOf kind fun a => filter.admits (Resource.ofRecord kind a) := by
    refine (List.map_inj_right fun _ _ => Resource.ofRecord_injective).1 ?_
    rw [hlisted, map_recordsOf h.holds.keyed, listed, listed, hidle.1]
  exact ⟨w', hsame ▸ hrun, hw', hidle⟩

private theorem allows_removeWith {m : Memory} (hm : (solitary project polls).Holds m) (k : ResourceKey)
    (r : Resource) : (solitary project polls).regime.Allows () m ((m.remove k).removeWith r) := by
  refine Rules.allows hm (m.continues_removeWith k r) (hm.keyed.removeWith k r) trivial (fun _ k' r' hr' => ?_) trivial
    fun _ hne => absurd rfl hne
  exact hm.unscripted trivial k' r' (m.shrinks_removeWith k r k' r' hr')

/-- Deleting what may be missing removes it when nothing uses it. -/
private theorem deletion (project : String) (polls : Nat) {m : Memory} {kind : Kind} {scope : Scope} {name : String}
    (hkind : kind ≠ .instance)
    (hfree : ∀ r, m.find? kind scope name = some r → ∀ k u, m.resources.find? k = some u → uses u r = false) :
    (solitary project polls).regime.Deletion () (fun m' => m'.resources = m.resources) kind scope name
      (fun m' => m.Loses m' (· = resourceKey kind scope name) ∧ m.has kind scope name = true)
      (fun m' => m.Loses m' (· = resourceKey kind scope name) ∧ m.has kind scope name = false)
      fun _ _ => False where
  stable _ _ _ _ hkeeps hm := hkeeps.store.trans hm
  still _ _ _ hq h := ⟨h.1.of_resources_eq rfl hq.resources, h.2⟩
  still_missing _ _ _ hq h := ⟨h.1.of_resources_eq rfl hq.resources, h.2⟩
  still_failed _ _ _ _ _ h := h
  deleted m₁ r hm₁ hres hr _ := by
    refine ⟨allows_removeWith hm₁ _ r, ?_, ?_⟩
    · -- No disk goes along, since the resource is no instance.
      have hnot : ∀ j, takesAlong r j ≠ true := by
        intro j hj
        have hrkind : r.kind = kind := hm₁.keyed.kind_eq hr
        cases r with
        | «instance» i => exact hkind hrkind.symm
        | _ => exact absurd hj (by simp [takesAlong])
      refine ((Loses.of_removeWith m₁ _ r).congr fun j _ _ => ?_).of_resources_eq hres.symm rfl
      exact or_iff_left (hnot j)
    · rw [hres] at hr
      simp [has, find?, hr]
  missing m₁ _ hres hnone := by
    rw [hres] at hnone
    refine ⟨⟨fun k hk => ?_, fun k _ => by rw [hres]⟩, by simp [has, find?, hnone]⟩
    rw [hres, hk, hnone]
  in_use m₁ r k u _ _ hres hr hu huses _ := by
    rw [hres] at hr hu
    rw [hfree r hr k u hu] at huses
    exact absurd huses (by simp)
  ordered m₁ r x hm₁ _ _ hx := (hm₁.codes _ x hx).elim
  given_up hsteady := absurd trivial hsteady

theorem run_deleteIfExists (h : w.Calm (solitary project polls)) (hp : c.poll.Patient polls) (kind : Kind)
    (scope : Scope) (name : String) (hkind : kind ≠ .instance)
    (hfree : ∀ r, w.service.find? kind scope name = some r →
      ∀ k u, w.service.resources.find? k = some u → uses u r = false) :
    ∃ w', (c.deleteIfExists kind scope name).run.run w = (.ok (w.service.has kind scope name), w') ∧
      w'.Calm (solitary project polls) ∧ w.service.Loses w'.service (· = resourceKey kind scope name) := by
  obtain ⟨found, w', hrun, hw', hB⟩ :=
    h.run (does_deleteIfExists (c := c) (fun _ => hp) (deletion project polls hkind hfree)) rfl
  cases found with
  | true => exact ⟨w', by rw [hrun, hB.2], hw', hB.1⟩
  | false => exact ⟨w', by rw [hrun, hB.2], hw', hB.1⟩

end World.Calm

end Fleet
