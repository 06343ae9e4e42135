import Fleet.Proofs.Conduct.Pool
import Fleet.Proofs.Teardown.Calm

/-!
# Members that are taken down side by side

Each member of a group deletes its instance and then its boot disk, while the others do the same. What one member takes
concerns nobody else (`razing`), so each of them gets rid of exactly that (`does_destroy_of_razing`), and together they
remove what the members take and nothing else (`World.Calm.run_members`).
-/

namespace Fleet

open Memory Regime

/-- The rules for taking down victims of the platform `m₀`: only what a victim takes is removed, and each victim can
rely on the others to leave alone what it takes itself. -/
def razing (m₀ : Memory) (victims : List Instance) : Rules Instance where
  project := m₀.project
  polls := m₀.pollsUntilDone
  steady := True
  tame := True
  codes _ := False
  inv s := ∀ k, s.find? k = m₀.resources.find? k ∨ (s.find? k = none ∧ ∃ v ∈ victims, v.Takes k)
  keeps v s s' := v ∈ victims → ∀ k, v.Takes k → s'.find? k = s.find? k
  respects _ _ := True
  keeps_refl _ _ _ _ _ := rfl
  keeps_trans _ _ _ _ h h' hv k hk := (h' hv k hk).trans (h hv k hk)
  respects_refl _ := trivial

/-- Of what a victim takes, exactly the keys in `gone` are free. -/
def Stripped (m₀ : Memory) (v : Instance) (gone : ResourceKey → Prop) (m : Memory) : Prop :=
  ∀ k, v.Takes k → (gone k → m.resources.find? k = none) ∧
    (¬ gone k → m.resources.find? k = m₀.resources.find? k)

section Razing

variable {m₀ m : Memory} {victims : List Instance} {v : Instance} {gone : ResourceKey → Prop}

private theorem find?_of_razing (h : (razing m₀ victims).Holds m) {k : ResourceKey} {r : Resource}
    (hr : m.resources.find? k = some r) : m₀.resources.find? k = some r := by
  rcases h.store k with he | ⟨hnone, -⟩
  · exact he ▸ hr
  · rw [hnone] at hr
    exact absurd hr (by simp)

theorem stable_stripped (hv : v ∈ victims) : (razing m₀ victims).regime.Stable v (Stripped m₀ v gone) := by
  intro m m' _ _ hkeeps h k hk
  rw [hkeeps.store hv k hk]
  exact h k hk

variable (hc : m₀.Canonical) (hstored : m₀.HasInstances victims)

include hc hstored

/-- A victim may remove what it takes, together with what goes along. -/
private theorem allows_removeWith (hv : v ∈ victims) (hm : (razing m₀ victims).Holds m) {k : ResourceKey} {r : Resource}
    (htakes : ∀ j, j = k ∨ takesAlong r j = true → v.Takes j) :
    (razing m₀ victims).regime.Allows v m ((m.remove k).removeWith r) := by
  refine Rules.allows hm (m.continues_removeWith k r) (hm.keyed.removeWith k r) (fun j => ?_) (fun _ k' r' hr' => ?_)
    trivial fun v' hne hv' j hj => ?_
  · rw [find?_removeWith]
    split
    · next h => exact .inr ⟨rfl, v, hv, htakes j h⟩
    · exact hm.store j
  · exact hm.unscripted trivial k' r' (m.shrinks_removeWith k r k' r' hr')
  · rw [find?_removeWith, if_neg]
    -- What another victim takes is not removed here.
    intro h
    exact hne (hc.eq_of_takes (hstored v hv) (hstored v' hv') (htakes j h) hj)

/-- The instance goes first, together with the disks that the platform deletes by itself. -/
private theorem deletion_instance (hv : v ∈ victims) :
    (razing m₀ victims).regime.Deletion v (Stripped m₀ v fun _ => False) .instance (.zone v.zone) v.name
      (Stripped m₀ v v.GoesWith) (Stripped m₀ v v.GoesWith) fun _ _ => False := by
  have hthere : ∀ {m : Memory}, Stripped m₀ v (fun _ => False) m →
      m.resources.find? (resourceKey .instance (.zone v.zone) v.name) = some (.instance v) := by
    intro m hA
    exact ((hA _ v.takes_key).2 id).trans (hstored v hv)
  exact
    { stable := stable_stripped hv
      still := (stable_stripped hv).still
      still_missing := (stable_stripped hv).still
      still_failed := fun _ _ _ _ _ h => h
      deleted := by
        intro m r hm hA hr _
        have hsame : r = .instance v := Option.some.inj (hr.symm.trans (hthere hA))
        subst hsame
        refine ⟨allows_removeWith hc hstored hv hm fun _ => Instance.GoesWith.takes, fun k hk => ?_⟩
        rw [find?_removeWith]
        exact ⟨fun h => if_pos h, fun h => (if_neg h).trans ((hA k hk).2 id)⟩
      -- Nobody else takes the instance, so it cannot be missing.
      missing := by
        intro m _ hA hnone
        rw [hthere hA] at hnone
        exact absurd hnone (by simp)
      in_use := by
        intro m r k u _ _ hA hr _ huses _
        have hsame : r = .instance v := Option.some.inj (hr.symm.trans (hthere hA))
        subst hsame
        cases u <;> exact absurd huses (by simp [uses])
      ordered := fun m _ x hm _ _ hx => (hm.codes _ x hx).elim
      given_up := fun hsteady => absurd trivial hsteady }

section BootDisk

variable {a : AttachedDisk} (hboot : v.bootDisk? = some a)

omit hc hstored in
include hboot in
/-- After the instance only the boot disk may be left of what a victim takes. -/
private theorem stripped_of_boot (hgone : ∀ k, v.Takes k → v.GoesWith k → m.resources.find? k = none)
    (hnone : m.resources.find? (diskKey v.zone a.source) = none) : Stripped m₀ v (fun _ => True) m := by
  refine fun k hk => ⟨fun _ => ?_, fun h => absurd trivial h⟩
  rcases hk.cases with h | ⟨-, b, hb, rfl⟩
  · exact hgone k hk h
  · rw [hboot] at hb
    cases hb
    exact hnone

include hboot in
/-- The boot disk is used by nobody once its instance is gone. -/
private theorem not_uses_boot (hv : v ∈ victims) (hm : (razing m₀ victims).Holds m)
    (hgone : m.resources.find? (Resource.instance v).key = none) {d : Disk}
    (hd : m.resources.find? (diskKey v.zone a.source) = some (.disk d)) {k : ResourceKey} {u : Resource}
    (hu : m.resources.find? k = some u) : uses u (.disk d) = false := by
  refine Bool.eq_false_iff.2 fun huses => ?_
  have ha : a ∈ v.disks := List.mem_of_find?_eq_some hboot
  obtain ⟨i, rfl⟩ := exists_instance_of_uses huses
  obtain ⟨b, hb, hsame⟩ := List.any_eq_true.1 huses
  have hi := find?_of_razing hm hu
  have hdisk := find?_of_razing hm hd
  obtain ⟨d₁, hd₁, hlink₁⟩ := hc.disk (hstored v hv) ha
  obtain ⟨d₂, hd₂, hlink₂⟩ := hc.disk hi hb
  have hown : a.source = d.selfLink := by
    rw [hd₁] at hdisk
    rw [← hlink₁, Resource.disk.inj (Option.some.inj hdisk)]
  have hother : b.source = d.selfLink :=
    (Link.sameResource_of_isPath (hlink₂ ▸ hc.isPath hd₂) (hc.isPath (r := .disk d) hdisk)).1 hsame
  have hkey : k = (Resource.instance v).key :=
    hc.unshared _ _ _ _ hi (hstored v hv) b hb a ha (hother.trans hown.symm)
  rw [hkey, hgone] at hu
  exact absurd hu (by simp)

include hboot in
private theorem deletion_boot (hv : v ∈ victims) (hkeeps : v.keepsBootDisk = false) :
    (razing m₀ victims).regime.Deletion v (Stripped m₀ v v.GoesWith) .disk (.zone v.zone) (Link.name a.source)
      (Stripped m₀ v fun _ => True) (Stripped m₀ v fun _ => True) fun _ _ => False := by
  have ha : a ∈ v.disks := List.mem_of_find?_eq_some hboot
  obtain ⟨d, hd, -⟩ := hc.disk (hstored v hv) ha
  have hdisk : ∀ {m : Memory} {r : Resource}, (razing m₀ victims).Holds m →
      m.resources.find? (diskKey v.zone a.source) = some r → r = .disk d := by
    intro m r hm hr
    exact Option.some.inj ((find?_of_razing hm hr).symm.trans hd)
  exact
    { stable := stable_stripped hv
      still := (stable_stripped hv).still
      still_missing := (stable_stripped hv).still
      still_failed := fun _ _ _ _ _ h => h
      deleted := by
        intro m r hm hA hr _
        have hsame := hdisk hm hr
        subst hsame
        have htakes : ∀ j, j = diskKey v.zone a.source ∨ takesAlong (.disk d) j = true → v.Takes j := by
          rintro j (rfl | hj)
          · exact .inr ⟨a, ha, Instance.givesUp_iff.2 (.inr ⟨hkeeps, hboot⟩), rfl⟩
          · exact absurd hj (by simp [takesAlong])
        refine ⟨allows_removeWith hc hstored hv hm htakes, stripped_of_boot hboot (fun k hk h => ?_) ?_⟩
        · exact (Loses.of_removeWith m _ _).find?_eq_none ((hA k hk).1 h)
        · rw [find?_removeWith]
          exact if_pos (.inl rfl)
      -- The platform may have deleted the boot disk along with the instance.
      missing := fun _ _ hA hnone => stripped_of_boot hboot (fun k hk => (hA k hk).1) hnone
      in_use := by
        intro m r k u _ hm hA hr hu huses _
        have hsame := hdisk hm hr
        subst hsame
        have hunused := not_uses_boot hc hstored hboot hv hm ((hA _ v.takes_key).1 (.inl rfl)) hr hu
        exact absurd (hunused.symm.trans huses) (by simp)
      ordered := fun m _ x hm _ _ hx => (hm.codes _ x hx).elim
      given_up := fun hsteady => absurd trivial hsteady }

end BootDisk

/-- A victim is rid of everything that it takes. -/
theorem does_destroy_of_razing {c : Client} (hp : c.poll.Patient m₀.pollsUntilDone) (hv : v ∈ victims) :
    (razing m₀ victims).regime.Does v (Stripped m₀ v fun _ => False) (c.destroy v)
      (fun _ => Stripped m₀ v fun _ => True) fun _ _ => False := by
  refine (does_deleteIfExists_of_same (c := c) (fun _ => hp) (deletion_instance hc hstored hv)).bind fun _ => ?_
  by_cases hkeeps : v.keepsBootDisk = true
  · rw [if_pos hkeeps]
    refine does_pure fun m _ h k hk => ⟨fun _ => ?_, fun hnot => absurd trivial hnot⟩
    rcases hk.cases with hgone | ⟨hnot, -⟩
    · exact (h k hk).1 hgone
    · rw [hkeeps] at hnot
      exact absurd hnot (by simp)
  · have hnot : v.keepsBootDisk = false := by simpa using hkeeps
    obtain ⟨a, hboot⟩ := hc.boot_disk _ _ (hstored v hv)
    have hname : v.bootDiskName = Link.name a.source := by rw [Instance.bootDiskName, hboot]
    rw [if_neg hkeeps, hname]
    refine (does_deleteIfExists_of_same (fun _ => hp) (deletion_boot hc hstored hboot hv hnot)).bind fun _ => ?_
    exact does_pure fun m _ h => h

/-- The end of a victim's teardown: it has succeeded, and the victim is rid of all that it takes. -/
private def Razed (m₀ : Memory) (victims : List Instance) (i : Instance) (a : Instance × Except Failure Unit)
    (x : Memory × (Nat → Option Instance)) (_ : Nat) : Prop :=
  i ∈ victims ∧ (razing m₀ victims).Holds x.1 ∧ a = (i, .ok ()) ∧ Stripped m₀ i (fun _ => True) x.1

omit hc hstored in
private theorem Razed.drift {i : Instance} {a : Instance × Except Failure Unit} {x y : Memory × (Nat → Option Instance)}
    {t : Nat} (h : Razed m₀ victims i a x t) (hd : (razing m₀ victims).regime.conduct.drift i x y) (s : Nat) :
    Razed m₀ victims i a y s := by
  obtain ⟨hi, hx, ha, hstripped⟩ := h
  have hy := hd hx
  exact ⟨hi, hy.inv, ha, stable_stripped hi x.1 y.1 hx hy.inv hy.keeps hstripped⟩

private theorem obeys_destroyMember {mgr : Manager} (hp : mgr.client.poll.Patient m₀.pollsUntilDone) (hv : v ∈ victims)
    {x : Memory × (Nat → Option Instance)} (hx : (razing m₀ victims).Holds x.1)
    (hwhole : Stripped m₀ v (fun _ => False) x.1) (s : Nat) :
    (mgr.destroyMember v).Obeys (razing m₀ victims).regime.conduct v (Razed m₀ victims v) x s := by
  have hdoes := does_destroy_of_razing hc hstored hp hv
  refine Program.obeys_bind.2 ((hdoes.obeys x s hx hwhole).mono fun r z _ hends => ?_)
  obtain ⟨hz, hends⟩ := hends
  rcases r with f | u
  · exact hends.elim
  · exact ⟨hv, hz, rfl, hends⟩

omit hc hstored in
/-- When all victims are rid of what they take, this is what the platform has lost. -/
private theorem loses_of_stripped (hm : (razing m₀ victims).Holds m)
    (h : ∀ v ∈ victims, Stripped m₀ v (fun _ => True) m) : m₀.Loses m fun k => ∃ v ∈ victims, v.Takes k := by
  refine ⟨?_, fun k hk => ?_⟩
  · rintro k ⟨v, hv, htakes⟩
    exact (h v hv k htakes).1 trivial
  · exact (hm.store k).resolve_right fun hnone => hk hnone.2

end Razing

namespace World.Calm

variable {project : String} {polls : Nat} {w : World Cloud Memory}

/-- Who works alone may let the members work. -/
private theorem razing (h : w.Calm (solitary project polls)) (victims : List Instance) :
    w.Calm (Fleet.razing w.service victims) := by
  have hm := h.holds
  exact ⟨h.interventions, hm.keyed, fun k => .inl rfl, rfl, rfl, hm.codes, hm.fetches, hm.lost, hm.unscripted⟩

private theorem alone {victims : List Instance} {m₀ : Memory} (h : w.Calm (Fleet.razing m₀ victims))
    (hproject : m₀.project = project) (hpolls : m₀.pollsUntilDone = polls) : w.Calm (solitary project polls) := by
  subst hproject hpolls
  exact ⟨h.interventions, h.holds.alone trivial fun _ h => h⟩

/-- One instance is taken down. -/
theorem run_destroy (h : w.Calm (solitary project polls)) {c : Client} (hp : c.poll.Patient polls)
    (hc : w.service.Canonical) {i : Instance}
    (hi : w.service.resources.find? (Resource.instance i).key = some (.instance i)) :
    ∃ w', (c.destroy i).run.run w = (.ok (), w') ∧ w'.Calm (solitary project polls) ∧
      w.service.Loses w'.service fun k => ∃ v ∈ [i], v.Takes k := by
  have hstored : w.service.HasInstances [i] := by simpa [HasInstances] using hi
  have hpolls : w.service.pollsUntilDone = polls := h.holds.polls
  have hdoes := does_destroy_of_razing hc hstored (hpolls.symm ▸ hp) (List.mem_singleton.2 rfl)
  obtain ⟨_, w', hrun, hw', hstripped⟩ := (h.razing [i]).run hdoes fun _ _ => ⟨False.elim, fun _ => rfl⟩
  refine ⟨w', hrun, hw'.alone h.holds.project h.holds.polls, loses_of_stripped hw'.holds ?_⟩
  simpa using hstripped

/-- Members that are taken down side by side all succeed, however they interleave. -/
theorem run_members (h : w.Calm (solitary project polls)) {mgr : Manager} (hp : mgr.client.poll.Patient polls)
    (hc : w.service.Canonical) {members : List Instance} (hnodup : members.Nodup)
    (hstored : w.service.HasInstances members) :
    ∃ (is : List Instance) (w' : World Cloud Memory),
      runPool mgr.concurrency (members.map mgr.destroyMember) w = (is.map fun i => (i, .ok ()), w') ∧
      is.Perm members ∧ w'.Calm (solitary project polls) ∧
      w.service.Loses w'.service fun k => ∃ v ∈ members, v.Takes k := by
  have hpolls : w.service.pollsUntilDone = polls := h.holds.polls
  have hcalm := h.razing members
  have hobeys : ∀ i ∈ members, ∀ y s,
      (Fleet.razing w.service members).regime.conduct.drift i (w.service, fun _ => none) y →
      (mgr.destroyMember i).Obeys (Fleet.razing w.service members).regime.conduct i
        (Razed w.service members i) y s := by
    intro i hi y s hd
    have hy := hd hcalm.holds
    refine obeys_destroyMember hc hstored (hpolls.symm ▸ hp) hi hy.inv ?_ s
    exact stable_stripped hi w.service y.1 hcalm.holds hy.inv hy.keeps fun _ _ => ⟨False.elim, fun _ => rfl⟩
  have hstable : ∀ i a x y t s, Razed w.service members i a x t →
      (Fleet.razing w.service members).regime.conduct.drift i x y → t ≤ s → Razed w.service members i a y s :=
    fun _ _ _ _ _ s hends hd _ => hends.drift hd s
  have hrun := runPool_of_obeys bounds hstable mgr.concurrency hnodup hcalm.within hobeys
  rcases hpool : runPool mgr.concurrency (members.map mgr.destroyMember) w with ⟨rs, w'⟩
  rw [hpool] at hrun
  obtain ⟨hw', hT, g, es, hrs, hnames, hes, -⟩ := hrun
  have hcalm' : w'.Calm (Fleet.razing w.service members) := of_within hw' (hT hcalm.holds)
  subst hrs
  refine ⟨es.map (·.1), w', ?_, hnames, hcalm'.alone h.holds.project h.holds.polls,
    loses_of_stripped hcalm'.holds fun v hv => ?_⟩
  · have hresults : es.map (·.2) = (es.map (·.1)).map fun i => (i, Except.ok ()) := by
      rw [List.map_map]
      exact List.map_congr_left fun e he => (hes e he).2.2.1
    rw [hresults]
  · obtain ⟨e, he, rfl⟩ := List.mem_map.1 (hnames.mem_iff.2 hv)
    exact (hes e he).2.2.2

end World.Calm

end Fleet
