import Fleet.Proofs.Teardown.References

/-!
# Reclaiming networks in calm weather

On a canonical platform references to networks are links, so what refers to a network is what has its link. Where nobody
interferes, each network of such a platform comes to its fate (`World.Calm.run_reclaimShared`), and the fate of one
network does not depend on those that have been reclaimed before it (`World.Calm.run_reclaimAll`).
-/

namespace Fleet

open Memory

/-! ### References by link -/

namespace Memory.Canonical

variable {m : Memory} {link : String}

theorem attached_eq (hc : m.Canonical) (hl : m.HasNetwork link) : m.attached link = m.others [] link := by
  refine recordsOf_ext hc.keyed hc.keyed fun i =>
    (mem_attached hc.keyed).trans (Iff.trans ?_ (mem_others hc.keyed).symm)
  refine and_congr_right fun hi => ?_
  rw [hc.isOnNetwork_iff hi hl]
  simp

theorem guarding_eq (hc : m.Canonical) (hl : m.HasNetwork link) : m.guarding link = m.firewallsOn link := by
  refine recordsOf_ext hc.keyed hc.keyed fun f =>
    (mem_guarding hc.keyed).trans (Iff.trans ?_ (mem_firewallsOn hc.keyed).symm)
  exact and_congr_right fun hf => hc.sameResource_iff hf hl

theorem settlement_eq (hc : m.Canonical) (hl : m.HasNetwork link) : m.settlement link = m.fate [] link := by
  rw [settlement, fate, hc.attached_eq hl, hc.guarding_eq hl]

theorem abandoned_iff (hc : m.Canonical) (hl : m.HasNetwork link) : m.Abandoned link ↔ m.Deserted [] link := by
  rw [Abandoned, Deserted, hc.attached_eq hl]

/-- What belongs to a network is the network itself and the firewalls on it. -/
theorem joins_iff (hc : m.Canonical) (hl : m.HasNetwork link) {k : ResourceKey} :
    m.Joins link k ↔ m.BelongsTo link k := by
  rw [Joins, hc.guarding_eq hl]
  constructor
  · rintro (⟨f, hf, rfl⟩ | rfl)
    · obtain ⟨hstored, hnetwork⟩ := (mem_firewallsOn hc.keyed).1 hf
      exact ⟨_, hstored, hnetwork⟩
    · obtain ⟨n, hn, hlink⟩ := hl
      exact ⟨_, hn, hlink⟩
  · rintro ⟨r, hr, hbelongs⟩
    have hkey := hc.keyed k r hr
    cases r with
    | network n =>
      obtain ⟨n', hn', -⟩ := hc.hasNetwork hr
      have hname : Link.name n.selfLink = n.name := hc.name_selfLink (r := .network n) hr
      have hlink : n.selfLink = link := hbelongs
      refine .inr ?_
      rw [← hkey, networkKey, ← hlink, hname]
      rfl
    | firewall f => exact .inl ⟨f, (mem_firewallsOn hc.keyed).2 ⟨hkey ▸ hr, hbelongs⟩, hkey.symm⟩
    | disk d => exact hbelongs.elim
    | «instance» i => exact hbelongs.elim

end Memory.Canonical

namespace World.Calm

variable {project : String} {polls : Nat} {w : World Cloud Memory} {c : Client} {link : String}
  {excluding : List String}

/-- A network of a canonical platform comes to its fate. -/
theorem run_reclaimShared (h : w.Calm (solitary project polls)) (hp : c.poll.Patient polls)
    (hc : w.service.Canonical) (hl : w.service.HasNetwork link) (hgone : w.service.Misses excluding) :
    ∃ w', (c.reclaimShared link excluding).run.run w = (.ok (w.service.fate [] link), w') ∧
      w'.Calm (solitary project polls) ∧ w.service.Settles link w'.service := by
  obtain ⟨w', hrun, hw', hkept, hloses⟩ := h.run_reclaimReferenced hp hl hgone
  rw [hc.settlement_eq hl] at hrun
  refine ⟨w', hrun, hw', ?_⟩
  by_cases hdeserted : w.service.Deserted [] link
  · exact .of_deserted hdeserted ((hloses ((hc.abandoned_iff hl).2 hdeserted)).congr fun _ _ _ => hc.joins_iff hl)
  · exact .of_kept (hkept fun habandoned => hdeserted ((hc.abandoned_iff hl).1 habandoned)).1 hdeserted

theorem run_reclaimNetwork (h : w.Calm (solitary project polls)) (hp : c.poll.Patient polls)
    (hc : w.service.Canonical) (name : String) :
    ∃ o w', (c.reclaimNetwork name).run.run w = (.ok o, w') ∧ w'.Calm (solitary project polls) ∧
      w'.service.Canonical ∧ Shrinks w.service.resources w'.service.resources := by
  obtain ⟨found, w₁, hfetch, hw₁, ⟨hres₁, -⟩, hfound⟩ := h.run_fetch? c .network .global name
  have hc₁ : w₁.service.Canonical := hc.of_resources_eq hres₁ (hw₁.holds.project.trans h.holds.project.symm)
  unfold Client.reclaimNetwork
  rw [Action.run_bind_of_ok hfetch]
  cases found with
  | none => exact ⟨_, w₁, rfl, hw₁, hc₁, fun k r hr => hres₁ ▸ hr⟩
  | some n =>
    have hn : w₁.service.resources.find? (resourceKey .network .global name) = some (.network n) :=
      hres₁ ▸ hfound
    have hgone : w₁.service.Misses [] := fun _ _ _ => by simp
    obtain ⟨w₂, hrun, hw₂, hsettles⟩ := hw₁.run_reclaimShared hp hc₁ (hc₁.hasNetwork hn) hgone
    have hproject : w₂.service.project = w₁.service.project := hw₂.holds.project.trans hw₁.holds.project.symm
    exact ⟨_, w₂, hrun, hw₂, hsettles.canonical hc₁ hproject, fun k r hr =>
      hres₁ ▸ (hsettles.find?_eq_some_iff.1 hr).1⟩

theorem run_reclaimRecorded (h : w.Calm (solitary project polls)) (hp : c.poll.Patient polls)
    (hc : w.service.Canonical) (hl : w.service.HasNetwork link) (hgone : w.service.Misses excluding) :
    ∃ w', (c.reclaimRecorded link excluding).run.run w = (.ok (w.service.fate [] link), w') ∧
      w'.Calm (solitary project polls) ∧ w.service.Settles link w'.service := by
  obtain ⟨w', hrun, hw', hsettles⟩ := h.run_reclaimShared hp hc hl hgone
  have houtcome := Action.run_outcome (c.reclaimShared link excluding) w
  rw [hrun] at houtcome
  refine ⟨w', ?_, hw', hsettles⟩
  unfold Client.reclaimRecorded
  rw [Action.run_bind_of_ok houtcome]
  rfl

/-- Networks that are reclaimed one after the other come to the fates that they had in the beginning. -/
theorem run_reclaimAll {mgr : Manager} (hp : mgr.client.poll.Patient polls) {links : List String}
    (hnodup : links.Nodup) (h : w.Calm (solitary project polls)) (hc : w.service.Canonical)
    (hl : ∀ link ∈ links, w.service.HasNetwork link) (hgone : w.service.Misses excluding) :
    ∃ w', (mgr.reclaimAll excluding links).run.run w = (.ok (links.map (w.service.fate [])), w') ∧
      w'.Calm (solitary project polls) ∧ w'.service.Canonical ∧
      w.service.Loses w'.service (w.service.Doomed [] links) := by
  -- What the first network takes along belongs to no other one, so the rest finds its networks as they were.
  induction links generalizing w with
  | nil => exact ⟨w, rfl, h, hc, (Loses.refl _).congr fun _ _ _ => by simp [Doomed]⟩
  | cons link links ih =>
    obtain ⟨hnew, hnodup⟩ := List.nodup_cons.1 hnodup
    obtain ⟨w₁, hrun₁, hw₁, hsettles⟩ :=
      h.run_reclaimRecorded (c := mgr.client) hp hc (hl link List.mem_cons_self) hgone
    have hc₁ : w₁.service.Canonical := hsettles.canonical hc (hw₁.holds.project.trans h.holds.project.symm)
    have hmirrors : ∀ link' ∈ links, w.service.Mirrors [] link' w₁.service := by
      intro link' hlink'
      exact hsettles.mirrors fun he => hnew (he ▸ hlink')
    have hnetworks : ∀ link' ∈ links, w₁.service.HasNetwork link' := fun link' hlink' =>
      (hmirrors link' hlink').hasNetwork (hl link' (List.mem_cons_of_mem _ hlink'))
    obtain ⟨w₂, hrun₂, hw₂, hc₂, hl₂⟩ := ih hnodup hw₁ hc₁ hnetworks (hgone.of_loses hsettles)
    have hfates : links.map (w₁.service.fate []) = links.map (w.service.fate []) :=
      List.map_congr_left fun link' hlink' => (hmirrors link' hlink').fate_eq hc.keyed hc₁.keyed
    refine ⟨w₂, ?_, hw₂, hc₂, (hsettles.trans hl₂).congr fun k _ _ => ?_⟩
    · unfold Manager.reclaimAll
      rw [Action.run_bind_of_ok hrun₁, Action.run_bind_of_ok hrun₂, hfates]
      rfl
    · simp only [Doomed, List.not_mem_nil, false_and, exists_false, false_or, List.mem_cons, or_and_right, exists_or,
        exists_eq_left]
      refine or_congr_right (exists_congr fun link' => and_congr_right fun hlink' => ?_)
      rw [(hmirrors link' hlink').deserted_iff hc.keyed hc₁.keyed, (hmirrors link' hlink').belongsTo_iff]

/-- After the victims have been taken down, their networks come to the fates that the victims leave them to. -/
theorem run_reclaimAll_of_takes {mgr : Manager} (hp : mgr.client.poll.Patient polls)
    (h : w.Calm (solitary project polls)) {m : Memory} (hc : m.Canonical) (hproject : m.project = project)
    {victims : List Instance} (hv : m.HasInstances victims)
    (htaken : m.Loses w.service fun k => ∃ v ∈ victims, v.Takes k) {links : List String} (hnodup : links.Nodup)
    (hl : ∀ link ∈ links, m.HasNetwork link) (hexcluding : ∀ l ∈ excluding, ∃ v ∈ victims, v.selfLink = l) :
    ∃ w', (mgr.reclaimAll excluding links).run.run w = (.ok (links.map (m.fate victims)), w') ∧
      w'.Calm (solitary project polls) ∧ w'.service.Canonical ∧ m.Loses w'.service (m.Doomed victims links) := by
  have hc₁ : w.service.Canonical :=
    hc.of_loses htaken (hc.detached_takes hv) (h.holds.project.trans hproject.symm)
  have hmirrors : ∀ link, m.Mirrors victims link w.service := hc.mirrors_of_takes hv htaken
  have hnetworks : ∀ link ∈ links, w.service.HasNetwork link := fun link hlink =>
    (hmirrors link).hasNetwork (hl link hlink)
  -- An excluded link is that of a victim, and no other instance has it.
  have hgone : w.service.Misses excluding := by
    intro k i hi hmem
    obtain ⟨hi, hstays⟩ := ((hmirrors "").instances k i).1 hi
    obtain ⟨v, hv', hlink⟩ := hexcluding _ hmem
    exact hstays (hc.eq_of_selfLink (hv v hv') hi hlink ▸ hv')
  obtain ⟨w', hrun, hw', hc', hloses⟩ := run_reclaimAll hp hnodup h hc₁ hnetworks hgone
  have hfates : links.map (w.service.fate []) = links.map (m.fate victims) :=
    List.map_congr_left fun link _ => (hmirrors link).fate_eq hc.keyed hc₁.keyed
  rw [hfates] at hrun
  refine ⟨w', hrun, hw', hc', (htaken.trans hloses).congr fun k _ _ => ?_⟩
  simp only [Doomed, List.not_mem_nil, false_and, exists_false, false_or]
  refine or_congr_right (exists_congr fun link => and_congr_right fun _ => ?_)
  rw [(hmirrors link).deserted_iff hc.keyed hc₁.keyed, (hmirrors link).belongsTo_iff]

end World.Calm

end Fleet
