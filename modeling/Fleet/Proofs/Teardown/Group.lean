import Fleet.Proofs.Record.Group
import Fleet.Proofs.Teardown.Members
import Fleet.Proofs.Teardown.Networks

/-!
# Destroying a group

On a canonical platform where nothing goes wrong, destroying a group removes its members, the disks that go with them,
and those of their networks and of the group's own that nobody else is attached to; destroying it again changes nothing
(`destroyGroup_removes`).
-/

namespace Fleet

open Memory

namespace Memory

/-- The stored members of a group. -/
def members (m : Memory) (group : String) : List Instance :=
  m.recordsOf .instance fun i => i.metadata.find? Naming.groupKey == some group

variable {m m' : Memory} {group : String} {i : Instance}

theorem mem_members (hm : m.WellKeyed) : i ∈ m.members group ↔
    m.resources.find? (Resource.instance i).key = some (.instance i) ∧
      i.metadata.find? Naming.groupKey = some group := by
  refine (mem_recordsOf hm).trans (and_congr_right fun _ => ?_)
  simp

theorem hasInstances_members (hm : m.WellKeyed) (group : String) : m.HasInstances (m.members group) :=
  fun _ hi => ((mem_members hm).1 hi).1

/-- What is left when a group has been destroyed, and what is reported; `own` is the name of the group's network. -/
structure TornDown (before after : Memory) (group own : String) (report : TeardownReport) : Prop where
  vacated : ∀ k i, after.resources.find? k = some (.instance i) → i.metadata.find? Naming.groupKey ≠ some group
  destroyed : report.destroyed.Perm ((before.members group).map (·.name))
  failed : report.failed = []
  /-- Every network of a member, and the group's own, has one outcome, and with the members exactly what is doomed by
  them is gone. -/
  networks : ∃ links : List String, links.Nodup ∧
    (∀ link, link ∈ links ↔ (∃ i ∈ before.members group, ∃ nic ∈ i.networkInterfaces, nic.network = link) ∨
      ∃ n, before.find? .network .global own = some (.network n) ∧ n.selfLink = link) ∧
    report.shared = links.map (before.fate (before.members group)) ∧
    before.Loses after (before.Doomed (before.members group) links)

end Memory

namespace Manager

/-! ### Reports without failures -/

private theorem foldl_of_ok {f : TeardownReport → Instance × Except Failure Unit → TeardownReport}
    (hok : ∀ report i, f report (i, .ok ()) = report.addSuccess i.name) (is : List Instance) (report : TeardownReport) :
    (is.map fun i => (i, .ok ())).foldl f report =
      { report with destroyed := report.destroyed ++ is.map (·.name) } := by
  induction is generalizing report with
  | nil => simp
  | cons i is ih =>
    rw [List.map_cons, List.foldl_cons, hok, ih]
    simp [TeardownReport.addSuccess]

theorem teardownReport_of_ok (is : List Instance) :
    teardownReport (is.map fun i => (i, .ok ())) = { TeardownReport.empty with destroyed := is.map (·.name) } := by
  unfold teardownReport
  rw [foldl_of_ok fun _ _ => rfl]
  simp [TeardownReport.empty]

theorem destroyedLinks_of_ok (is : List Instance) :
    destroyedLinks (is.map fun i => (i, .ok ())) = is.map (·.selfLink) := by
  unfold destroyedLinks
  rw [List.filterMap_map, ← List.filterMap_eq_map]
  rfl

/-! ### The networks of a group -/

theorem mem_reclaimable {m : Memory} (hc : m.Canonical) {members : List Instance}
    (hstored : m.HasInstances members) {own : Option Network}
    (hown : ∀ n, own = some n → ∃ k, m.resources.find? k = some (.network n)) {link : String} :
    link ∈ reclaimable members own ↔
      (∃ i ∈ members, ∃ nic ∈ i.networkInterfaces, nic.network = link) ∨ ∃ n, own = some n ∧ n.selfLink = link := by
  unfold reclaimable
  cases own with
  | none => simp [mem_networksOf]
  | some n =>
    obtain ⟨k, hn⟩ := hown n rfl
    have hany : ((networksOf members).keys.any fun link => Link.sameResource link n.selfLink) = true ↔
        n.selfLink ∈ (networksOf members).keys := by
      rw [List.any_eq_true]
      constructor
      · rintro ⟨l, hl, hsame⟩
        obtain ⟨i, hi, nic, hnic, rfl⟩ := mem_networksOf.1 hl
        have hpath := hc.isPath_of_hasNetwork (hc.network (hstored i hi) hnic)
        rwa [(Link.sameResource_of_isPath hpath (hc.isPath (r := .network n) hn)).1 hsame] at hl
      · intro hmem
        exact ⟨_, hmem, Link.sameResource_refl _⟩
    show link ∈ (if _ then _ else _ : List String) ↔ _
    by_cases hmem : n.selfLink ∈ (networksOf members).keys
    · rw [if_pos (hany.2 hmem), mem_networksOf]
      refine (or_iff_left_of_imp ?_).symm
      rintro ⟨n', hn', rfl⟩
      cases hn'
      exact mem_networksOf.1 hmem
    · rw [if_neg (mt hany.1 hmem), OrderedMap.mem_keys_insert, mem_networksOf, or_comm]
      simp [eq_comm]

end Manager

/-! ### The teardown of a group -/

namespace World.Calm

variable {project : String} {polls : Nat} {w : World Cloud Memory} {mgr : Manager}

private theorem run_listMembers (h : w.Calm (solitary project polls)) (c : Client) (group : String) :
    ∃ w', (c.list .instance (.withLabel Naming.groupKey group)).run.run w =
        (.ok (w.service.members group), w') ∧
      w'.Calm (solitary project polls) ∧ w'.service.resources = w.service.resources := by
  obtain ⟨w', hrun, hw', hres, -⟩ := h.run_list c .instance (.withLabel Naming.groupKey group)
  have hadmits : (fun i : Instance => (Filter.withLabel Naming.groupKey group).admits (Resource.ofRecord .instance i)) =
      fun i => i.metadata.find? Naming.groupKey == some group := by
    funext i
    simp [Resource.ofRecord, Filter.admits, Filter.withLabel, Filter.any, Filter.isLabelled]
  rw [hadmits] at hrun
  exact ⟨w', hrun, hw', hres⟩

/-- After the members have been taken down, the networks to be reclaimed are theirs and the group's own. -/
private theorem run_groupNetworks (h : w.Calm (solitary project polls)) (mgr : Manager) {m : Memory} (hc : m.Canonical)
    {group : String} (htaken : m.Loses w.service fun k => ∃ v ∈ m.members group, v.Takes k) :
    ∃ links w', (mgr.groupNetworks group (m.members group)).run.run w = (.ok links, w') ∧
      w'.Calm (solitary project polls) ∧ w'.service.resources = w.service.resources ∧ links.Nodup ∧
      ∀ link, link ∈ links ↔ (∃ i ∈ m.members group, ∃ nic ∈ i.networkInterfaces, nic.network = link) ∨
        ∃ n, m.find? .network .global (Naming.groupNetworkName mgr.networkStem group) = some (.network n) ∧
          n.selfLink = link := by
  obtain ⟨own, w₁, hfetch, hw₁, ⟨hres₁, -⟩, hown⟩ :=
    h.run_fetch? mgr.client .network .global (Naming.groupNetworkName mgr.networkStem group)
  -- The members take no networks, so the group's own is still there.
  rw [htaken.kept _ fun ⟨v, _, htakes⟩ => by
    rcases htakes.kind with hkind | hkind <;> exact absurd hkind (by simp [resourceKey])] at hown
  have hown : ∀ n, own = some n ↔
      m.find? .network .global (Naming.groupNetworkName mgr.networkStem group) = some (.network n) := by
    intro n
    rw [find?, hown]
    cases own with
    | none => simp
    | some n' => simp [Resource.ofRecord]
  refine ⟨Manager.reclaimable (m.members group) own, w₁, ?_, hw₁, hres₁, Manager.nodup_reclaimable _ own,
    fun link => ?_⟩
  · rw [Manager.run_groupNetworks, hfetch]
  · rw [Manager.mem_reclaimable hc (hasInstances_members hc.keyed group) fun n hn => ⟨_, (hown n).1 hn⟩]
    simp only [hown]

private theorem run_reclaimGroup (h : w.Calm (solitary project polls)) (hp : mgr.client.poll.Patient polls)
    {m : Memory} (hc : m.Canonical) (hproject : m.project = project) {group : String} {is : List Instance}
    (hperm : is.Perm (m.members group)) (htaken : m.Loses w.service fun k => ∃ v ∈ m.members group, v.Takes k) :
    ∃ report w', (mgr.reclaimGroup group (m.members group) (is.map fun i => (i, .ok ()))).run.run w =
        (.ok report, w') ∧ w'.Calm (solitary project polls) ∧ w'.service.Canonical ∧
      TornDown m w'.service group (Naming.groupNetworkName mgr.networkStem group) report := by
  have hstored := hasInstances_members hc.keyed group
  obtain ⟨links, w₁, hgroup, hw₁, hres₁, hnodup, hlinks⟩ := h.run_groupNetworks mgr hc htaken
  have hnetworks : ∀ link ∈ links, m.HasNetwork link := by
    intro link hlink
    rcases (hlinks link).1 hlink with ⟨i, hi, nic, hnic, rfl⟩ | ⟨n, hn, rfl⟩
    · exact hc.network (hstored i hi) hnic
    · exact hc.hasNetwork hn
  have hexcluding : ∀ l ∈ is.map (·.selfLink), ∃ v ∈ m.members group, v.selfLink = l := by
    intro l hl
    obtain ⟨i, hi, rfl⟩ := List.mem_map.1 hl
    exact ⟨i, hperm.mem_iff.1 hi, rfl⟩
  obtain ⟨w₂, hreclaim, hw₂, hc₂, hl₂⟩ := hw₁.run_reclaimAll_of_takes hp hc hproject hstored
    (htaken.of_resources_eq rfl hres₁) hnodup hnetworks hexcluding
  refine ⟨{ TeardownReport.empty with
      destroyed := is.map (·.name), shared := links.map (m.fate (m.members group)) }, w₂, ?_, hw₂, hc₂, ?_⟩
  · unfold Manager.reclaimGroup
    rw [Action.run_bind_of_ok hgroup, Manager.destroyedLinks_of_ok, Action.run_bind_of_ok hreclaim,
      Manager.teardownReport_of_ok]
    rfl
  · exact
      { vacated := fun k i hi hlabel => by
          obtain ⟨hi, hstays⟩ := hl₂.find?_eq_some_iff.1 hi
          have hkey : (Resource.instance i).key = k := hc.keyed k _ hi
          subst hkey
          exact hstays (.inl ⟨i, (mem_members hc.keyed).2 ⟨hi, hlabel⟩, i.takes_key⟩)
        destroyed := hperm.map (·.name)
        failed := rfl
        networks := ⟨links, hnodup, hlinks, rfl, hl₂⟩ }

theorem run_destroyGroup (h : w.Calm (solitary project polls)) (hp : mgr.client.poll.Patient polls)
    (hc : w.service.Canonical) (group : String) :
    ∃ report w', mgr.destroyGroup group w = (.ok report, w') ∧ w'.Calm (solitary project polls) ∧
      w'.service.Canonical ∧
      TornDown w.service w'.service group (Naming.groupNetworkName mgr.networkStem group) report := by
  obtain ⟨w₁, hlist, hw₁, hres₁⟩ := h.run_listMembers mgr.client group
  have hstored : w₁.service.HasInstances (w.service.members group) := by
    unfold HasInstances
    rw [hres₁]
    exact hasInstances_members hc.keyed group
  have hproject : w₁.service.project = w.service.project := hw₁.holds.project.trans h.holds.project.symm
  obtain ⟨is, w₂, hpool, hperm, hw₂, hl₂⟩ := hw₁.run_members hp (hc.of_resources_eq hres₁ hproject)
    (nodup_recordsOf hc.keyed) hstored
  obtain ⟨report, w₃, hreclaim, hw₃, hc₃, htorn⟩ :=
    hw₂.run_reclaimGroup hp hc h.holds.project hperm (hl₂.of_resources_eq hres₁.symm rfl)
  refine ⟨{ report with durationMs := w₃.now - w.now }, w₃, ?_, hw₃, hc₃,
    ⟨htorn.vacated, htorn.destroyed, htorn.failed, htorn.networks⟩⟩
  unfold Manager.destroyGroup
  simp only [hlist, hpool, hreclaim]

end World.Calm

/-! ### Destroying twice -/

namespace Memory

variable {before after : Memory} {group own : String} {report : TeardownReport}

/-- An instance that is not a victim stays. -/
theorem find?_of_not_victim {victims : List Instance} {links : List String} {m m' : Memory} (hc : m.Canonical)
    (hv : m.HasInstances victims) (hl : m.Loses m' (m.Doomed victims links)) {k : ResourceKey} {i : Instance}
    (hi : m.resources.find? k = some (.instance i)) (hnot : i ∉ victims) :
    m'.resources.find? k = some (.instance i) := by
  refine hl.find?_eq_some_iff.2 ⟨hi, ?_⟩
  rintro (⟨v, hmem, htakes⟩ | ⟨link, -, -, r, hr, hbelongs⟩)
  · exact hnot (hc.eq_of_takes_key (hv v hmem) hi htakes ▸ hmem)
  · rw [hi] at hr
    cases hr
    exact hbelongs

/-- After a teardown no network of the group that is left is deserted. -/
private theorem TornDown.not_deserted (h : TornDown before after group own report) (hc : before.Canonical)
    (hc' : after.Canonical) {n : Network} (hn : after.find? .network .global own = some (.network n)) :
    ¬ after.Deserted [] n.selfLink := by
  obtain ⟨links, -, hmem, -, hl⟩ := h.networks
  have hstored := hasInstances_members hc.keyed group
  obtain ⟨hn, hstays⟩ := hl.find?_eq_some_iff.1 hn
  intro hdeserted
  refine hstays (.inr ⟨n.selfLink, (hmem _).2 (.inr ⟨n, hn, rfl⟩), ⟨hdeserted.1, ?_⟩, _, hn, rfl⟩)
  -- Who is on the network besides the members is still there.
  refine List.eq_nil_iff_forall_not_mem.2 fun i hi => ?_
  obtain ⟨hi, hattached, hnot⟩ := (mem_others hc.keyed).1 hi
  have hleft : i ∈ after.others [] n.selfLink :=
    (mem_others hc'.keyed).2 ⟨find?_of_not_victim hc hstored hl hi hnot, hattached, by simp⟩
  rw [hdeserted.2] at hleft
  exact absurd hleft (by simp)

/-- A teardown of a group that has been torn down removes nothing. -/
theorem TornDown.find?_again {final : Memory} {report' : TeardownReport} (h : TornDown before after group own report)
    (hc : before.Canonical) (hc' : after.Canonical) (h' : TornDown after final group own report') (k : ResourceKey) :
    final.resources.find? k = after.resources.find? k := by
  have hnone : after.members group = [] := by
    refine List.eq_nil_iff_forall_not_mem.2 fun i hi => ?_
    obtain ⟨hi, hlabel⟩ := (mem_members hc'.keyed).1 hi
    exact h.vacated _ i hi hlabel
  obtain ⟨links, -, hmem, -, hl⟩ := h'.networks
  rw [hnone] at hmem hl
  refine hl.kept k ?_
  rintro (⟨v, hv, -⟩ | ⟨link, hlink, hdeserted, -⟩)
  · exact absurd hv (by simp)
  · rcases (hmem link).1 hlink with ⟨i, hi, -⟩ | ⟨n, hn, rfl⟩
    · exact absurd hi (by simp)
    · exact h.not_deserted hc hc' hn hdeserted

end Memory

/-- Destroying a group removes exactly what is doomed by its members and reports on all of it; a second time nothing is
left to be removed. -/
theorem destroyGroup_removes {mgr : Manager} {w : World Cloud Memory} (hcanonical : w.service.Canonical)
    (hfree : w.service.FaultFree) (hw : w.interventions = [])
    (hp : mgr.client.poll.Patient w.service.pollsUntilDone) (group : String) :
    ∃ report after, mgr.destroyGroup group w = (.ok report, after) ∧
      TornDown w.service after.service group (Naming.groupNetworkName mgr.networkStem group) report ∧
      ∃ again final, mgr.destroyGroup group after = (.ok again, final) ∧
        final.service.resources = after.service.resources := by
  have hcalm : w.Calm (solitary w.service.project w.service.pollsUntilDone) := ⟨hw, hfree.holds hcanonical.keyed⟩
  obtain ⟨report, w₁, hrun₁, hw₁, hc₁, h₁⟩ := hcalm.run_destroyGroup hp hcanonical group
  obtain ⟨again, w₂, hrun₂, -, -, h₂⟩ := hw₁.run_destroyGroup hp hc₁ group
  exact ⟨report, w₁, hrun₁, h₁, again, w₂, hrun₂, OrderedMap.eq_of_find? (h₁.find?_again hcanonical hc₁ h₂)⟩

/-- The group `web` has one member, whose network the node next to it keeps. -/
theorem destroyGroup_removes_of_neighbours :
    ∃ report after, (Manager.ofClient .standard).destroyGroup "web" (World.start neighbours.2 0) = (.ok report, after) ∧
      TornDown neighbours.2 after.service "web" "gceflow-web" report ∧
      ∃ again final, (Manager.ofClient .standard).destroyGroup "web" after = (.ok again, final) ∧
        final.service.resources = after.service.resources :=
  @destroyGroup_removes (.ofClient .standard) (World.start neighbours.2 0) canonical_neighbours faultFree_neighbours rfl
    (PollPolicy.patient_one _) "web"

end Fleet
