import Fleet.Proofs.Launch.Store
import Fleet.Proofs.Memory.Canonical

/-!
# Launches on canonical platforms

Whatever goes wrong during a launch, and whether or not it is cancelled, a canonical platform to which nobody else adds
anything stays canonical (`Launch.Store.canonical`): what the launch has made refers to what is stored, and nothing goes
that is referred to.
-/

namespace Fleet

open Memory

namespace Launch

variable {l : Launch} {m : Memory}

variable (l m) in
/-- What may be stored after a launch to which nobody else adds anything. -/
inductive Yields : ResourceKey → Resource → Prop
  | kept {k : ResourceKey} {r : Resource} (h : l.before.resources.find? k = some r) : Yields k r
  | network : Yields l.networkKey (.network l.newNetwork)
  | firewall {net : Network} (h : m.resources.find? l.networkKey = some (.network net)) :
    Yields l.firewallKey (.firewall (l.newFirewall net))
  | disk {n : String} (hn : n ∈ l.names) : Yields (l.diskKey n) (.disk (l.newDisk n))
  | node {n : String} {net : Network} {i : Instance} (hn : n ∈ l.names)
    (hnew : l.before.resources.find? (l.diskKey n) = none)
    (hdisk : m.resources.find? (l.diskKey n) = some (.disk (l.newDisk n)))
    (hnet : m.resources.find? l.networkKey = some (.network net)) (hi : l.IsNode n net i) :
    Yields (l.instanceKey n) (.instance i)

private theorem IsNode.source_eq {n : String} {net : Network} {i : Instance} (hi : l.IsNode n net i)
    {a : AttachedDisk} (ha : a ∈ i.disks) : a.source = l.diskLink n := by
  obtain ⟨tags, ip, nat, rfl⟩ := hi
  rw [List.mem_singleton.1 ha]

private theorem diskLink_inj {n n' : String} (hn : n ∈ l.names) (hn' : n' ∈ l.names)
    (h : l.diskLink n = l.diskLink n') : n = n' := by
  have hname := (selfLink_injective (Naming.slash_not_mem_bootDiskName (l.no_slash n hn))
    (Naming.slash_not_mem_bootDiskName (l.no_slash n' hn')) h).1
  exact Naming.bootDiskName_injective hname

namespace Store

variable {k : ResourceKey} {r : Resource}

theorem yields (h : l.Store m) (hclosed : l.closed) (hr : m.resources.find? k = some r) : l.Yields m k r := by
  -- Under an own key there is what was there before or what the launch has made; the rest is as before.
  by_cases hown : l.Own k
  · rcases hown with rfl | rfl | ⟨n, hn, rfl | rfl⟩
    · rcases h.network with he | ⟨-, he⟩
      · exact .kept (he ▸ hr)
      · obtain rfl := Option.some.inj (hr.symm.trans he)
        exact .network
    · rcases h.firewall with he | ⟨-, net, hnet, he⟩
      · exact .kept (he ▸ hr)
      · obtain rfl := Option.some.inj (hr.symm.trans he)
        exact .firewall hnet
    · rcases h.disk n hn with he | ⟨-, he⟩ | ⟨he, -⟩
      · exact .kept (he ▸ hr)
      · obtain rfl := Option.some.inj (hr.symm.trans he)
        exact .disk hn
      · exact absurd (hr.symm.trans he) (by simp)
    · rcases h.node n hn with he | ⟨hnew, hdisk, i, net, hnet, he, hi⟩
      · exact absurd (hr.symm.trans he) (by simp)
      · obtain rfl := Option.some.inj (hr.symm.trans he)
        exact .node hn hnew hdisk hnet hi
  · cases hb : l.before.resources.find? k with
    | none => exact absurd (hr.symm.trans (h.closed hclosed k hown hb)) (by simp)
    | some s =>
      obtain rfl := Option.some.inj ((h.persists k s hown hb).symm.trans hr)
      exact .kept hb

/-- A network that was there is still there. -/
theorem keeps_network (h : l.Store m) {n : Network} (hn : l.before.resources.find? k = some (.network n)) :
    m.resources.find? k = some (.network n) := by
  by_cases hown : l.Own k
  · obtain rfl := hown.network (l.keyed.kind_eq hn).symm
    rcases h.network with he | ⟨he, -⟩
    · exact he.trans hn
    · exact absurd (hn.symm.trans he) (by simp)
  · exact h.persists k _ hown hn

/-- A disk that an instance was attached to is still there. -/
theorem keeps_disk (h : l.Store m) {d : Disk} (hd : l.before.resources.find? k = some (.disk d)) {j : ResourceKey}
    {u : Resource} (hu : l.before.resources.find? j = some u) (huses : uses u (.disk d) = true) :
    m.resources.find? k = some (.disk d) := by
  by_cases hown : l.Own k
  · obtain ⟨n, hn, rfl⟩ := hown.disk (l.keyed.kind_eq hd).symm
    rcases h.disk n hn with he | ⟨he, -⟩ | ⟨-, hfree⟩
    · exact he.trans hd
    · exact absurd (hd.symm.trans he) (by simp)
    · exact absurd ⟨d, j, u, hd, hu, huses⟩ hfree
  · exact h.persists k _ hown hd

/-! ### References -/

section Canonical

variable (h : l.Store m)

include h

private theorem exists_network {link : String} (hl : l.before.HasNetwork link) :
    ∃ k n, m.resources.find? k = some (.network n) ∧ link = n.selfLink := by
  obtain ⟨n, hn, rfl⟩ := hl
  exact ⟨_, n, h.keeps_network hn, rfl⟩

variable (hc : l.before.Canonical)

include hc

private theorem exists_disk {i : Instance} (hi : l.before.resources.find? k = some (.instance i)) {a : AttachedDisk}
    (ha : a ∈ i.disks) : ∃ k d, m.resources.find? k = some (.disk d) ∧ d.zone = i.zone ∧ a.source = d.selfLink := by
  obtain ⟨d, hd, hlink⟩ := hc.disk hi ha
  have hzone : d.zone = i.zone := Scope.zone.inj (congrArg (·.2.1) (hc.keyed _ _ hd))
  -- The instance uses the disk, so the launch has not taken it away.
  have huses : uses (.instance i) (.disk d) = true := by
    refine List.any_eq_true.2 ⟨a, ha, ?_⟩
    rw [hlink]
    exact Link.sameResource_refl _
  exact ⟨_, d, h.keeps_disk hd hi huses, hzone, hlink.symm⟩

omit h in
/-- No instance was attached to the disk of a new node. -/
private theorem source_ne {n : String} (hn : n ∈ l.names) (hnew : l.before.resources.find? (l.diskKey n) = none)
    {i : Instance} (hi : l.before.resources.find? k = some (.instance i)) {a : AttachedDisk} (ha : a ∈ i.disks) :
    a.source ≠ l.diskLink n := by
  have hslash := Naming.slash_not_mem_bootDiskName (l.no_slash n hn)
  exact (hc.source_ne hslash hnew hi ha).symm

/-- A launch leaves a canonical platform. -/
theorem canonical (hclosed : l.closed) (hslash : '/' ∉ l.network.toList) (hproject : m.project = l.before.project) :
    m.Canonical where
  keyed := h.keyed
  no_slash k r hr := by
    cases h.yields hclosed hr with
    | kept hb => exact hc.no_slash k r hb
    | network => exact hslash
    | firewall hnet => exact Naming.slash_not_mem_firewallName hslash _
    | disk hn => exact Naming.slash_not_mem_bootDiskName (l.no_slash _ hn)
    | node hn _ _ _ hi =>
      obtain ⟨tags, ip, nat, rfl⟩ := hi
      exact l.no_slash _ hn
  selfLink k r hr := by
    rw [selfLink_congr hproject]
    cases h.yields hclosed hr with
    | kept hb => exact hc.selfLink k r hb
    | network => rfl
    | firewall hnet => rfl
    | disk hn => rfl
    | node hn _ _ _ hi =>
      obtain ⟨tags, ip, nat, rfl⟩ := hi
      rfl
  instance_network k i hi nic hnic := by
    cases h.yields hclosed hi with
    | kept hb => exact h.exists_network (hc.network hb hnic)
    | node hn _ _ hnet hnode =>
      obtain ⟨tags, ip, nat, rfl⟩ := hnode
      rw [List.mem_singleton.1 hnic]
      exact ⟨_, _, hnet, rfl⟩
  instance_disk k i hi a ha := by
    cases h.yields hclosed hi with
    | kept hb => exact h.exists_disk hc hb ha
    | node hn _ hdisk _ hnode =>
      refine ⟨_, _, hdisk, ?_, hnode.source_eq ha⟩
      obtain ⟨tags, ip, nat, rfl⟩ := hnode
      rfl
  firewall_network k f hf := by
    cases h.yields hclosed hf with
    | kept hb => exact h.exists_network (hc.network_of_firewall hb)
    | firewall hnet => exact ⟨_, _, hnet, rfl⟩
  boot_disk k i hi := by
    cases h.yields hclosed hi with
    | kept hb => exact hc.boot_disk k i hb
    | node hn _ _ _ hnode =>
      obtain ⟨tags, ip, nat, rfl⟩ := hnode
      exact ⟨_, rfl⟩
  unshared k k' i j hi hj a ha b hb hsource := by
    cases h.yields hclosed hi with
    | kept hi =>
      cases h.yields hclosed hj with
      | kept hj => exact hc.unshared k k' i j hi hj a ha b hb hsource
      -- An old instance is attached to old disks only, and the disks of the launch are new.
      | node hn hnew _ _ hnode => exact absurd (hsource.trans (hnode.source_eq hb)) (source_ne hc hn hnew hi ha)
    | node hn hnew _ _ hnode =>
      cases h.yields hclosed hj with
      | kept hj => exact absurd (hsource.symm.trans (hnode.source_eq ha)) (source_ne hc hn hnew hj hb)
      | node hn' _ _ _ hnode' =>
        rw [diskLink_inj hn hn' ((hnode.source_eq ha).symm.trans (hsource.trans (hnode'.source_eq hb)))]

end Canonical

end Store

end Launch

end Fleet
