import Fleet.Proofs.Memory.Calls
import Fleet.Proofs.Memory.Canonical
import Mathlib.Logic.Basic

/-!
# Platforms on which every instance has its own disk

A canonical platform is wired when every instance has one disk, which bears its name and goes along with it
(`Memory.Wired`). That survives everything that the platform agrees to: a deletion, because it looks for whoever uses
what is deleted (`Canonical.detached_removeWith`); the creation of an instance, because it looks for what the instance
needs (`Wired.create_instance`); and a node that is put there from outside, even in the place of another one
(`Wired.seedNode`). Only the network of a firewall has to be known when the firewall is created
(`Wired.create_firewall`).
-/

namespace Fleet

namespace Memory

/-- The disk of an instance: that of its name, which goes along with it. -/
def ownDisk (m : Memory) (zone name : String) : AttachedDisk :=
  ⟨m.selfLink .disk (.zone zone) (Naming.bootDiskName name), true, true⟩

/-- Everything is in order, and every instance has its own disk only. -/
structure Wired (m : Memory) : Prop where
  canonical : m.Canonical
  disks : ∀ k i, m.resources.find? k = some (.instance i) → i.disks = [m.ownDisk i.zone i.name]

variable {m m' : Memory} {k : ResourceKey} {r : Resource} {i : Instance} {zone name network group : String}

theorem ownDisk_congr (h : m.project = m'.project) (zone name : String) :
    m.ownDisk zone name = m'.ownDisk zone name := by
  unfold ownDisk
  rw [selfLink_congr h]

theorem wired_empty (project : String) (polls : Nat) : ((Memory.empty project).withPollsUntilDone polls).Wired :=
  ⟨canonical_empty project polls, fun _ _ hi => (by cases hi)⟩

/-! ### Taking away -/

/-- Whatever the platform agrees to delete, nothing that stays refers to what goes. -/
theorem Canonical.detached_removeWith (h : m.Canonical) (hr : m.resources.find? k = some r)
    (hu : m.user? r = none) : m.Detached fun j => j = k ∨ takesAlong r j = true where
  network j i hi _ nic hnic hgone := by
    obtain ⟨n, hn, hlink⟩ := h.network hi hnic
    rcases hgone with hk | hk
    · rw [hk, hr] at hn
      obtain rfl := Option.some.inj hn
      -- The instance is on the network, so it is one that keeps the network from being deleted.
      have hon : uses (.instance i) (.network n) = true :=
        List.any_eq_true.2 ⟨nic, hnic, by rw [hlink]; exact Link.sameResource_refl _⟩
      exact absurd ((not_uses_of_user? hu hi).symm.trans hon) (by simp)
    · exact absurd (kind_of_takesAlong hk) (by simp [networkKey, resourceKey])
  disk j i hi hstays a ha hgone := by
    obtain ⟨d, hd, hlink⟩ := h.disk hi ha
    rcases hgone with hk | hk
    · rw [hk, hr] at hd
      obtain rfl := Option.some.inj hd
      have hattached : uses (.instance i) (.disk d) = true :=
        List.any_eq_true.2 ⟨a, ha, by rw [hlink]; exact Link.sameResource_refl _⟩
      exact absurd ((not_uses_of_user? hu hi).symm.trans hattached) (by simp)
    · cases r with
      | «instance» v =>
        simp only [takesAlong, List.any_eq_true, Bool.and_eq_true, beq_iff_eq] at hk
        obtain ⟨b, hb, -, hkey⟩ := hk
        obtain rfl : v = i := h.owner hr hi hb ha hkey
        -- The disk is that of the instance which is deleted itself.
        exact hstays (.inl ((h.keyed j _ hi).symm.trans (h.keyed k _ hr)))
      | _ => exact absurd hk (by simp [takesAlong])
  firewall j f hf _ hgone := by
    obtain ⟨n, hn, hlink⟩ := h.network_of_firewall hf
    rcases hgone with hk | hk
    · rw [hk, hr] at hn
      obtain rfl := Option.some.inj hn
      have hon : uses (.firewall f) (.network n) = true := by
        show Link.sameResource f.network n.selfLink = true
        rw [hlink]
        exact Link.sameResource_refl _
      exact absurd ((not_uses_of_user? hu hf).symm.trans hon) (by simp)
    · exact absurd (kind_of_takesAlong hk) (by simp [networkKey, resourceKey])

/-- Tags refer to nothing. -/
theorem Canonical.retagged (h : m.Canonical) (hi : m.resources.find? k = some (.instance i)) {t : Tags}
    (hre : m.Retagged k i t m') : m'.Canonical where
  keyed := hre.forall_find? hi h.keyed id
  no_slash := hre.forall_find? hi h.no_slash id
  selfLink j s hs := by
    rw [selfLink_congr hre.project]
    exact hre.forall_find? hi h.selfLink id j s hs
  instance_network j v hv nic hnic := by
    obtain ⟨v', t', hv', rfl⟩ := hre.exists_instance hi hv
    obtain ⟨k', n, hn, hlink⟩ := h.instance_network j v' hv' nic hnic
    exact ⟨k', n, hre.find?_of_kind_ne hi hn (by simp [Resource.kind]), hlink⟩
  instance_disk j v hv a ha := by
    obtain ⟨v', t', hv', rfl⟩ := hre.exists_instance hi hv
    obtain ⟨k', d, hd, hzone, hlink⟩ := h.instance_disk j v' hv' a ha
    exact ⟨k', d, hre.find?_of_kind_ne hi hd (by simp [Resource.kind]), hzone, hlink⟩
  firewall_network j f hf := by
    rcases hre.find?_cases hf with hf | ⟨-, hf⟩
    · obtain ⟨k', n, hn, hlink⟩ := h.firewall_network j f hf
      exact ⟨k', n, hre.find?_of_kind_ne hi hn (by simp [Resource.kind]), hlink⟩
    · cases hf
  boot_disk j v hv := by
    obtain ⟨v', t', hv', rfl⟩ := hre.exists_instance hi hv
    exact h.boot_disk j v' hv'
  unshared j j' v v' hv hv' := by
    obtain ⟨u, _, hu, rfl⟩ := hre.exists_instance hi hv
    obtain ⟨u', _, hu', rfl⟩ := hre.exists_instance hi hv'
    exact h.unshared j j' u u' hu hu'

namespace Wired

theorem of_loses (h : m.Wired) {gone : ResourceKey → Prop} (hl : m.Loses m' gone) (hd : m.Detached gone)
    (hproject : m'.project = m.project) : m'.Wired := by
  refine ⟨h.canonical.of_loses hl hd hproject, fun k i hi => ?_⟩
  rw [ownDisk_congr hproject]
  exact h.disks k i (hl.find?_eq_some_iff.1 hi).1

theorem of_resources_eq (h : m.Wired) (hres : m'.resources = m.resources) (hproject : m'.project = m.project) :
    m'.Wired := by
  refine ⟨h.canonical.of_resources_eq hres hproject, fun k i hi => ?_⟩
  rw [ownDisk_congr hproject]
  exact h.disks k i (hres ▸ hi)

theorem removeWith (h : m.Wired) (hr : m.resources.find? k = some r) (hu : m.user? r = none) :
    ((m.remove k).removeWith r).Wired :=
  h.of_loses (Loses.of_removeWith m k r) (h.canonical.detached_removeWith hr hu) (m.continues_removeWith k r).project

/-! ### Tags -/

theorem retagged (h : m.Wired) (hi : m.resources.find? k = some (.instance i)) {t : Tags} (hre : m.Retagged k i t m') :
    m'.Wired := by
  refine ⟨h.canonical.retagged hi hre, fun j v hv => ?_⟩
  obtain ⟨v', t', hv', rfl⟩ := hre.exists_instance hi hv
  rw [ownDisk_congr hre.project]
  exact h.disks j v' hv'

/-! ### Creating -/

theorem seed (h : m.Wired) (hr : m.Seedable r) (hdisks : ∀ i, r = .instance i → i.disks = [m.ownDisk i.zone i.name]) :
    (m.seed r).Wired := by
  refine ⟨h.canonical.seed hr, fun k i hi => ?_⟩
  have hi : (m.resources.insert r.key r).find? k = some (.instance i) := hi
  show i.disks = [m.ownDisk i.zone i.name]
  rw [OrderedMap.find?_insert] at hi
  split at hi
  · exact hdisks i (Option.some.inj hi)
  · exact h.disks k i hi

/-- A resource that refers to nothing may be created when it is new. -/
theorem create (h : m.Wired) (hr : r.kind = .network ∨ r.kind = .disk) (hslash : '/' ∉ r.name.toList)
    (hself : r.selfLink = m.selfLink r.kind r.scope r.name) (hnew : m.resources.find? r.key = none) :
    (m.seed r).Wired := by
  have hinstance : ∀ i, r ≠ .instance i := by
    rintro i rfl
    rcases hr with hr | hr <;> cases hr
  have hfirewall : ∀ f, r ≠ .firewall f := by
    rintro f rfl
    rcases hr with hr | hr <;> cases hr
  exact h.seed ⟨hnew, hslash, hself, fun i he => absurd he (hinstance i), fun i he => absurd he (hinstance i),
    fun f he => absurd he (hfirewall f), fun i he => absurd he (hinstance i), fun i he => absurd he (hinstance i)⟩
    fun i he => absurd he (hinstance i)

/-- A firewall may be created when its network is there: the platform does not look. -/
theorem create_firewall (h : m.Wired) {f : Firewall} (hslash : '/' ∉ f.name.toList)
    (hself : f.selfLink = m.selfLink .firewall .global f.name) (hnetwork : m.HasNetwork f.network)
    (hnew : m.resources.find? (Resource.firewall f).key = none) : (m.seed (.firewall f)).Wired := by
  refine h.seed ⟨hnew, hslash, hself, ?_, ?_, ?_, ?_, ?_⟩ ?_ <;> rintro _ he <;> cases he
  exact hnetwork

private theorem hasNetwork_of_contains (h : m.Wired) {link : String} (hname : '/' ∉ name.toList)
    (hlink : link = m.selfLink .network .global name) (hc : m.resources.contains (networkKey link) = true) :
    m.HasNetwork link := by
  obtain ⟨s, hs⟩ := OrderedMap.contains_eq_true_iff.1 hc
  have hkind : s.kind = .network := h.canonical.keyed.kind_eq hs
  cases s with
  | network n =>
    refine ⟨n, hs, ?_⟩
    have hn : n.name = name := by
      have hkey : n.name = Link.name link := h.canonical.keyed.name_eq hs
      rw [hkey, hlink, name_selfLink _ _ _ hname]
    rw [hlink, ← hn]
    exact h.canonical.selfLink _ _ hs
  | _ => exact absurd hkind (by simp [Resource.kind])

private theorem hasDisk_of_contains (h : m.Wired) (hname : '/' ∉ name.toList)
    (hc : m.resources.contains (diskKey zone (m.ownDisk zone name).source) = true) :
    m.HasDisk zone (m.ownDisk zone name).source := by
  have hboot := Naming.slash_not_mem_bootDiskName hname
  obtain ⟨s, hs⟩ := OrderedMap.contains_eq_true_iff.1 hc
  have hkind : s.kind = .disk := h.canonical.keyed.kind_eq hs
  cases s with
  | disk d =>
    refine ⟨d, hs, ?_⟩
    have hkey : (Resource.disk d).key = diskKey zone (m.ownDisk zone name).source := h.canonical.keyed _ _ hs
    have hd : d.name = Naming.bootDiskName name := by
      have hn : d.name = Link.name (m.ownDisk zone name).source := congrArg (·.2.2) hkey
      rw [hn, ownDisk, name_selfLink _ _ _ hboot]
    have hz : d.zone = zone := Scope.zone.inj (congrArg (·.2.1) hkey)
    rw [ownDisk, ← hd, ← hz]
    exact h.canonical.selfLink _ _ hs
  | _ => exact absurd hkind (by simp [Resource.kind])

/-- Instances of different zones or names have different disks. -/
private theorem own_disk_of_eq {j : Instance} (hj : m.resources.find? k = some (.instance j)) (h : m.Wired)
    (hname : '/' ∉ name.toList) {b : AttachedDisk} (hb : b ∈ j.disks)
    (hsource : (m.ownDisk zone name).source = b.source) :
    k = resourceKey .instance (.zone zone) name := by
  rw [h.disks k j hj] at hb
  obtain rfl := List.mem_singleton.1 hb
  obtain ⟨hboot, hpath⟩ := selfLink_injective (Naming.slash_not_mem_bootDiskName hname)
    (Naming.slash_not_mem_bootDiskName (h.canonical.no_slash k _ hj)) hsource
  have hzone : zone = j.zone := Scope.zone_eq_of_path hpath
  rw [Naming.bootDiskName_injective hboot, hzone]
  exact (h.canonical.keyed k _ hj).symm

/-- An instance that the platform agrees to create refers to what is there. -/
theorem create_instance (h : m.Wired) (hslash : '/' ∉ i.name.toList)
    (hself : i.selfLink = m.selfLink .instance (.zone i.zone) i.name) (hdisks : i.disks = [m.ownDisk i.zone i.name])
    (hnics : ∀ nic ∈ i.networkInterfaces, ∃ n : String, '/' ∉ n.toList ∧ nic.network = m.selfLink .network .global n)
    (hnew : m.resources.find? (Resource.instance i).key = none)
    (hmissing : m.missingReference? (.instance i) = none) : (m.seed (.instance i)).Wired := by
  have hstored : ∀ k ∈ referencesOf i, m.resources.contains k = true := fun k hk => by
    simpa using List.find?_eq_none.1 hmissing k hk
  have hnetworks : ∀ nic ∈ i.networkInterfaces, m.resources.contains (networkKey nic.network) = true := fun nic hnic =>
    hstored _ (List.mem_append_left _ (List.mem_map.2 ⟨nic, hnic, rfl⟩))
  have hattached : ∀ a ∈ i.disks, m.resources.contains (diskKey i.zone a.source) = true := fun a ha =>
    hstored _ (List.mem_append_right _ (List.mem_map.2 ⟨a, ha, rfl⟩))
  refine h.seed ⟨hnew, hslash, hself, ?_, ?_, fun f he => (by cases he), ?_, ?_⟩ ?_ <;> rintro j he <;> cases he
  · intro nic hnic
    obtain ⟨n, hn, hlink⟩ := hnics nic hnic
    exact h.hasNetwork_of_contains hn hlink (hnetworks nic hnic)
  · intro a ha
    have hkey := hattached a ha
    rw [hdisks] at ha
    obtain rfl := List.mem_singleton.1 ha
    exact h.hasDisk_of_contains hslash hkey
  · unfold Instance.bootDisk?
    rw [hdisks]
    exact ⟨_, rfl⟩
  · intro a ha k j hj b hb hsource
    rw [hdisks] at ha
    obtain rfl := List.mem_singleton.1 ha
    have hk : k = (Resource.instance i).key := own_disk_of_eq hj h hslash hb hsource
    rw [hk, hnew] at hj
    exact absurd hj (by simp)
  · exact hdisks

theorem key_of_mem_disks (h : m.Wired) (hi : m.resources.find? k = some (.instance i)) {a : AttachedDisk}
    (ha : a ∈ i.disks) : diskKey i.zone a.source = resourceKey .disk (.zone i.zone) (Naming.bootDiskName i.name) := by
  have hslash : '/' ∉ i.name.toList := h.canonical.no_slash k _ hi
  rw [h.disks k i hi] at ha
  rw [List.mem_singleton.1 ha, ownDisk, diskKey, name_selfLink _ _ _ (Naming.slash_not_mem_bootDiskName hslash)]

end Wired

/-! ### Seeding -/

theorem seedNode_fst : (m.seedNode zone name network group).1 =
    m.seedInstance zone name network group m.newFingerprint.1 := by
  unfold seedNode
  split <;> rfl

theorem project_seedNode : (m.seedNode zone name network group).2.project = m.project := by
  unfold seedNode
  split <;> rfl

theorem find?_seedNode (k : ResourceKey) : (m.seedNode zone name network group).2.resources.find? k =
    if k = resourceKey .instance (.zone zone) name then some (.instance (m.seedNode zone name network group).1)
    else if k = resourceKey .disk (.zone zone) (Naming.bootDiskName name) then some (.disk (m.seedDisk zone name))
    else if k = resourceKey .network .global network ∧ m.has .network .global network = false then
      some (.network (m.seedNetwork network))
    else m.resources.find? k := by
  unfold seedNode
  by_cases hhas : m.has .network .global network = true
  · simp only [hhas, Bool.true_eq_false, and_false, if_false]
    refine (OrderedMap.find?_insert _ _ _ _).trans (if_congr Iff.rfl rfl ?_)
    exact OrderedMap.find?_insert _ _ _ _
  · simp only [Bool.not_eq_true _ ▸ hhas, and_true]
    refine (OrderedMap.find?_insert _ _ _ _).trans (if_congr Iff.rfl rfl ?_)
    refine (OrderedMap.find?_insert _ _ _ _).trans (if_congr Iff.rfl rfl ?_)
    exact OrderedMap.find?_insert _ _ _ _

/-- The platform without a node and its boot disk. -/
private def vacate (m : Memory) (zone name : String) : Memory :=
  let rest := m.resources.erase (resourceKey .instance (.zone zone) name)
  { m with resources := rest.erase (resourceKey .disk (.zone zone) (Naming.bootDiskName name)) }

private theorem loses_vacate (m : Memory) (zone name : String) : m.Loses (m.vacate zone name) fun k =>
    k = resourceKey .instance (.zone zone) name ∨ k = resourceKey .disk (.zone zone) (Naming.bootDiskName name) := by
  have hfind : ∀ k, (m.vacate zone name).resources.find? k =
      if k = resourceKey .disk (.zone zone) (Naming.bootDiskName name) then none
      else if k = resourceKey .instance (.zone zone) name then none else m.resources.find? k := by
    intro k
    refine (OrderedMap.find?_erase _ _ _).trans (if_congr Iff.rfl rfl ?_)
    exact OrderedMap.find?_erase _ _ _
  refine ⟨fun k hk => ?_, fun k hk => ?_⟩ <;> rw [hfind]
  · rcases hk with rfl | rfl <;> simp
  · rw [if_neg fun h => hk (.inr h), if_neg fun h => hk (.inl h)]

namespace Wired

/-- Nothing that stays refers to a node that is taken out, since each boot disk has one instance. -/
private theorem canonical_vacate (h : m.Wired) (zone name : String) : (m.vacate zone name).Canonical := by
  refine h.canonical.of_loses (loses_vacate m zone name) ⟨?_, ?_, ?_⟩ rfl
  · intro k i _ _ nic _ hgone
    rcases hgone with hk | hk <;> exact absurd (congrArg (·.1) hk) (by simp [networkKey, resourceKey])
  · intro k i hi hstays a ha hgone
    rw [h.key_of_mem_disks hi ha] at hgone
    rcases hgone with hk | hk
    · exact absurd (congrArg (·.1) hk) (by simp [resourceKey])
    · -- A disk that goes bears the name of its instance, which would go as well.
      have hzone : i.zone = zone := Scope.zone.inj (congrArg (·.2.1) hk)
      have hname : i.name = name := Naming.bootDiskName_injective (congrArg (·.2.2) hk)
      refine hstays (.inl ?_)
      rw [← h.canonical.keyed k _ hi, ← hzone, ← hname]
      rfl
  · intro k f _ _ hgone
    rcases hgone with hk | hk <;> exact absurd (congrArg (·.1) hk) (by simp [networkKey, resourceKey])

/-- A node may be put into a wired platform, also in the place of another one. -/
theorem seedNode (h : m.Wired) (zone : String) {name network : String} (group : String) (hname : '/' ∉ name.toList)
    (hnetwork : '/' ∉ network.toList) : (m.seedNode zone name network group).2.Wired := by
  have hl := loses_vacate m zone name
  have hhas : (m.vacate zone name).has .network .global network = m.has .network .global network := by
    unfold has find?
    rw [hl.kept _ (by simp [resourceKey])]
  -- What was there under the two names is overwritten, so it may as well have been taken out before.
  have hresources : (m.seedNode zone name network group).2.resources =
      ((m.vacate zone name).seedNode zone name network group).2.resources := by
    refine OrderedMap.eq_of_find? fun k => ?_
    rw [find?_seedNode, find?_seedNode, hhas]
    by_cases hi : k = resourceKey .instance (.zone zone) name
    · rw [if_pos hi, if_pos hi, seedNode_fst, seedNode_fst]
      rfl
    · by_cases hd : k = resourceKey .disk (.zone zone) (Naming.bootDiskName name)
      · rw [if_neg hi, if_neg hi, if_pos hd, if_pos hd]
        rfl
      · rw [if_neg hi, if_neg hi, if_neg hd, if_neg hd, hl.kept k (by simp [hi, hd])]
        rfl
  refine ⟨?_, fun k i hi => ?_⟩
  · have hseeded : ((m.vacate zone name).seedNode zone name network group).2.Canonical :=
      (h.canonical_vacate zone name).seedNode hname hnetwork (hl.removed _ (.inl rfl)) (hl.removed _ (.inr rfl))
    refine hseeded.of_resources_eq hresources ?_
    rw [project_seedNode, project_seedNode]
    rfl
  · rw [ownDisk_congr project_seedNode]
    rw [find?_seedNode] at hi
    split at hi
    · cases hi
      rw [seedNode_fst]
      rfl
    · split at hi
      · exact absurd hi (by simp)
      · split at hi
        · exact absurd hi (by simp)
        · exact h.disks k i hi

end Wired

end Memory

end Fleet
