import Fleet.Proofs.Memory.Effects
import Fleet.Proofs.Names

/-!
# Platforms whose references are in order

On a canonical platform every reference is the link of a stored resource, so references can be compared as texts, what
a reference denotes is stored under the key that the platform looks up (`Canonical.network`, `Canonical.disk`), and no
disk has two owners (`Canonical.owner`). A platform stays canonical when nothing that stays refers to what is removed
(`Canonical.of_loses`), and when a new node is put into it (`Canonical.seedNode`).
-/

namespace Fleet

namespace Memory

/-- No faults are to come. -/
structure FaultFree (m : Memory) : Prop where
  fetches : m.failingFetches = 0
  conflicts : m.tagConflicts = 0
  scripted : ∀ n, m.scriptedFailures.find? n = none
  lost : ∀ n, m.lostInserts.contains n = false

/-- The resources refer to each other by the links that the platform gives to them. -/
structure Canonical (m : Memory) : Prop where
  keyed : m.WellKeyed
  no_slash : ∀ k r, m.resources.find? k = some r → '/' ∉ r.name.toList
  selfLink : ∀ k r, m.resources.find? k = some r → r.selfLink = m.selfLink r.kind r.scope r.name
  instance_network : ∀ k i, m.resources.find? k = some (.instance i) → ∀ nic ∈ i.networkInterfaces,
    ∃ k' n, m.resources.find? k' = some (.network n) ∧ nic.network = n.selfLink
  instance_disk : ∀ k i, m.resources.find? k = some (.instance i) → ∀ a ∈ i.disks,
    ∃ k' d, m.resources.find? k' = some (.disk d) ∧ d.zone = i.zone ∧ a.source = d.selfLink
  firewall_network : ∀ k f, m.resources.find? k = some (.firewall f) →
    ∃ k' n, m.resources.find? k' = some (.network n) ∧ f.network = n.selfLink
  boot_disk : ∀ k i, m.resources.find? k = some (.instance i) → ∃ a, i.bootDisk? = some a
  /-- No disk is attached to two instances. -/
  unshared : ∀ k k' i i', m.resources.find? k = some (.instance i) → m.resources.find? k' = some (.instance i') →
    ∀ a ∈ i.disks, ∀ a' ∈ i'.disks, a.source = a'.source → k = k'

theorem canonical_empty (project : String) (polls : Nat) :
    ((Memory.empty project).withPollsUntilDone polls).Canonical := by
  have hnone (k : ResourceKey) : ((Memory.empty project).withPollsUntilDone polls).resources.find? k = none := rfl
  constructor <;> simp [WellKeyed, hnone]

theorem faultFree_empty (project : String) (polls : Nat) :
    ((Memory.empty project).withPollsUntilDone polls).FaultFree :=
  ⟨rfl, rfl, fun _ => rfl, fun _ => rfl⟩

/-- The network that a reference denotes is stored, and the reference is its link. -/
def HasNetwork (m : Memory) (link : String) : Prop :=
  ∃ n, m.resources.find? (networkKey link) = some (.network n) ∧ n.selfLink = link

/-- The disk in a zone that a reference denotes is stored, and the reference is its link. -/
def HasDisk (m : Memory) (zone link : String) : Prop :=
  ∃ d, m.resources.find? (diskKey zone link) = some (.disk d) ∧ d.selfLink = link

namespace Canonical

variable {m : Memory} {k k' : ResourceKey} {r : Resource} {i j : Instance} {link : String}

theorem isPath (h : m.Canonical) (hr : m.resources.find? k = some r) : Link.isPath r.selfLink = true := by
  rw [h.selfLink k r hr]
  exact m.isPath_selfLink _ _ _

theorem name_selfLink (h : m.Canonical) (hr : m.resources.find? k = some r) : Link.name r.selfLink = r.name := by
  rw [h.selfLink k r hr]
  exact m.name_selfLink _ _ (h.no_slash k r hr)

/-! ### What references denote -/

theorem hasNetwork (h : m.Canonical) {n : Network} (hn : m.resources.find? k = some (.network n)) :
    m.HasNetwork n.selfLink := by
  have hname : Link.name n.selfLink = n.name := h.name_selfLink (r := .network n) hn
  have hkey : k = networkKey n.selfLink := by
    rw [← h.keyed k _ hn, networkKey, hname]
    rfl
  exact ⟨n, hkey ▸ hn, rfl⟩

theorem network (h : m.Canonical) (hi : m.resources.find? k = some (.instance i)) {nic : NetworkInterface}
    (hnic : nic ∈ i.networkInterfaces) : m.HasNetwork nic.network := by
  obtain ⟨k', n, hn, hlink⟩ := h.instance_network k i hi nic hnic
  exact hlink ▸ h.hasNetwork hn

theorem network_of_firewall (h : m.Canonical) {f : Firewall} (hf : m.resources.find? k = some (.firewall f)) :
    m.HasNetwork f.network := by
  obtain ⟨k', n, hn, hlink⟩ := h.firewall_network k f hf
  exact hlink ▸ h.hasNetwork hn

theorem disk (h : m.Canonical) (hi : m.resources.find? k = some (.instance i)) {a : AttachedDisk} (ha : a ∈ i.disks) :
    m.HasDisk i.zone a.source := by
  obtain ⟨k', d, hd, hzone, hlink⟩ := h.instance_disk k i hi a ha
  have hname : Link.name a.source = d.name := by
    rw [hlink]
    exact h.name_selfLink (r := .disk d) hd
  have hkey : k' = diskKey i.zone a.source := by
    rw [← h.keyed k' _ hd, diskKey, hname, ← hzone]
    rfl
  exact ⟨d, hkey ▸ hd, hlink.symm⟩

theorem isPath_of_hasNetwork (h : m.Canonical) (hl : m.HasNetwork link) : Link.isPath link = true := by
  obtain ⟨n, hn, rfl⟩ := hl
  exact h.isPath hn

/-- The platform finds an instance on a network exactly when one of its interfaces has the network's link. -/
theorem isOnNetwork_iff (h : m.Canonical) (hi : m.resources.find? k = some (.instance i)) (hl : m.HasNetwork link) :
    i.isOnNetwork link = true ↔ ∃ nic ∈ i.networkInterfaces, nic.network = link := by
  have hsame : ∀ nic ∈ i.networkInterfaces, (Link.sameResource nic.network link = true ↔ nic.network = link) := by
    intro nic hnic
    exact Link.sameResource_of_isPath (h.isPath_of_hasNetwork (h.network hi hnic)) (h.isPath_of_hasNetwork hl)
  simp only [Instance.isOnNetwork, List.any_eq_true]
  exact exists_congr fun nic => and_congr_right fun hnic => hsame nic hnic

theorem sameResource_iff (h : m.Canonical) {f : Firewall} (hf : m.resources.find? k = some (.firewall f))
    (hl : m.HasNetwork link) : Link.sameResource f.network link = true ↔ f.network = link :=
  Link.sameResource_of_isPath (h.isPath_of_hasNetwork (h.network_of_firewall hf)) (h.isPath_of_hasNetwork hl)

/-! ### Instances and their disks -/

theorem instance_ext (hi : m.resources.find? k = some (.instance i))
    (hj : m.resources.find? k = some (.instance j)) : i = j := by
  rw [hi] at hj
  exact Resource.instance.inj (Option.some.inj hj)

theorem eq_of_selfLink (h : m.Canonical) (hi : m.resources.find? k = some (.instance i))
    (hj : m.resources.find? k' = some (.instance j)) (hlink : i.selfLink = j.selfLink) : i = j := by
  have hself : m.selfLink .instance (.zone i.zone) i.name = m.selfLink .instance (.zone j.zone) j.name :=
    (h.selfLink k _ hi).symm.trans (hlink.trans (h.selfLink k' _ hj))
  obtain ⟨hname, hpath⟩ : i.name = j.name ∧ (Scope.zone i.zone).path = (Scope.zone j.zone).path :=
    selfLink_injective (h.no_slash k _ hi) (h.no_slash k' _ hj) hself
  have hzone : i.zone = j.zone := Scope.zone_eq_of_path hpath
  -- The key is made of what the link tells.
  have hkey : k = k' := by
    rw [← h.keyed k _ hi, ← h.keyed k' _ hj]
    show resourceKey .instance (.zone i.zone) i.name = resourceKey .instance (.zone j.zone) j.name
    rw [hname, hzone]
  subst hkey
  exact instance_ext hi hj

/-- Only one instance is attached to a disk. -/
theorem owner (h : m.Canonical) (hi : m.resources.find? k = some (.instance i))
    (hj : m.resources.find? k' = some (.instance j)) {a b : AttachedDisk} (ha : a ∈ i.disks) (hb : b ∈ j.disks)
    (hkey : diskKey i.zone a.source = diskKey j.zone b.source) : i = j := by
  obtain ⟨d, hd, hda⟩ := h.disk hi ha
  obtain ⟨d', hd', hdb⟩ := h.disk hj hb
  rw [hkey, hd'] at hd
  have hsame : d' = d := Resource.disk.inj (Option.some.inj hd)
  have hsource : a.source = b.source := by rw [← hda, ← hdb, hsame]
  obtain rfl := h.unshared k k' i j hi hj a ha b hb hsource
  exact instance_ext hi hj

end Canonical

/-! ### Losses -/

/-- `m'` stores what `m` stores, without the resources under the keys in `gone`. -/
structure Loses (m m' : Memory) (gone : ResourceKey → Prop) : Prop where
  removed : ∀ k, gone k → m'.resources.find? k = none
  kept : ∀ k, ¬ gone k → m'.resources.find? k = m.resources.find? k

namespace Loses

variable {m m' m'' : Memory} {gone gone' : ResourceKey → Prop} {k : ResourceKey} {r : Resource}

theorem find?_eq_some_iff (h : m.Loses m' gone) :
    m'.resources.find? k = some r ↔ m.resources.find? k = some r ∧ ¬ gone k := by
  by_cases hk : gone k
  · simp [h.removed k hk, hk]
  · simp [h.kept k hk, hk]

theorem refl (m : Memory) : m.Loses m fun _ => False := ⟨fun _ hk => hk.elim, fun _ _ => rfl⟩

/-- What a platform has lost is seen in its resources. -/
theorem of_resources_eq {n n' : Memory} (h : m.Loses m' gone) (hn : n.resources = m.resources)
    (hn' : n'.resources = m'.resources) : n.Loses n' gone := by
  refine ⟨fun k hk => ?_, fun k hk => ?_⟩
  · rw [hn']
    exact h.removed k hk
  · rw [hn', hn]
    exact h.kept k hk

theorem trans (h : m.Loses m' gone) (h' : m'.Loses m'' gone') : m.Loses m'' fun k => gone k ∨ gone' k := by
  refine ⟨fun k hk => ?_, fun k hk => ?_⟩
  · by_cases hk' : gone' k
    · exact h'.removed k hk'
    · rw [h'.kept k hk']
      exact h.removed k (hk.resolve_right hk')
  · rw [h'.kept k fun hg => hk (.inr hg), h.kept k fun hg => hk (.inl hg)]

theorem find?_eq_none (h : m.Loses m' gone) (hk : m.resources.find? k = none) : m'.resources.find? k = none := by
  by_cases hg : gone k
  · exact h.removed k hg
  · rw [h.kept k hg, hk]

/-- Only the keys under which something is stored matter. -/
theorem congr (h : m.Loses m' gone) (hiff : ∀ k r, m.resources.find? k = some r → (gone k ↔ gone' k)) :
    m.Loses m' gone' := by
  refine ⟨fun k hk => ?_, fun k hk => ?_⟩
  · cases hr : m.resources.find? k with
    | none => exact h.find?_eq_none hr
    | some r => exact h.removed k ((hiff k r hr).2 hk)
  · cases hr : m.resources.find? k with
    | none => exact h.find?_eq_none hr
    | some r => rw [h.kept k fun hg => hk ((hiff k r hr).1 hg), hr]

theorem wellKeyed (h : m.Loses m' gone) (hm : m.WellKeyed) : m'.WellKeyed :=
  fun k r hr => hm k r (h.find?_eq_some_iff.1 hr).1

theorem of_removeWith (m : Memory) (k : ResourceKey) (r : Resource) :
    m.Loses ((m.remove k).removeWith r) fun j => j = k ∨ takesAlong r j = true := by
  refine ⟨fun j hj => ?_, fun j hj => ?_⟩
  · rw [find?_removeWith, if_pos hj]
  · rw [find?_removeWith, if_neg hj]

end Loses

/-- What is stored and not gone refers to nothing that is gone. -/
structure Detached (m : Memory) (gone : ResourceKey → Prop) : Prop where
  network : ∀ k i, m.resources.find? k = some (.instance i) → ¬ gone k → ∀ nic ∈ i.networkInterfaces,
    ¬ gone (networkKey nic.network)
  disk : ∀ k i, m.resources.find? k = some (.instance i) → ¬ gone k → ∀ a ∈ i.disks, ¬ gone (diskKey i.zone a.source)
  firewall : ∀ k f, m.resources.find? k = some (.firewall f) → ¬ gone k → ¬ gone (networkKey f.network)

namespace Canonical

variable {m m' : Memory} {gone : ResourceKey → Prop}

private theorem exists_network_of_loses (hl : m.Loses m' gone) {link : String} (hn : m.HasNetwork link)
    (hk : ¬ gone (networkKey link)) :
    ∃ k n, m'.resources.find? k = some (.network n) ∧ link = n.selfLink := by
  obtain ⟨n, hn, rfl⟩ := hn
  exact ⟨_, n, hl.find?_eq_some_iff.2 ⟨hn, hk⟩, rfl⟩

theorem of_loses (h : m.Canonical) (hl : m.Loses m' gone) (hd : m.Detached gone) (hproject : m'.project = m.project) :
    m'.Canonical where
  keyed := hl.wellKeyed h.keyed
  no_slash k r hr := h.no_slash k r (hl.find?_eq_some_iff.1 hr).1
  selfLink k r hr := by
    rw [selfLink_congr hproject]
    exact h.selfLink k r (hl.find?_eq_some_iff.1 hr).1
  instance_network k i hi nic hnic := by
    obtain ⟨hi, hk⟩ := hl.find?_eq_some_iff.1 hi
    exact exists_network_of_loses hl (h.network hi hnic) (hd.network k i hi hk nic hnic)
  instance_disk k i hi a ha := by
    obtain ⟨hi, hk⟩ := hl.find?_eq_some_iff.1 hi
    obtain ⟨d, hdisk, hlink⟩ := h.disk hi ha
    have hzone : d.zone = i.zone := by
      have hkey := congrArg (·.2.1) (h.keyed _ _ hdisk)
      exact Scope.zone.inj hkey
    exact ⟨_, d, hl.find?_eq_some_iff.2 ⟨hdisk, hd.disk k i hi hk a ha⟩, hzone, hlink.symm⟩
  firewall_network k f hf := by
    obtain ⟨hf, hk⟩ := hl.find?_eq_some_iff.1 hf
    exact exists_network_of_loses hl (h.network_of_firewall hf) (hd.firewall k f hf hk)
  boot_disk k i hi := h.boot_disk k i (hl.find?_eq_some_iff.1 hi).1
  unshared k k' i j hi hj := h.unshared k k' i j (hl.find?_eq_some_iff.1 hi).1 (hl.find?_eq_some_iff.1 hj).1

theorem of_resources_eq (h : m.Canonical) (hres : m'.resources = m.resources) (hproject : m'.project = m.project) :
    m'.Canonical :=
  h.of_loses ((Loses.refl m).of_resources_eq rfl hres)
    ⟨fun _ _ _ _ _ _ => not_false, fun _ _ _ _ _ _ => not_false, fun _ _ _ _ => not_false⟩ hproject

end Canonical

/-! ### Seeding -/

/-- What is in order to be put into a canonical platform: a new resource whose references are in order. -/
structure Seedable (m : Memory) (r : Resource) : Prop where
  new : m.resources.find? r.key = none
  no_slash : '/' ∉ r.name.toList
  selfLink : r.selfLink = m.selfLink r.kind r.scope r.name
  network : ∀ i, r = .instance i → ∀ nic ∈ i.networkInterfaces, m.HasNetwork nic.network
  disk : ∀ i, r = .instance i → ∀ a ∈ i.disks, m.HasDisk i.zone a.source
  firewall : ∀ f, r = .firewall f → m.HasNetwork f.network
  boot_disk : ∀ i, r = .instance i → ∃ a, i.bootDisk? = some a
  unshared : ∀ i, r = .instance i → ∀ a ∈ i.disks, ∀ k j, m.resources.find? k = some (.instance j) →
    ∀ b ∈ j.disks, a.source ≠ b.source

private theorem find?_seed (m : Memory) (r : Resource) (k : ResourceKey) :
    (m.seed r).resources.find? k = if k = r.key then some r else m.resources.find? k :=
  OrderedMap.find?_insert m.resources r.key k r

private theorem Seedable.stored {m : Memory} {r s : Resource} {k : ResourceKey} (h : m.Seedable r)
    (hk : m.resources.find? k = some s) : (m.seed r).resources.find? k = some s := by
  rw [find?_seed, if_neg]
  · exact hk
  · rintro rfl
    rw [h.new] at hk
    exact absurd hk (by simp)

private theorem eq_or_stored {m : Memory} {r s : Resource} {k : ResourceKey}
    (h : (m.seed r).resources.find? k = some s) : (k = r.key ∧ s = r) ∨ m.resources.find? k = some s := by
  rw [find?_seed] at h
  split at h
  · next hk => exact .inl ⟨hk, (Option.some.inj h).symm⟩
  · exact .inr h

theorem Canonical.seed {m : Memory} (h : m.Canonical) {r : Resource} (hr : m.Seedable r) : (m.seed r).Canonical := by
  have hnetwork {link : String} (hl : m.HasNetwork link) :
      ∃ k n, (m.seed r).resources.find? k = some (.network n) ∧ link = n.selfLink := by
    obtain ⟨n, hn, hlink⟩ := hl
    exact ⟨_, n, hr.stored hn, hlink.symm⟩
  have hdisk {zone link : String} (hl : m.HasDisk zone link) :
      ∃ k d, (m.seed r).resources.find? k = some (.disk d) ∧ d.zone = zone ∧ link = d.selfLink := by
    obtain ⟨d, hd, hlink⟩ := hl
    exact ⟨_, d, hr.stored hd, Scope.zone.inj (congrArg (·.2.1) (h.keyed _ _ hd)), hlink.symm⟩
  refine ⟨h.keyed.seed r, fun k s hs => ?_, fun k s hs => ?_, fun k i hi nic hnic => ?_, fun k i hi a ha => ?_,
    fun k f hf => ?_, fun k i hi => ?_, fun k k' i j hi hj a ha b hb hsource => ?_⟩
  · rcases eq_or_stored hs with ⟨-, rfl⟩ | hs
    · exact hr.no_slash
    · exact h.no_slash k s hs
  · rcases eq_or_stored hs with ⟨-, rfl⟩ | hs
    · exact hr.selfLink
    · exact h.selfLink k s hs
  · rcases eq_or_stored hi with ⟨-, hi⟩ | hi
    · exact hnetwork (hr.network i hi.symm nic hnic)
    · exact hnetwork (h.network hi hnic)
  · rcases eq_or_stored hi with ⟨-, hi⟩ | hi
    · exact hdisk (hr.disk i hi.symm a ha)
    · exact hdisk (h.disk hi ha)
  · rcases eq_or_stored hf with ⟨-, hf⟩ | hf
    · exact hnetwork (hr.firewall f hf.symm)
    · exact hnetwork (h.network_of_firewall hf)
  · rcases eq_or_stored hi with ⟨-, hi⟩ | hi
    · exact hr.boot_disk i hi.symm
    · exact h.boot_disk k i hi
  · rcases eq_or_stored hi with ⟨hk, hi⟩ | hi <;> rcases eq_or_stored hj with ⟨hk', hj⟩ | hj
    · rw [hk, hk']
    · exact absurd hsource (hr.unshared i hi.symm a ha k' j hj b hb)
    · exact absurd hsource.symm (hr.unshared j hj.symm b hb k i hi a ha)
    · exact h.unshared k k' i j hi hj a ha b hb hsource

section SeedNode

variable {m : Memory} {zone name network group : String}

private theorem Canonical.seedNetwork (h : m.Canonical) (hslash : '/' ∉ network.toList)
    (hnew : m.has .network .global network = false) : (m.seed (.network (m.seedNetwork network))).Canonical :=
  h.seed
    { new := Option.isSome_eq_false_iff.1 hnew |> Option.isNone_iff_eq_none.1
      no_slash := hslash
      selfLink := rfl
      network := fun _ he => by cases he
      disk := fun _ he => by cases he
      firewall := fun _ he => by cases he
      boot_disk := fun _ he => by cases he
      unshared := fun _ he => by cases he }

private theorem hasNetwork_selfLink (h : m.Canonical) (hslash : '/' ∉ network.toList)
    (hhas : m.has .network .global network = true) : m.HasNetwork (m.selfLink .network .global network) := by
  obtain ⟨r, hr⟩ := Option.isSome_iff_exists.1 hhas
  have hkind : r.kind = .network := h.keyed.kind_eq hr
  have hname : r.name = network := h.keyed.name_eq hr
  cases r with
  | network n =>
    have hself : n.selfLink = m.selfLink .network .global network := by
      rw [← hname]
      exact h.selfLink _ (.network n) hr
    refine ⟨n, ?_, hself⟩
    rw [networkKey, m.name_selfLink _ _ hslash]
    exact hr
  | firewall f => exact absurd hkind (by simp [Resource.kind])
  | disk d => exact absurd hkind (by simp [Resource.kind])
  | «instance» i => exact absurd hkind (by simp [Resource.kind])

/-- The network of a node is put into the platform only when it is new; disks and instances are as before. -/
private theorem Canonical.exists_seedNetwork (h : m.Canonical) (hslash : '/' ∉ network.toList) :
    ∃ m₁, (if m.has .network .global network then m else m.seed (.network (m.seedNetwork network))) = m₁ ∧
      m₁.Canonical ∧ m₁.HasNetwork (m₁.selfLink .network .global network) ∧
      ∀ k, k.1 ≠ .network → m₁.resources.find? k = m.resources.find? k := by
  by_cases hhas : m.has .network .global network = true
  · exact ⟨m, if_pos hhas, h, hasNetwork_selfLink h hslash hhas, fun _ _ => rfl⟩
  · have hc := h.seedNetwork hslash (by simpa using hhas)
    refine ⟨_, if_neg hhas, hc, hasNetwork_selfLink hc hslash ?_, fun k hk => ?_⟩
    · exact Option.isSome_iff_exists.2 ⟨_, (find?_seed _ _ _).trans (if_pos rfl)⟩
    · rw [find?_seed, if_neg]
      rintro rfl
      exact hk rfl

private theorem Canonical.seedDisk (h : m.Canonical) (hslash : '/' ∉ name.toList)
    (hnew : m.find? .disk (.zone zone) (Naming.bootDiskName name) = none) :
    (m.seed (.disk (m.seedDisk zone name))).Canonical :=
  h.seed
    { new := hnew
      no_slash := Naming.slash_not_mem_bootDiskName hslash
      selfLink := rfl
      network := fun _ he => by cases he
      disk := fun _ he => by cases he
      firewall := fun _ he => by cases he
      boot_disk := fun _ he => by cases he
      unshared := fun _ he => by cases he }

/-- No instance refers to a disk that is not stored. -/
theorem Canonical.source_ne (h : m.Canonical) (hslash : '/' ∉ name.toList)
    (hnew : m.find? .disk (.zone zone) name = none) {k : ResourceKey} {i : Instance}
    (hi : m.resources.find? k = some (.instance i)) {a : AttachedDisk} (ha : a ∈ i.disks) :
    m.selfLink .disk (.zone zone) name ≠ a.source := by
  intro hsource
  obtain ⟨d, hd, hlink⟩ := h.disk hi ha
  -- The disk of an instance is stored, and its link tells where.
  have hself : m.selfLink .disk (.zone d.zone) d.name = m.selfLink .disk (.zone zone) name := by
    rw [hsource, ← hlink]
    exact (h.selfLink _ (.disk d) hd).symm
  obtain ⟨hname, hpath⟩ : d.name = name ∧ (Scope.zone d.zone).path = (Scope.zone zone).path :=
    selfLink_injective (h.no_slash _ (.disk d) hd) hslash hself
  have hzone : d.zone = zone := Scope.zone_eq_of_path hpath
  have hkey : diskKey i.zone a.source = resourceKey .disk (.zone zone) name := by
    rw [← h.keyed _ _ hd, ← hname, ← hzone]
    rfl
  rw [hkey] at hd
  exact absurd (hd.symm.trans hnew) (by simp)

private theorem Canonical.seedInstance (h : m.Canonical) (hslash : '/' ∉ name.toList)
    (hnetwork : m.HasNetwork (m.selfLink .network .global network))
    (hdisk : m.HasDisk zone (m.selfLink .disk (.zone zone) (Naming.bootDiskName name)))
    (hnew : m.find? .instance (.zone zone) name = none)
    (hfree : ∀ k i, m.resources.find? k = some (.instance i) → ∀ a ∈ i.disks,
      m.selfLink .disk (.zone zone) (Naming.bootDiskName name) ≠ a.source) (fingerprint : String) :
    (m.seed (.instance (m.seedInstance zone name network group fingerprint))).Canonical := by
  refine h.seed ⟨hnew, hslash, rfl, ?_, ?_, fun _ he => (by cases he), ?_, ?_⟩ <;> rintro i he <;> cases he
  · simpa [Memory.seedInstance] using hnetwork
  · simpa [Memory.seedInstance] using hdisk
  · exact ⟨_, rfl⟩
  · intro a ha k j hj b hb
    have hsource : a.source = m.selfLink .disk (.zone zone) (Naming.bootDiskName name) := by
      rw [List.mem_singleton.1 ha]
    rw [hsource]
    exact hfree k j hj b hb

end SeedNode

/-- A node with a new name, whose boot disk is new too, can be put into a canonical platform. -/
theorem Canonical.seedNode {m : Memory} (h : m.Canonical) {zone name network group : String}
    (hname : '/' ∉ name.toList) (hnetwork : '/' ∉ network.toList)
    (hinstance : m.find? .instance (.zone zone) name = none)
    (hdisk : m.find? .disk (.zone zone) (Naming.bootDiskName name) = none) :
    (m.seedNode zone name network group).2.Canonical := by
  have hboot : '/' ∉ (Naming.bootDiskName name).toList := Naming.slash_not_mem_bootDiskName hname
  obtain ⟨m₁, hm₁, hc₁, hnet, hkept⟩ := h.exists_seedNetwork hnetwork
  -- Then come the boot disk and the instance, both new as before.
  have hdisk₁ : m₁.find? .disk (.zone zone) (Naming.bootDiskName name) = none :=
    (hkept _ (by simp [resourceKey])).trans hdisk
  have hfind := find?_seed m₁ (.disk (m₁.seedDisk zone name))
  have hc₂ : (m₁.seed (.disk (m₁.seedDisk zone name))).newFingerprint.2.Canonical :=
    (hc₁.seedDisk hname hdisk₁).of_resources_eq rfl rfl
  have hseeded : (m.seedNode zone name network group).2 =
      (m₁.seed (.disk (m₁.seedDisk zone name))).newFingerprint.2.seed (.instance
        ((m₁.seed (.disk (m₁.seedDisk zone name))).newFingerprint.2.seedInstance zone name network group
          (m₁.seed (.disk (m₁.seedDisk zone name))).newFingerprint.1)) := by
    rw [← hm₁]
    rfl
  rw [hseeded]
  refine hc₂.seedInstance hname ?_ ?_ ?_ ?_ _
  · obtain ⟨n, hn, hlink⟩ := hnet
    exact ⟨n, (hfind _).trans ((if_neg (by simp [networkKey, resourceKey, Resource.key, Resource.kind])).trans hn),
      hlink⟩
  · refine ⟨m₁.seedDisk zone name, (hfind _).trans (if_pos ?_), rfl⟩
    rw [diskKey, Memory.name_selfLink _ _ _ hboot]
    rfl
  · refine (hfind _).trans ((if_neg (by simp [resourceKey, Resource.key, Resource.kind])).trans ?_)
    exact (hkept _ (by simp [resourceKey])).trans hinstance
  · intro k i hi a ha
    rcases eq_or_stored hi with ⟨-, hi⟩ | hi
    · cases hi
    · exact hc₁.source_ne hboot hdisk₁ hi ha

theorem FaultFree.seedNode {m : Memory} (h : m.FaultFree) (zone name network group : String) :
    (m.seedNode zone name network group).2.FaultFree := by
  unfold Memory.seedNode
  by_cases hhas : m.has .network .global network = true
  · simp only [if_pos hhas]
    exact ⟨h.fetches, h.conflicts, h.scripted, h.lost⟩
  · simp only [if_neg hhas]
    exact ⟨h.fetches, h.conflicts, h.scripted, h.lost⟩

end Memory

end Fleet
