import Fleet.Group
import Fleet.Proofs.Client.Requests
import Fleet.Proofs.Memory.Canonical
import Mathlib.Data.List.Basic

/-!
# What a teardown takes away

An instance that is taken down takes disks with it (`Instance.Takes`), and a network that nobody else is attached to
goes together with its firewalls (`Memory.Deserted`). `Memory.Doomed` collects the keys of all this, and `Memory.fate`
says what is reported of a network. On a canonical platform nothing that stays refers to what goes
(`Memory.Canonical.detached_takes`, `Memory.Canonical.detached_deserted`).
-/

namespace Fleet

open KeyOrder (before)

/-! ### Listings -/

namespace Memory

/-- The stored resources of a kind that have a property, in the order of their keys. -/
def recordsOf (m : Memory) (kind : Kind) (p : kind.Record → Bool) : List kind.Record :=
  m.resources.values.filterMap fun r => (Resource.ofKind? kind r).toOption.filter p

variable {m m' : Memory} {kind : Kind} {p q : kind.Record → Bool}

theorem recordsOf_congr (h : m'.resources = m.resources) : m'.recordsOf kind p = m.recordsOf kind p := by
  unfold recordsOf
  rw [h]

private theorem toOption_ofKind? {r : Resource} {a : kind.Record} :
    (Resource.ofKind? kind r).toOption = some a ↔ r = Resource.ofRecord kind a := by
  constructor
  · intro h
    cases hr : Resource.ofKind? kind r with
    | error f =>
      rw [hr] at h
      exact absurd h (by simp [Except.toOption])
    | ok b =>
      rw [hr] at h
      rw [Resource.ofRecord_of_ofKind? hr, ← Option.some.inj h]
  · rintro rfl
    rw [Resource.ofKind?_ofRecord]
    rfl

theorem mem_recordsOf (hm : m.WellKeyed) {a : kind.Record} : a ∈ m.recordsOf kind p ↔
    m.resources.find? (Resource.ofRecord kind a).key = some (Resource.ofRecord kind a) ∧ p a = true := by
  simp only [recordsOf, List.mem_filterMap, Option.filter_eq_some_iff, toOption_ofKind?, OrderedMap.mem_values_iff]
  constructor
  · rintro ⟨r, ⟨k, hk⟩, rfl, hp⟩
    exact ⟨(hm k _ hk) ▸ hk, hp⟩
  · rintro ⟨hk, hp⟩
    exact ⟨_, ⟨_, hk⟩, rfl, hp⟩

private theorem increasing_values (hm : m.WellKeyed) :
    m.resources.values.Pairwise fun r s => before r.key s.key = true := by
  refine List.pairwise_map.2 (List.Pairwise.imp_of_mem ?_ m.resources.increasing)
  intro e e' he he' hlt
  rw [hm e.1 e.2 (OrderedMap.mem_entries_iff.1 he), hm e'.1 e'.2 (OrderedMap.mem_entries_iff.1 he')]
  exact hlt

private theorem increasing_recordsOf (hm : m.WellKeyed) : (m.recordsOf kind p).Pairwise fun a b =>
    before (Resource.ofRecord kind a).key (Resource.ofRecord kind b).key = true := by
  refine List.Pairwise.filterMap _ ?_ (increasing_values hm)
  intro r r' hlt a ha b hb
  rw [← toOption_ofKind?.1 (Option.filter_eq_some_iff.1 ha).1, ← toOption_ofKind?.1 (Option.filter_eq_some_iff.1 hb).1]
  exact hlt

theorem nodup_recordsOf (hm : m.WellKeyed) : (m.recordsOf kind p).Nodup := by
  refine (increasing_recordsOf hm).imp fun hlt he => ?_
  rw [he, KeyOrder.irrefl] at hlt
  exact absurd hlt (by simp)

/-- Records are listed in the order of their keys, so what is listed determines the list. -/
theorem recordsOf_ext (hm : m.WellKeyed) (hm' : m'.WellKeyed)
    (h : ∀ a, a ∈ m.recordsOf kind p ↔ a ∈ m'.recordsOf kind q) : m.recordsOf kind p = m'.recordsOf kind q := by
  have hperm : (m.recordsOf kind p).Perm (m'.recordsOf kind q) :=
    (List.perm_ext_iff_of_nodup (nodup_recordsOf hm) (nodup_recordsOf hm')).2 h
  -- Two records cannot be before each other, so the order leaves only one list.
  refine hperm.eq_of_pairwise (fun a b _ _ hab hba => ?_) (increasing_recordsOf hm) (increasing_recordsOf hm')
  have := KeyOrder.trans _ _ _ hab hba
  rw [KeyOrder.irrefl] at this
  exact absurd this (by simp)

/-- What a listing of the platform shows. -/
theorem map_recordsOf (hm : m.WellKeyed) (filter : Filter) :
    (m.recordsOf kind fun a => filter.admits (Resource.ofRecord kind a)).map (Resource.ofRecord kind) =
      Regime.listed m kind filter := by
  rw [recordsOf, List.map_filterMap, OrderedMap.values, List.filterMap_map, Regime.listed, ← List.filterMap_eq_map,
    List.filterMap_filter]
  refine List.filterMap_congr fun e he => ?_
  have hkind : e.2.kind = e.1.1 := hm.kind_eq (OrderedMap.mem_entries_iff.1 he)
  by_cases hk : e.1.1 = kind
  · obtain ⟨a, ha, hr⟩ := Resource.exists_ofKind? (hkind.trans hk)
    by_cases hp : filter.admits (Resource.ofRecord kind a) = true
    · simp [hr, Resource.ofKind?_ofRecord, Except.toOption, Option.filter, hk, hp]
    · simp [hr, Resource.ofKind?_ofRecord, Except.toOption, Option.filter, hk, hp]
  · cases ha : Resource.ofKind? kind e.2 with
    | error f => simp [ha, hk, Except.toOption]
    | ok a =>
      refine absurd ?_ hk
      rw [← hkind, Resource.ofRecord_of_ofKind? ha]
      cases kind <;> rfl

end Memory

/-! ### Instances and their disks -/

namespace Instance

/-- The boot disk is kept when the metadata say so in this very wording. -/
theorem keepsBootDisk_iff {i : Instance} :
    i.keepsBootDisk = true ↔ i.metadata.find? "gceflow-delete-boot-disk" = some "false" := beq_iff_eq

/-- Whether a disk goes with an instance that is taken down: by itself, or as the boot disk when the metadata do not say
that it is to be kept. -/
def GivesUp (i : Instance) (a : AttachedDisk) : Prop :=
  a.autoDelete = true ∨ (i.metadata.find? "gceflow-delete-boot-disk" ≠ some "false" ∧ i.bootDisk? = some a)

theorem givesUp_iff {i : Instance} {a : AttachedDisk} :
    i.GivesUp a ↔ a.autoDelete = true ∨ (i.keepsBootDisk = false ∧ i.bootDisk? = some a) := by
  rw [GivesUp, Ne, ← keepsBootDisk_iff, Bool.not_eq_true]

/-- The keys of what goes when the platform deletes an instance: the disks that are deleted automatically go along. -/
def GoesWith (i : Instance) (k : ResourceKey) : Prop :=
  k = (Resource.instance i).key ∨ Memory.takesAlong (.instance i) k = true

/-- The keys of what goes when an instance is taken down. -/
def Takes (i : Instance) (k : ResourceKey) : Prop :=
  k = (Resource.instance i).key ∨ ∃ a ∈ i.disks, i.GivesUp a ∧ k = Memory.diskKey i.zone a.source

theorem takes_key (i : Instance) : i.Takes (Resource.instance i).key := .inl rfl

theorem Takes.kind {i : Instance} {k : ResourceKey} (h : i.Takes k) : k.1 = .instance ∨ k.1 = .disk := by
  rcases h with rfl | ⟨a, -, -, rfl⟩
  · exact .inl rfl
  · exact .inr rfl

theorem GoesWith.takes {i : Instance} {k : ResourceKey} (h : i.GoesWith k) : i.Takes k := by
  rcases h with rfl | h
  · exact i.takes_key
  · simp only [Memory.takesAlong, List.any_eq_true, Bool.and_eq_true, beq_iff_eq] at h
    obtain ⟨a, ha, hauto, rfl⟩ := h
    exact .inr ⟨a, ha, .inl hauto, rfl⟩

/-- What goes is deleted by the platform along with the instance, or it is the boot disk. -/
theorem Takes.cases {i : Instance} {k : ResourceKey} (h : i.Takes k) :
    i.GoesWith k ∨ (i.keepsBootDisk = false ∧ ∃ a, i.bootDisk? = some a ∧ k = Memory.diskKey i.zone a.source) := by
  rcases h with rfl | ⟨a, ha, hgives, rfl⟩
  · exact .inl (.inl rfl)
  rcases givesUp_iff.1 hgives with hauto | ⟨hkeeps, hboot⟩
  · refine .inl (.inr (List.any_eq_true.2 ⟨a, ha, ?_⟩))
    simp [hauto]
  · exact .inr ⟨hkeeps, a, hboot, rfl⟩

theorem not_takes_networkKey (i : Instance) (link : String) : ¬ i.Takes (Memory.networkKey link) := by
  intro h
  rcases h.kind with h | h <;> exact absurd h (by simp [Memory.networkKey, resourceKey])

end Instance

namespace Memory

/-- The instances are stored. -/
def HasInstances (m : Memory) (is : List Instance) : Prop :=
  ∀ i ∈ is, m.resources.find? (Resource.instance i).key = some (.instance i)

section Victims

variable {m m' : Memory} {victims : List Instance} {i j : Instance} {k k' : ResourceKey}

/-- The key of an instance is taken by this instance only. -/
theorem Canonical.eq_of_takes_key (hc : m.Canonical)
    (hi : m.resources.find? (Resource.instance i).key = some (.instance i))
    (hj : m.resources.find? k = some (.instance j)) (h : i.Takes k) : i = j := by
  rcases h with rfl | ⟨a, -, -, rfl⟩
  · exact Canonical.instance_ext hi hj
  · exact absurd (hc.keyed.kind_eq hj) (by simp [diskKey, resourceKey, Resource.kind])

/-- What one instance takes, no other one takes. -/
theorem Canonical.eq_of_takes (hc : m.Canonical)
    (hi : m.resources.find? (Resource.instance i).key = some (.instance i))
    (hj : m.resources.find? (Resource.instance j).key = some (.instance j)) (h : i.Takes k) (h' : j.Takes k) :
    i = j := by
  rcases h' with rfl | ⟨b, hb, -, rfl⟩
  · exact hc.eq_of_takes_key hi hj h
  · rcases h with he | ⟨a, ha, -, he⟩
    · exact absurd (congrArg (·.1) he) (by simp [diskKey, resourceKey, Resource.key, Resource.kind])
    · exact hc.owner hi hj ha hb he.symm

/-- Who stays is attached to nothing that the victims take. -/
theorem Canonical.detached_takes (hc : m.Canonical) (hv : m.HasInstances victims) :
    m.Detached fun k => ∃ v ∈ victims, v.Takes k where
  network _ _ _ _ _ _ := fun ⟨v, _, h⟩ => v.not_takes_networkKey _ h
  firewall _ _ _ _ := fun ⟨v, _, h⟩ => v.not_takes_networkKey _ h
  disk k i hi hstays a ha := by
    rintro ⟨v, hmem, hkey | ⟨b, hb, -, hkey⟩⟩
    · exact absurd (congrArg (·.1) hkey) (by simp [diskKey, resourceKey, Resource.key, Resource.kind])
    · have hsame : i = v := hc.owner hi (hv v hmem) ha hb hkey
      subst hsame
      refine hstays ⟨i, hmem, ?_⟩
      rw [← hc.keyed k _ hi]
      exact i.takes_key

end Victims

end Memory

/-! ### Networks -/

/-- A network and the firewalls on it belong to the network's link. -/
def Resource.BelongsTo (link : String) : Resource → Prop
  | .network n => n.selfLink = link
  | .firewall f => f.network = link
  | _ => False

namespace Memory

/-- What is stored under a key belongs to a network. -/
def BelongsTo (m : Memory) (link : String) (k : ResourceKey) : Prop :=
  ∃ r, m.resources.find? k = some r ∧ r.BelongsTo link

/-- The instances that are attached to a network besides the victims of a teardown. -/
def others (m : Memory) (victims : List Instance) (link : String) : List Instance :=
  m.recordsOf .instance fun i => i.networkInterfaces.any (·.network == link) && !victims.contains i

def firewallsOn (m : Memory) (link : String) : List Firewall := m.recordsOf .firewall fun f => f.network == link

/-- Without the victims nobody is left on the network, and it is not the platform's own. -/
def Deserted (m : Memory) (victims : List Instance) (link : String) : Prop :=
  Link.name link ≠ Naming.defaultNetwork ∧ m.others victims link = []

/-- What becomes of a network when the victims are taken down. -/
def fate (m : Memory) (victims : List Instance) (link : String) : NetworkOutcome :=
  if Link.name link = Naming.defaultNetwork then .retained (Link.name link)
  else if (m.others victims link).isEmpty then .reclaimed (Link.name link) ((m.firewallsOn link).map (·.name))
  else .inUse (Link.name link) (m.others victims link).length

/-- None of the instances with these links is stored. -/
def Misses (m : Memory) (links : List String) : Prop :=
  ∀ k i, m.resources.find? k = some (.instance i) → i.selfLink ∉ links

/-- Reclaiming a network as far as possible: when it is deserted, all that belongs to it is lost. -/
def Settles (m : Memory) (link : String) (m' : Memory) : Prop :=
  m.Loses m' fun k => m.Deserted [] link ∧ m.BelongsTo link k

/-- The keys of all that goes when the victims are taken down and the networks are reclaimed as far as possible. -/
def Doomed (m : Memory) (victims : List Instance) (links : List String) (k : ResourceKey) : Prop :=
  (∃ v ∈ victims, v.Takes k) ∨ ∃ link ∈ links, m.Deserted victims link ∧ m.BelongsTo link k

variable {m m' : Memory} {victims : List Instance} {link link' : String}

theorem Misses.of_loses {gone : ResourceKey → Prop} {links : List String} (h : m.Misses links)
    (hl : m.Loses m' gone) : m'.Misses links :=
  fun k i hi => h k i (hl.find?_eq_some_iff.1 hi).1

theorem mem_others (hm : m.WellKeyed) {i : Instance} : i ∈ m.others victims link ↔
    m.resources.find? (Resource.instance i).key = some (.instance i) ∧
      (∃ nic ∈ i.networkInterfaces, nic.network = link) ∧ i ∉ victims := by
  refine (mem_recordsOf hm).trans (and_congr_right fun _ => ?_)
  simp

theorem mem_firewallsOn (hm : m.WellKeyed) {f : Firewall} : f ∈ m.firewallsOn link ↔
    m.resources.find? (Resource.firewall f).key = some (.firewall f) ∧ f.network = link := by
  refine (mem_recordsOf hm).trans (and_congr_right fun _ => ?_)
  simp

/-- Nobody who stays is on a deserted network, and its firewalls go with it. -/
theorem Canonical.detached_deserted (hc : m.Canonical) (link : String) :
    m.Detached fun k => m.Deserted [] link ∧ m.BelongsTo link k := by
  have hlink : ∀ {l : String}, m.HasNetwork l → m.BelongsTo link (networkKey l) → l = link := by
    rintro l ⟨n, hn, rfl⟩ ⟨r, hr, hbelongs⟩
    rw [hn] at hr
    cases hr
    exact hbelongs
  refine ⟨fun k i hi _ nic hnic ⟨hdeserted, hgone⟩ => ?_, fun k i hi _ a ha ⟨_, r, hr, hbelongs⟩ => ?_,
    fun k f hf hstays ⟨hdeserted, hgone⟩ => ?_⟩
  · -- An instance on the network would have been counted.
    have hmem : i ∈ m.others [] link := by
      have hkey := hc.keyed k _ hi
      exact (mem_others hc.keyed).2 ⟨hkey ▸ hi, ⟨nic, hnic, hlink (hc.network hi hnic) hgone⟩, by simp⟩
    rw [hdeserted.2] at hmem
    exact absurd hmem (by simp)
  · obtain ⟨d, hd, -⟩ := hc.disk hi ha
    rw [hd] at hr
    cases hr
    exact hbelongs
  · exact hstays ⟨hdeserted, _, hf, hlink (hc.network_of_firewall hf) hgone⟩

namespace Settles

theorem of_kept (hres : m'.resources = m.resources) (hnot : ¬ m.Deserted [] link) : m.Settles link m' :=
  ((Loses.refl m).of_resources_eq rfl hres).congr fun _ _ _ => ⟨False.elim, fun hk => hnot hk.1⟩

theorem of_deserted (hdeserted : m.Deserted [] link) (h : m.Loses m' (m.BelongsTo link)) : m.Settles link m' :=
  h.congr fun _ _ _ => (and_iff_right hdeserted).symm

theorem canonical (h : m.Settles link m') (hc : m.Canonical) (hproject : m'.project = m.project) : m'.Canonical :=
  hc.of_loses h (hc.detached_deserted link) hproject

end Settles

/-- On a network, `m'` is like `m` without the victims. -/
structure Mirrors (m : Memory) (victims : List Instance) (link : String) (m' : Memory) : Prop where
  instances : ∀ k i, m'.resources.find? k = some (.instance i) ↔
    m.resources.find? k = some (.instance i) ∧ i ∉ victims
  belongings : ∀ k r, r.BelongsTo link → (m'.resources.find? k = some r ↔ m.resources.find? k = some r)

namespace Mirrors

theorem others_eq (h : m.Mirrors victims link m') (hm : m.WellKeyed) (hm' : m'.WellKeyed) :
    m'.others [] link = m.others victims link := by
  refine recordsOf_ext hm' hm fun i => (mem_others hm').trans (Iff.trans ?_ (mem_others hm).symm)
  rw [h.instances]
  constructor
  · rintro ⟨⟨hi, hstays⟩, hnic, -⟩
    exact ⟨hi, hnic, hstays⟩
  · rintro ⟨hi, hnic, hstays⟩
    exact ⟨⟨hi, hstays⟩, hnic, by simp⟩

theorem firewallsOn_eq (h : m.Mirrors victims link m') (hm : m.WellKeyed) (hm' : m'.WellKeyed) :
    m'.firewallsOn link = m.firewallsOn link := by
  refine recordsOf_ext hm' hm fun f => (mem_firewallsOn hm').trans (Iff.trans ?_ (mem_firewallsOn hm).symm)
  exact and_congr_left fun hf => h.belongings _ _ hf

theorem fate_eq (h : m.Mirrors victims link m') (hm : m.WellKeyed) (hm' : m'.WellKeyed) :
    m'.fate [] link = m.fate victims link := by
  unfold fate
  rw [h.others_eq hm hm', h.firewallsOn_eq hm hm']

theorem deserted_iff (h : m.Mirrors victims link m') (hm : m.WellKeyed) (hm' : m'.WellKeyed) :
    m'.Deserted [] link ↔ m.Deserted victims link := by
  unfold Deserted
  rw [h.others_eq hm hm']

theorem hasNetwork (h : m.Mirrors victims link m') (hl : m.HasNetwork link) : m'.HasNetwork link := by
  obtain ⟨n, hn, hlink⟩ := hl
  exact ⟨n, (h.belongings _ (.network n) hlink).2 hn, hlink⟩

theorem belongsTo_iff (h : m.Mirrors victims link m') (k : ResourceKey) : m'.BelongsTo link k ↔ m.BelongsTo link k :=
  exists_congr fun r => and_congr_left fun hr => h.belongings k r hr

end Mirrors

/-- Taking down the victims leaves every network as it is. -/
theorem Canonical.mirrors_of_takes (hc : m.Canonical) (hv : m.HasInstances victims)
    (hl : m.Loses m' fun k => ∃ v ∈ victims, v.Takes k) (link : String) : m.Mirrors victims link m' := by
  refine ⟨fun k i => hl.find?_eq_some_iff.trans (and_congr_right fun hi => not_congr ⟨?_, fun hmem => ?_⟩),
    fun k r hr => hl.find?_eq_some_iff.trans (and_iff_left_of_imp fun hk => ?_)⟩
  · rintro ⟨v, hmem, htakes⟩
    have hsame : v = i := hc.eq_of_takes_key (hv v hmem) hi htakes
    exact hsame ▸ hmem
  · exact ⟨i, hmem, hc.keyed k _ hi ▸ i.takes_key⟩
  · rintro ⟨v, -, htakes⟩
    have hkind := hc.keyed.kind_eq hk
    -- Victims take instances and disks, and neither belongs to a network.
    rcases htakes.kind with h | h <;> rw [h] at hkind <;> cases r <;> simp_all [Resource.BelongsTo, Resource.kind]

/-- Reclaiming one network leaves the others as they are. -/
theorem Settles.mirrors (hl : m.Settles link m') (hne : link' ≠ link) : m.Mirrors [] link' m' := by
  have hstays : ∀ k r, ¬ r.BelongsTo link → (m'.resources.find? k = some r ↔ m.resources.find? k = some r) := by
    intro k r hr
    refine hl.find?_eq_some_iff.trans (and_iff_left_of_imp fun hk => ?_)
    rintro ⟨-, s, hs, hbelongs⟩
    rw [hk] at hs
    exact hr (Option.some.inj hs ▸ hbelongs)
  refine ⟨fun k i => (hstays k (.instance i) id).trans (by simp), fun k r hr => hstays k r fun h => hne ?_⟩
  cases r with
  | network n => exact hr.symm.trans h
  | firewall f => exact hr.symm.trans h
  | disk d => exact h.elim
  | «instance» i => exact h.elim

/-! ### Two groups on one network -/

/-- A platform with one node, and a second one of another group on the same network. -/
def lodger : Memory := (((Memory.empty "project").withPollsUntilDone 1).seedNode "zone-a" "db-1" "front" "db").2

def neighbours : Instance × Memory := lodger.seedNode "zone-a" "web-1" "front" "web"

theorem canonical_neighbours : neighbours.2.Canonical := by
  have hlodger : lodger.Canonical := (canonical_empty _ _).seedNode (by decide) (by decide) rfl rfl
  exact hlodger.seedNode (by decide) (by decide) (by decide +kernel) (by decide +kernel)

theorem faultFree_neighbours : neighbours.2.FaultFree :=
  ((faultFree_empty _ _).seedNode _ _ _ _).seedNode _ _ _ _

theorem find?_neighbours :
    neighbours.2.resources.find? (Resource.instance neighbours.1).key = some (.instance neighbours.1) :=
  (OrderedMap.find?_insert _ _ _ _).trans (if_pos rfl)

end Memory

end Fleet
