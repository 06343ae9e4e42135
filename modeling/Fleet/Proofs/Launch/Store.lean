import Fleet.Proofs.Launch.Basic

/-!
# The store during a launch

While nodes are launched, the store keeps what was there before (`Launch.Store`): under the launch's own keys stand
the old resource, the new one or nothing, and an instance only together with its boot disk and its network. Each
effect that the launch of a node may have is shown to keep the store in this form. A boot disk that was there before
may go, but only when no instance was attached to it (`Store.delete_disk`).
-/

namespace Fleet

open Memory

namespace Launch

variable (l : Launch)

/-- A disk with the name of the boot disk of `n` was there, and is attached to an instance. -/
def InUse (n : String) : Prop :=
  ∃ d k u, l.before.resources.find? (l.diskKey n) = some (.disk d) ∧ l.before.resources.find? k = some u ∧
    uses u (.disk d) = true

/-- The node `n` is there, with its boot disk and its network. -/
def HasNode (n : String) (m : Memory) : Prop :=
  l.before.resources.find? (l.diskKey n) = none ∧ m.resources.find? (l.diskKey n) = some (.disk (l.newDisk n)) ∧
    ∃ i net, m.resources.find? l.networkKey = some (.network net) ∧
      m.resources.find? (l.instanceKey n) = some (.instance i) ∧ l.IsNode n net i

/-- The form of the store. -/
structure Store (m : Memory) : Prop where
  keyed : m.WellKeyed
  persists : ∀ k r, ¬ l.Own k → l.before.resources.find? k = some r → m.resources.find? k = some r
  closed : l.closed → ∀ k, ¬ l.Own k → l.before.resources.find? k = none → m.resources.find? k = none
  network : m.resources.find? l.networkKey = l.before.resources.find? l.networkKey ∨
    (l.before.resources.find? l.networkKey = none ∧ m.resources.find? l.networkKey = some (.network l.newNetwork))
  firewall : m.resources.find? l.firewallKey = l.before.resources.find? l.firewallKey ∨
    (l.before.resources.find? l.firewallKey = none ∧ ∃ net, m.resources.find? l.networkKey = some (.network net) ∧
      m.resources.find? l.firewallKey = some (.firewall (l.newFirewall net)))
  disk : ∀ n ∈ l.names, m.resources.find? (l.diskKey n) = l.before.resources.find? (l.diskKey n) ∨
    (l.before.resources.find? (l.diskKey n) = none ∧
      m.resources.find? (l.diskKey n) = some (.disk (l.newDisk n))) ∨
    (m.resources.find? (l.diskKey n) = none ∧ ¬ l.InUse n)
  node : ∀ n ∈ l.names, m.resources.find? (l.instanceKey n) = none ∨ l.HasNode n m

variable {l} {m m' : Memory} {n : String}

theorem store_before : l.Store l.before where
  keyed := l.keyed
  persists _ _ _ h := h
  closed _ _ _ h := h
  network := .inl rfl
  firewall := .inl rfl
  disk _ _ := .inl rfl
  node n hn := .inl (l.new n hn)

theorem Store.congr (h : l.Store m) (hr : m'.resources = m.resources) : l.Store m' := by
  obtain ⟨h1, h2, h3, h4, h5, h6, h7⟩ := h
  constructor <;> simp only [WellKeyed, HasNode, hr] <;> assumption

/-- What is stored under the key of a boot disk is a disk. -/
theorem exists_disk (h : l.Store m) {r : Resource} (hr : m.resources.find? (l.diskKey n) = some r) :
    ∃ d, r = .disk d := by
  have hk := h.keyed.kind_eq hr
  cases r with
  | disk d => exact ⟨d, rfl⟩
  | _ => exact absurd hk (by simp [Resource.kind, diskKey, resourceKey])

/-- `m'` is `m` with `v` under the key `k`. -/
def Writes (m : Memory) (k : ResourceKey) (v : Option Resource) (m' : Memory) : Prop :=
  ∀ j, m'.resources.find? j = if j = k then v else m.resources.find? j

theorem writes_seed (m : Memory) (e : JournalEntry) (r : Resource) : Writes m r.key (some r) ((m.log e).seed r) :=
  fun j => OrderedMap.find?_insert m.resources r.key j r

theorem writes_retag {k : ResourceKey} {i : Instance} {t : Tags} (h : m.Retagged k i t m') :
    Writes m k (some (.instance { i with tags := t })) m' := h.find?_eq

theorem Writes.same {k : ResourceKey} {v : Option Resource} (h : Writes m k v m') : m'.resources.find? k = v := by
  rw [h k, if_pos rfl]

theorem Writes.other {k j : ResourceKey} {v : Option Resource} (h : Writes m k v m') (hj : j ≠ k) :
    m'.resources.find? j = m.resources.find? j := by
  rw [h j, if_neg hj]

theorem Writes.keyed {k : ResourceKey} {r : Resource} (h : Writes m k (some r) m') (hm : m.WellKeyed)
    (hr : r.key = k) : m'.WellKeyed := by
  intro j s hs
  rw [h j] at hs
  split at hs
  · next hj =>
    cases hs
    rw [hr, hj]
  · exact hm j s hs

/-- Writing under an own key leaves the resources of others alone. -/
private theorem Writes.not_own {k j : ResourceKey} {v : Option Resource} (h : Writes m k v m') (hk : l.Own k)
    (hj : ¬ l.Own j) : m'.resources.find? j = m.resources.find? j :=
  h.other fun he => hj (he ▸ hk)

/-- What is not the launch's own is as before it, when nothing else has changed since. -/
private theorem Store.foreign (h : l.Store m)
    (heq : ∀ k, ¬ l.Own k → m'.resources.find? k = m.resources.find? k) :
    (∀ k r, ¬ l.Own k → l.before.resources.find? k = some r → m'.resources.find? k = some r) ∧
      (l.closed → ∀ k, ¬ l.Own k → l.before.resources.find? k = none → m'.resources.find? k = none) :=
  ⟨fun k r hk hr => (heq k hk).trans (h.persists k r hk hr), fun hc k hk hr => (heq k hk).trans (h.closed hc k hk hr)⟩

/-! ### The network and the firewall -/

theorem Store.create_network (h : l.Store m) (hn : m.resources.find? l.networkKey = none)
    (hw : Writes m l.networkKey (some (.network l.newNetwork)) m') : l.Store m' := by
  have hbefore : l.before.resources.find? l.networkKey = none := by
    rcases h.network with he | ⟨he, -⟩
    · rw [← he, hn]
    · exact he
  obtain ⟨hpersists, hclosed⟩ := h.foreign fun k hk => hw.not_own own_networkKey hk
  refine ⟨hw.keyed h.keyed rfl, hpersists, hclosed, .inr ⟨hbefore, hw.same⟩, ?_, fun n' hn' => ?_, fun n' hn' => ?_⟩
  · -- No firewall and no instance has been made yet, since both need the network.
    rw [hw.other networkKey_ne_firewallKey.symm]
    rcases h.firewall with he | ⟨-, net, hnet, -⟩
    · exact .inl he
    · cases hn.symm.trans hnet
  · rw [hw.other (networkKey_ne_diskKey n').symm]
    exact h.disk n' hn'
  · rw [hw.other (networkKey_ne_instanceKey n').symm]
    rcases h.node n' hn' with he | ⟨-, -, i, net, hnet, -⟩
    · exact .inl he
    · cases hn.symm.trans hnet

theorem Store.create_firewall (h : l.Store m) {net : Network}
    (hnet : m.resources.find? l.networkKey = some (.network net)) (hn : m.resources.find? l.firewallKey = none)
    (hw : Writes m l.firewallKey (some (.firewall (l.newFirewall net))) m') : l.Store m' := by
  have hbefore : l.before.resources.find? l.firewallKey = none := by
    rcases h.firewall with he | ⟨he, -⟩
    · rw [← he, hn]
    · exact he
  have hnet' : m'.resources.find? l.networkKey = m.resources.find? l.networkKey :=
    hw.other networkKey_ne_firewallKey
  obtain ⟨hpersists, hclosed⟩ := h.foreign fun k hk => hw.not_own own_firewallKey hk
  refine ⟨hw.keyed h.keyed rfl, hpersists, hclosed, ?_, .inr ⟨hbefore, net, ?_, hw.same⟩, fun n' hn' => ?_,
    fun n' hn' => ?_⟩
  · rw [hnet']
    exact h.network
  · rw [hnet']
    exact hnet
  · rw [hw.other (firewallKey_ne_diskKey n').symm]
    exact h.disk n' hn'
  · unfold HasNode
    rw [hw.other (firewallKey_ne_instanceKey n').symm, hw.other (firewallKey_ne_diskKey n').symm, hnet']
    exact h.node n' hn'

/-! ### The boot disk and the instance of a node -/

/-- A change under the keys of one node leaves the network, the firewall and the other nodes as they are. -/
private theorem Store.of_node (h : l.Store m) (hmem : n ∈ l.names) (hkeyed : m'.WellKeyed)
    (hother : ∀ j, j ≠ l.instanceKey n → j ≠ l.diskKey n → m'.resources.find? j = m.resources.find? j)
    (hdisk : m'.resources.find? (l.diskKey n) = l.before.resources.find? (l.diskKey n) ∨
      (l.before.resources.find? (l.diskKey n) = none ∧
        m'.resources.find? (l.diskKey n) = some (.disk (l.newDisk n))) ∨
      (m'.resources.find? (l.diskKey n) = none ∧ ¬ l.InUse n))
    (hnode : m'.resources.find? (l.instanceKey n) = none ∨ l.HasNode n m') : l.Store m' := by
  obtain ⟨hpersists, hclosed⟩ := h.foreign fun k hk =>
    hother k (fun he => hk (he ▸ own_instanceKey hmem)) fun he => hk (he ▸ own_diskKey hmem)
  have hnet := hother _ (networkKey_ne_instanceKey n) (networkKey_ne_diskKey n)
  have hfirewall := hother _ (firewallKey_ne_instanceKey n) (firewallKey_ne_diskKey n)
  refine ⟨hkeyed, hpersists, hclosed, ?_, ?_, fun n' hn' => ?_, fun n' hn' => ?_⟩
  · rw [hnet]
    exact h.network
  · rw [hnet, hfirewall]
    exact h.firewall
  · by_cases he : n' = n
    · exact he ▸ hdisk
    · rw [hother _ (diskKey_ne_instanceKey n' n) fun hk => he (diskKey_inj.1 hk)]
      exact h.disk n' hn'
  · by_cases he : n' = n
    · exact he ▸ hnode
    · unfold HasNode
      rw [hnet, hother _ (fun hk => he (instanceKey_inj.1 hk)) (diskKey_ne_instanceKey n n').symm,
        hother _ (diskKey_ne_instanceKey n' n) fun hk => he (diskKey_inj.1 hk)]
      exact h.node n' hn'

theorem Store.create_disk (h : l.Store m) (hmem : n ∈ l.names)
    (hbefore : l.before.resources.find? (l.diskKey n) = none) (hn : m.resources.find? (l.diskKey n) = none)
    (hw : Writes m (l.diskKey n) (some (.disk (l.newDisk n))) m') : l.Store m' := by
  -- The instance would be there only together with its disk.
  have hgone : m.resources.find? (l.instanceKey n) = none := by
    rcases h.node n hmem with he | ⟨-, hd, -⟩
    · exact he
    · cases hn.symm.trans hd
  exact h.of_node hmem (hw.keyed h.keyed rfl) (fun _ _ hj => hw.other hj) (.inr (.inl ⟨hbefore, hw.same⟩))
    (.inl ((hw.other (diskKey_ne_instanceKey n n).symm).trans hgone))

/-- The instance of a node is created, or gets other tags. -/
theorem Store.create_instance (h : l.Store m) (hmem : n ∈ l.names)
    (hbefore : l.before.resources.find? (l.diskKey n) = none)
    (hd : m.resources.find? (l.diskKey n) = some (.disk (l.newDisk n))) {net : Network}
    (hnet : m.resources.find? l.networkKey = some (.network net)) {i : Instance} (hi : l.IsNode n net i)
    (hw : Writes m (l.instanceKey n) (some (.instance i)) m') : l.Store m' := by
  have hkey : (Resource.instance i).key = l.instanceKey n := by
    obtain ⟨tags, ip, nat, rfl⟩ := hi
    rfl
  have hnet' : m'.resources.find? l.networkKey = m.resources.find? l.networkKey :=
    hw.other (networkKey_ne_instanceKey n)
  have hdisk : m'.resources.find? (l.diskKey n) = m.resources.find? (l.diskKey n) :=
    hw.other (diskKey_ne_instanceKey n n)
  refine h.of_node hmem (hw.keyed h.keyed hkey) (fun _ hj _ => hw.other hj) ?_
    (.inr ⟨hbefore, hdisk.trans hd, i, net, hnet'.trans hnet, hw.same, hi⟩)
  rw [hdisk]
  exact h.disk n hmem

/-! ### Cleaning up -/

theorem IsNode.takesAlong_iff {net : Network} {i : Instance} (hi : l.IsNode n net i) (hmem : n ∈ l.names)
    (k : ResourceKey) : takesAlong (.instance i) k = true ↔ k = l.diskKey n := by
  obtain ⟨tags, ip, nat, rfl⟩ := hi
  have hname : Link.name (l.diskLink n) = Naming.bootDiskName n :=
    name_selfLink _ _ _ (Naming.slash_not_mem_bootDiskName (l.no_slash n hmem))
  have hkey : Memory.diskKey l.template.zone (l.diskLink n) = l.diskKey n := by
    rw [diskKey_eq, hname]
    rfl
  simp only [takesAlong, List.any_cons, List.any_nil, Bool.or_false, Bool.true_and, beq_iff_eq, hkey]
  exact eq_comm

/-- Deleting the instance of a node deletes its boot disk, too. -/
theorem Store.delete_instance (h : l.Store m) (hmem : n ∈ l.names) {r : Resource}
    (hr : m.resources.find? (l.instanceKey n) = some r)
    (hf : ∀ j, m'.resources.find? j =
      if j = l.instanceKey n ∨ takesAlong r j = true then none else m.resources.find? j) :
    l.Store m' ∧ ∀ j, m'.resources.find? j =
      if j = l.instanceKey n ∨ j = l.diskKey n then none else m.resources.find? j := by
  obtain ⟨hbefore, -, i, net, hnet, hi, hnode⟩ : l.HasNode n m := by
    rcases h.node n hmem with he | hnode
    · cases hr.symm.trans he
    · exact hnode
  obtain rfl : r = .instance i := Option.some.inj (hr.symm.trans hi)
  simp only [hnode.takesAlong_iff hmem] at hf
  have hfree : ¬ l.InUse n := by
    rintro ⟨d, k, u, hd, -⟩
    cases hbefore.symm.trans hd
  refine ⟨h.of_node hmem (fun j s hs => ?_) (fun j h1 h2 => ?_) (.inr (.inr ⟨?_, hfree⟩)) (.inl ?_), hf⟩
  · rw [hf j] at hs
    split at hs
    · cases hs
    · exact h.keyed j s hs
  · rw [hf j, if_neg (not_or.2 ⟨h1, h2⟩)]
  · rw [hf, if_pos (.inr rfl)]
  · rw [hf, if_pos (.inl rfl)]

/-- A boot disk can be deleted only when its node is gone and when no other instance was attached to it. -/
theorem Store.delete_disk (h : l.Store m) (hmem : n ∈ l.names) {r : Resource}
    (hr : m.resources.find? (l.diskKey n) = some r) (hu : m.user? r = none)
    (hw : Writes m (l.diskKey n) none m') : l.Store m' := by
  -- The instance of the node would be attached to the disk.
  have hgone : m.resources.find? (l.instanceKey n) = none := by
    rcases h.node n hmem with he | ⟨-, hd, i, net, -, hi, tags, ip, nat, rfl⟩
    · exact he
    · obtain rfl : r = .disk (l.newDisk n) := Option.some.inj (hr.symm.trans hd)
      have := not_uses_of_user? hu hi
      simp [uses, newDisk, Link.sameResource_refl] at this
  have hfree : ¬ l.InUse n := by
    rintro ⟨d, k, u, hd, hk, huse⟩
    obtain rfl : r = .disk d := by
      rcases h.disk n hmem with he | ⟨he, -⟩ | ⟨he, -⟩
      · exact Option.some.inj ((hr.symm.trans he).trans hd)
      · cases hd.symm.trans he
      · cases hr.symm.trans he
    obtain ⟨i, rfl⟩ := exists_instance_of_uses huse
    -- The user was there before the launch, since the own instances are new.
    have hforeign : ¬ l.Own k := by
      intro hown
      obtain ⟨n', hn', rfl⟩ := hown.instance (l.keyed.kind_eq hk).symm
      cases hk.symm.trans (l.new n' hn')
    cases huse.symm.trans (not_uses_of_user? hu (h.persists k _ hforeign hk))
  refine h.of_node hmem (fun j s hs => ?_) (fun _ _ hj => hw.other hj) (.inr (.inr ⟨hw.same, hfree⟩))
    (.inl ((hw.other (diskKey_ne_instanceKey n n).symm).trans hgone))
  rw [hw j] at hs
  split at hs
  · cases hs
  · exact h.keyed j s hs

end Launch

end Fleet
