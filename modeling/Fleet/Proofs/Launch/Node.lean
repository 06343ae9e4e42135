import Fleet.Group
import Fleet.Proofs.Launch.Regime

/-!
# The launch of one node

Bringing up a node ends with the node in the store (`does_createNode`), or in a failure; without faults, and when no
disk is in the way, it does not fail. Cleaning up after a failure leaves neither the instance nor the boot disk
behind, when nothing keeps it from that (`does_discardPartial`).
-/

namespace Fleet

open Memory Regime

namespace Launch

variable {l : Launch} {c : Client} {n : String} {m : Memory}

variable (l) in
/-- Nothing stands in the way of the node `n`. -/
structure Apt (n : String) : Prop where
  calm : l.calm
  steady : l.steady
  no_disk : l.before.resources.find? (l.diskKey n) = none
  slash_free : '/' ∉ l.network.toList
  network : ∀ net, l.before.resources.find? l.networkKey = some (.network net) → Link.name net.selfLink = l.network

variable (l) in
/-- How bringing up the node `n` may fail: not by being cancelled, and not when nothing stands in the way. -/
def Fails (n : String) (f : Failure) : Prop := (∀ s, f ≠ .cancelled s) ∧ ¬ l.Apt n

theorem Failure.FromPlatform.ne_cancelled {f : Failure} (h : f.FromPlatform) (s : String) : f ≠ .cancelled s := by
  rintro rfl
  simp [Failure.FromPlatform, Failure.GivesUp, Failure.code?] at h

private theorem fails_of_scripted {f : Failure} {s : String} {x : OperationError} (hm : l.Inv m)
    (hx : m.scriptedFailures.find? s = some x) (hf : ∀ s, f ≠ .cancelled s) : l.Fails n f := by
  refine ⟨hf, fun h => ?_⟩
  have := (hm.promise.calm h.calm).2.1 s
  rw [hx] at this
  exact absurd this (by simp)

private theorem fails_of_given_up {f : Failure} {s : String} (h : ¬ l.steady ∨ l.regime.Lossy s)
    (hf : ∀ s, f ≠ .cancelled s) : l.Fails n f := by
  refine ⟨hf, fun ha => ?_⟩
  rcases h with h | ⟨m, hm, hl⟩
  · exact h ha.steady
  · have := (hm.promise.calm ha.calm).2.2 s
    rw [hl] at this
    exact absurd this (by simp)

private theorem ne_cancelled_of_code {f : Failure} {code : ErrorCode} (h : f.code? = some code) (s : String) :
    f ≠ .cancelled s :=
  Failure.FromPlatform.ne_cancelled (.inr ⟨code, h⟩) s

private theorem ne_cancelled_of_givesUp {f : Failure} (h : f.GivesUp) (s : String) : f ≠ .cancelled s :=
  Failure.FromPlatform.ne_cancelled (.inl h) s

/-! ### The network and the firewall -/

variable (l) in
/-- Nothing of the node is there yet. -/
def Ready (n : String) (m : Memory) : Prop :=
  m.resources.find? (l.instanceKey n) = none ∧
    m.resources.find? (l.diskKey n) = l.before.resources.find? (l.diskKey n)

theorem stable_ready (hn : n ∈ l.names) : l.regime.Stable n (l.Ready n) := (stable_node hn none).and (stable_disk hn _)

private theorem ready_seed {e : JournalEntry} {r : Resource} (h : l.Ready n m) (hd : l.diskKey n ≠ r.key)
    (hi : l.instanceKey n ≠ r.key) : l.Ready n ((m.log e).seed r) := by
  have hw := writes_seed m e r
  exact ⟨(hw.other hi).trans h.1, (hw.other hd).trans h.2⟩

private theorem ne_cancelled_of_shared {f : Failure} {code : ErrorCode}
    (h : f.code? = some code ∨ ∃ text, f = .missing text) (s : String) : f ≠ .cancelled s := by
  rcases h with h | ⟨text, rfl⟩
  · exact ne_cancelled_of_code h s
  · simp

private theorem sharing_network (hmem : n ∈ l.names) :
    l.regime.Sharing n (l.Ready n) .global (.network (l.spec n).networkSpec) (fun f _ => l.Fails n f) where
  fits h := absurd h (by simp [ResourceSpec.kind, Kind.isZonal])
  self_contained m r hr := by
    rw [makes_network hr]
    rfl
  stable := stable_ready hmem
  still_failed _ _ _ _ _ hf := hf
  stays := stable_network
  effect m r hm hA hr hun hn := by
    rw [makes_network hr]
    exact ⟨allows_create_network hm hn hun,
      ready_seed hA (networkKey_ne_diskKey n).symm (networkKey_ne_instanceKey n).symm⟩
  ordered _ _ hm _ hx _ _ _ _ hf := fails_of_scripted hm hx (ne_cancelled_of_shared hf)
  given_up h _ _ _ _ hf := fails_of_given_up h (ne_cancelled_of_givesUp hf)

private theorem sharing_firewall (hmem : n ∈ l.names) (net : Network) :
    l.regime.Sharing n (fun m => l.Ready n m ∧ m.resources.find? l.networkKey = some (.network net)) .global
      (.firewall ((l.spec n).firewallSpec net)) (fun f _ => l.Fails n f) where
  fits h := absurd h (by simp [ResourceSpec.kind, Kind.isZonal])
  self_contained m r hr := by
    rw [makes_firewall hr]
    rfl
  stable := (stable_ready hmem).and (stable_network _)
  still_failed _ _ _ _ _ hf := hf
  stays := stable_firewall
  effect m r hm hA hr hun hn := by
    rw [makes_firewall hr]
    have hw := writes_seed m (.insert .firewall l.firewallName) (.firewall (l.newFirewall net))
    refine ⟨allows_create_firewall hm hA.2 hn hun, ?_, ?_⟩
    · exact ready_seed hA.1 (firewallKey_ne_diskKey n).symm (firewallKey_ne_instanceKey n).symm
    · exact (hw.other networkKey_ne_firewallKey).trans hA.2
  ordered _ _ hm _ hx _ _ _ _ hf := fails_of_scripted hm hx (ne_cancelled_of_shared hf)
  given_up h _ _ _ _ hf := fails_of_given_up h (ne_cancelled_of_givesUp hf)

/-! ### The boot disk and the instance -/

variable (l) in
/-- The network and the firewall are there. -/
def Shared (net : Network) (fw : Firewall) (m : Memory) : Prop :=
  m.resources.find? l.networkKey = some (.network net) ∧ m.resources.find? l.firewallKey = some (.firewall fw)

private theorem stable_shared (net : Network) (fw : Firewall) : l.regime.Stable n (l.Shared net fw) :=
  (stable_network _).and (stable_firewall _)

private theorem Shared.writes {m' : Memory} {net : Network} {fw : Firewall} (h : l.Shared net fw m) {k : ResourceKey}
    {v : Option Resource} (hw : Writes m k v m') (hn : l.networkKey ≠ k) (hf : l.firewallKey ≠ k) :
    l.Shared net fw m' :=
  ⟨(hw.other hn).trans h.1, (hw.other hf).trans h.2⟩

variable (l) in
/-- The boot disk of the node is there, and is new. -/
def HasDisk (n : String) (m : Memory) : Prop :=
  l.before.resources.find? (l.diskKey n) = none ∧ m.resources.find? (l.diskKey n) = some (.disk (l.newDisk n))

private theorem stable_hasDisk (hn : n ∈ l.names) : l.regime.Stable n (l.HasDisk n) :=
  (stable_const _).and (stable_disk hn _)

private theorem creation_disk (hmem : n ∈ l.names) (net : Network) (fw : Firewall) :
    l.regime.Creation n (fun m => l.Ready n m ∧ l.Shared net fw m) l.zone (.disk (l.spec n).diskSpec)
      (fun r m => r = .disk (l.newDisk n) ∧ l.HasDisk n m ∧ m.resources.find? (l.instanceKey n) = none ∧
        l.Shared net fw m) (fun f _ => l.Fails n f) where
  fits _ := ⟨_, rfl⟩
  stable := (stable_ready hmem).and (stable_shared net fw)
  stable_created _ :=
    (stable_const _).and ((stable_hasDisk hmem).and ((stable_node hmem _).and (stable_shared net fw)))
  still_failed _ _ _ _ _ hf := hf
  present m r _ h := by
    rw [h.1]
    exact h.2.1.2
  effect m r hm hA hr hun := by
    obtain ⟨⟨hi, hd⟩, hs⟩ := hA
    rw [makes_disk hr]
    rcases m.apply_create (.disk (l.newDisk n)) with ⟨⟨s, hs'⟩, ha⟩ | ⟨-, k, hk, -⟩ | ⟨hn, -, ha⟩
    · rw [ha]
      -- The name of the disk is taken, which an apt node rules out.
      refine ⟨allows_of_quiet hm (.refl m), fun f hf => ⟨ne_cancelled_of_code hf, fun hapt => ?_⟩⟩
      have hstored : m.resources.find? (l.diskKey n) = some s := hs'
      rw [hd, hapt.no_disk] at hstored
      exact absurd hstored (by simp)
    · exact absurd hk (by simp [missingReference?])
    · rw [ha]
      have hnone : m.resources.find? (l.diskKey n) = none := hn
      have hbefore := hd.symm.trans hnone
      have hw : Writes m (l.diskKey n) (some (.disk (l.newDisk n)))
        ((m.log (.insert .disk (Naming.bootDiskName n))).seed (.disk (l.newDisk n))) :=
        writes_seed m _ (.disk (l.newDisk n))
      refine ⟨allows_create_disk hm hmem hbefore hnone hun, rfl, ⟨hbefore, hw.same⟩, ?_, ?_⟩
      · exact (hw.other (diskKey_ne_instanceKey n n).symm).trans hi
      · exact hs.writes hw (networkKey_ne_diskKey n) (firewallKey_ne_diskKey n)
  ordered _ _ hm _ hx _ _ _ _ hf := fails_of_scripted hm hx (ne_cancelled_of_code hf)
  given_up h _ _ _ _ hf := fails_of_given_up (s := n) (.inl h) (ne_cancelled_of_givesUp hf)
  lost h _ _ _ _ _ hf := fails_of_given_up (.inr h) (Failure.FromPlatform.ne_cancelled hf)

/-- The references of a node can be resolved, when nothing stands in its way. -/
private theorem missingReference?_eq_none (hm : l.Inv m) (hapt : l.Apt n) (hmem : n ∈ l.names) {net : Network}
    (hnet : m.resources.find? l.networkKey = some (.network net)) (hd : l.HasDisk n m) {i : Instance}
    (hi : l.IsNode n net i) : m.missingReference? (.instance i) = none := by
  have hlink : Link.name net.selfLink = l.network := by
    rcases hm.store.network with he | ⟨-, he⟩
    · exact hapt.network net (he.symm.trans hnet)
    · obtain rfl : net = l.newNetwork := Resource.network.inj (Option.some.inj (hnet.symm.trans he))
      exact name_selfLink _ _ _ hapt.slash_free
  have hdisk : Link.name (l.diskLink n) = Naming.bootDiskName n :=
    name_selfLink _ _ _ (Naming.slash_not_mem_bootDiskName (l.no_slash n hmem))
  obtain ⟨tags, ip, nat, rfl⟩ := hi
  have hn : Memory.networkKey net.selfLink = l.networkKey := by
    rw [networkKey_eq, hlink]
    rfl
  have hk : Memory.diskKey l.template.zone (l.diskLink n) = l.diskKey n := by
    rw [diskKey_eq, hdisk]
    rfl
  simp [missingReference?, referencesOf, hn, hk, OrderedMap.contains, hnet, hd.2]

private theorem creation_instance (hmem : n ∈ l.names) (net : Network) (fw : Firewall) :
    l.regime.Creation n
      (fun m => l.HasDisk n m ∧ m.resources.find? (l.instanceKey n) = none ∧ l.Shared net fw m) l.zone
      (.instance ((l.spec n).instanceSpec net (l.newDisk n)))
      (fun r m => (∃ i, r = .instance i ∧ l.IsNode n net i) ∧ m.resources.find? (l.instanceKey n) = some r ∧
        l.HasDisk n m ∧ l.Shared net fw m) (fun f _ => l.Fails n f) where
  fits _ := ⟨_, rfl⟩
  stable := (stable_hasDisk hmem).and ((stable_node hmem _).and (stable_shared net fw))
  stable_created _ :=
    (stable_const _).and ((stable_node hmem _).and ((stable_hasDisk hmem).and (stable_shared net fw)))
  still_failed _ _ _ _ _ hf := hf
  present _ _ _ h := h.2.1
  effect m r hm hA hr hun := by
    obtain ⟨hd, hi, hs⟩ := hA
    obtain ⟨i, rfl, hnode⟩ := makes_instance rfl hr
    have hkey : (Resource.instance i).key = l.instanceKey n := by
      obtain ⟨tags, ip, nat, rfl⟩ := hnode
      rfl
    -- The name is free, since the instances of the launch are new; a reference may be missing, but not to an apt
    -- node.
    rcases m.apply_create (.instance i) with ⟨⟨s, hs'⟩, -⟩ | ⟨-, k, hk, ha⟩ | ⟨hn, -, ha⟩
    · rw [hkey, hi] at hs'
      exact absurd hs' (by simp)
    · rw [ha]
      refine ⟨allows_of_quiet hm (.refl m), fun f hf => ⟨ne_cancelled_of_code hf, fun hapt => ?_⟩⟩
      rw [missingReference?_eq_none hm hapt hmem hs.1 hd hnode] at hk
      exact absurd hk (by simp)
    · rw [ha]
      have hw : Writes m (l.instanceKey n) (some (.instance i))
          ((m.log (.insert .instance i.name)).seed (.instance i)) := by
        rw [← hkey]
        exact writes_seed m _ (.instance i)
      refine ⟨?_, ⟨i, rfl, hnode⟩, hw.same, ?_, ?_⟩
      · exact allows_write_instance hm hmem hd.1 hd.2 hs.1 hnode hun hw (continues_seed m _ _) rfl
          fun e he => by rw [List.mem_singleton.1 he]; simp [Resource.kind]
      · exact ⟨hd.1, (hw.other (diskKey_ne_instanceKey n n)).trans hd.2⟩
      · exact hs.writes hw (networkKey_ne_instanceKey n) (firewallKey_ne_instanceKey n)
  ordered _ _ hm _ hx _ _ _ _ hf := fails_of_scripted hm hx (ne_cancelled_of_code hf)
  given_up h _ _ _ _ hf := fails_of_given_up (s := n) (.inl h) (ne_cancelled_of_givesUp hf)
  lost h _ _ _ _ _ hf := fails_of_given_up (.inr h) (Failure.FromPlatform.ne_cancelled hf)

/-! ### The tags -/

private theorem tagging (hmem : n ∈ l.names) {net : Network} (fw : Firewall) {i₀ : Instance}
    (hi₀ : l.IsNode n net i₀) :
    l.regime.Tagging n l.zone n i₀
      (fun t m => m.resources.find? (l.instanceKey n) = some (.instance { i₀ with tags := t }) ∧ l.HasDisk n m ∧
        l.Shared net fw m) (fun f _ => l.Fails n f) where
  stable _ := (stable_node hmem _).and ((stable_hasDisk hmem).and (stable_shared net fw))
  still_failed _ _ _ _ _ hf := hf
  present _ _ _ h := h.1
  retag t t' m m' hm hT hre := by
    obtain ⟨hi, hd, hs⟩ := hT
    have hw : Writes m (l.instanceKey n) (some (.instance { i₀ with tags := t' })) m' :=
      writes_retag (i := { i₀ with tags := t }) hre
    obtain ⟨es, happ, hes⟩ := hre.applied
    have hnode : l.IsNode n net { i₀ with tags := t' } := by
      obtain ⟨tags, ip, nat, rfl⟩ := hi₀
      exact ⟨t', ip, nat, rfl⟩
    have hname : (Resource.instance { i₀ with tags := t }).name = n := by
      obtain ⟨tags, ip, nat, rfl⟩ := hi₀
      rfl
    refine ⟨allows_write_instance hm hmem hd.1 hd.2 hs.1 hnode (fun ht => ?_) hw hre.toContinues happ
      (fun e he => ?_), hw.same, ?_, ?_⟩
    · have := hm.unscripted ht _ _ hi
      rwa [hname] at this
    · obtain ⟨_, _, _, rfl⟩ := hes e he
      simp
    · exact ⟨hd.1, (hw.other (diskKey_ne_instanceKey n n)).trans hd.2⟩
    · exact hs.writes hw (networkKey_ne_instanceKey n) (firewallKey_ne_instanceKey n)
  fails htr t m f hm _ hf := by
    refine ⟨fun s => ?_, fun hapt => ?_⟩
    · rcases hf with hf | ⟨_, _, rfl⟩
      · exact Failure.FromPlatform.ne_cancelled hf s
      · simp
    · -- It takes a lost fetch, a conflict or an ordered failure, and an apt node meets none of them.
      rcases htr with hst | ⟨m₀, hm₀, hpos | ⟨x, hx⟩⟩
      · exact hst hapt.steady
      · have := (hm₀.promise.calm hapt.calm).1
        omega
      · have := (hm₀.promise.calm hapt.calm).2.1 n
        rw [hx] at this
        exact absurd this (by simp)

/-! ### The whole node -/

variable (l) in
/-- The instance `i` is the node `n`, up and running with all that it needs. -/
def Up (n : String) (i : Instance) (m : Memory) : Prop :=
  ∃ net fw, l.IsNode n net i ∧ i.tags.containsAll (l.spec n).desiredTags = true ∧
    m.resources.find? (l.instanceKey n) = some (.instance i) ∧ l.HasDisk n m ∧ l.Shared net fw m

theorem stable_up (hmem : n ∈ l.names) (i : Instance) : l.regime.Stable n (l.Up n i) :=
  Stable.exists fun net => Stable.exists fun fw => (stable_const _).and ((stable_const _).and
    ((stable_node hmem _).and ((stable_hasDisk hmem).and (stable_shared net fw))))

/-- Bringing up a node ends with the node up and running, or fails. -/
theorem does_createNode (hp : l.regime.Patient c) (hmem : n ∈ l.names) :
    l.regime.Does n (l.Ready n) (c.createNode (l.spec n)) (l.Up n) (fun f _ => l.Fails n f) := by
  refine (does_ensure hp (sharing_network hmem)).bind fun net => ?_
  refine (does_ensure hp (sharing_firewall hmem net)).bind fun fw => ?_
  refine Does.pre ?_ (A := fun m => l.Ready n m ∧ l.Shared net fw m) fun m _ h => ⟨h.1.1, h.1.2, h.2⟩
  refine (does_create hp (creation_disk hmem net fw)).bind fun d => ?_
  refine does_and fun hd => ?_
  obtain rfl : d = l.newDisk n := Resource.disk.inj hd
  refine (does_create hp (creation_instance hmem net fw)).bind fun i => ?_
  refine does_and fun ⟨j, hj, hnode⟩ => ?_
  obtain rfl : i = j := Resource.instance.inj hj
  have hname : i.name = n := by
    obtain ⟨tags, ip, nat, rfl⟩ := hnode
    rfl
  rw [hname]
  refine (does_setTags hp (tagging hmem fw hnode) (l.spec n).desiredTags).conseq
    (fun m _ h => ⟨i.tags, h⟩) (fun v m _ ⟨t, hv, ⟨hi, hrest⟩, hall⟩ => ?_) fun _ _ _ hf => hf
  subst hv
  refine ⟨net, fw, ?_, hall, hi, hrest⟩
  obtain ⟨tags, ip, nat, rfl⟩ := hnode
  exact ⟨t, ip, nat, rfl⟩

/-! ### Cleaning up -/

variable (l) in
/-- Nothing but the instance of `n` can keep its boot disk from being deleted. -/
structure Loose (n : String) : Prop where
  tame : l.tame
  steady : l.steady
  closed : l.closed
  free : ∀ k i, l.before.resources.find? k = some (.instance i) →
    ∀ a ∈ i.disks, Link.sameResource a.source (l.diskLink n) = false
  canonical : ∀ d, l.before.resources.find? (l.diskKey n) = some (.disk d) → d.selfLink = l.diskLink n

variable (l) in
/-- The instance of `n` is gone, if nothing keeps it from that. -/
def Gone (n : String) (m : Memory) : Prop := l.tame → l.steady → m.resources.find? (l.instanceKey n) = none

variable (l) in
/-- Nothing of the node is left, if nothing keeps it from that. -/
def Clean (n : String) (m : Memory) : Prop :=
  l.Gone n m ∧ (l.Loose n → m.resources.find? (l.diskKey n) = none)

private theorem stable_gone (hn : n ∈ l.names) : l.regime.Stable n (l.Gone n) :=
  fun m m' hm hm' hk h ht hs => stable_node hn none m m' hm hm' hk (h ht hs)

private theorem stable_clean (hn : n ∈ l.names) : l.regime.Stable n (l.Clean n) :=
  (stable_gone hn).and fun m m' hm hm' hk h hl => stable_disk hn none m m' hm hm' hk (h hl)

/-- A failure that was ordered for a name hits no resource that is stored under it. -/
private theorem not_tame_of_scripted (hm : l.Inv m) {k : ResourceKey} {x : OperationError}
    (hr : ∃ r, m.resources.find? k = some r) (hx : m.scriptedFailures.find? k.2.2 = some x) : ¬ l.tame := by
  obtain ⟨r, hr⟩ := hr
  intro ht
  have := hm.unscripted ht k r hr
  rw [← hm.store.keyed k r hr] at hx
  rw [show r.key.2.2 = r.name from rfl, this] at hx
  exact absurd hx (by simp)

private theorem deletion_instance (hmem : n ∈ l.names) :
    l.regime.Deletion n (fun _ => True) .instance l.zone n (l.Gone n) (l.Gone n) (fun _ m => l.Gone n m) where
  stable := stable_const True
  still := (stable_gone hmem).still
  still_missing := (stable_gone hmem).still
  still_failed _ := (stable_gone hmem).still
  deleted m r hm _ hr hu := by
    obtain ⟨hallow, hgone⟩ := allows_delete_instance hm hmem hr
    exact ⟨hallow, fun _ _ => hgone⟩
  missing _ _ _ hnone _ _ := hnone
  in_use m r k u f hm _ hr _ huse _ := by
    have hk : r.kind = .instance := hm.store.keyed.kind_eq hr
    cases r with
    | «instance» i => exact absurd huse (by cases u <;> simp [uses])
    | _ => exact absurd hk (by simp [Resource.kind])
  ordered m r x hm _ hr hx _ _ _ _ _ := by
    have hnot := not_tame_of_scripted hm ⟨r, hr⟩ hx
    split <;> exact fun ht => absurd ht hnot
  given_up hst _ _ _ _ _ _ hs := absurd hs hst

/-- An instance that uses the boot disk of a node which is gone keeps the disk from being loose. -/
private theorem not_loose_of_user (hm : l.Inv m) (hmem : n ∈ l.names) (hgone : l.Gone n m) {d : Disk}
    (hd : m.resources.find? (l.diskKey n) = some (.disk d)) {k : ResourceKey} {u : Resource}
    (hk : m.resources.find? k = some u) (huse : uses u (.disk d) = true) : ¬ l.Loose n := by
  intro hl
  obtain ⟨i, rfl⟩ := exists_instance_of_uses huse
  have hlink : d.selfLink = l.diskLink n := by
    rcases hm.store.disk n hmem with he | ⟨-, he⟩ | ⟨he, -⟩
    · exact hl.canonical d (he.symm.trans hd)
    · obtain rfl : d = l.newDisk n := Resource.disk.inj (Option.some.inj (hd.symm.trans he))
      rfl
    · rw [hd] at he
      exact absurd he (by simp)
  by_cases hown : l.Own k
  · -- The instance of another node is attached to that node's own boot disk.
    obtain ⟨n', hn', rfl⟩ := hown.instance (hm.store.keyed.kind_eq hk).symm
    rcases hm.store.node n' hn' with he | ⟨-, -, j, net, -, hj, tags, ip, nat, rfl⟩
    · rw [hk] at he
      exact absurd he (by simp)
    · obtain rfl := Resource.instance.inj (Option.some.inj (hk.symm.trans hj))
      have hsame : Link.sameResource (l.diskLink n') (l.diskLink n) = true := by simpa [uses, hlink] using huse
      have heq := (Link.sameResource_of_isPath (l.before.isPath_selfLink _ _ _)
        (l.before.isPath_selfLink _ _ _)).1 hsame
      have hname := (selfLink_injective (Naming.slash_not_mem_bootDiskName (l.no_slash n' hn'))
        (Naming.slash_not_mem_bootDiskName (l.no_slash n hmem)) heq).1
      rw [Naming.bootDiskName_injective hname, hgone hl.tame hl.steady] at hk
      exact absurd hk (by simp)
  · cases hb : l.before.resources.find? k with
    | none =>
      rw [hm.store.closed hl.closed k hown hb] at hk
      exact absurd hk (by simp)
    | some r =>
      rw [hm.store.persists k r hown hb] at hk
      obtain rfl := Option.some.inj hk
      simp only [uses, hlink, List.any_eq_true] at huse
      obtain ⟨a, ha, hsame⟩ := huse
      rw [hl.free k i hb a ha] at hsame
      exact absurd hsame (by simp)

private theorem deletion_disk (hmem : n ∈ l.names) :
    l.regime.Deletion n (l.Gone n) .disk l.zone (Naming.bootDiskName n) (l.Clean n) (l.Clean n)
      (fun _ m => l.Clean n m) where
  stable := stable_gone hmem
  still := (stable_clean hmem).still
  still_missing := (stable_clean hmem).still
  still_failed _ := (stable_clean hmem).still
  deleted m r hm hgone hr hu := by
    obtain ⟨hallow, hw⟩ := allows_delete_disk hm hmem hr hu
    refine ⟨hallow, fun ht hs => ?_, fun _ => hw.same⟩
    exact (hw.other (diskKey_ne_instanceKey n n).symm).trans (hgone ht hs)
  missing _ _ hgone hnone := ⟨hgone, fun _ => hnone⟩
  in_use m r k u f hm hgone hr hk huse _ := by
    obtain ⟨d, rfl⟩ := exists_disk hm.store hr
    exact ⟨hgone, fun hl => absurd hl (not_loose_of_user hm hmem hgone hr hk huse)⟩
  ordered m r x hm _ hr hx m' f _ hgone _ := by
    have hnot := not_tame_of_scripted hm ⟨r, hr⟩ hx
    split <;> exact ⟨hgone, fun hl => absurd hl.tame hnot⟩
  given_up hst _ _ _ hgone _ := ⟨hgone, fun hl => absurd hl.steady hst⟩

private theorem of_ends {A : Memory → Prop} {r : Except Failure Bool} (h : Ends (fun _ => A) (fun _ => A) r m) :
    A m := by
  cases r <;> exact h

/-- Cleaning up leaves nothing of the node, if nothing keeps it from that. -/
theorem does_discardPartial {mgr : Manager} (hp : l.regime.Patient mgr.client) (hmem : n ∈ l.names) :
    l.regime.Does n (fun _ => True) (mgr.discardPartial (l.spec n)) (fun _ => l.Clean n) (fun _ _ => False) := by
  have hinstance := does_deleteIfExists_of_same hp (deletion_instance hmem)
  have hdisk := does_deleteIfExists_of_same hp (deletion_disk hmem)
  refine hinstance.outcome.bind fun r => ?_
  refine (hdisk.outcome.pre fun m _ h => of_ends h).bind fun r => ?_
  exact does_pure fun m _ h => of_ends h

/-! ### The launch of a node -/

variable (l) in
/-- How the launch of a node ends: the node is up, or it has failed and nothing of it is left. -/
def Launched (n : String) (a : String × Except Failure Instance) (m : Memory) : Prop :=
  a.1 = n ∧ match a.2 with
    | .ok i => l.Up n i m
    | .error f => ¬ l.stoppable → l.Fails n f ∧ l.Clean n m

theorem stable_launched (hn : n ∈ l.names) (a : String × Except Failure Instance) :
    l.regime.Stable n (l.Launched n a) := by
  rcases a with ⟨s, f | i⟩
  · exact (stable_const _).and fun m m' hm hm' hk h hs =>
      ⟨(h hs).1, stable_clean hn m m' hm hm' hk (h hs).2⟩
  · exact (stable_const _).and (stable_up hn i)

theorem launchNode_obeys {mgr : Manager} (hp : l.regime.Patient mgr.client) (hmem : n ∈ l.names)
    {x : Memory × (Nat → Option String)} {t : Nat} (hx : l.Inv x.1) (hr : l.Ready n x.1) :
    (mgr.launchNode (l.spec n)).Obeys l.regime.conduct n (fun a y _ => l.Inv y.1 ∧ l.Launched n a y.1) x t := by
  intro stop hstop
  cases stop with
  | true => exact ⟨hx, rfl, fun hs => absurd (hstop rfl) hs⟩
  | false =>
    simp only [Bool.false_eq_true, if_false]
    refine Program.obeys_bind.2 (((does_createNode hp hmem).obeys x t hx hr).mono fun r y s ⟨hy, hends⟩ => ?_)
    rcases r with f | i
    · refine Program.obeys_bind.2 (((does_discardPartial hp hmem).obeys y s hy trivial).mono fun r z s' ⟨hz, hc⟩ => ?_)
      rcases r with g | u
      · exact hc.elim
      · exact ⟨hz, rfl, fun _ => ⟨hends, hc⟩⟩
    · exact ⟨hy, rfl, hends⟩

end Launch

end Fleet
