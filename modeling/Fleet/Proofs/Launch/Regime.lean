import Fleet.Proofs.Launch.Store

/-!
# The rules of a launch

The regime under which the nodes of a launch are brought up side by side (`Launch.regime`). It is named after the
nodes: the program of a node can rely on its own disk and instance, and on the network and the firewall once they
are there. Besides the form of the store, the invariant counts the inserts of the shared resources, and says of the
faults that are left what the launch was promised.
-/

namespace Fleet

open Memory

namespace Launch

variable (l : Launch)

/-- How often the resource under a key has been created: at most once, and not when it was there before. -/
def created (k : ResourceKey) (m : Memory) : Nat :=
  if l.before.resources.find? k = none ∧ m.resources.find? k ≠ none then 1 else 0

/-- The journal has one new insert of the network and the firewall when they are new, and none otherwise. -/
structure Journal (m : Memory) : Prop where
  network : m.applied.count (.insert .network l.network) =
    l.before.applied.count (.insert .network l.network) + l.created l.networkKey m
  firewall : m.applied.count (.insert .firewall l.firewallName) =
    l.before.applied.count (.insert .firewall l.firewallName) + l.created l.firewallKey m

/-- What was promised of the faults. -/
structure Promise (m : Memory) : Prop where
  project : m.project = l.before.project
  polls : m.pollsUntilDone = l.before.pollsUntilDone
  lost : l.tame → ∀ n, m.lostInserts.contains n = true → m.scriptedFailures.find? n = none
  calm : l.calm → m.tagConflicts = 0 ∧ (∀ n, m.scriptedFailures.find? n = none) ∧
    ∀ n, m.lostInserts.contains n = false
  fetches : l.steady → m.failingFetches = 0

structure Inv (m : Memory) : Prop where
  store : l.Store m
  journal : l.Journal m
  promise : l.Promise m
  /-- There is no failure for a name that is stored. -/
  unscripted : l.tame → ∀ k r, m.resources.find? k = some r → m.scriptedFailures.find? r.name = none

/-- What the program of `n` can rely on. -/
structure Keeps (n : String) (m m' : Memory) : Prop where
  disk : n ∈ l.names → m'.resources.find? (l.diskKey n) = m.resources.find? (l.diskKey n)
  node : n ∈ l.names → m'.resources.find? (l.instanceKey n) = m.resources.find? (l.instanceKey n)
  network : ∀ r, m.resources.find? l.networkKey = some r → m'.resources.find? l.networkKey = some r
  firewall : ∀ r, m.resources.find? l.firewallKey = some r → m'.resources.find? l.firewallKey = some r
  unscripted : l.tame → ∀ s, m.scriptedFailures.find? s = none → m'.scriptedFailures.find? s = none

variable {l} {m m' m'' : Memory} {n n' : String}

/-! ### Quiet changes -/

theorem Promise.continues (h : l.Promise m) (hc : m.Continues m') : l.Promise m' where
  project := hc.project.trans h.project
  polls := hc.polls.trans h.polls
  lost ht s hs := hc.scripted_none (h.lost ht s (hc.lost s hs))
  calm ht := by
    obtain ⟨h1, h2, h3⟩ := h.calm ht
    refine ⟨by have := hc.conflicts; omega, fun s => hc.scripted_none (h2 s), fun s => ?_⟩
    cases he : m'.lostInserts.contains s with
    | false => rfl
    | true =>
      have := hc.lost s he
      rw [h3 s] at this
      exact absurd this (by simp)
  fetches hs := by
    have := hc.fetches
    have := h.fetches hs
    omega

theorem Journal.congr (h : l.Journal m) (hr : m'.resources = m.resources) (ha : m'.applied = m.applied) :
    l.Journal m' := by
  constructor
  · rw [ha, created, hr]
    exact h.network
  · rw [ha, created, hr]
    exact h.firewall

theorem Inv.quiet (h : l.Inv m) (hq : m.Quiet m') : l.Inv m' where
  store := h.store.congr hq.resources
  journal := h.journal.congr hq.resources hq.applied
  promise := h.promise.continues hq.toContinues
  unscripted ht k r hr := by
    rw [hq.resources] at hr
    exact hq.scripted_none (h.unscripted ht k r hr)

theorem keeps_of_quiet (hq : m.Quiet m') : l.Keeps n m m' := by
  constructor
  · exact fun _ => by rw [hq.resources]
  · exact fun _ => by rw [hq.resources]
  · rw [hq.resources]
    exact fun _ h => h
  · rw [hq.resources]
    exact fun _ h => h
  · exact fun _ s hs => hq.scripted_none hs

theorem Keeps.trans (h : l.Keeps n m m') (h' : l.Keeps n m' m'') : l.Keeps n m m'' where
  disk hn := (h'.disk hn).trans (h.disk hn)
  node hn := (h'.node hn).trans (h.node hn)
  network r hr := h'.network r (h.network r hr)
  firewall r hr := h'.firewall r (h.firewall r hr)
  unscripted ht s hs := h'.unscripted ht s (h.unscripted ht s hs)

variable (l)

def regime : Regime String where
  inv := l.Inv
  keeps := l.Keeps
  respects _ _ := True
  project := l.before.project
  polls := l.before.pollsUntilDone
  steady := l.steady
  tame := l.tame
  stoppable := l.stoppable
  inv_quiet := Inv.quiet
  keeps_quiet _ := keeps_of_quiet
  keeps_trans := Keeps.trans
  respects_refl _ := trivial
  respects_quiet _ _ _ := trivial
  wellKeyed h := h.store.keyed
  project_eq h := h.promise.project
  polls_eq h := h.promise.polls
  fetches hs h := h.promise.fetches hs
  keeps_unscripted ht h hs := h.unscripted ht _ hs
  lost_unscripted ht h hs := h.promise.lost ht _ hs

variable {l}

theorem stable_network (r : Resource) : l.regime.Stable n fun m => m.resources.find? l.networkKey = some r :=
  fun _ _ _ _ hk h => hk.network r h

theorem stable_firewall (r : Resource) : l.regime.Stable n fun m => m.resources.find? l.firewallKey = some r :=
  fun _ _ _ _ hk h => hk.firewall r h

theorem stable_disk (hn : n ∈ l.names) (v : Option Resource) :
    l.regime.Stable n fun m => m.resources.find? (l.diskKey n) = v :=
  fun _ _ _ _ hk h => (hk.disk hn).trans h

theorem stable_node (hn : n ∈ l.names) (v : Option Resource) :
    l.regime.Stable n fun m => m.resources.find? (l.instanceKey n) = v :=
  fun _ _ _ _ hk h => (hk.node hn).trans h

/-! ### Effects -/

/-- Entries that create nothing shared do not count. -/
theorem Journal.append (h : l.Journal m) (hn : m'.resources.find? l.networkKey = m.resources.find? l.networkKey)
    (hf : m'.resources.find? l.firewallKey = m.resources.find? l.firewallKey) {es : List JournalEntry}
    (ha : m'.applied = m.applied ++ es)
    (hes : ∀ e ∈ es, e ≠ .insert .network l.network ∧ e ≠ .insert .firewall l.firewallName) : l.Journal m' := by
  have hcount (e : JournalEntry) (he : ∀ e' ∈ es, e' ≠ e) : m'.applied.count e = m.applied.count e := by
    rw [ha, List.count_append, List.count_eq_zero.2 fun hmem => he e hmem rfl]
    rfl
  constructor
  · rw [hcount _ fun e he => (hes e he).1, created, hn]
    exact h.network
  · rw [hcount _ fun e he => (hes e he).2, created, hf]
    exact h.firewall

/-- Storing a new resource under its own key leaves a program alone that does not own the key. -/
theorem keeps_of_writes {k : ResourceKey} {v : Option Resource} (hw : Writes m k v m') (hc : m.Continues m')
    (hd : n ∈ l.names → l.diskKey n ≠ k) (hi : n ∈ l.names → l.instanceKey n ≠ k)
    (hn : l.networkKey = k → m.resources.find? k = none)
    (hf : l.firewallKey = k → m.resources.find? k = none) : l.Keeps n m m' where
  disk h := hw.other (hd h)
  node h := hw.other (hi h)
  network r hr := by
    by_cases he : l.networkKey = k
    · rw [he, hn he] at hr
      exact absurd hr (by simp)
    · rw [hw.other he]
      exact hr
  firewall r hr := by
    by_cases he : l.firewallKey = k
    · rw [he, hf he] at hr
      exact absurd hr (by simp)
    · rw [hw.other he]
      exact hr
  unscripted _ s hs := hc.scripted_none hs

/-- What is stored has no failure ordered when the new resource has none. -/
private theorem unscripted_of_writes (h : l.Inv m) {k : ResourceKey} {v : Option Resource} (hw : Writes m k v m')
    (hc : m.Continues m') (hv : ∀ r, v = some r → l.tame → m.scriptedFailures.find? r.name = none) :
    l.tame → ∀ k r, m'.resources.find? k = some r → m'.scriptedFailures.find? r.name = none := by
  intro ht j r hr
  rw [hw j] at hr
  split at hr
  · exact hc.scripted_none (hv r hr ht)
  · exact hc.scripted_none (h.unscripted ht j r hr)

theorem allows_create_network (h : l.Inv m) (hn : m.resources.find? l.networkKey = none)
    (hun : l.tame → m.scriptedFailures.find? l.network = none) :
    l.regime.Allows n m ((m.log (.insert .network l.network)).seed (.network l.newNetwork)) := by
  have hw : Writes m l.networkKey (some (.network l.newNetwork))
    ((m.log (.insert .network l.network)).seed (.network l.newNetwork)) := writes_seed m _ (.network l.newNetwork)
  have hc := continues_seed m (.insert .network l.network) (.network l.newNetwork)
  -- What was there before the launch is never taken away, so the network is new.
  have hbefore : l.before.resources.find? l.networkKey = none := by
    rcases h.store.network with he | ⟨he, -⟩
    · rw [← he, hn]
    · exact he
  refine ⟨⟨h.store.create_network hn hw, ⟨?_, ?_⟩, h.promise.continues hc, ?_⟩, trivial, fun n' _ => ?_⟩
  · have := h.journal.network
    rw [created, if_neg fun hx => hx.2 hn] at this
    rw [created, if_pos ⟨hbefore, by rw [hw.same]; simp⟩]
    show (m.applied ++ [JournalEntry.insert .network l.network]).count _ = _
    rw [List.count_append, this]
    simp
  · have := h.journal.firewall
    rw [created, hw.other networkKey_ne_firewallKey.symm]
    show (m.applied ++ [JournalEntry.insert .network l.network]).count _ = _
    rw [List.count_append, this]
    simp [created]
  · exact unscripted_of_writes h hw hc fun r hr ht => by cases hr; exact hun ht
  · exact keeps_of_writes hw hc (fun _ => (networkKey_ne_diskKey n').symm)
      (fun _ => (networkKey_ne_instanceKey n').symm) (fun _ => hn) fun he => absurd he networkKey_ne_firewallKey.symm

theorem allows_create_firewall (h : l.Inv m) {net : Network}
    (hnet : m.resources.find? l.networkKey = some (.network net)) (hn : m.resources.find? l.firewallKey = none)
    (hun : l.tame → m.scriptedFailures.find? l.firewallName = none) :
    l.regime.Allows n m ((m.log (.insert .firewall l.firewallName)).seed (.firewall (l.newFirewall net))) := by
  have hw : Writes m l.firewallKey (some (.firewall (l.newFirewall net)))
    ((m.log (.insert .firewall l.firewallName)).seed (.firewall (l.newFirewall net))) :=
    writes_seed m _ (.firewall (l.newFirewall net))
  have hc := continues_seed m (.insert .firewall l.firewallName) (.firewall (l.newFirewall net))
  have hbefore : l.before.resources.find? l.firewallKey = none := by
    rcases h.store.firewall with he | ⟨he, -⟩
    · rw [← he, hn]
    · exact he
  refine ⟨⟨h.store.create_firewall hnet hn hw, ⟨?_, ?_⟩, h.promise.continues hc, ?_⟩, trivial, fun n' _ => ?_⟩
  · have := h.journal.network
    rw [created, hw.other networkKey_ne_firewallKey]
    show (m.applied ++ [JournalEntry.insert .firewall l.firewallName]).count _ = _
    rw [List.count_append, this]
    simp [created]
  · have := h.journal.firewall
    rw [created, if_neg fun hx => hx.2 hn] at this
    rw [created, if_pos ⟨hbefore, by rw [hw.same]; simp⟩]
    show (m.applied ++ [JournalEntry.insert .firewall l.firewallName]).count _ = _
    rw [List.count_append, this]
    simp
  · exact unscripted_of_writes h hw hc fun r hr ht => by cases hr; exact hun ht
  · exact keeps_of_writes hw hc (fun _ => (firewallKey_ne_diskKey n').symm)
      (fun _ => (firewallKey_ne_instanceKey n').symm) (fun he => absurd he networkKey_ne_firewallKey) fun _ => hn

theorem allows_create_disk (h : l.Inv m) (hmem : n ∈ l.names)
    (hbefore : l.before.resources.find? (l.diskKey n) = none) (hn : m.resources.find? (l.diskKey n) = none)
    (hun : l.tame → m.scriptedFailures.find? (Naming.bootDiskName n) = none) :
    l.regime.Allows n m
      ((m.log (.insert .disk (Naming.bootDiskName n))).seed (.disk (l.newDisk n))) := by
  have hw : Writes m (l.diskKey n) (some (.disk (l.newDisk n)))
    ((m.log (.insert .disk (Naming.bootDiskName n))).seed (.disk (l.newDisk n))) :=
    writes_seed m _ (.disk (l.newDisk n))
  have hc := continues_seed m (.insert .disk (Naming.bootDiskName n)) (.disk (l.newDisk n))
  have hjournal := h.journal.append (hw.other (networkKey_ne_diskKey n)) (hw.other (firewallKey_ne_diskKey n)) rfl
    fun e he => by rw [List.mem_singleton.1 he]; simp
  refine ⟨⟨h.store.create_disk hmem hbefore hn hw, hjournal, h.promise.continues hc, ?_⟩, trivial, fun n' hne => ?_⟩
  · exact unscripted_of_writes h hw hc fun r hr ht => by cases hr; exact hun ht
  · exact keeps_of_writes hw hc (fun _ he => hne (diskKey_inj.1 he).symm) (fun _ => (diskKey_ne_instanceKey n n').symm)
      (fun he => absurd he (networkKey_ne_diskKey n)) fun he => absurd he (firewallKey_ne_diskKey n)

/-- The instance of a node is created, or gets other tags. -/
theorem allows_write_instance (h : l.Inv m) (hmem : n ∈ l.names)
    (hbefore : l.before.resources.find? (l.diskKey n) = none)
    (hd : m.resources.find? (l.diskKey n) = some (.disk (l.newDisk n))) {net : Network}
    (hnet : m.resources.find? l.networkKey = some (.network net)) {i : Instance} (hi : l.IsNode n net i)
    (hun : l.tame → m.scriptedFailures.find? n = none) (hw : Writes m (l.instanceKey n) (some (.instance i)) m')
    (hc : m.Continues m') {es : List JournalEntry} (ha : m'.applied = m.applied ++ es)
    (hes : ∀ e ∈ es, e ≠ .insert .network l.network ∧ e ≠ .insert .firewall l.firewallName) :
    l.regime.Allows n m m' := by
  have hname : (Resource.instance i).name = n := by
    obtain ⟨tags, ip, nat, rfl⟩ := hi
    rfl
  have hjournal := h.journal.append (hw.other (networkKey_ne_instanceKey n)) (hw.other (firewallKey_ne_instanceKey n))
    ha hes
  refine ⟨⟨h.store.create_instance hmem hbefore hd hnet hi hw, hjournal, h.promise.continues hc, ?_⟩, trivial,
    fun n' hne => ?_⟩
  · exact unscripted_of_writes h hw hc fun r hr ht => by cases hr; rw [hname]; exact hun ht
  · exact keeps_of_writes hw hc (fun _ => diskKey_ne_instanceKey n' n) (fun _ he => hne (instanceKey_inj.1 he).symm)
      (fun he => absurd he (networkKey_ne_instanceKey n)) fun he => absurd he (firewallKey_ne_instanceKey n)

private theorem not_insert_of_delete {e : JournalEntry} (h : ∃ kind name, e = .delete kind name) :
    e ≠ .insert .network l.network ∧ e ≠ .insert .firewall l.firewallName := by
  obtain ⟨kind, name, rfl⟩ := h
  simp

private theorem unscripted_of_removed (h : l.Inv m) (hc : m.Continues m')
    (hf : ∀ j r, m'.resources.find? j = some r → m.resources.find? j = some r) :
    l.tame → ∀ k r, m'.resources.find? k = some r → m'.scriptedFailures.find? r.name = none :=
  fun ht j r hr => hc.scripted_none (h.unscripted ht j r (hf j r hr))

/-- Deleting the instance of a node deletes its boot disk, too. -/
theorem allows_delete_instance (h : l.Inv m) (hmem : n ∈ l.names) {r : Resource}
    (hr : m.resources.find? (l.instanceKey n) = some r) :
    l.regime.Allows n m ((m.remove (l.instanceKey n)).removeWith r) ∧
      ((m.remove (l.instanceKey n)).removeWith r).resources.find? (l.instanceKey n) = none := by
  have hc := m.continues_removeWith (l.instanceKey n) r
  obtain ⟨es, happ, hes⟩ := applied_removeWith m (l.instanceKey n) r
  obtain ⟨hstore, hf⟩ := h.store.delete_instance hmem hr fun j => find?_removeWith m (l.instanceKey n) r j
  have hother {j : ResourceKey} (h1 : j ≠ l.instanceKey n) (h2 : j ≠ l.diskKey n) :
      ((m.remove (l.instanceKey n)).removeWith r).resources.find? j = m.resources.find? j := by
    rw [hf j, if_neg (not_or.2 ⟨h1, h2⟩)]
  have hnet := hother (networkKey_ne_instanceKey n) (networkKey_ne_diskKey n)
  have hfw := hother (firewallKey_ne_instanceKey n) (firewallKey_ne_diskKey n)
  have hjournal := h.journal.append hnet hfw happ fun e he => not_insert_of_delete (hes e he)
  refine ⟨⟨⟨hstore, hjournal, h.promise.continues hc, ?_⟩, trivial, fun n' hne => ?_⟩, by rw [hf]; simp⟩
  · refine unscripted_of_removed h hc fun j s hs => ?_
    rw [hf j] at hs
    split at hs
    · exact absurd hs (by simp)
    · exact hs
  · refine ⟨fun _ => hother (diskKey_ne_instanceKey n' n) fun he => hne (diskKey_inj.1 he).symm,
      fun _ => hother (fun he => hne (instanceKey_inj.1 he).symm) (diskKey_ne_instanceKey n n').symm, fun s hs => ?_,
      fun s hs => ?_, fun _ s hs => hc.scripted_none hs⟩
    · rw [hnet]
      exact hs
    · rw [hfw]
      exact hs

/-- Deleting the boot disk of a node, which the platform permits when no instance uses it. -/
theorem allows_delete_disk (h : l.Inv m) (hmem : n ∈ l.names) {r : Resource}
    (hr : m.resources.find? (l.diskKey n) = some r) (hu : m.user? r = none) :
    l.regime.Allows n m ((m.remove (l.diskKey n)).removeWith r) ∧
      Writes m (l.diskKey n) none ((m.remove (l.diskKey n)).removeWith r) := by
  have hc := m.continues_removeWith (l.diskKey n) r
  obtain ⟨es, happ, hes⟩ := applied_removeWith m (l.diskKey n) r
  obtain ⟨d, rfl⟩ := exists_disk h.store hr
  have hw : Writes m (l.diskKey n) none ((m.remove (l.diskKey n)).removeWith (.disk d)) := by
    intro j
    rw [find?_removeWith]
    simp [takesAlong]
  have hjournal := h.journal.append (hw.other (networkKey_ne_diskKey n)) (hw.other (firewallKey_ne_diskKey n)) happ
    fun e he => not_insert_of_delete (hes e he)
  refine ⟨⟨⟨h.store.delete_disk hmem hr hu hw, hjournal, h.promise.continues hc, ?_⟩, trivial, fun n' hne => ?_⟩, hw⟩
  · exact unscripted_of_writes h hw hc fun r hr => absurd hr (by simp)
  · exact keeps_of_writes hw hc (fun _ he => hne (diskKey_inj.1 he).symm) (fun _ => (diskKey_ne_instanceKey n n').symm)
      (fun he => absurd he (networkKey_ne_diskKey n)) fun he => absurd he (firewallKey_ne_diskKey n)

end Launch

end Fleet
