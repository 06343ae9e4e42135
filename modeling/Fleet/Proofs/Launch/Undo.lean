import Fleet.Proofs.Client.Reclaiming
import Fleet.Proofs.Launch.Success
import Fleet.Proofs.Memory.Rules
import Fleet.Proofs.Record.Reclaim
import Fleet.Teardown

/-!
# What a launch with failures leaves behind

On a platform that stores nothing, a launch leaves exactly the nodes that it reports, whichever operations fail: their
instances and boot disks, and the network and the firewall when there is a node that needs them
(`launch_leaves_created`). The chains that fail clean up after themselves, and when all of them fail the network is
reclaimed.
-/

namespace Fleet

open Memory Regime

/-- The platform stores the nodes `created`, what they need, and nothing else. -/
structure Exactly (m : Memory) (network : String) (ports : List Nat) (created : List Instance) : Prop where
  keyed : m.WellKeyed
  instances : ∀ k i, m.resources.find? k = some (.instance i) ↔ i ∈ created ∧ k = (Resource.instance i).key
  disks : ∀ k, k.1 = .disk →
    ((∃ r, m.resources.find? k = some r) ↔ ∃ i ∈ created, k = resourceKey .disk (.zone i.zone) i.bootDiskName)
  networks : ∀ k, k.1 = .network →
    ((∃ r, m.resources.find? k = some r) ↔ created ≠ [] ∧ k = resourceKey .network .global network)
  firewalls : ∀ k, k.1 = .firewall →
    ((∃ r, m.resources.find? k = some r) ↔
      created ≠ [] ∧ k = resourceKey .firewall .global (Naming.firewallName network ports))

theorem exactly_nothing {m : Memory} (h : ∀ k, m.resources.find? k = none) (network : String) (ports : List Nat) :
    Exactly m network ports [] := by
  constructor <;> simp [WellKeyed, h]

namespace Launch

/-- Operations may fail and answers may get lost, but not both for one name. -/
def roughWeather : Circumstances := ⟨True, True, False, True, False⟩

variable {l : Launch} {m : Memory} {rs : List (String × Except Failure Instance)}

theorem Up.key_eq {n : String} {i : Instance} (h : l.Up n i m) : (Resource.instance i).key = l.instanceKey n := by
  obtain ⟨net, fw, ⟨tags, ip, nat, rfl⟩, -⟩ := h
  rfl

private theorem Up.diskKey_eq {n : String} {i : Instance} (h : l.Up n i m) (hn : '/' ∉ n.toList) :
    resourceKey .disk (.zone i.zone) i.bootDiskName = l.diskKey n := by
  obtain ⟨net, fw, ⟨tags, ip, nat, rfl⟩, -⟩ := h
  have hname : Link.name (l.diskLink n) = Naming.bootDiskName n :=
    name_selfLink _ _ _ (Naming.slash_not_mem_bootDiskName hn)
  simp [Instance.bootDiskName, Instance.bootDisk?, hname, diskKey, zone]

/-- What is stored after the nodes of a launch into an empty store have been launched. -/
private theorem own_of_stored (hm : l.Inv m) (hc : l.closed) (hempty : ∀ k, l.before.resources.find? k = none)
    {k : ResourceKey} {r : Resource} (hr : m.resources.find? k = some r) : l.Own k := by
  refine Classical.byContradiction fun hown => ?_
  have := hm.store.closed hc k hown (hempty k)
  rw [hr] at this
  exact absurd this (by simp)

/-- The nodes that are stored are those that came up, and their disks are the only ones. -/
private theorem exactly_nodes (hm : l.Inv m) (hc : l.closed) (ht : l.tame) (hs : l.steady) (hstop : ¬ l.stoppable)
    (hempty : ∀ k, l.before.resources.find? k = none) (hperm : (rs.map (·.1)).Perm l.names)
    (hlaunched : ∀ a ∈ rs, l.Launched a.1 a m) :
    (∀ k i, m.resources.find? k = some (.instance i) ↔
      i ∈ (Manager.launchReport rs).created ∧ k = (Resource.instance i).key) ∧
    ∀ k, k.1 = .disk → ((∃ r, m.resources.find? k = some r) ↔
      ∃ i ∈ (Manager.launchReport rs).created, k = resourceKey .disk (.zone i.zone) i.bootDiskName) := by
  have hloose (n : String) : l.Loose n :=
    ⟨ht, hs, hc, fun k i hi => absurd ((hempty k).symm.trans hi) (by simp),
      fun d hd => absurd ((hempty _).symm.trans hd) (by simp)⟩
  -- Each node is up, or nothing of it is left.
  have hnode {n : String} (hn : n ∈ l.names) :
      (∃ i ∈ (Manager.launchReport rs).created, l.Up n i m) ∨
        (m.resources.find? (l.instanceKey n) = none ∧ m.resources.find? (l.diskKey n) = none) := by
    obtain ⟨⟨n', f | i⟩, ha, rfl⟩ := List.mem_map.1 (hperm.mem_iff.2 hn)
    · obtain ⟨-, hgone, hdisk⟩ := (hlaunched _ ha).2 hstop
      exact .inr ⟨hgone ht hs, hdisk (hloose _)⟩
    · exact .inl ⟨i, mem_created_launchReport.2 ⟨_, ha⟩, (hlaunched _ ha).2⟩
  have hup {i : Instance} (hi : i ∈ (Manager.launchReport rs).created) : ∃ n ∈ l.names, l.Up n i m := by
    obtain ⟨n, hn⟩ := mem_created_launchReport.1 hi
    exact ⟨n, hperm.mem_iff.1 (List.mem_map.2 ⟨_, hn, rfl⟩), (hlaunched _ hn).2⟩
  refine ⟨fun k i => ⟨fun hk => ?_, fun ⟨hi, hk⟩ => ?_⟩, fun k hk => ⟨fun ⟨r, hr⟩ => ?_, fun ⟨i, hi, hkey⟩ => ?_⟩⟩
  · obtain ⟨n, hn, rfl⟩ := (own_of_stored hm hc hempty hk).instance (hm.store.keyed.kind_eq hk).symm
    rcases hnode hn with ⟨j, hj, hjup⟩ | ⟨hnone, -⟩
    · obtain ⟨net, fw, -, -, hstored, -⟩ := id hjup
      obtain rfl := Resource.instance.inj (Option.some.inj (hk.symm.trans hstored))
      exact ⟨hj, hjup.key_eq.symm⟩
    · exact absurd (hk.symm.trans hnone) (by simp)
  · obtain ⟨n, hn, hiup⟩ := hup hi
    rw [hk, hiup.key_eq]
    obtain ⟨net, fw, -, -, hstored, -⟩ := hiup
    exact hstored
  · obtain ⟨n, hn, rfl⟩ := (own_of_stored hm hc hempty hr).disk hk
    rcases hnode hn with ⟨i, hi, hiup⟩ | ⟨-, hnone⟩
    · exact ⟨i, hi, (hiup.diskKey_eq (l.no_slash n hn)).symm⟩
    · exact absurd (hr.symm.trans hnone) (by simp)
  · obtain ⟨n, hn, hiup⟩ := hup hi
    rw [hkey, hiup.diskKey_eq (l.no_slash n hn)]
    obtain ⟨net, fw, -, -, -, hdisk, -⟩ := hiup
    exact ⟨_, hdisk.2⟩

/-- When a node came up, the network and the firewall are there. -/
private theorem exactly_of_created (hm : l.Inv m) (hc : l.closed) (ht : l.tame) (hs : l.steady) (hstop : ¬ l.stoppable)
    (hempty : ∀ k, l.before.resources.find? k = none) (hperm : (rs.map (·.1)).Perm l.names)
    (hlaunched : ∀ a ∈ rs, l.Launched a.1 a m) (hne : (Manager.launchReport rs).created ≠ []) :
    Exactly m l.network l.template.inboundPorts (Manager.launchReport rs).created := by
  obtain ⟨hinstances, hdisks⟩ := exactly_nodes hm hc ht hs hstop hempty hperm hlaunched
  obtain ⟨i, hi⟩ := List.exists_mem_of_ne_nil _ hne
  obtain ⟨n, hn⟩ := mem_created_launchReport.1 hi
  obtain ⟨net, fw, -, -, -, -, hnet, hfw⟩ := (hlaunched _ hn).2
  refine ⟨hm.store.keyed, hinstances, hdisks, fun k hk => ⟨fun ⟨r, hr⟩ => ⟨hne, ?_⟩, fun ⟨_, hkey⟩ => ?_⟩,
    fun k hk => ⟨fun ⟨r, hr⟩ => ⟨hne, ?_⟩, fun ⟨_, hkey⟩ => ?_⟩⟩
  · exact (own_of_stored hm hc hempty hr).network hk
  · rw [hkey]
    exact ⟨_, hnet⟩
  · exact (own_of_stored hm hc hempty hr).firewall hk
  · rw [hkey]
    exact ⟨_, hfw⟩

/-! ### Reclaiming the network of a failed launch -/

variable (l) in
/-- Nothing is stored but the new network and its firewall, and nobody else changes that. -/
private def closing : Rules Unit where
  project := l.before.project
  polls := l.before.pollsUntilDone
  steady := True
  tame := True
  codes _ := True
  inv s := ∀ k r, s.find? k = some r → (k = l.networkKey ∧ r = .network l.newNetwork) ∨
    (k = l.firewallKey ∧ r = .firewall (l.newFirewall l.newNetwork))
  keeps _ s s' := s' = s
  respects _ _ := True
  keeps_refl _ _ := rfl
  keeps_trans _ _ _ _ h h' := h'.trans h
  respects_refl _ := trivial

/-- Assertions about the store are stable when nobody else changes it. -/
private theorem stable_of_store (A : Stock → Prop) : l.closing.regime.Stable () fun m => A m.resources := by
  intro m m' _ _ hk h
  rw [show m'.resources = m.resources from hk.store]
  exact h

/-- What a deletion leads to when the store is that of a failed launch. -/
private theorem closing_deleted (hm : l.closing.Holds m) {k : ResourceKey} {r : Resource}
    (hr : m.resources.find? k = some r) :
    l.closing.regime.Allows () m ((m.remove k).removeWith r) ∧
      ∀ j, ((m.remove k).removeWith r).resources.find? j = if j = k then none else m.resources.find? j := by
  have hne : r.kind ≠ .instance := by
    rcases hm.store k r hr with ⟨-, rfl⟩ | ⟨-, rfl⟩ <;> simp [Resource.kind]
  have hsub := m.shrinks_removeWith k r
  refine ⟨?_, find?_removeWith_of_ne m k hne⟩
  exact Rules.allows hm (m.continues_removeWith k r) (hm.keyed.removeWith k r)
    (fun j s hs => hm.store j s (hsub j s hs)) (fun _ j s hs => hm.unscripted trivial j s (hsub j s hs)) trivial
    fun j hj => absurd rfl hj

private theorem closing_unscripted (hm : l.closing.Holds m) {k : ResourceKey} {r : Resource} {x : OperationError}
    (hr : m.resources.find? k = some r) (hx : m.scriptedFailures.find? k.2.2 = some x) : False := by
  have hname : r.name = k.2.2 := hm.keyed.name_eq hr
  rw [← hname, hm.unscripted trivial k r hr] at hx
  exact absurd hx (by simp)

/-- The firewall is among those that are still to be deleted. -/
private def Left (l : Launch) (fs : List Firewall) (s : Stock) : Prop :=
  (s.find? l.firewallKey ≠ none → fs ≠ []) ∧ ∀ f ∈ fs, f.name = l.firewallName

private theorem Left.firewall_gone {s : Stock} (h : l.Left [] s) : s.find? l.firewallKey = none :=
  Classical.byContradiction fun hstored => h.1 hstored rfl

private theorem closing_empty (hm : l.closing.Holds m) (hnetwork : m.resources.find? l.networkKey = none)
    (hfirewall : m.resources.find? l.firewallKey = none) (k : ResourceKey) : m.resources.find? k = none := by
  cases hs : m.resources.find? k with
  | none => rfl
  | some s =>
    rcases hm.store k s hs with ⟨rfl, -⟩ | ⟨rfl, -⟩
    · cases hnetwork.symm.trans hs
    · cases hfirewall.symm.trans hs

private theorem deletion_firewall {f : Firewall} {fs : List Firewall} :
    l.closing.regime.Deletion () (fun m => l.Left (f :: fs) m.resources) .firewall .global f.name
      (fun m => l.Left fs m.resources) (fun m => l.Left fs m.resources) (fun _ _ => False) where
  stable := stable_of_store (l.Left (f :: fs))
  still := (stable_of_store (l.Left fs)).still
  still_missing := (stable_of_store (l.Left fs)).still
  still_failed _ _ _ _ _ h := h
  deleted m r hm hleft hr _ := by
    obtain ⟨hallow, hfind⟩ := closing_deleted hm hr
    refine ⟨hallow, fun h => absurd ?_ h, fun g hg => hleft.2 g (List.mem_cons_of_mem _ hg)⟩
    rw [hfind, if_pos]
    rw [hleft.2 f List.mem_cons_self]
    rfl
  missing m _ hleft hnone := by
    refine ⟨fun h => absurd ?_ h, fun g hg => hleft.2 g (List.mem_cons_of_mem _ hg)⟩
    rw [hleft.2 f List.mem_cons_self] at hnone
    exact hnone
  in_use m r k u f' hm _ hr _ huse _ := by
    have hkind : r.kind = .firewall := hm.keyed.kind_eq hr
    cases r with
    | firewall g => cases u <;> simp [uses] at huse
    | _ => exact absurd hkind (by simp [Resource.kind])
  ordered m r x hm _ hr hx _ _ _ _ _ := (closing_unscripted hm hr hx).elim
  given_up hs := absurd trivial hs

private theorem deletion_network :
    l.closing.regime.Deletion () (fun m => l.Left [] m.resources) .network .global l.network
      (fun m => ∀ k, m.resources.find? k = none) (fun m => ∀ k, m.resources.find? k = none) (fun _ _ => False) where
  stable := stable_of_store (l.Left [])
  still := (stable_of_store fun s => ∀ k, s.find? k = none).still
  still_missing := (stable_of_store fun s => ∀ k, s.find? k = none).still
  still_failed _ _ _ _ _ h := h
  deleted m r hm hleft hr _ := by
    obtain ⟨hallow, hfind⟩ := closing_deleted hm hr
    have hfirewall := (hfind l.firewallKey).trans (if_neg networkKey_ne_firewallKey.symm)
    exact ⟨hallow, closing_empty hallow.inv ((hfind l.networkKey).trans (if_pos rfl))
      (hfirewall.trans hleft.firewall_gone)⟩
  missing m hm hleft hnone := closing_empty hm hnone hleft.firewall_gone
  in_use m r k u f hm hleft hr hu huse _ := by
    rcases hm.store k u hu with ⟨-, rfl⟩ | ⟨rfl, -⟩
    · exact absurd huse (by cases r <;> simp [uses])
    · cases hleft.firewall_gone.symm.trans hu
  ordered m r x hm _ hr hx _ _ _ _ _ := (closing_unscripted hm hr hx).elim
  given_up hs := absurd trivial hs

/-- Only the network and the firewall are stored, so that nothing keeps the network. -/
private theorem remaining_closing (hm : l.closing.Holds m) (link : String) : remaining link [] m = [] := by
  refine List.eq_nil_iff_forall_not_mem.2 fun r hr => ?_
  obtain ⟨k, hk, hkind, -⟩ := mem_listed.1 (List.mem_filter.1 hr).1
  rcases hm.store k r hk with ⟨rfl, -⟩ | ⟨rfl, -⟩
  · exact absurd hkind (by simp [networkKey, resourceKey])
  · exact absurd hkind (by simp [firewallKey, resourceKey])

/-- The firewall is listed on the network while it is stored, and nothing else is. -/
private theorem left_of_listed (hm : l.closing.Holds m) {fs : List Firewall}
    (hfs : fs.map Resource.firewall = listed m .firewall (.onNetwork l.newNetwork.selfLink)) :
    l.Left fs m.resources := by
  refine ⟨fun hstored hnil => ?_, fun f hf => ?_⟩
  · obtain ⟨r, hr⟩ := Option.ne_none_iff_exists'.1 hstored
    have hmem : r ∈ listed m .firewall (.onNetwork l.newNetwork.selfLink) := by
      refine mem_listed.2 ⟨_, hr, rfl, ?_⟩
      rcases hm.store _ r hr with ⟨hkey, -⟩ | ⟨-, rfl⟩
      · exact absurd hkey networkKey_ne_firewallKey.symm
      · simp [Filter.admits, Filter.onNetwork, Filter.any, Filter.isOn, newFirewall, Link.sameResource_refl]
    rw [← hfs, hnil] at hmem
    exact absurd hmem List.not_mem_nil
  · have hmem : Resource.firewall f ∈ listed m .firewall (.onNetwork l.newNetwork.selfLink) :=
      hfs ▸ List.mem_map_of_mem hf
    obtain ⟨k, hk, -, -⟩ := mem_listed.1 hmem
    rcases hm.store k _ hk with ⟨-, he⟩ | ⟨-, he⟩
    · cases he
    · rw [Resource.firewall.inj he]
      rfl

/-- Reclaiming the network of a failed launch empties the store. -/
private theorem does_reclaim_all {c : Client} (hp : l.closing.regime.Patient c) (hslash : '/' ∉ l.network.toList)
    (hdefault : l.network ≠ Naming.defaultNetwork) :
    l.closing.regime.Does () (fun m => m.resources.find? l.firewallKey ≠ none → m.resources.find? l.networkKey ≠ none)
      (c.reclaimNetwork l.network) (fun _ m => ∀ k, m.resources.find? k = none) (fun _ _ => False) := by
  have hstable := stable_of_store (l := l)
  refine does_reclaimNetwork (hstable fun s => s.find? l.firewallKey ≠ none → s.find? l.networkKey ≠ none).still
    (fun m hm hA hnone => closing_empty hm hnone ?_) fun n => ?_
  · exact Classical.byContradiction fun hstored => hA hstored hnone
  · refine Does.pre (A := fun m => n = l.newNetwork ∧ True) (does_and ?_) fun m hm hA => ⟨?_, trivial⟩
    · rintro rfl
      have hlink : Link.name l.newNetwork.selfLink = l.network := name_selfLink _ _ _ hslash
      have htrue : l.closing.regime.Still fun _ => True := fun _ _ _ _ _ => trivial
      refine does_reclaimShared (W := fun fs m => l.Left fs m.resources) htrue
        (fun h => absurd (hlink.symm.trans h) hdefault) (fun m hm _ hne => absurd (remaining_closing hm _) hne)
        (fun _ m fs hm _ _ hfs => left_of_listed hm hfs)
        (fun f fs => does_deleteIfExists_of_same hp deletion_firewall) ?_ (hstable fun s => ∀ k, s.find? k = none).still
      rw [hlink]
      exact (does_deleteIfExists_of_same hp deletion_network).conseq (fun _ _ h => h) (fun _ _ _ h => h)
        fun _ _ _ h => h.elim
    · rcases hm.store _ _ hA.2 with ⟨-, he⟩ | ⟨-, he⟩
      · exact Resource.network.inj he
      · cases he

/-- A node fails only after it has been started, unless the launch may be stopped. -/
private theorem exists_started (hlaunched : ∀ a ∈ rs, l.Launched a.1 a m) (hstop : ¬ l.stoppable) (hne : rs ≠ [])
    (hnil : (Manager.launchReport rs).created = []) :
    ∃ x ∈ (Manager.launchReport rs).failed, Manager.wasStarted x.failure = true := by
  obtain ⟨⟨n, f | i⟩, ha⟩ := List.exists_mem_of_ne_nil rs hne
  · refine ⟨⟨n, f⟩, mem_failed_launchReport.2 ha, ?_⟩
    have hfails := ((hlaunched _ ha).2 hstop).1.1
    cases f with
    | cancelled s => exact absurd rfl (hfails s)
    | _ => rfl
  · exact absurd (hnil ▸ mem_created_launchReport.2 ⟨n, ha⟩) List.not_mem_nil

/-- What is stored when no node of a launch into an empty store came up. -/
private theorem closing_holds (hm : l.Inv m) (hc : l.closed) (ht : l.tame) (hs : l.steady) (hstop : ¬ l.stoppable)
    (hempty : ∀ k, l.before.resources.find? k = none) (hperm : (rs.map (·.1)).Perm l.names)
    (hlaunched : ∀ a ∈ rs, l.Launched a.1 a m) (hnil : (Manager.launchReport rs).created = []) :
    l.closing.Holds m ∧ (m.resources.find? l.firewallKey ≠ none → m.resources.find? l.networkKey ≠ none) := by
  obtain ⟨hinstances, hdisks⟩ := exactly_nodes hm hc ht hs hstop hempty hperm hlaunched
  simp only [hnil, List.not_mem_nil, false_and, iff_false, exists_false] at hinstances hdisks
  have hnet {r : Resource} (hr : m.resources.find? l.networkKey = some r) : r = .network l.newNetwork := by
    rcases hm.store.network with he | ⟨-, he⟩
    · exact absurd (hr.symm.trans (he.trans (hempty _))) (by simp)
    · exact Option.some.inj (hr.symm.trans he)
  have hfw {r : Resource} (hr : m.resources.find? l.firewallKey = some r) :
      r = .firewall (l.newFirewall l.newNetwork) ∧ m.resources.find? l.networkKey ≠ none := by
    rcases hm.store.firewall with he | ⟨-, net, hstored, he⟩
    · exact absurd (hr.symm.trans (he.trans (hempty _))) (by simp)
    · rw [← Resource.network.inj (hnet hstored), hstored]
      exact ⟨Option.some.inj (hr.symm.trans he), by simp⟩
  refine ⟨⟨hm.store.keyed, fun k r hr => ?_, hm.promise.project, hm.promise.polls, fun _ _ _ => trivial,
    fun _ => hm.promise.fetches hs, fun _ => hm.promise.lost ht, fun _ => hm.unscripted ht⟩, fun h => ?_⟩
  · have hkind : r.kind = k.1 := hm.store.keyed.kind_eq hr
    have hown := own_of_stored hm hc hempty hr
    cases r with
    | network n =>
      obtain rfl := hown.network hkind.symm
      exact .inl ⟨rfl, hnet hr⟩
    | firewall f =>
      obtain rfl := hown.firewall hkind.symm
      exact .inr ⟨rfl, (hfw hr).1⟩
    | disk d => exact absurd ⟨_, hr⟩ (hdisks k hkind.symm)
    | «instance» i => exact absurd hr (hinstances k i)
  · obtain ⟨r, hr⟩ := Option.ne_none_iff_exists'.1 h
    exact (hfw hr).2

end Launch

/-- A launch into an empty store leaves exactly the nodes that it reports as created, with all that they need, however
many operations fail and answers get lost. -/
theorem launch_leaves_created {mgr : Manager} {group : String} {count : Nat} {t : NodeTemplate}
    {w : World Cloud Memory} (hempty : ∀ k, w.service.resources.find? k = none) (hw : w.Undisturbed)
    (hfetches : w.service.failingFetches = 0)
    (hlost : ∀ n, w.service.lostInserts.contains n = true → w.service.scriptedFailures.find? n = none)
    (hgroup : Naming.validateGroup group = .ok ()) (hslash : '/' ∉ (mgr.networkFor group t).toList)
    (hdefault : mgr.networkFor group t ≠ Naming.defaultNetwork)
    (hp : mgr.client.poll.Patient w.service.pollsUntilDone) :
    ∃ report after, mgr.launch group count t w = (.ok report, after) ∧
      Exactly after.service (mgr.networkFor group t) t.inboundPorts report.created := by
  by_cases hcount : count = 0
  · rw [hcount, launch_none hgroup]
    exact ⟨_, _, rfl, exactly_nothing hempty _ _⟩
  · have hnothing : ∀ k r, w.service.resources.find? k ≠ some r := fun k r hr => by
      rw [hempty] at hr
      exact absurd hr (by simp)
    let l : Launch := .of mgr group count t w.service Launch.roughWeather (fun k r hr => absurd hr (hnothing k r))
      hgroup fun n _ => hempty _
    have hinv : l.Inv l.before :=
      Launch.inv_before (fun _ => ⟨fun k r hr => absurd hr (hnothing k r), hlost⟩) (fun h => h.elim) fun _ => hfetches
    obtain ⟨rs, w₁, hw₁, hinv₁, hperm, hlaunched, ms, hrun⟩ :=
      launch_eq (l := l) rfl hcount (fun _ => hp) (fun _ hf => hf.elim) hw.within hinv
    refine ⟨_, _, hrun, ?_⟩
    obtain ⟨⟨hcreated, -⟩, hcases⟩ := run_reclaimAfterLaunch mgr l.network (Manager.launchReport rs) w₁
    show Exactly _ l.network t.inboundPorts
      ((mgr.reclaimAfterLaunch l.network (Manager.launchReport rs)).run w₁).1.created
    rw [hcreated]
    by_cases hnil : (Manager.launchReport rs).created = []
    · obtain ⟨hholds, hshared⟩ := l.closing_holds hinv₁ trivial trivial trivial id hempty hperm hlaunched hnil
      have hlength : rs.length = count := by
        rw [← List.length_map (f := (·.1)), hperm.length_eq]
        exact Naming.length_nextNodeNames _ _ _
      have hne : rs ≠ [] := fun h => hcount (by rw [← hlength, h]; rfl)
      have hstarted := l.exists_started hlaunched id hne hnil
      rcases hcases with ⟨hnot, -⟩ | ⟨-, hfinal⟩
      · exact absurd ⟨hnil, hstarted⟩ hnot
      · obtain ⟨-, -, -, hends⟩ := (Launch.does_reclaim_all (fun _ => hp) hslash hdefault).run
          (Regime.bounds fun _ hf => hf.elim) (F := fun _ => False) ⟨hw₁.from_outside, .inr trivial⟩ hholds hshared
        rw [hnil, hfinal]
        refine exactly_nothing (fun k => ?_) _ _
        revert hends
        generalize (mgr.client.reclaimNetwork l.network).run.run w₁ = p
        rcases p with ⟨f | o, w₂⟩
        · exact fun h => h.elim
        · exact fun h => h k
    · rcases hcases with ⟨-, hfinal⟩ | ⟨h, -⟩
      · rw [hfinal]
        exact l.exactly_of_created hinv₁ trivial trivial trivial id hempty hperm hlaunched hnil
      · exact absurd h hnil

/-- An empty platform on which the first operation on one node fails and the answer for another one gets lost. -/
def roughStart : Memory :=
  (((Memory.empty "project").withPollsUntilDone 1).failOperation "web-1" .quotaExceeded "quota").dropInsert "web-2"

private theorem launch_rough :
    ∃ report after, (Manager.ofClient .standard).launch "web" 2 (.plain "zone-a" "f1-micro" "debian")
        (World.start roughStart 0) = (.ok report, after) ∧
      report.created.map (·.name) = ["web-2"] ∧ report.failed.map (·.name) = ["web-1"] := by
  let mgr := Manager.ofClient .standard
  let t := NodeTemplate.plain "zone-a" "f1-micro" "debian"
  let chosen := (mgr.chooseNames "web" 2).run.run (World.start roughStart 0)
  let nodes := ["web-1", "web-2"].map fun n => mgr.launchNode (.ofTemplate n "web" (mgr.networkFor "web" t) t)
  let pool := (Pool.start mgr.concurrency nodes).runWithin 40 chosen.2
  have hchoose : chosen = (.ok ["web-1", "web-2"], chosen.2) := Prod.ext (eq_ok_of_toOption (by decide +kernel)) rfl
  refine ⟨_, _, launch_of_pool (by rfl) (by decide) hchoose
    (Option.some_get (show pool.isSome = true by decide +kernel)).symm, ?_, ?_⟩
  · decide +kernel
  · decide +kernel

/-- Of two nodes one is created and the other one fails; what is left is the one that is created. -/
theorem launch_leaves_created_of_two :
    ∃ report after, (Manager.ofClient .standard).launch "web" 2 (.plain "zone-a" "f1-micro" "debian")
        (World.start roughStart 0) = (.ok report, after) ∧
      report.created.map (·.name) = ["web-2"] ∧ report.failed.map (·.name) = ["web-1"] ∧
      Exactly after.service "gceflow-web" [22] report.created := by
  have hlost : ∀ n, roughStart.lostInserts.contains n = true → roughStart.scriptedFailures.find? n = none := by
    intro n hn
    obtain ⟨u, hu⟩ := OrderedMap.contains_eq_true_iff.1 hn
    have hu : (OrderedMap.empty.insert "web-2" ()).find? n = some u := hu
    rw [OrderedMap.find?_insert] at hu
    split at hu
    · next hn =>
      subst hn
      rfl
    · exact absurd hu (by simp)
  obtain ⟨report, after, hrun, hcreated, hfailed⟩ := launch_rough
  have hleaves : ∃ report after, (Manager.ofClient .standard).launch "web" 2 (.plain "zone-a" "f1-micro" "debian")
        (World.start roughStart 0) = (.ok report, after) ∧ Exactly after.service "gceflow-web" [22] report.created :=
    launch_leaves_created (fun _ => rfl) ⟨rfl, fun _ _ => rfl⟩ rfl hlost (by rfl) (by decide) (by decide)
      (PollPolicy.patient_one _)
  obtain ⟨report', after', hrun', hexactly⟩ := hleaves
  obtain ⟨hreport, rfl⟩ := Prod.mk.inj (hrun.symm.trans hrun')
  obtain rfl := Except.ok.inj hreport
  exact ⟨report, after, hrun, hcreated, hfailed, hexactly⟩

end Fleet
