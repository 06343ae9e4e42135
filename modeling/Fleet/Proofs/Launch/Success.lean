import Fleet.Proofs.Launch.Run
import Fleet.Proofs.Memory.Canonical

/-!
# Launches without faults

On a platform where nothing goes wrong, and where no disk is in the way of the new nodes, a launch brings up all of
them (`launch_succeeds`), however many of them race to create the network and the firewall.
-/

namespace Fleet

open Memory

/-- Nothing happens from outside. -/
structure World.Undisturbed (w : World Cloud Memory) : Prop where
  interventions : w.interventions = []
  uncancelled : w.NeverCancelled

theorem World.Undisturbed.within {w : World Cloud Memory} (hw : w.Undisturbed)
    {c : Conduct Cloud Memory String (Nat → Option String)} : w.Within c fun _ => False :=
  World.within_of_quiet hw.interventions (.inl hw.uncancelled)

namespace Launch

/-- Nothing goes wrong, and nobody interferes. -/
def fairWeather : Circumstances := ⟨True, True, True, True, False⟩

variable {l : Launch} {rs : List (String × Except Failure Instance)} {m : Memory}

theorem inv_of_faultFree (h : l.before.FaultFree) : l.Inv l.before :=
  inv_before (fun _ => ⟨fun _ _ _ => h.scripted _, fun _ _ => h.scripted _⟩)
    (fun _ => ⟨h.conflicts, h.scripted, h.lost⟩) fun _ => h.fetches

private theorem up_of_launched (hs : ¬ l.stoppable) (hapt : ∀ n ∈ l.names, l.Apt n)
    (hperm : (rs.map (·.1)).Perm l.names) (h : ∀ a ∈ rs, l.Launched a.1 a m) :
    ∀ a ∈ rs, ∃ i, a.2 = .ok i ∧ l.Up a.1 i m := by
  rintro ⟨n, f | i⟩ ha
  · have hn : n ∈ l.names := hperm.mem_iff.1 (List.mem_map.2 ⟨_, ha, rfl⟩)
    exact absurd (hapt n hn) ((h _ ha).2 hs).1.2
  · exact ⟨i, rfl, (h _ ha).2⟩

theorem Up.name_eq {n : String} {i : Instance} (h : l.Up n i m) : i.name = n := by
  obtain ⟨net, fw, ⟨tags, ip, nat, rfl⟩, -⟩ := h
  rfl

private theorem names_created (h : ∀ a ∈ rs, ∃ i, a.2 = .ok i ∧ i.name = a.1) :
    (rs.filterMap fun r => r.2.toOption).map (·.name) = rs.map (·.1) := by
  induction rs with
  | nil => rfl
  | cons a rs ih =>
    obtain ⟨i, hi, hname⟩ := h a List.mem_cons_self
    rw [List.filterMap_cons_some (by rw [hi]; rfl), List.map_cons, List.map_cons, hname,
      ih fun b hb => h b (List.mem_cons_of_mem _ hb)]

end Launch

variable {mgr : Manager} {group : String} {count : Nat} {t : NodeTemplate}

/-- What is there after a launch of the nodes `names` without failures. -/
structure Succeeded (before after : Memory) (group network : String) (t : NodeTemplate) (names : List String)
    (created : List Instance) : Prop where
  names_eq : (created.map (·.name)).Perm names
  /-- The network is created once if it was missing, and so is the firewall. -/
  network_inserts : after.applied.count (.insert .network network) = before.applied.count (.insert .network network) +
    if before.has .network .global network then 0 else 1
  firewall_inserts : after.applied.count (.insert .firewall (Naming.firewallName network t.inboundPorts)) =
    before.applied.count (.insert .firewall (Naming.firewallName network t.inboundPorts)) +
      if before.has .firewall .global (Naming.firewallName network t.inboundPorts) then 0 else 1
  /-- Every instance is stored, runs on the network, boots from a disk of its own and has the tags of the firewall. -/
  stored : ∀ i ∈ created, after.find? .instance (.zone t.zone) i.name = some (.instance i) ∧ i.status = .running ∧
    (∃ n, after.find? .network .global network = some (.network n) ∧
      i.networkInterfaces.map (·.network) = [n.selfLink]) ∧
    (∃ d, after.find? .disk (.zone t.zone) (Naming.bootDiskName i.name) = some (.disk d) ∧
      i.disks = [⟨d.selfLink, true, true⟩]) ∧
    i.tags.containsAll (NodeSpec.ofTemplate i.name group network t).desiredTags = true ∧
    i.metadata = NodeSpec.metadataFor group t
  firewall : after.has .firewall .global (Naming.firewallName network t.inboundPorts) = true
  /-- Nothing else changes. -/
  others : ∀ k, k ≠ resourceKey .network .global network →
    k ≠ resourceKey .firewall .global (Naming.firewallName network t.inboundPorts) →
    (∀ n ∈ names, k ≠ resourceKey .instance (.zone t.zone) n ∧
      k ≠ resourceKey .disk (.zone t.zone) (Naming.bootDiskName n)) →
    after.resources.find? k = before.resources.find? k
  kept : ∀ k r, before.resources.find? k = some r → after.resources.find? k = some r

namespace Launch

variable {l : Launch} {rs : List (String × Except Failure Instance)} {m : Memory}

private theorem created_eq {k : ResourceKey} (hnone : m.resources.find? k ≠ none) :
    l.created k m = if (l.before.resources.find? k).isSome then 0 else 1 := by
  unfold created
  cases l.before.resources.find? k <;> simp [hnone]

private theorem kept_of_inv (hm : l.Inv m) (hdisks : ∀ n ∈ l.names, l.before.resources.find? (l.diskKey n) = none)
    {k : ResourceKey} {r : Resource} (hr : l.before.resources.find? k = some r) : m.resources.find? k = some r := by
  by_cases hown : l.Own k
  · rcases hown with rfl | rfl | ⟨n, hn, rfl | rfl⟩
    · rcases hm.store.network with he | ⟨he, -⟩
      · rw [he, hr]
      · rw [hr] at he
        exact absurd he (by simp)
    · rcases hm.store.firewall with he | ⟨he, -⟩
      · rw [he, hr]
      · rw [hr] at he
        exact absurd he (by simp)
    · rw [hdisks n hn] at hr
      exact absurd hr (by simp)
    · have hnew := l.new n hn
      rw [show resourceKey .instance (.zone l.template.zone) n = l.instanceKey n from rfl, hr] at hnew
      exact absurd hnew (by simp)
  · exact hm.store.persists k r hown hr

/-- When every node is up, the launch has succeeded. -/
theorem succeeded (hclosed : l.closed) (hm : l.Inv m) (hne : l.names ≠ [])
    (hdisks : ∀ n ∈ l.names, l.before.resources.find? (l.diskKey n) = none) (hperm : (rs.map (·.1)).Perm l.names)
    (hup : ∀ a ∈ rs, ∃ i, a.2 = .ok i ∧ l.Up a.1 i m) :
    Succeeded l.before m l.group l.network l.template l.names (Manager.launchReport rs).created := by
  obtain ⟨a, ha⟩ : ∃ a, a ∈ rs := by
    refine List.exists_mem_of_ne_nil rs fun hnil => hne ?_
    rw [hnil] at hperm
    exact hperm.symm.eq_nil
  -- Any node will do to see that the network and the firewall are there.
  obtain ⟨i, -, net, fw, -, -, -, -, hnet, hfw⟩ := hup a ha
  refine ⟨?_, ?_, ?_, fun j hj => ?_, ?_, fun k hn hf ho => ?_, fun k r => kept_of_inv hm hdisks⟩
  · rw [created_launchReport, names_created fun b hb => ?_]
    · exact hperm
    · obtain ⟨j, hj, hj'⟩ := hup b hb
      exact ⟨j, hj, hj'.name_eq⟩
  · rw [hm.journal.network, created_eq (by rw [hnet]; simp)]
    rfl
  · rw [show Naming.firewallName l.network l.template.inboundPorts = l.firewallName from rfl, hm.journal.firewall,
      created_eq (by rw [hfw]; simp)]
    rfl
  · obtain ⟨n, hn⟩ := mem_created_launchReport.1 hj
    obtain ⟨j', he, hj'⟩ := hup _ hn
    cases he
    have hname := hj'.name_eq
    subst hname
    obtain ⟨net', fw', hnode, htags, hstored, hdisk, hnet', -⟩ := hj'
    refine ⟨hstored, ?_, ⟨net', hnet', ?_⟩, ⟨_, hdisk.2, ?_⟩, htags, ?_⟩ <;>
      obtain ⟨tags, ip, nat, hnode⟩ := hnode <;> rw [hnode]
    · rfl
    · rfl
  · unfold has find?
    rw [show resourceKey .firewall .global (Naming.firewallName l.network l.template.inboundPorts) = l.firewallKey
      from rfl, hfw]
    rfl
  · have hown : ¬ l.Own k := by
      rintro (rfl | rfl | ⟨n, hmem, rfl | rfl⟩)
      · exact hn rfl
      · exact hf rfl
      · exact (ho n hmem).2 rfl
      · exact (ho n hmem).1 rfl
    cases hb : l.before.resources.find? k with
    | none => exact hm.store.closed hclosed k hown hb
    | some r => exact hm.store.persists k r hown hb

end Launch

/-- A launch without faults brings up every node, under the lowest names that are free. A launch of no nodes does
nothing. -/
theorem launch_succeeds {w : World Cloud Memory} (hcanonical : w.service.Canonical) (hfree : w.service.FaultFree)
    (hw : w.Undisturbed) (hgroup : Naming.validateGroup group = .ok ())
    (hslash : '/' ∉ (mgr.networkFor group t).toList)
    (hbound : count + (w.service.namesOf .instance).length < UInt32.size)
    (hdisks : ∀ n ∈ Naming.nextNodeNames group (w.service.namesOf .instance) count,
      w.service.find? .disk (.zone t.zone) (Naming.bootDiskName n) = none)
    (hp : mgr.client.poll.Patient w.service.pollsUntilDone) :
    (count = 0 → mgr.launch group count t w = (.ok .empty, w)) ∧
      (0 < count → ∃ report after, mgr.launch group count t w = (.ok report, after) ∧ report.failed = [] ∧
        Succeeded w.service after.service group (mgr.networkFor group t) t
          (Naming.nextNodeNames group (w.service.namesOf .instance) count) report.created) := by
  refine ⟨fun hnone => ?_, fun hcount => ?_⟩
  · subst hnone
    exact launch_none hgroup
  have hnew : ∀ n ∈ Naming.nextNodeNames group (w.service.namesOf .instance) count,
      w.service.resources.find? (resourceKey .instance (.zone t.zone) n) = none :=
    fun n hn => Launch.new_of_bound hbound hn _
  let l : Launch := .of mgr group count t w.service Launch.fairWeather hcanonical.keyed hgroup hnew
  obtain ⟨rs, w₁, -, hinv₁, hperm, hlaunched, ms, hrun⟩ :=
    launch_eq (l := l) rfl (by omega) (fun _ => hp) (fun _ hf => hf.elim) hw.within (Launch.inv_of_faultFree hfree)
  have hapt : ∀ n ∈ l.names, l.Apt n := by
    refine fun n hn => ⟨trivial, trivial, hdisks n hn, hslash, fun net hnet => ?_⟩
    have hself := hcanonical.selfLink _ _ hnet
    have hname : net.name = l.network := hcanonical.keyed.name_eq hnet
    rw [show net.selfLink = _ from hself, show (Resource.network net).name = l.network from hname]
    exact name_selfLink _ _ _ hslash
  have hup := Launch.up_of_launched (by simp [l, Launch.of, Launch.fairWeather]) hapt hperm hlaunched
  have hne : l.names ≠ [] := fun hnil => by
    have hlength : l.names.length = count := Naming.length_nextNodeNames _ _ _
    rw [hnil] at hlength
    exact absurd hlength (by simp; omega)
  have hsucceeded := Launch.succeeded trivial hinv₁ hne hdisks hperm hup
  have hcreated : (Manager.launchReport rs).created ≠ [] := fun hnil => by
    have := hsucceeded.names_eq
    rw [hnil] at this
    exact hne this.symm.eq_nil
  have hfailed : (Manager.launchReport rs).failed = [] := by
    refine List.eq_nil_iff_forall_not_mem.2 fun x hx => ?_
    obtain ⟨i, hi, -⟩ := hup _ (mem_failed_launchReport.1 hx)
    exact absurd hi (by simp)
  have hdone : mgr.reclaimAfterLaunch l.network (Manager.launchReport rs) = .done (Manager.launchReport rs) := by
    unfold Manager.reclaimAfterLaunch
    rw [if_neg]
    simp [hcreated]
  rw [hdone] at hrun
  exact ⟨_, _, hrun, hfailed, hsucceeded⟩

theorem launch_succeeds_of_three :
    ∃ report after, (Manager.ofClient .standard).launch "web" 3 (.plain "zone-a" "f1-micro" "debian")
        (World.start ((Memory.empty "project").withPollsUntilDone 1) 0) = (.ok report, after) ∧ report.failed = [] ∧
      Succeeded ((Memory.empty "project").withPollsUntilDone 1) after.service "web" "gceflow-web"
        (.plain "zone-a" "f1-micro" "debian") ["web-1", "web-2", "web-3"] report.created :=
  (launch_succeeds (canonical_empty _ _) (faultFree_empty _ _) ⟨rfl, fun _ _ => rfl⟩ (by rfl) (by decide) (by decide)
    (fun _ _ => rfl) (PollPolicy.patient_one _)).2 (by decide)

/-- A launch of no nodes does not create the network, although it is missing. -/
theorem launch_of_none :
    ∃ report after, (Manager.ofClient .standard).launch "web" 0 (.plain "zone-a" "f1-micro" "debian")
        (World.start ((Memory.empty "project").withPollsUntilDone 1) 0) = (.ok report, after) ∧ report.failed = [] ∧
      after.service.has .network .global "gceflow-web" = false ∧
      after.service.applied.count (.insert .network "gceflow-web") = 0 :=
  ⟨_, _, launch_none (by rfl), rfl, rfl, rfl⟩

end Fleet
