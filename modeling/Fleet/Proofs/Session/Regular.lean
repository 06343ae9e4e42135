import Fleet.Proofs.Launch.Canonical
import Fleet.Proofs.Launch.Success
import Fleet.Proofs.Memory.Wiring
import Fleet.Proofs.Session.Proceeding
import Fleet.Proofs.Teardown.Group
import Fleet.Proofs.Teardown.Node

/-!
# Sessions in which nothing goes wrong

The platforms that can be reached from an empty one by putting nodes there and by calls of managers, as long as nothing
is made to go wrong and no operation times out (`Memory.Reached`), are regular: they are canonical, no faults are to
come, and every instance boots from the disk that bears its name, which the platform deletes along with the instance
(`Memory.Reached.regular`).
-/

namespace Fleet

open Memory

namespace Memory

variable {m m' : Memory}

/-! ### Regular platforms -/

/-- Everything is in order, and every instance has one disk: that of its own name, which goes along with it. -/
structure Regular (m : Memory) : Prop where
  canonical : m.Canonical
  faultFree : m.FaultFree
  disks : ∀ k i, m.resources.find? k = some (.instance i) →
    i.disks = [⟨m.selfLink .disk (.zone i.zone) (Naming.bootDiskName i.name), true, true⟩]

theorem regular_empty (project : String) (polls : Nat) :
    ((Memory.empty project).withPollsUntilDone polls).Regular :=
  ⟨canonical_empty project polls, faultFree_empty project polls, fun _ _ hi => (by cases hi)⟩

namespace Regular

variable (h : m.Regular) {k : ResourceKey} {i : Instance}

include h

theorem calm {w : World Cloud Memory} (hw : w.interventions = []) (hm : w.service = m) :
    w.Calm (solitary m.project m.pollsUntilDone) := by
  subst hm
  exact ⟨hw, h.faultFree.holds h.canonical.keyed⟩

theorem wired : m.Wired := ⟨h.canonical, h.disks⟩

theorem key_of_mem_disks (hi : m.resources.find? k = some (.instance i)) {a : AttachedDisk} (ha : a ∈ i.disks) :
    diskKey i.zone a.source = resourceKey .disk (.zone i.zone) (Naming.bootDiskName i.name) :=
  h.wired.key_of_mem_disks hi ha

/-- Where things are only taken away, the rest is regular as long as its references are in order. -/
theorem of_shrinks (hc : m'.Canonical) (hcontinues : m.Continues m') (hs : Shrinks m.resources m'.resources) :
    m'.Regular := by
  refine ⟨hc, h.faultFree.continues hcontinues, fun k i hi => ?_⟩
  rw [selfLink_congr hcontinues.project]
  exact h.disks k i (hs k _ hi)

end Regular

/-! ### Seeding -/

/-- A node may be put into a regular platform, also in the place of another one. -/
theorem Regular.seedNode (h : m.Regular) (zone : String) {name network : String} (group : String)
    (hname : '/' ∉ name.toList) (hnetwork : '/' ∉ network.toList) :
    (m.seedNode zone name network group).2.Regular := by
  have hwired := h.wired.seedNode zone group hname hnetwork
  exact ⟨hwired.canonical, h.faultFree.seedNode zone name network group, hwired.disks⟩

/-! ### Launching -/

/-- A node of a launch is there, and has its boot disk. -/
structure Hosts (m : Memory) (group : String) (t : NodeTemplate) (i : Instance) : Prop where
  stored : m.find? .instance (.zone i.zone) i.name = some (.instance i)
  disk : m.has .disk (.zone i.zone) (Naming.bootDiskName i.name) = true
  zone : i.zone = t.zone
  metadata : i.metadata = NodeSpec.metadataFor group t

end Memory

namespace Launch

/-- Nothing goes wrong, but the launch may be cancelled. -/
def faultless : Circumstances := ⟨True, True, True, True, True⟩

variable {l : Launch} {m : Memory}

private theorem regular_of_inv (h : l.Inv m) (hclosed : l.closed) (hcalm : l.calm) (hsteady : l.steady)
    (hslash : '/' ∉ l.network.toList) (hbefore : l.before.Regular) : m.Regular := by
  have hproject : m.project = l.before.project := h.promise.project
  obtain ⟨hconflicts, hscripted, hlost⟩ := h.promise.calm hcalm
  refine ⟨h.store.canonical hbefore.canonical hclosed hslash hproject,
    ⟨h.promise.fetches hsteady, hconflicts, hscripted, hlost⟩, fun k i hi => ?_⟩
  rw [selfLink_congr hproject]
  cases h.store.yields hclosed hi with
  | kept hb => exact hbefore.disks k i hb
  | node hn _ _ _ hnode =>
    obtain ⟨tags, ip, nat, rfl⟩ := hnode
    rfl

theorem Up.hosts {n : String} {i : Instance} (h : l.Up n i m) : m.Hosts l.group l.template i := by
  obtain ⟨net, fw, ⟨tags, ip, nat, rfl⟩, -, hstored, hdisk, -⟩ := h
  exact ⟨hstored, Option.isSome_iff_exists.2 ⟨_, hdisk.2⟩, rfl, rfl⟩

end Launch

namespace Memory.Regular

variable {w : World Cloud Memory} {mgr : Manager}

theorem reclaimNetwork (h : w.service.Regular) (hw : w.interventions = [])
    (hp : mgr.client.poll.Patient w.service.pollsUntilDone) (name : String) :
    ((mgr.client.reclaimNetwork name).run.run w).2.service.Regular := by
  obtain ⟨-, hcontinues⟩ := (mgr.client.reclaimNetwork name).run.proceeds_run w hw
  obtain ⟨o, w', hrun, -, hc, hshrinks⟩ := (h.calm hw rfl).run_reclaimNetwork hp h.canonical name
  rw [hrun] at hcontinues ⊢
  exact h.of_shrinks hc hcontinues hshrinks

/-- The nodes of a launch leave a regular platform, before anything is taken away again. -/
private theorem run_nodes (h : w.service.Regular) (hw : w.interventions = []) {group : String} {count : Nat}
    {t : NodeTemplate} (hgroup : Naming.validateGroup group = .ok ()) (hcount : count ≠ 0)
    (hslash : '/' ∉ (mgr.networkFor group t).toList)
    (hbound : count + (w.service.namesOf .instance).length < UInt32.size)
    (hp : mgr.client.poll.Patient w.service.pollsUntilDone) :
    ∃ rs w₁, w₁.service.Regular ∧ w₁.interventions = [] ∧ w₁.service.pollsUntilDone = w.service.pollsUntilDone ∧
      (∀ i ∈ (Manager.launchReport rs).created, w₁.service.Hosts group t i) ∧
      ∃ ms, mgr.launch group count t w =
        let last := (mgr.reclaimAfterLaunch (mgr.networkFor group t) (Manager.launchReport rs)).run w₁
        (.ok { last.1 with durationMs := ms }, last.2) := by
  let l : Launch := .of mgr group count t w.service Launch.faultless h.canonical.keyed hgroup
    fun n hn => Launch.new_of_bound hbound hn _
  have hwithin : w.Within l.regime.conduct fun _ => False := World.within_of_quiet hw (.inr trivial)
  obtain ⟨rs, w₁, hw₁, hinv₁, -, hlaunched, hrun⟩ :=
    launch_eq (l := l) rfl hcount (fun _ => hp) (fun _ hf => hf.elim) hwithin (Launch.inv_of_faultFree h.faultFree)
  have hregular : w₁.service.Regular := Launch.regular_of_inv hinv₁ trivial trivial trivial hslash h
  refine ⟨rs, w₁, hregular, hw₁.interventions_eq_nil, hinv₁.promise.polls, fun i hi => ?_, hrun⟩
  obtain ⟨n, hn⟩ := mem_created_launchReport.1 hi
  exact Launch.Up.hosts (l := l) (hlaunched _ hn).2

/-- A launch leaves a regular platform, and every node that it reports as created is there. -/
theorem launch (h : w.service.Regular) (hw : w.interventions = []) {group : String} {count : Nat} {t : NodeTemplate}
    (hslash : '/' ∉ (mgr.networkFor group t).toList)
    (hbound : count + (w.service.namesOf .instance).length < UInt32.size)
    (hp : mgr.client.poll.Patient w.service.pollsUntilDone) :
    ∃ r after, mgr.launch group count t w = (r, after) ∧ after.service.Regular ∧
      ∀ report, r = .ok report → ∀ i ∈ report.created, after.service.Hosts group t i := by
  cases hgroup : Naming.validateGroup group with
  | error f =>
    refine ⟨.error f, w, ?_, h, fun report hreport => by cases hreport⟩
    unfold Manager.launch
    rw [hgroup]
  | ok u =>
    by_cases hcount : count = 0
    · subst hcount
      refine ⟨.ok .empty, w, launch_none hgroup, h, fun report hreport i hi => ?_⟩
      obtain rfl := Except.ok.inj hreport
      exact absurd hi (by simp [LaunchReport.empty])
    · obtain ⟨rs, w₁, hregular, hw₁, hpolls, hhosts, ms, hrun⟩ := h.run_nodes hw hgroup hcount hslash hbound hp
      obtain ⟨⟨hcreated, -⟩, hcases⟩ :=
        run_reclaimAfterLaunch mgr (mgr.networkFor group t) (Manager.launchReport rs) w₁
      refine ⟨_, _, hrun, ?_, fun report hreport i hi => ?_⟩
      · rcases hcases with ⟨-, hfinal⟩ | ⟨-, hfinal⟩
        · rw [hfinal]
          exact hregular
        · rw [hfinal]
          exact hregular.reclaimNetwork hw₁ (hpolls.symm ▸ hp) _
      · obtain rfl := Except.ok.inj hreport
        have hi : i ∈ (Manager.launchReport rs).created := hcreated ▸ hi
        -- Where a node was created, the network is not reclaimed.
        rcases hcases with ⟨-, hfinal⟩ | ⟨hnone, -⟩
        · rw [hfinal]
          exact hhosts i hi
        · rw [hnone] at hi
          exact absurd hi (by simp)

/-! ### Taking down -/

theorem destroyNode (h : w.service.Regular) (hw : w.interventions = [])
    (hp : mgr.client.poll.Patient w.service.pollsUntilDone) (id : NodeId) :
    ((mgr.destroyNode id).run.run w).2.service.Regular := by
  obtain ⟨-, hcontinues⟩ := (mgr.destroyNode id).run.proceeds_run w hw
  have hcalm := h.calm hw rfl
  cases hi : w.service.find? .instance (.zone id.zone) id.name with
  | none =>
    obtain ⟨w', hrun, -, hres⟩ := hcalm.run_destroyNode_of_missing mgr hi
    rw [hrun] at hcontinues ⊢
    exact h.of_shrinks (h.canonical.of_resources_eq hres hcontinues.project) hcontinues fun k r hr => hres ▸ hr
  | some r =>
    obtain ⟨i, rfl, hzone, hname⟩ := h.canonical.keyed.exists_instance hi
    obtain rfl : id = ⟨i.zone, i.name⟩ := by rw [hzone, hname]
    obtain ⟨links, w', hrun, -, -, hl, -, hc⟩ := hcalm.run_destroyNode hp h.canonical hi
    rw [hrun] at hcontinues ⊢
    exact h.of_shrinks hc hcontinues fun k r hr => (hl.find?_eq_some_iff.1 hr).1

theorem destroyGroup (h : w.service.Regular) (hw : w.interventions = [])
    (hp : mgr.client.poll.Patient w.service.pollsUntilDone) (group : String) :
    (mgr.destroyGroup group w).2.service.Regular := by
  obtain ⟨-, hcontinues⟩ := mgr.proceeds_destroyGroup group w hw
  obtain ⟨report, w', hrun, -, hc, htorn⟩ := (h.calm hw rfl).run_destroyGroup hp h.canonical group
  rw [hrun] at hcontinues ⊢
  obtain ⟨links, -, -, -, hl⟩ := htorn.networks
  exact h.of_shrinks hc hcontinues fun k r hr => (hl.find?_eq_some_iff.1 hr).1

/-! ### Looking -/

/-- Reading changes nothing. -/
private theorem of_resources_eq {m m' : Memory} (h : m.Regular) (hc : m.Continues m')
    (hres : m'.resources = m.resources) : m'.Regular :=
  h.of_shrinks (h.canonical.of_resources_eq hres hc.project) hc fun _ _ hr => hres ▸ hr

theorem nodes (h : w.service.Regular) (hw : w.interventions = []) (mgr : Manager) (group : Option String) :
    ((mgr.nodes group).run.run w).2.service.Regular := by
  obtain ⟨-, hcontinues⟩ := (mgr.nodes group).run.proceeds_run w hw
  refine h.of_resources_eq hcontinues ?_
  have hlist (filter : Filter) : ∃ is w', (mgr.client.list .instance filter).run.run w = (.ok is, w') ∧
      w'.service.resources = w.service.resources := by
    obtain ⟨w', hrun, -, hres, -⟩ := (h.calm hw rfl).run_list mgr.client .instance filter
    exact ⟨_, w', hrun, hres⟩
  unfold Manager.nodes
  cases group with
  | none =>
    obtain ⟨is, w', hrun, hres⟩ := hlist .any
    rw [Action.run_bind_of_ok hrun]
    exact hres
  | some g =>
    obtain ⟨is, w', hrun, hres⟩ := hlist (.withLabel Naming.groupKey g)
    rw [Action.run_bind_of_ok hrun]
    exact hres

theorem node? (h : w.service.Regular) (hw : w.interventions = []) (mgr : Manager) (id : NodeId) :
    ((mgr.node? id).run.run w).2.service.Regular := by
  obtain ⟨-, hcontinues⟩ := (mgr.node? id).run.proceeds_run w hw
  refine h.of_resources_eq hcontinues ?_
  obtain ⟨found, w', hrun, -, ⟨hres, -⟩, -⟩ := (h.calm hw rfl).run_fetch? mgr.client .instance (.zone id.zone) id.name
  unfold Manager.node?
  rw [Action.run_bind_of_ok hrun]
  exact hres

end Memory.Regular

/-! ### Sessions -/

/-- The names of a task have no slashes, and the indices of its nodes are 32-bit numbers. -/
def Task.Fits (mgr : Manager) (m : Memory) : Task → Prop
  | .createNodes group count t =>
    '/' ∉ (mgr.networkFor group t).toList ∧ count + (m.namesOf .instance).length < UInt32.size
  | _ => True

namespace Memory

theorem Regular.perform {w : World Cloud Memory} (h : w.service.Regular) (hw : w.interventions = []) {mgr : Manager}
    (hp : mgr.client.poll.Patient w.service.pollsUntilDone) {task : Task} (ht : task.Fits mgr w.service) :
    (mgr.perform task w).service.Regular := by
  cases task with
  | createNodes group count t =>
    obtain ⟨r, after, hrun, hregular, -⟩ := h.launch hw ht.1 ht.2 hp
    show (mgr.launch group count t w).2.service.Regular
    rw [hrun]
    exact hregular
  | destroyNode id => exact h.destroyNode hw hp id
  | destroyGroup group => exact h.destroyGroup hw hp group
  | reclaimNetwork name => exact h.reclaimNetwork hw hp name

/-- What can be reached from an empty platform by putting nodes there and by calls of managers, when nothing comes from
outside and no operation times out. -/
inductive Reached : Memory → Prop
  | empty (project : String) (polls : Nat) : Reached ((Memory.empty project).withPollsUntilDone polls)
  | seedNode {m : Memory} (h : Reached m) (zone : String) {name network : String} (group : String)
    (hname : '/' ∉ name.toList) (hnetwork : '/' ∉ network.toList) : Reached (m.seedNode zone name network group).2
  | perform {w : World Cloud Memory} (h : Reached w.service) (hw : w.interventions = []) {mgr : Manager}
    (hp : mgr.client.poll.Patient w.service.pollsUntilDone) {task : Task} (ht : task.Fits mgr w.service) :
    Reached (mgr.perform task w).service
  | nodes {w : World Cloud Memory} (h : Reached w.service) (hw : w.interventions = []) (mgr : Manager)
    (group : Option String) : Reached ((mgr.nodes group).run.run w).2.service
  | node? {w : World Cloud Memory} (h : Reached w.service) (hw : w.interventions = []) (mgr : Manager) (id : NodeId) :
    Reached ((mgr.node? id).run.run w).2.service

/-- Whatever is reached is regular. -/
theorem Reached.regular {m : Memory} (h : m.Reached) : m.Regular := by
  induction h with
  | empty project polls => exact regular_empty project polls
  | seedNode _ zone group hname hnetwork ih => exact ih.seedNode zone group hname hnetwork
  | perform _ hw hp ht ih => exact ih.perform hw hp ht
  | nodes _ hw mgr group ih => exact ih.nodes hw mgr group
  | node? _ hw mgr id ih => exact ih.node? hw mgr id

end Memory

end Fleet
