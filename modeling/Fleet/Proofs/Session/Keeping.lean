import Fleet.Proofs.Session.Regular

/-!
# Boot disks that are to be kept

A template may ask for the boot disks of its nodes to be kept. The request reaches the metadata of the instances, and a
teardown heeds it: it leaves alone a boot disk that the platform does not delete by itself
(`destroyNode_keeps_bootDisk_iff`). But every instance is created with a boot disk that the platform deletes along with
it, so the boot disks of a launch are lost when its nodes are destroyed (`launch_loses_boot_disks`).
-/

namespace Fleet

open Memory

/-- Destroys nodes one after the other. -/
def Manager.destroyEach (mgr : Manager) : List NodeId → Action Unit
  | [] => return
  | id :: ids => do
    let _ ← mgr.destroyNode id
    mgr.destroyEach ids

/-! ### What is asked for -/

namespace Instance

variable {i : Instance} {group : String} {t : NodeTemplate}

theorem keepsBootDisk_of_metadata (h : i.metadata = NodeSpec.metadataFor group t) :
    i.keepsBootDisk = !t.deleteBootDisk := by
  have hflag : i.metadata.find? Naming.deleteBootDiskKey = some (NodeSpec.flagText t.deleteBootDisk) := by
    rw [h]
    exact (OrderedMap.find?_insert _ _ _ _).trans (if_pos rfl)
  unfold keepsBootDisk
  rw [hflag]
  cases t.deleteBootDisk <;> decide

theorem group_of_metadata (h : i.metadata = NodeSpec.metadataFor group t) :
    i.metadata.find? Naming.groupKey = some group := by
  rw [h]
  unfold NodeSpec.metadataFor
  rw [OrderedMap.find?_insert, if_neg (by decide), OrderedMap.find?_insert, if_neg (by decide),
    OrderedMap.find?_insert, if_pos rfl]

end Instance

/-! ### What a teardown does about it -/

namespace Memory

variable {m m' : Memory} {i : Instance} {a : AttachedDisk} {k : ResourceKey}

theorem Canonical.source_eq_of_diskKey (hc : m.Canonical) (hi : m.resources.find? k = some (.instance i))
    {b : AttachedDisk} (ha : a ∈ i.disks) (hb : b ∈ i.disks) (h : diskKey i.zone a.source = diskKey i.zone b.source) :
    a.source = b.source := by
  obtain ⟨d, hd, hda⟩ := hc.disk hi ha
  obtain ⟨d', hd', hdb⟩ := hc.disk hi hb
  rw [h, hd'] at hd
  rw [← hda, ← hdb, Resource.disk.inj (Option.some.inj hd)]

/-- The boot disk goes when it is not to be kept, or when the platform deletes it along with the instance. -/
theorem Canonical.takes_bootDisk_iff (hc : m.Canonical) (hi : m.resources.find? k = some (.instance i))
    (hboot : i.bootDisk? = some a) : i.Takes (diskKey i.zone a.source) ↔
      i.keepsBootDisk = false ∨ ∃ b ∈ i.disks, b.source = a.source ∧ b.autoDelete = true := by
  have ha : a ∈ i.disks := List.mem_of_find?_eq_some hboot
  constructor
  · -- The key of the disk is not that of the instance, so it is the key of one of the attached disks.
    rintro (hkey | ⟨b, hb, hgives, hkey⟩)
    · exact absurd (congrArg (·.1) hkey) (by simp [diskKey, resourceKey, Resource.key, Resource.kind])
    rcases Instance.givesUp_iff.1 hgives with hauto | ⟨hkeeps, -⟩
    · exact .inr ⟨b, hb, (hc.source_eq_of_diskKey hi ha hb hkey).symm, hauto⟩
    · exact .inl hkeeps
  · rintro (hkeeps | ⟨b, hb, hsource, hauto⟩)
    · exact .inr ⟨a, ha, Instance.givesUp_iff.2 (.inr ⟨hkeeps, hboot⟩), rfl⟩
    · exact .inr ⟨b, hb, .inl hauto, by rw [hsource]⟩

/-- No disk goes along with a network. -/
theorem doomed_disk_iff {victims : List Instance} {links : List String} {d : Disk}
    (hd : m.resources.find? k = some (.disk d)) : m.Doomed victims links k ↔ ∃ v ∈ victims, v.Takes k := by
  refine or_iff_left ?_
  rintro ⟨link, -, -, r, hr, hbelongs⟩
  rw [hd] at hr
  obtain rfl := Option.some.inj hr
  exact hbelongs

end Memory

/-- When a node is destroyed, its boot disk stays exactly if it is to be kept and the platform does not delete it along
with the instance. -/
theorem destroyNode_keeps_bootDisk_iff {mgr : Manager} {w : World Cloud Memory} (hc : w.service.Canonical)
    (hfree : w.service.FaultFree) (hw : w.interventions = [])
    (hp : mgr.client.poll.Patient w.service.pollsUntilDone) {k : ResourceKey} {i : Instance}
    (hi : w.service.resources.find? k = some (.instance i)) {a : AttachedDisk} (hboot : i.bootDisk? = some a) :
    ∃ outcomes w', (mgr.destroyNode ⟨i.zone, i.name⟩).run.run w = (.ok outcomes, w') ∧
      (w'.service.resources.contains (diskKey i.zone a.source) = true ↔
        i.keepsBootDisk = true ∧ ∀ b ∈ i.disks, b.source = a.source → b.autoDelete = false) := by
  have hcalm : w.Calm (solitary w.service.project w.service.pollsUntilDone) := ⟨hw, hfree.holds hc.keyed⟩
  obtain ⟨links, w', hrun, -, -, hl, -⟩ := hcalm.run_destroyNode hp hc hi
  refine ⟨_, w', hrun, ?_⟩
  obtain ⟨d, hd, -⟩ := hc.disk hi (List.mem_of_find?_eq_some hboot)
  have hkey : k = (Resource.instance i).key := (hc.keyed k _ hi).symm
  have hdoomed : w.service.Doomed [i] links (diskKey i.zone a.source) ↔ i.Takes (diskKey i.zone a.source) :=
    (doomed_disk_iff hd).trans (by simp)
  rw [OrderedMap.contains_eq_true_iff]
  have hstays : (∃ r, w'.service.resources.find? (diskKey i.zone a.source) = some r) ↔
      ¬ i.Takes (diskKey i.zone a.source) := by
    rw [← hdoomed]
    constructor
    · rintro ⟨r, hr⟩
      exact (hl.find?_eq_some_iff.1 hr).2
    · exact fun hnot => ⟨_, hl.find?_eq_some_iff.2 ⟨hd, hnot⟩⟩
  rw [hstays, hc.takes_bootDisk_iff hi hboot]
  simp

/-! ### Nodes that are destroyed -/

namespace Memory

/-- Neither a node nor its boot disk is there. -/
def Vacant (m : Memory) (id : NodeId) : Prop :=
  m.find? .instance (.zone id.zone) id.name = none ∧
    m.find? .disk (.zone id.zone) (Naming.bootDiskName id.name) = none

/-- The node is there, or else its boot disk is not there either. -/
def Intact (m : Memory) (id : NodeId) : Prop :=
  (∃ i, m.find? .instance (.zone id.zone) id.name = some (.instance i)) ∨ m.Vacant id

variable {m m' : Memory} {i : Instance} {k : ResourceKey}

theorem Vacant.of_loses {gone : ResourceKey → Prop} (hl : m.Loses m' gone) {id : NodeId} (hid : m.Vacant id) :
    m'.Vacant id :=
  ⟨hl.find?_eq_none hid.1, hl.find?_eq_none hid.2⟩

namespace Regular

/-- Every instance takes the disk that bears its name. -/
theorem takes_disk (h : m.Regular) (hi : m.resources.find? k = some (.instance i)) :
    i.Takes (resourceKey .disk (.zone i.zone) (Naming.bootDiskName i.name)) := by
  have ha : (⟨m.selfLink .disk (.zone i.zone) (Naming.bootDiskName i.name), true, true⟩ : AttachedDisk) ∈ i.disks := by
    rw [h.disks k i hi]
    exact List.mem_singleton.2 rfl
  exact .inr ⟨_, ha, .inl rfl, (h.key_of_mem_disks hi ha).symm⟩

theorem vacant_of_loses (h : m.Regular) {victims : List Instance} {links : List String}
    (hl : m.Loses m' (m.Doomed victims links)) (hv : m.HasInstances victims) (hi : i ∈ victims) :
    m'.Vacant ⟨i.zone, i.name⟩ :=
  ⟨hl.removed _ (.inl ⟨i, hi, i.takes_key⟩), hl.removed _ (.inl ⟨i, hi, h.takes_disk (hv i hi)⟩)⟩

theorem intact_of_loses (h : m.Regular) {victims : List Instance} {links : List String}
    (hl : m.Loses m' (m.Doomed victims links)) (hv : m.HasInstances victims) {id : NodeId} (hid : m.Intact id) :
    m'.Intact id := by
  rcases hid with ⟨i, hi⟩ | hvacant
  · by_cases hmem : i ∈ victims
    · obtain ⟨j, hj, hzone, hname⟩ := h.canonical.keyed.exists_instance hi
      obtain rfl := Resource.instance.inj hj
      obtain rfl : id = ⟨i.zone, i.name⟩ := by rw [hzone, hname]
      exact .inr (h.vacant_of_loses hl hv hmem)
    · exact .inl ⟨i, find?_of_not_victim h.canonical hv hl hi hmem⟩
  · exact .inr (hvacant.of_loses hl)

/-! ### Nodes that are destroyed one after the other -/

variable {w : World Cloud Memory} {mgr : Manager}

private theorem run_destroyNode (h : w.service.Regular) (hw : w.interventions = [])
    (hp : mgr.client.poll.Patient w.service.pollsUntilDone) (id : NodeId) :
    ∃ outcomes w', (mgr.destroyNode id).run.run w = (.ok outcomes, w') ∧ ∀ id', w.service.Intact id' →
      w'.service.Intact id' ∧ (id' = id ∨ w.service.Vacant id' → w'.service.Vacant id') := by
  cases hr : w.service.find? .instance (.zone id.zone) id.name with
  | none =>
    obtain ⟨w', hrun, -, hres⟩ := (h.calm hw rfl).run_destroyNode_of_missing mgr hr
    refine ⟨[], w', hrun, fun id' hid => ?_⟩
    have hsame : (w'.service.Intact id' ↔ w.service.Intact id') ∧ (w'.service.Vacant id' ↔ w.service.Vacant id') := by
      unfold Intact Vacant find?
      rw [hres]
      exact ⟨Iff.rfl, Iff.rfl⟩
    rw [hsame.1, hsame.2]
    refine ⟨hid, ?_⟩
    rintro (rfl | hvacant)
    · -- Without the instance, the boot disk is missing, too.
      rcases hid with ⟨i, hi⟩ | hvacant
      · exact absurd (hr.symm.trans hi) (by simp)
      · exact hvacant
    · exact hvacant
  | some r =>
    obtain ⟨i, rfl, hzone, hname⟩ := h.canonical.keyed.exists_instance hr
    obtain rfl : id = ⟨i.zone, i.name⟩ := by rw [hzone, hname]
    obtain ⟨links, w', hrun, -, -, hl, -⟩ := (h.calm hw rfl).run_destroyNode hp h.canonical hr
    have hv : w.service.HasInstances [i] := fun v hmem => by
      rw [List.mem_singleton.1 hmem]
      exact hr
    refine ⟨_, w', hrun, fun id' hid => ⟨h.intact_of_loses hl hv hid, ?_⟩⟩
    rintro (rfl | hvacant)
    · exact h.vacant_of_loses hl hv (List.mem_singleton.2 rfl)
    · exact hvacant.of_loses hl

theorem run_destroyEach (h : w.service.Regular) (hw : w.interventions = [])
    (hp : mgr.client.poll.Patient w.service.pollsUntilDone) (ids : List NodeId) :
    ∃ w', (mgr.destroyEach ids).run.run w = (.ok (), w') ∧ ∀ id, w.service.Intact id →
      w'.service.Intact id ∧ (id ∈ ids ∨ w.service.Vacant id → w'.service.Vacant id) := by
  induction ids generalizing w with
  | nil => exact ⟨w, rfl, fun id hid => ⟨hid, fun hor => hor.resolve_left (by simp)⟩⟩
  | cons first ids ih =>
    obtain ⟨outcomes, w₁, hrun₁, hstep⟩ := h.run_destroyNode hw hp first
    have hregular : ((mgr.destroyNode first).run.run w).2.service.Regular := h.destroyNode hw hp first
    obtain ⟨hw₁, hcontinues⟩ := (mgr.destroyNode first).run.proceeds_run w hw
    rw [hrun₁] at hregular hw₁ hcontinues
    obtain ⟨w₂, hrun₂, hrest⟩ := ih hregular hw₁ (hcontinues.polls.symm ▸ hp)
    -- What the first teardown has emptied stays empty.
    refine ⟨w₂, ?_, fun id hid => ?_⟩
    · unfold Manager.destroyEach
      rw [Action.run_bind_of_ok hrun₁]
      exact hrun₂
    · obtain ⟨hid₁, hgone₁⟩ := hstep id hid
      obtain ⟨hid₂, hgone₂⟩ := hrest id hid₁
      refine ⟨hid₂, ?_⟩
      rintro (hmem | hvacant)
      · rcases List.mem_cons.1 hmem with rfl | hmem
        · exact hgone₂ (.inr (hgone₁ (.inl rfl)))
        · exact hgone₂ (.inl hmem)
      · exact hgone₂ (.inr (hgone₁ (.inr hvacant)))

/-- The members of a group are destroyed together. -/
theorem run_destroyGroup (h : w.service.Regular) (hw : w.interventions = [])
    (hp : mgr.client.poll.Patient w.service.pollsUntilDone) (group : String) :
    ∃ report w', mgr.destroyGroup group w = (.ok report, w') ∧ report.failed = [] ∧
      ∀ i, w.service.find? .instance (.zone i.zone) i.name = some (.instance i) →
        i.metadata.find? Naming.groupKey = some group →
        i.name ∈ report.destroyed ∧ w'.service.Vacant ⟨i.zone, i.name⟩ := by
  obtain ⟨report, w', hrun, -, -, htorn⟩ := (h.calm hw rfl).run_destroyGroup hp h.canonical group
  refine ⟨report, w', hrun, htorn.failed, fun i hi hlabel => ?_⟩
  obtain ⟨links, -, -, -, hl⟩ := htorn.networks
  have hmember : i ∈ w.service.members group := (mem_members h.canonical.keyed).2 ⟨hi, hlabel⟩
  refine ⟨htorn.destroyed.mem_iff.2 (List.mem_map_of_mem hmember), ?_⟩
  exact h.vacant_of_loses hl (hasInstances_members h.canonical.keyed group) hmember

end Regular

end Memory

/-! ### Nodes that are launched and destroyed -/

section Keeping

variable {mgr destroyer : Manager} {w : World Cloud Memory} {group : String} {count : Nat} {t : NodeTemplate}

private theorem run_launch (h : w.service.Regular) (hw : w.interventions = [])
    (hfits : (Task.createNodes group count t).Fits mgr w.service)
    (hp : mgr.client.poll.Patient w.service.pollsUntilDone) {report : LaunchReport} {after : World Cloud Memory}
    (hlaunch : mgr.launch group count t w = (.ok report, after)) :
    after.service.Regular ∧ after.interventions = [] ∧
      after.service.pollsUntilDone = w.service.pollsUntilDone ∧ ∀ i ∈ report.created, after.service.Hosts group t i := by
  obtain ⟨r, after', hrun, hregular, hhosts⟩ := h.launch hw hfits.1 hfits.2 hp
  obtain ⟨hw', hcontinues⟩ := mgr.proceeds_launch group count t w hw
  rw [hlaunch] at hrun hw' hcontinues
  obtain ⟨rfl, rfl⟩ := Prod.mk.inj hrun
  exact ⟨hregular, hw', hcontinues.polls, hhosts report rfl⟩

/-- Whatever a template asks for, the boot disks of a launch are there after it, and lost when its nodes are destroyed:
one after the other in any order, or as a group. -/
theorem launch_loses_boot_disks (hreached : w.service.Reached) (hw : w.interventions = [])
    (hfits : (Task.createNodes group count t).Fits mgr w.service)
    (hp : mgr.client.poll.Patient w.service.pollsUntilDone)
    (hp' : destroyer.client.poll.Patient w.service.pollsUntilDone) {report : LaunchReport} {after : World Cloud Memory}
    (hlaunch : mgr.launch group count t w = (.ok report, after)) :
    (∀ i ∈ report.created, i.keepsBootDisk = !t.deleteBootDisk ∧ after.service.Hosts group t i) ∧
    (∀ ids : List NodeId, (∀ i ∈ report.created, ⟨i.zone, i.name⟩ ∈ ids) →
      ∃ final, (destroyer.destroyEach ids).run.run after = (.ok (), final) ∧
        ∀ i ∈ report.created, final.service.Vacant ⟨i.zone, i.name⟩) ∧
    ∃ teardown final, destroyer.destroyGroup group after = (.ok teardown, final) ∧ teardown.failed = [] ∧
      ∀ i ∈ report.created, i.name ∈ teardown.destroyed ∧ final.service.Vacant ⟨i.zone, i.name⟩ := by
  obtain ⟨hafter, hw', hpolls, hhosts⟩ := run_launch hreached.regular hw hfits hp hlaunch
  have hp' : destroyer.client.poll.Patient after.service.pollsUntilDone := hpolls.symm ▸ hp'
  refine ⟨fun i hi => ?_, fun ids hids => ?_, ?_⟩
  · exact ⟨Instance.keepsBootDisk_of_metadata (hhosts i hi).metadata, hhosts i hi⟩
  · obtain ⟨final, hdestroy, hgone⟩ := hafter.run_destroyEach hw' hp' ids
    refine ⟨final, hdestroy, fun i hi => ?_⟩
    have hintact : after.service.Intact ⟨i.zone, i.name⟩ := .inl ⟨i, (hhosts i hi).stored⟩
    exact (hgone _ hintact).2 (.inl (hids i hi))
  · obtain ⟨teardown, final, hdestroy, hfailed, hgone⟩ := hafter.run_destroyGroup hw' hp' group
    refine ⟨teardown, final, hdestroy, hfailed, fun i hi => ?_⟩
    exact hgone i (hhosts i hi).stored (Instance.group_of_metadata (hhosts i hi).metadata)

/-- A template that asks for the boot disks to be kept. -/
def keeping : NodeTemplate := { NodeTemplate.plain "zone-a" "f1-micro" "debian" with deleteBootDisk := false }

def blank : Memory := (Memory.empty "project").withPollsUntilDone 1

private theorem launch_keeping : ∃ report after,
    (Manager.ofClient .standard).launch "web" 1 keeping (World.start blank 0) = (.ok report, after) ∧
      report.failed = [] ∧ ∃ i, report.created = [i] ∧ i.zone = "zone-a" ∧ i.name = "web-1" := by
  let mgr := Manager.ofClient .standard
  let chosen := (mgr.chooseNames "web" 1).run.run (World.start blank 0)
  let node := mgr.launchNode (.ofTemplate "web-1" "web" (mgr.networkFor "web" keeping) keeping)
  let pool := (Pool.start mgr.concurrency [node]).runWithin 20 chosen.2
  have hchoose : chosen = (.ok ["web-1"], chosen.2) := Prod.ext (eq_ok_of_toOption (by decide +kernel)) rfl
  refine ⟨_, _, launch_of_pool (by rfl) (by decide) hchoose
    (Option.some_get (show pool.isSome = true by decide +kernel)).symm, ?_, ?_⟩
  · exact List.isEmpty_iff.1 (by decide +kernel)
  · refine (List.map_eq_singleton_iff (f := fun i : Instance => (i.zone, i.name)) (b := ("zone-a", "web-1"))).1
      (by decide +kernel) |>.imp fun i hi => ⟨hi.1, Prod.mk.inj hi.2⟩

theorem launch_loses_boot_disks_of_one :
    ∃ report after, (Manager.ofClient .standard).launch "web" 1 keeping (World.start blank 0) = (.ok report, after) ∧
      report.created.map (·.name) = ["web-1"] ∧
      (∀ i ∈ report.created, i.keepsBootDisk = !keeping.deleteBootDisk ∧ after.service.Hosts "web" keeping i) ∧
      (∀ ids : List NodeId, (∀ i ∈ report.created, ⟨i.zone, i.name⟩ ∈ ids) →
        ∃ final, ((Manager.ofClient .standard).destroyEach ids).run.run after = (.ok (), final) ∧
          ∀ i ∈ report.created, final.service.Vacant ⟨i.zone, i.name⟩) ∧
      ∃ teardown final, (Manager.ofClient .standard).destroyGroup "web" after = (.ok teardown, final) ∧
        teardown.failed = [] ∧ ∀ i ∈ report.created, i.name ∈ teardown.destroyed ∧
          final.service.Vacant ⟨i.zone, i.name⟩ := by
  obtain ⟨report, after, hlaunch, -, i, hcreated, -, hname⟩ := launch_keeping
  have hp : (Manager.ofClient .standard).client.poll.Patient blank.pollsUntilDone := PollPolicy.patient_one _
  refine ⟨report, after, hlaunch, by rw [hcreated, List.map_singleton, hname], ?_⟩
  exact launch_loses_boot_disks (.empty "project" 1) rfl ⟨by decide, by decide⟩ hp hp hlaunch

/-- The boot disk of a node is lost although it was to be kept. -/
theorem destroyNode_loses_kept_disk :
    blank.Reached ∧ keeping.deleteBootDisk = false ∧
      ∃ report after, (Manager.ofClient .standard).launch "web" 1 keeping (World.start blank 0) = (.ok report, after) ∧
        report.failed = [] ∧ report.created.map (fun i => (i.zone, i.name)) = [("zone-a", "web-1")] ∧
        after.service.has .disk (.zone "zone-a") "web-1-boot" = true ∧
        ∃ outcomes final, ((Manager.ofClient .standard).destroyNode ⟨"zone-a", "web-1"⟩).run.run after =
          (.ok outcomes, final) ∧ final.service.has .disk (.zone "zone-a") "web-1-boot" = false := by
  refine ⟨.empty "project" 1, rfl, ?_⟩
  have hp : (Manager.ofClient .standard).client.poll.Patient blank.pollsUntilDone := PollPolicy.patient_one _
  have hregular : (World.start blank 0 : World Cloud Memory).service.Regular := regular_empty "project" 1
  obtain ⟨report, after, hlaunch, hfailed, i, hcreated, hzone, hname⟩ := launch_keeping
  obtain ⟨hafter, hw', hpolls, hhosts⟩ := run_launch hregular rfl ⟨by decide, by decide⟩ hp hlaunch
  have hi : after.service.Hosts "web" keeping i := hhosts i (by rw [hcreated]; exact List.mem_singleton.2 rfl)
  obtain ⟨outcomes, final, hdestroy, hgone⟩ := hafter.run_destroyNode hw' (hpolls.symm ▸ hp) ⟨i.zone, i.name⟩
  have hvacant := (hgone ⟨i.zone, i.name⟩ (.inl ⟨i, hi.stored⟩)).2 (.inl rfl)
  have hdisk := hi.disk
  rw [hname, hzone] at hdestroy hvacant hdisk
  refine ⟨report, after, hlaunch, hfailed, by rw [hcreated, List.map_singleton, hname, hzone], hdisk, outcomes, final,
    hdestroy, ?_⟩
  unfold has
  rw [show final.service.find? .disk (.zone "zone-a") "web-1-boot" = none from hvacant.2]
  rfl

end Keeping

end Fleet
