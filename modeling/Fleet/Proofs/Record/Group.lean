import Fleet.Group
import Fleet.Proofs.Record.Reclaim

/-!
# The report of a teardown

Whatever a platform answers, the teardown of a group reports on every member and on every network of the members, once
the members have been listed (`destroyGroup_reports`). There is one exception: after the members have been taken down,
the group's own network is looked up, and a failure of that is not reported but ends the teardown
(`destroyGroup_loses_report`).
-/

namespace Fleet

variable {σ : Type}

/-- The report says of every member whether it was taken down, and of every network of theirs what became of it. -/
structure TeardownReport.Covers (report : TeardownReport) (is : List Instance) : Prop where
  members : (report.destroyed ++ report.failed.map (·.name)).Perm (is.map (·.name))
  networks : ∃ links : List String, links.Nodup ∧ (∀ i ∈ is, ∀ nic ∈ i.networkInterfaces, nic.network ∈ links) ∧
    report.shared.map (·.network) = links.map Link.name

namespace Manager

/-! ### Members -/

/-- The name of a member that was taken down. -/
private def destroyed? : Instance × Except Failure Unit → Option String
  | (i, .ok _) => some i.name
  | (_, .error _) => none

/-- The entry in a report of a member that was not taken down. -/
private def failed? : Instance × Except Failure Unit → Option FailedNode
  | (_, .ok _) => none
  | (i, .error f) => some ⟨i.name, f⟩

private theorem foldl_teardown {f : TeardownReport → Instance × Except Failure Unit → TeardownReport}
    (hok : ∀ report i u, f report (i, .ok u) = report.addSuccess i.name)
    (herror : ∀ report i x, f report (i, .error x) = report.addFailure i.name x)
    (rs : List (Instance × Except Failure Unit)) (report : TeardownReport) :
    (rs.foldl f report).destroyed = report.destroyed ++ rs.filterMap destroyed? ∧
      (rs.foldl f report).failed = report.failed ++ rs.filterMap failed? := by
  induction rs generalizing report with
  | nil => simp
  | cons r rs ih =>
    rw [List.foldl_cons]
    obtain ⟨hdestroyed, hfailed⟩ := ih (f report r)
    obtain ⟨i, x | u⟩ := r
    · rw [herror] at hdestroyed hfailed ⊢
      constructor
      · rw [List.filterMap_cons_none rfl]
        exact hdestroyed
      · simpa [TeardownReport.addFailure, failed?] using hfailed
    · rw [hok] at hdestroyed hfailed ⊢
      constructor
      · simpa [TeardownReport.addSuccess, destroyed?] using hdestroyed
      · rw [List.filterMap_cons_none rfl]
        exact hfailed

private theorem destroyed_teardownReport (rs : List (Instance × Except Failure Unit)) :
    (teardownReport rs).destroyed = rs.filterMap destroyed? := by
  unfold teardownReport
  rw [(foldl_teardown (fun _ _ _ => by rfl) (fun _ _ _ => by rfl) rs .empty).1]
  rfl

private theorem failed_teardownReport (rs : List (Instance × Except Failure Unit)) :
    (teardownReport rs).failed = rs.filterMap failed? := by
  unfold teardownReport
  rw [(foldl_teardown (fun _ _ _ => by rfl) (fun _ _ _ => by rfl) rs .empty).2]
  rfl

theorem mem_destroyed_teardownReport {rs : List (Instance × Except Failure Unit)} {n : String} :
    n ∈ (teardownReport rs).destroyed ↔ ∃ i, (i, .ok ()) ∈ rs ∧ n = i.name := by
  rw [destroyed_teardownReport, List.mem_filterMap]
  constructor
  · rintro ⟨⟨i, f | u⟩, hm, hi⟩
    · cases hi
    · cases hi
      exact ⟨i, hm, rfl⟩
  · rintro ⟨i, hm, rfl⟩
    exact ⟨_, hm, rfl⟩

theorem mem_failed_teardownReport {rs : List (Instance × Except Failure Unit)} {x : FailedNode} :
    x ∈ (teardownReport rs).failed ↔ ∃ i, (i, .error x.failure) ∈ rs ∧ x.name = i.name := by
  rw [failed_teardownReport, List.mem_filterMap]
  constructor
  · rintro ⟨⟨i, f | u⟩, hm, hx⟩
    · cases hx
      exact ⟨i, hm, rfl⟩
    · cases hx
  · rintro ⟨i, hm, hname⟩
    exact ⟨_, hm, by rw [failed?, ← hname]⟩

/-- Every member is reported on, as destroyed or as failed. -/
theorem perm_teardownReport (rs : List (Instance × Except Failure Unit)) :
    ((teardownReport rs).destroyed ++ (teardownReport rs).failed.map (·.name)).Perm (rs.map fun r => r.1.name) := by
  rw [destroyed_teardownReport, failed_teardownReport]
  induction rs with
  | nil => exact .refl _
  | cons r rs ih =>
    obtain ⟨i, f | u⟩ := r
    · -- A failure goes behind the successes.
      have hfailed : failed? (i, .error f) = some ⟨i.name, f⟩ := rfl
      rw [List.filterMap_cons_none rfl, List.filterMap_cons_some hfailed, List.map_cons, List.map_cons]
      exact List.perm_middle.trans (ih.cons i.name)
    · have hdestroyed : destroyed? (i, .ok u) = some i.name := rfl
      have hnone : ((i, .ok u) :: rs).filterMap failed? = rs.filterMap failed? := List.filterMap_cons_none rfl
      rw [List.filterMap_cons_some hdestroyed, hnone, List.map_cons, List.cons_append]
      exact ih.cons i.name

theorem always_destroyMember (mgr : Manager) (i : Instance) : (mgr.destroyMember i).Always fun a _ => a.1 = i :=
  Program.always_bind.2 (Program.always_of_forall fun _ _ => Program.always_done.2 rfl)

/-- Each of the members that are taken down side by side has a result. -/
theorem perm_destroyMembers [Service Cloud σ] (mgr : Manager) (members : List Instance) (w : World Cloud σ) :
    ((runPool mgr.concurrency (members.map mgr.destroyMember) w).1.map (·.1)).Perm members := by
  -- A platform may list one instance twice, so the members are known by their places.
  have hmembers : ∀ p ∈ members.zipIdx, (mgr.destroyMember p.1).Always fun a _ => a.1 = p.1 :=
    fun p _ => mgr.always_destroyMember p.1
  obtain ⟨es, hes, hperm, hall⟩ := runPool_of_always mgr.concurrency (nodup_zipIdx members) hmembers w
  have hsame : es.map (fun e => e.2.1) = (es.map (·.1)).map Prod.fst := by
    rw [List.map_map]
    exact List.map_congr_left hall
  rw [map_eq_map_zipIdx members, hes, List.map_map, ← List.zipIdx_map_fst 0 members]
  exact hsame ▸ hperm.map Prod.fst

/-! ### Networks -/

theorem always_reclaimAll (mgr : Manager) (excluding links : List String) :
    (mgr.reclaimAll excluding links).run.Always fun r _ =>
      ∃ os, r = .ok os ∧ os.map (·.network) = links.map Link.name := by
  induction links with
  | nil => exact Action.always_pure ⟨[], rfl, rfl⟩
  | cons link links ih =>
    refine Action.always_bind ((mgr.client.always_reclaimRecorded link excluding).mono fun r es hr => ?_)
    obtain ⟨o, rfl, ho⟩ := hr
    refine Action.always_bind (ih.mono fun r es' hr => ?_)
    obtain ⟨os, rfl, hos⟩ := hr
    exact Action.always_pure ⟨o :: os, rfl, by rw [List.map_cons, List.map_cons, ho, hos]⟩

/-- The networks of a group, when the group's own network is `own`. -/
def reclaimable (members : List Instance) (own : Option Network) : List String :=
  match own with
  | some n =>
    if (networksOf members).keys.any fun link => Link.sameResource link n.selfLink then (networksOf members).keys
    else ((networksOf members).insert n.selfLink ()).keys
  | none => (networksOf members).keys

theorem nodup_reclaimable (members : List Instance) (own : Option Network) : (reclaimable members own).Nodup := by
  unfold reclaimable
  split
  · split <;> exact OrderedMap.nodup_keys _
  · exact OrderedMap.nodup_keys _

theorem mem_reclaimable_of_mem {members : List Instance} {i : Instance} (hi : i ∈ members) {nic : NetworkInterface}
    (hnic : nic ∈ i.networkInterfaces) (own : Option Network) : nic.network ∈ reclaimable members own := by
  have hmem : nic.network ∈ (networksOf members).keys := mem_networksOf.2 ⟨i, hi, nic, hnic, rfl⟩
  unfold reclaimable
  split
  · split
    · exact hmem
    · exact OrderedMap.mem_keys_insert.2 (.inr hmem)
  · exact hmem

theorem run_groupNetworks [Service Cloud σ] (mgr : Manager) (group : String) (members : List Instance)
    (w : World Cloud σ) : (mgr.groupNetworks group members).run.run w =
      match (mgr.client.fetch? .network .global (Naming.groupNetworkName mgr.networkStem group)).run.run w with
      | (.ok own, w') => (.ok (reclaimable members own), w')
      | (.error f, w') => (.error f, w') := by
  unfold groupNetworks
  rw [Action.run_bind]
  rcases (mgr.client.fetch? .network .global (Naming.groupNetworkName mgr.networkStem group)).run.run w with
    ⟨f | own, w'⟩
  · rfl
  · rcases own with _ | n
    · rfl
    · show (if _ then _ else _ : Action (List String)).run.run w' = (.ok (if _ then _ else _), w')
      split <;> rfl

/-- What follows the teardown of the members is a report on all their networks, unless the group's own network cannot
be looked up. -/
theorem run_reclaimGroup [Service Cloud σ] (mgr : Manager) (group : String) (members : List Instance)
    (rs : List (Instance × Except Failure Unit)) (w : World Cloud σ) :
    match (mgr.client.fetch? .network .global (Naming.groupNetworkName mgr.networkStem group)).run.run w with
    | (.error f, w') => (mgr.reclaimGroup group members rs).run.run w = (.error f, w')
    | (.ok own, _) => ∃ os w', (mgr.reclaimGroup group members rs).run.run w =
        (.ok { teardownReport rs with shared := os }, w') ∧
        os.map (·.network) = (reclaimable members own).map Link.name := by
  have hnetworks := mgr.run_groupNetworks group members w
  unfold reclaimGroup
  rw [Action.run_bind, hnetworks]
  rcases (mgr.client.fetch? .network .global (Naming.groupNetworkName mgr.networkStem group)).run.run w with
    ⟨f | own, w₁⟩
  · rfl
  obtain ⟨-, -, os, hos, hnames⟩ := (mgr.always_reclaimAll (destroyedLinks rs) (reclaimable members own)).run w₁
  rcases hall : (mgr.reclaimAll (destroyedLinks rs) (reclaimable members own)).run.run w₁ with ⟨r, w₂⟩
  rw [hall] at hos
  refine ⟨os, w₂, ?_, hnames⟩
  show ((mgr.reclaimAll (destroyedLinks rs) (reclaimable members own)) >>= _).run.run w₁ = _
  rw [Action.run_bind, hall, show r = .ok os from hos]
  rfl

end Manager

/-! ### The teardown of a group -/

/-- When the members of a group have been listed, its teardown ends with a report on all of them, unless the group's
own network cannot be looked up afterwards. When they cannot be listed, nothing is changed. -/
theorem destroyGroup_reports [Service Cloud σ] (mgr : Manager) (group : String) (w : World Cloud σ) :
    match (mgr.client.list .instance (.withLabel Naming.groupKey group)).run.run w with
    | (.error f, w₁) => mgr.destroyGroup group w = (.error f, w₁) ∧
        ∃ es, w₁.record = es ++ w.record ∧ ∀ e ∈ es, e.query.isMutation = false
    | (.ok members, w₁) =>
      match (mgr.client.fetch? .network .global (Naming.groupNetworkName mgr.networkStem group)).run.run
          (runPool mgr.concurrency (members.map mgr.destroyMember) w₁).2 with
      | (.error f, w₂) => mgr.destroyGroup group w = (.error f, w₂)
      | (.ok _, _) => ∃ report w', mgr.destroyGroup group w = (.ok report, w') ∧ report.Covers members := by
  unfold Manager.destroyGroup
  obtain ⟨es, hes, hlist⟩ := (mgr.client.always_list .instance (.withLabel Naming.groupKey group)).run w
  rcases hlisted : (mgr.client.list .instance (.withLabel Naming.groupKey group)).run.run w with ⟨f | members, w₁⟩
  · rw [hlisted] at hes
    refine ⟨rfl, es, hes, fun e he => ?_⟩
    rw [hlist e he]
    rfl
  have hperm := mgr.perm_destroyMembers members w₁
  have hreclaim := mgr.run_reclaimGroup group members (runPool mgr.concurrency (members.map mgr.destroyMember) w₁).1
    (runPool mgr.concurrency (members.map mgr.destroyMember) w₁).2
  simp only
  rcases hlookup : (mgr.client.fetch? .network .global (Naming.groupNetworkName mgr.networkStem group)).run.run
    (runPool mgr.concurrency (members.map mgr.destroyMember) w₁).2 with ⟨f | own, w₂⟩
  · rw [hlookup] at hreclaim
    simp only [hreclaim]
  · rw [hlookup] at hreclaim
    obtain ⟨os, w₃, hrun, hnames⟩ := hreclaim
    simp only [hrun]
    refine ⟨_, _, rfl, ?_, Manager.reclaimable members own, Manager.nodup_reclaimable members own, ?_, hnames⟩
    · refine (Manager.perm_teardownReport _).trans ?_
      have hmap := hperm.map (·.name)
      rwa [List.map_map] at hmap
    · exact fun i hi nic hnic => Manager.mem_reclaimable_of_mem hi hnic own

/-- The teardown of a group, by what its members and their pool have come to. -/
theorem destroyGroup_of_pool [Service Cloud σ] {mgr : Manager} {group : String} {w w₁ : World Cloud σ}
    {members : List Instance} {n : Nat} {pooled : List (Instance × Except Failure Unit) × World Cloud σ}
    (hlist : (mgr.client.list .instance (.withLabel Naming.groupKey group)).run.run w = (.ok members, w₁))
    (hpool : (Pool.start mgr.concurrency (members.map mgr.destroyMember)).runWithin n w₁ = some pooled) :
    mgr.destroyGroup group w =
      match (mgr.reclaimGroup group members pooled.1).run.run pooled.2 with
      | (.error f, w') => (.error f, w')
      | (.ok report, w') => (.ok { report with durationMs := w'.now - w.now }, w') := by
  have hrun := runPool_of_runWithin hpool
  unfold Manager.destroyGroup
  rcases hreclaim : (mgr.reclaimGroup group members pooled.1).run.run pooled.2 with ⟨f | report, w'⟩
  · simp only [hlist, hrun, hreclaim]
  · simp only [hlist, hrun, hreclaim]

/-- One member is taken down, then the group's own network cannot be looked up. -/
def Script.forgetful : Script := .ofReplies
  [.resources [.instance (Script.node "zone-a" "web-1" "default" "web-1-boot")], .accept, .progress .done [],
    .accept, .progress .done [], .failure (.rejected .quotaExceeded "quota")]

/-- The teardown may fail after a member has been taken down. -/
theorem destroyGroup_loses_report :
    ((Manager.ofClient .standard).destroyGroup "web" (World.start Script.forgetful 0)).1.toOption = none ∧
      hasDeleted .instance
        ((Manager.ofClient .standard).destroyGroup "web" (World.start Script.forgetful 0)).2.record = true := by
  let mgr := Manager.ofClient .standard
  let node := Script.node "zone-a" "web-1" "default" "web-1-boot"
  let listing := (mgr.client.list .instance (.withLabel Naming.groupKey "web")).run.run (World.start Script.forgetful 0)
  let pool := (Pool.start mgr.concurrency [mgr.destroyMember node]).runWithin 2 listing.2
  have hlisted : listing = (.ok [node], listing.2) := Prod.ext (eq_ok_of_toOption (by decide +kernel)) rfl
  rw [destroyGroup_of_pool hlisted (Option.some_get (show pool.isSome = true by decide +kernel)).symm]
  decide +kernel

end Fleet
