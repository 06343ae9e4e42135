import Fleet.Proofs.Conduct.Pool
import Fleet.Proofs.Launch.Node
import Fleet.Proofs.Launch.Report

/-!
# Launches as a whole

A launch chooses names that are not taken (`does_chooseNames`), brings up the nodes side by side
(`Launch.run_nodes`), and in the end may take away the network again (`launch_eq`).
-/

namespace Fleet

open Memory Regime

/-! ### The choice of names -/

private theorem names_listed {m : Memory} (hm : m.WellKeyed) (group : String) (count : Nat) :
    Naming.nextNodeNames group ((listed m .instance (.withNameStart (group ++ "-"))).map (·.name)) count =
      Naming.nextNodeNames group (m.namesOf .instance) count := by
  rw [← Naming.nextNodeNames_filter group (m.namesOf .instance)]
  have hnames : (listed m .instance (.withNameStart (group ++ "-"))).map (·.name) =
      (m.namesOf .instance).filter fun n => (group ++ "-").toList.isPrefixOf n.toList := by
    have hname : ∀ e ∈ m.resources.entries, e.2.name = e.1.2.2 := by
      intro e he
      exact hm.name_eq (OrderedMap.mem_entries_iff.1 he)
    have hadmits (r : Resource) : (Filter.withNameStart (group ++ "-")).admits r =
        (group ++ "-").toList.isPrefixOf r.name.toList := by
      simp only [Filter.admits, Filter.withNameStart, Filter.any, Option.all_none, Option.all_some, Bool.true_and,
        Bool.and_true]
    simp only [listed, namesOf, OrderedMap.keys, hadmits]
    generalize m.resources.entries = es at hname
    generalize (group ++ "-").toList = start
    induction es with
    | nil => rfl
    | cons e es ih =>
      have ih := ih fun e' he' => hname e' (List.mem_cons_of_mem _ he')
      have he := hname e List.mem_cons_self
      by_cases hk : e.1.1 = .instance
      · cases hp : start.isPrefixOf e.1.2.2.toList <;> simpa [hk, hp, he] using ih
      · simpa [hk] using ih
  rw [hnames]

/-- The names that a launch chooses are those that come next in its group. -/
theorem does_chooseNames {ι : Type} {R : Regime ι} {i : ι} (mgr : Manager) (group : String) (count : Nat)
    {A : Memory → Prop} (hA : R.Still A) {E : Failure → Memory → Prop} :
    R.Does i A (mgr.chooseNames group count)
      (fun names m => A m ∧ names = Naming.nextNodeNames group (m.namesOf .instance) count) E := by
  refine (does_list mgr.client .instance (.withNameStart (group ++ "-")) hA).bind fun is => ?_
  refine does_pure fun m hm ⟨hAm, his⟩ => ⟨hAm, ?_⟩
  rw [← names_listed (R.wellKeyed hm), ← his, List.map_map]
  rfl

/-! ### The nodes side by side -/

namespace Launch

variable {l : Launch} {mgr : Manager} {F : (Memory → Memory) → Prop}

/-- All nodes of a launch are launched, one way or the other. -/
theorem run_nodes (hp : l.regime.Patient mgr.client) (hF : ∀ f, F f → ∀ m, l.Inv m → l.regime.Tolerates m (f m))
    {w : World Cloud Memory} (hw : w.Within l.regime.conduct F) (hinv : l.Inv w.service)
    (hres : w.service.resources = l.before.resources) :
    ∃ rs w', runPool mgr.concurrency (l.names.map fun n => mgr.launchNode (l.spec n)) w = (rs, w') ∧
      w'.Within l.regime.conduct F ∧ l.Inv w'.service ∧ (rs.map (·.1)).Perm l.names ∧
      ∀ a ∈ rs, l.Launched a.1 a w'.service := by
  have hstable : ∀ n a (x y : Memory × (Nat → Option String)) (t s : Nat),
      n ∈ l.names ∧ l.Inv x.1 ∧ l.Launched n a x.1 → l.regime.conduct.drift n x y → t ≤ s →
      n ∈ l.names ∧ l.Inv y.1 ∧ l.Launched n a y.1 := by
    intro n a x y t s ⟨hn, hx, hl⟩ hd _
    have hy := hd hx
    exact ⟨hn, hy.inv, stable_launched hn a x.1 y.1 hx hy.inv hy.keeps hl⟩
  -- A node starts some time after the others, which have left its own resources alone.
  have hobeys : ∀ n ∈ l.names, ∀ y s, l.regime.conduct.drift n (w.service, fun _ => none) y →
      (mgr.launchNode (l.spec n)).Obeys l.regime.conduct n
        (fun a y _ => n ∈ l.names ∧ l.Inv y.1 ∧ l.Launched n a y.1) y s := by
    intro n hn y s hd
    have hy := hd hinv
    refine (launchNode_obeys hp hn hy.inv (stable_ready hn w.service y.1 hinv hy.inv hy.keeps ⟨?_, ?_⟩)).mono
      fun _ _ _ h => ⟨hn, h⟩
    · rw [hres]
      exact l.new n hn
    · rw [hres]
  have hrun := runPool_of_obeys (Regime.bounds hF) hstable mgr.concurrency l.nodup hw hobeys
  rcases hpool : runPool mgr.concurrency (l.names.map fun n => mgr.launchNode (l.spec n)) w with ⟨rs, w'⟩
  rw [hpool] at hrun
  obtain ⟨hw', hT, g, es, hrs, hnames, hes, -⟩ := hrun
  subst hrs
  refine ⟨_, w', rfl, hw', hT hinv, ?_, fun a ha => ?_⟩
  · -- A node's result bears the name of the node.
    have hsame : es.map (fun e => e.2.1) = es.map (·.1) := List.map_congr_left fun e he => (hes e he).2.2.1
    rw [← hsame] at hnames
    rw [List.map_map]
    exact hnames
  · obtain ⟨e, he, rfl⟩ := List.mem_map.1 ha
    have hl := (hes e he).2.2
    rw [hl.1]
    exact hl

/-! ### The launch of a manager -/

/-- The launch that a manager makes on a platform. -/
def of (mgr : Manager) (group : String) (count : Nat) (t : NodeTemplate) (m : Memory) (c : Circumstances)
    (hkeyed : m.WellKeyed) (hgroup : Naming.validateGroup group = .ok ())
    (hnew : ∀ n ∈ Naming.nextNodeNames group (m.namesOf .instance) count,
      m.resources.find? (resourceKey .instance (.zone t.zone) n) = none) : Launch where
  toCircumstances := c
  before := m
  group := group
  network := mgr.networkFor group t
  template := t
  names := Naming.nextNodeNames group (m.namesOf .instance) count
  keyed := hkeyed
  nodup := Naming.nodup_nextNodeNames _ _ _
  no_slash _ h := Naming.slash_not_mem_nextNodeNames (Naming.slash_not_mem_of_group hgroup) h
  new := hnew

/-- As long as the indices of nodes are 32-bit numbers, the names that a launch chooses are new. -/
theorem new_of_bound {group : String} {count : Nat} {m : Memory}
    (hbound : count + (m.namesOf .instance).length < UInt32.size) {n : String}
    (h : n ∈ Naming.nextNodeNames group (m.namesOf .instance) count) (zone : Scope) :
    m.resources.find? (resourceKey .instance zone n) = none := by
  cases hf : m.resources.find? (resourceKey .instance zone n) with
  | none => rfl
  | some r =>
    refine absurd ?_ (Naming.nextNodeNames_fresh hbound h)
    simp only [namesOf, OrderedMap.keys, List.mem_map, List.mem_filter, beq_iff_eq]
    exact ⟨_, ⟨⟨_, OrderedMap.mem_entries_iff.2 hf, rfl⟩, rfl⟩, rfl⟩

theorem inv_before (htame : l.tame → (∀ k r, l.before.resources.find? k = some r →
      l.before.scriptedFailures.find? r.name = none) ∧
      ∀ n, l.before.lostInserts.contains n = true → l.before.scriptedFailures.find? n = none)
    (hcalm : l.calm → l.before.tagConflicts = 0 ∧ (∀ n, l.before.scriptedFailures.find? n = none) ∧
      ∀ n, l.before.lostInserts.contains n = false)
    (hsteady : l.steady → l.before.failingFetches = 0) : l.Inv l.before where
  store := store_before
  journal := by
    have hnone (k : ResourceKey) : l.created k l.before = 0 := if_neg fun h => h.2 h.1
    exact ⟨by rw [hnone]; rfl, by rw [hnone]; rfl⟩
  promise := ⟨rfl, rfl, fun ht => (htame ht).2, hcalm, hsteady⟩
  unscripted ht := (htame ht).1

end Launch

/-- What follows a launch may be nothing, or the network is reclaimed. -/
theorem run_reclaimAfterLaunch {σ : Type} [Service Cloud σ] (mgr : Manager) (network : String) (report : LaunchReport)
    (w : World Cloud σ) :
    (((mgr.reclaimAfterLaunch network report).run w).1.created = report.created ∧
      ((mgr.reclaimAfterLaunch network report).run w).1.failed = report.failed) ∧
    ((¬ (report.created = [] ∧ ∃ x ∈ report.failed, Manager.wasStarted x.failure = true) ∧
        ((mgr.reclaimAfterLaunch network report).run w).2 = w) ∨
      (report.created = [] ∧
        ((mgr.reclaimAfterLaunch network report).run w).2 = ((mgr.client.reclaimNetwork network).run.run w).2)) := by
  unfold Manager.reclaimAfterLaunch
  by_cases hc : report.created.isEmpty = true ∧ (report.failed.any fun f => Manager.wasStarted f.failure) = true
  · rw [if_pos (by simpa using hc), Program.run_bind]
    refine ⟨?_, .inr ⟨List.isEmpty_iff.1 hc.1, ?_⟩⟩ <;>
      rcases ((mgr.client.reclaimNetwork network).run.run w).1 with f | o
    · exact ⟨rfl, rfl⟩
    · exact ⟨rfl, rfl⟩
    · rfl
    · rfl
  · rw [if_neg (by simpa using hc)]
    refine ⟨⟨rfl, rfl⟩, .inl ⟨fun h => hc ⟨List.isEmpty_iff.2 h.1, List.any_eq_true.2 h.2⟩, rfl⟩⟩

section Launch

variable {mgr : Manager} {group : String} {count : Nat} {t : NodeTemplate} {F : (Memory → Memory) → Prop}

theorem launch_of_invalid {w : World Cloud Memory} (hgroup : Naming.validateGroup group ≠ .ok ()) :
    (mgr.launch group count t w).2 = w := by
  unfold Manager.launch
  split
  · rfl
  · next h => exact absurd h hgroup

theorem launch_none {w : World Cloud Memory} (hgroup : Naming.validateGroup group = .ok ()) :
    mgr.launch group 0 t w = (.ok .empty, w) := by
  unfold Manager.launch
  rw [hgroup]
  rfl

theorem launch_zero {w : World Cloud Memory} : (mgr.launch group 0 t w).2 = w := by
  unfold Manager.launch
  split
  · rfl
  · rw [if_pos rfl]

/-- A launch of at least one node, by the names that it chooses and what their pool comes to. -/
theorem launch_of_pool {names : List String} {n : Nat} {w w₁ : World Cloud Memory}
    {pooled : List (String × Except Failure Instance) × World Cloud Memory}
    (hgroup : Naming.validateGroup group = .ok ()) (hcount : count ≠ 0)
    (hchoose : (mgr.chooseNames group count).run.run w = (.ok names, w₁))
    (hpool : (Pool.start mgr.concurrency (names.map fun n =>
      mgr.launchNode (.ofTemplate n group (mgr.networkFor group t) t))).runWithin n w₁ = some pooled) :
    mgr.launch group count t w =
      let final := (mgr.reclaimAfterLaunch (mgr.networkFor group t) (Manager.launchReport pooled.1)).run pooled.2
      (.ok { final.1 with durationMs := final.2.now - w.now }, final.2) := by
  unfold Manager.launch
  simp only [hgroup, if_neg hcount, hchoose, runPool_of_runWithin hpool]

/-- A launch of at least one node brings up its nodes; what follows is `Manager.reclaimAfterLaunch`. -/
theorem launch_eq {l : Launch} {w : World Cloud Memory} {c : Circumstances} {hkeyed : w.service.WellKeyed}
    {hgroup : Naming.validateGroup group = .ok ()} {hnew}
    (hl : l = .of mgr group count t w.service c hkeyed hgroup hnew) (hcount : count ≠ 0)
    (hp : l.regime.Patient mgr.client)
    (hF : ∀ f, F f → ∀ m, l.Inv m → l.regime.Tolerates m (f m)) (hw : w.Within l.regime.conduct F)
    (hinv : l.Inv l.before) :
    ∃ rs w₁, w₁.Within l.regime.conduct F ∧ l.Inv w₁.service ∧ (rs.map (·.1)).Perm l.names ∧
      (∀ a ∈ rs, l.Launched a.1 a w₁.service) ∧
      ∃ ms, mgr.launch group count t w =
        (.ok { ((mgr.reclaimAfterLaunch l.network (Manager.launchReport rs)).run w₁).1 with durationMs := ms },
          ((mgr.reclaimAfterLaunch l.network (Manager.launchReport rs)).run w₁).2) := by
  have hbefore : l.before = w.service := by rw [hl]; rfl
  have hstill : l.regime.Still fun m => m.resources = l.before.resources := fun m m' _ hq h => hq.resources.trans h
  rw [hbefore] at hinv
  obtain ⟨hw', -, hinv', hends⟩ := (does_chooseNames (E := fun _ _ => False) (i := "") mgr group count hstill).run
    (Regime.bounds hF) hw hinv (congrArg _ hbefore.symm)
  cases hr : ((mgr.chooseNames group count).run.run w) with
  | mk r w' =>
    rw [hr] at hw' hinv' hends
    rcases r with f | names
    · exact hends.elim
    · obtain ⟨hres, hnames⟩ := hends
      have hnames : names = l.names := by
        rw [hnames, hl]
        show Naming.nextNodeNames group (namesOf w'.service .instance) count = _
        rw [namesOf, show w'.service.resources = w.service.resources from hres.trans (by rw [hbefore])]
        rfl
      -- The names that the manager chooses are those of the launch, because listing changes nothing.
      obtain ⟨rs, w₁, hrun, hw₁, hinv₁, hperm, hlaunched⟩ := l.run_nodes hp hF hw' hinv' hres
      refine ⟨rs, w₁, hw₁, hinv₁, hperm, hlaunched,
        ((mgr.reclaimAfterLaunch l.network (Manager.launchReport rs)).run w₁).2.now - w.now, ?_⟩
      have hnetwork : mgr.networkFor group t = l.network := by rw [hl]; rfl
      have hspec : (names.map fun n => mgr.launchNode (.ofTemplate n group l.network t)) =
          l.names.map fun n => mgr.launchNode (l.spec n) := by
        rw [hnames, hl]
        rfl
      unfold Manager.launch
      rw [hgroup]
      simp only [if_neg hcount, hr, hspec, hrun, hnetwork]

end Launch

end Fleet
