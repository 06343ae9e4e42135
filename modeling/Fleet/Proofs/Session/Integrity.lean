import Fleet.Proofs.Client.Conforming
import Fleet.Proofs.Conduct.Pool
import Fleet.Proofs.Launch.Run
import Fleet.Proofs.Memory.Rules
import Fleet.Proofs.Memory.Wiring
import Fleet.Proofs.Record.Phases
import Fleet.Proofs.Session.Basic

/-!
# References stay in order

Whatever is made to go wrong before and during the calls of managers, nothing that is stored refers to something that
is not (`reachable_grounded`). The platform itself sees to that when something is deleted and when an instance is
created; only the network of a new firewall it does not look for. The rules of the session do: while nodes are launched,
no network goes (`wiringRules`), and so a network that has been ensured is still there when its firewall is created.
-/

namespace Fleet

open Memory Regime

/-- The network links of instances and firewalls and the boot disk links of instances are those of stored resources. -/
structure Memory.Grounded (m : Memory) : Prop where
  network : ∀ k i, m.resources.find? k = some (.instance i) → ∀ nic ∈ i.networkInterfaces,
    ∃ k' n, m.resources.find? k' = some (.network n) ∧ nic.network = n.selfLink
  boot_disk : ∀ k i, m.resources.find? k = some (.instance i) →
    ∃ a, i.bootDisk? = some a ∧ ∃ k' d, m.resources.find? k' = some (.disk d) ∧ a.source = d.selfLink
  firewall : ∀ k f, m.resources.find? k = some (.firewall f) →
    ∃ k' n, m.resources.find? k' = some (.network n) ∧ f.network = n.selfLink

theorem Memory.Canonical.grounded {m : Memory} (h : m.Canonical) : m.Grounded where
  network := h.instance_network
  boot_disk k i hi := by
    obtain ⟨a, ha⟩ := h.boot_disk k i hi
    obtain ⟨k', d, hd, -, hlink⟩ := h.instance_disk k i hi a (List.mem_of_find?_eq_some ha)
    exact ⟨a, ha, k', d, hd, hlink⟩
  firewall := h.firewall_network

/-- The name of the network of a launch has no slash. -/
def Task.Plain (mgr : Manager) : Task → Prop
  | .createNodes group _ t => '/' ∉ (mgr.networkFor group t).toList
  | _ => True

/-- What can be reached from an empty platform by putting nodes there, by making things go wrong and by calls of
managers, while further things are made to go wrong and the signal to cancel may be set. -/
inductive Memory.Reachable : Memory → Prop
  | empty (project : String) (polls : Nat) : Reachable ((Memory.empty project).withPollsUntilDone polls)
  | seedNode {m : Memory} (h : Reachable m) (zone : String) {name network : String} (group : String)
    (hname : '/' ∉ name.toList) (hnetwork : '/' ∉ network.toList) : Reachable (m.seedNode zone name network group).2
  | disturb {m : Memory} (h : Reachable m) (f : Fault) : Reachable (f.apply m)
  | perform {w : World Cloud Memory} (h : Reachable w.service) (hw : ∀ e ∈ w.interventions, ∃ f : Fault, e.2 = f.apply)
    {mgr : Manager} {task : Task} (ht : task.Plain mgr) : Reachable (mgr.perform task w).service

/-! ### The rules -/

/-- Networks and firewalls stay. -/
def Stays (s s' : Stock) : Prop :=
  ∀ k r, r.kind = .network ∨ r.kind = .firewall → s.find? k = some r → s'.find? k = some r

/-- What the programs promise each other: the platform stays wired, and networks and firewalls stay unless `closed`. -/
def wiringRules (m₀ : Memory) (ι : Type) (closed : Prop) : Rules ι where
  project := m₀.project
  polls := m₀.pollsUntilDone
  steady := False
  tame := False
  codes _ := True
  inv s := ({ m₀ with resources := s } : Memory).Wired
  keeps _ s s' := ¬ closed → Stays s s'
  respects _ _ := True
  keeps_refl _ _ _ _ _ _ hr := hr
  keeps_trans _ _ _ _ h h' hc k r hk hr := h' hc k r hk (h hc k r hk hr)
  respects_refl _ := trivial

abbrev wiring (m₀ : Memory) (ι : Type) (closed : Prop) : Regime ι := (wiringRules m₀ ι closed).regime

variable {m₀ m : Memory} {ι : Type} {i : ι} {closed : Prop} {c : Client}

theorem patient_wiring (c : Client) : (wiring m₀ ι closed).Patient c := fun h => h.elim

private theorem holds_of_wired (h : m.Wired) : (wiringRules m ι closed).Holds m :=
  ⟨h.canonical.keyed, h, rfl, rfl, fun _ _ _ => trivial, fun hs => hs.elim, fun ht => ht.elim, fun ht => ht.elim⟩

private theorem wired_of_holds (hm : (wiringRules m₀ ι closed).Holds m) : m.Wired :=
  Wired.of_resources_eq hm.store rfl hm.project

section Allowed

variable (hm : (wiringRules m₀ ι closed).Holds m)

include hm

private theorem allows_of_wired {m' : Memory} (hc : m.Continues m') (hw : m'.Wired)
    (hstays : ¬ closed → Stays m.resources m'.resources) : (wiring m₀ ι closed).Allows i m m' := by
  refine Rules.allows hm hc hw.canonical.keyed ?_ (fun ht => ht.elim) trivial fun _ _ => hstays
  exact hw.of_resources_eq rfl (hc.project.trans hm.project).symm

private theorem allows_retagged {k : ResourceKey} {j : Instance} {t : Tags} {m' : Memory}
    (hj : m.resources.find? k = some (.instance j)) (hre : m.Retagged k j t m') :
    (wiring m₀ ι closed).Allows i m m' := by
  refine allows_of_wired hm hre.toContinues ((wired_of_holds hm).retagged hj hre) fun _ k' r hkind hr => ?_
  refine hre.find?_of_kind_ne hj hr ?_
  rcases hkind with hkind | hkind <;> simp [hkind]

private theorem allows_seed {r : Resource} (hnew : m.resources.find? r.key = none) (hw : (m.seed r).Wired) :
    (wiring m₀ ι closed).Allows i m ((m.log (.insert r.kind r.name)).seed r) := by
  refine allows_of_wired hm (continues_seed m _ r) (hw.of_resources_eq rfl rfl) fun _ k s _ hs => ?_
  show (m.resources.insert r.key r).find? k = some s
  rw [OrderedMap.find?_insert, if_neg]
  · exact hs
  · rintro rfl
    rw [hnew] at hs
    exact absurd hs (by simp)

end Allowed

/-- What leaves a wired platform when it is new and nothing that it needs is missing may be created at any time. -/
private theorem permits_create_of_wired {r : Resource} (h : ∀ m : Memory, m.Wired → m.project = m₀.project →
    m.resources.find? r.key = none → m.missingReference? r = none → (m.seed r).Wired) :
    (wiring m₀ ι closed).Permits i (.create r) := by
  intro m hm
  rcases m.apply_create r with ⟨-, ha⟩ | ⟨-, k, -, ha⟩ | ⟨hn, hmissing, ha⟩ <;> rw [ha]
  · exact allows_of_quiet hm (.refl m)
  · exact allows_of_quiet hm (.refl m)
  · exact allows_seed hm hn (h m (wired_of_holds hm) hm.project hn hmissing)

private theorem permits_delete_of (k : ResourceKey) (hk : k.1 = .network ∨ k.1 = .firewall → closed) :
    (wiring m₀ ι closed).Permits i (.delete k) := by
  intro m hm
  rcases m.apply_delete k with ⟨-, ha⟩ | ⟨r, u, -, -, ha⟩ | ⟨r, hr, hu, ha⟩ <;> rw [ha]
  · exact allows_of_quiet hm (.refl m)
  · exact allows_of_quiet hm (.refl m)
  · refine allows_of_wired hm (m.continues_removeWith k r) ((wired_of_holds hm).removeWith hr hu) ?_
    -- Besides the resource itself only disks go.
    intro hopen j s hkind hs
    have hs' : s.kind = j.1 := hm.keyed.kind_eq hs
    rw [find?_removeWith, if_neg]
    · exact hs
    · rintro (rfl | htakes)
      · exact hopen (hk (hs' ▸ hkind))
      · rw [kind_of_takesAlong htakes] at hs'
        rw [hs'] at hkind
        rcases hkind with hkind | hkind <;> cases hkind

/-! ### Launching -/

section Launching

variable (hopen : ¬ closed) {s : NodeSpec}

private theorem stable_of_stays {k : ResourceKey} {r : Resource} (hopen : ¬ closed)
    (hkind : r.kind = .network ∨ r.kind = .firewall) :
    (wiring m₀ ι closed).Stable i fun m => m.resources.find? k = some r :=
  fun _ _ _ _ hkeeps h => hkeeps.store hopen k r hkind h

private theorem does_ensure_network (hslash : '/' ∉ s.network.toList) :
    (wiring m₀ ι closed).Does i (fun _ => True) (c.ensure .network .global s.network (.network s.networkSpec))
      (fun n m => m.resources.find? (resourceKey .network .global s.network) = some (.network n))
      (fun _ _ => True) := by
  have hpermits : ∀ r, Makes m₀.project .global (.network s.networkSpec) r →
      (wiring m₀ ι closed).Permits i (.create r) := by
    rintro r ⟨m, hproject, rfl⟩
    refine permits_create_of_wired fun m' hm' hproject' hn _ => hm'.create (.inl rfl) hslash ?_ hn
    exact selfLink_congr (hproject.trans hproject'.symm) .network .global s.network
  exact does_ensure_permitted (patient_wiring c) hpermits

include hopen

/-- The network of a new firewall has been found before, and it stays. -/
private theorem does_ensure_firewall (hslash : '/' ∉ s.network.toList) (n : Network) :
    (wiring m₀ ι closed).Does i
      (fun m => m.resources.find? (resourceKey .network .global s.network) = some (.network n))
      (c.ensure .firewall .global s.firewallName (.firewall (s.firewallSpec n)))
      (fun _ _ => True) (fun _ _ => True) := by
  have hsharing : (wiring m₀ ι closed).Sharing i
      (fun m => m.resources.find? (resourceKey .network .global s.network) = some (.network n)) .global
      (.firewall (s.firewallSpec n)) (fun _ _ => True) :=
    { fits := fun h => (by cases h)
      self_contained := by
        rintro m r ⟨m', -, rfl⟩
        rfl
      stable := stable_of_stays hopen (.inl rfl)
      still_failed := fun _ => still_true
      stays := fun r m m' hm _ hkeeps hr => hkeeps.store hopen _ r (.inr (hm.keyed.kind_eq hr)) hr
      effect := by
        rintro m r hm hn ⟨m', hproject, rfl⟩ - hnew
        have hwired := wired_of_holds hm
        have hnetwork : m.HasNetwork n.selfLink := hwired.canonical.hasNetwork hn
        have hself := selfLink_congr (hproject.trans hm.project.symm) .firewall .global s.firewallName
        refine ⟨allows_seed hm hnew (hwired.create_firewall ?_ hself hnetwork hnew), ?_⟩
        · exact Naming.slash_not_mem_firewallName hslash _
        refine (OrderedMap.find?_insert _ _ _ _).trans ((if_neg fun hk => ?_).trans hn)
        exact absurd (congrArg (·.1) hk) (by simp [resourceKey, Resource.key, Resource.kind, materialize])
      ordered := fun _ _ _ _ _ _ _ _ _ _ => trivial
      given_up := fun _ _ _ _ _ _ => trivial }
  exact (does_ensure (patient_wiring c) hsharing).conseq (fun _ _ h => h) (fun _ _ _ _ => trivial)
    fun _ _ _ _ => trivial

omit hopen in
private theorem does_create_disk (hname : '/' ∉ s.name.toList) :
    (wiring m₀ ι closed).Does i (fun _ => True) (c.create .disk (.zone s.zone) (.disk s.diskSpec))
      (fun d _ => d.selfLink = (m₀.ownDisk s.zone s.name).source ∧ True) (fun _ _ => True) := by
  have hpermits : ∀ r, Makes m₀.project (.zone s.zone) (.disk s.diskSpec) r →
      (wiring m₀ ι closed).Permits i (.create r) := by
    rintro r ⟨m, hproject, rfl⟩
    refine permits_create_of_wired fun m' hm' hproject' hn _ =>
      hm'.create (.inr rfl) (Naming.slash_not_mem_bootDiskName hname) ?_ hn
    exact selfLink_congr (hproject.trans hproject'.symm) .disk (.zone s.zone) s.bootDiskName
  refine (does_create_permitted (patient_wiring c) hpermits).conseq (fun _ _ h => h)
    (fun d m hm hd => ⟨?_, trivial⟩) fun _ _ _ h => h
  -- What is stored under the key has its name and zone, and the link that belongs to them.
  have hkey := hm.keyed _ _ hd
  have hself : d.selfLink = m.selfLink .disk (.zone d.zone) d.name := (wired_of_holds hm).canonical.selfLink _ _ hd
  have hzone : d.zone = s.zone := Scope.zone.inj (congrArg (·.2.1) hkey)
  have hdisk : d.name = Naming.bootDiskName s.name := congrArg (·.2.2) hkey
  rw [hself, hzone, hdisk]
  exact selfLink_congr hm.project .disk (.zone s.zone) _

omit hopen in
private theorem conforms_create_instance (hname : '/' ∉ s.name.toList) {n : Network} {d : Disk} {network : String}
    (hnetwork : '/' ∉ network.toList) (hn : n.selfLink = m₀.selfLink .network .global network)
    (hd : d.selfLink = (m₀.ownDisk s.zone s.name).source) :
    (wiring m₀ ι closed).Conforms i (c.create .instance (.zone s.zone) (.instance (s.instanceSpec n d))) := by
  have hpermits : ∀ r, Makes m₀.project (.zone s.zone) (.instance (s.instanceSpec n d)) r →
      (wiring m₀ ι closed).Permits i (.create r) := by
    rintro r ⟨m, hproject, rfl⟩
    refine permits_create_of_wired fun m' hm' hproject' hnew hmissing => ?_
    refine hm'.create_instance hname ?_ ?_ ?_ hnew hmissing
    · exact selfLink_congr (hproject.trans hproject'.symm) .instance (.zone s.zone) s.name
    · show [(⟨d.selfLink, true, true⟩ : AttachedDisk)] = _
      rw [hd, ownDisk_congr hproject'.symm]
      rfl
    · intro nic hnic
      obtain rfl := List.mem_singleton.1 hnic
      exact ⟨network, hnetwork, hn.trans (selfLink_congr hproject'.symm .network .global network)⟩
  exact (does_create_permitted (patient_wiring c) hpermits).conforms

private theorem conforms_createNode (hname : '/' ∉ s.name.toList) (hslash : '/' ∉ s.network.toList) :
    (wiring m₀ ι closed).Conforms i (c.createNode s) := by
  refine (does_ensure_network hslash).bind fun n => ⟨fun x t hx hstored => ?_⟩
  -- From here on the link of the network is known, although the network may go once the firewall is there.
  have hn : n.selfLink = m₀.selfLink .network .global n.name :=
    ((wired_of_holds hx).canonical.selfLink _ (.network n) hstored).trans (selfLink_congr hx.project _ _ _)
  have hnetwork : '/' ∉ n.name.toList := (wired_of_holds hx).canonical.no_slash _ (.network n) hstored
  refine Does.obeys (A := fun m => m.resources.find? (resourceKey .network .global s.network) = some (.network n)) ?_
    x t hx hstored
  refine (does_ensure_firewall hopen hslash n).bind fun _ => ?_
  refine (does_create_disk hname).bind fun d => does_and fun hd => ?_
  refine (conforms_create_instance hname hnetwork hn hd).bind fun v => ?_
  exact does_setTags_permitted (patient_wiring c) (fun _ _ _ _ hm hj hre => allows_retagged hm hj hre) _

private theorem obeys_launchNode {mgr : Manager} (hname : '/' ∉ s.name.toList) (hslash : '/' ∉ s.network.toList)
    {x : Memory × (Nat → Option ι)} {t : Nat} (hx : (wiringRules m₀ ι closed).Holds x.1) :
    (mgr.launchNode s).Obeys (wiring m₀ ι closed).conduct i
      (fun _ y _ => (wiringRules m₀ ι closed).Holds y.1) x t := by
  have hdiscard : (wiring m₀ ι closed).Conforms i (mgr.discardPartial s) := by
    refine conforms_discardPartial patient_wiring (fun kind scope name hkind => permits_delete_of _ fun h => ?_) s
    rcases hkind with rfl | rfl <;> rcases h with h | h <;> cases h
  intro stop _
  cases stop with
  | true => exact hx
  | false =>
    simp only [Bool.false_eq_true, if_false]
    have hcreate := (conforms_createNode (i := i) (c := mgr.client) hopen hname hslash).obeys x t hx trivial
    refine Program.obeys_bind.2 (hcreate.mono fun r y s hy => ?_)
    rcases r with f | v
    · exact Program.obeys_bind.2 ((hdiscard.obeys y s hy.1 trivial).mono fun _ _ _ hz => hz.1)
    · exact hy.1

end Launching

/-! ### Running -/

/-- The platform is wired, and nothing comes from outside but faults. -/
private structure Secure (w : World Cloud Memory) : Prop where
  wired : w.service.Wired
  faults : ∀ e ∈ w.interventions, ∃ f : Fault, e.2 = f.apply

private theorem bounds_wiring : (wiring m₀ ι closed).conduct.Bounds id
    (fun m m' => (wiringRules m₀ ι closed).Holds m → (wiringRules m₀ ι closed).Holds m')
    (fun g => ∃ f : Fault, g = f.apply) := by
  refine Regime.bounds fun g hg m hm => ?_
  obtain ⟨f, rfl⟩ := hg
  exact Rules.tolerates_fault id id (fun _ _ => trivial) hm

variable {w : World Cloud Memory}

private theorem Secure.does (hw : Secure w) {α : Type} {a : Action α} {B : α → Memory → Prop}
    {E : Failure → Memory → Prop} (h : (wiring w.service Unit True).Does () (fun _ => True) a B E) :
    Secure (a.run.run w).2 ∧ Ends B E (a.run.run w).1 (a.run.run w).2.service := by
  obtain ⟨hw', -, hinv, hends⟩ := h.run bounds_wiring ⟨hw.faults, .inr trivial⟩ (holds_of_wired hw.wired) trivial
  exact ⟨⟨wired_of_holds hinv, hw'.from_outside⟩, hends⟩

/-- A program that conforms leaves the platform secure. -/
private theorem Secure.run (hw : Secure w) {α : Type} {a : Action α}
    (h : (wiring w.service Unit True).Conforms () a) : Secure (a.run.run w).2 := (hw.does h).1

private theorem Secure.runPool (hw : Secure w) {α : Type} (width : Nat) {names : List ι} (hnames : names.Nodup)
    {program : ι → Program Cloud α} (h : ∀ i ∈ names, ∀ x t, (wiringRules w.service ι closed).Holds x.1 →
      (program i).Obeys (wiring w.service ι closed).conduct i
        (fun _ y _ => (wiringRules w.service ι closed).Holds y.1) x t) :
    Secure (Fleet.runPool width (names.map program) w).2 := by
  have hholds : (wiringRules w.service ι closed).Holds w.service := holds_of_wired hw.wired
  have hobeys : ∀ i ∈ names, ∀ y s, (wiring w.service ι closed).conduct.drift i (w.service, fun _ => none) y →
      (program i).Obeys (wiring w.service ι closed).conduct i
        (fun _ z _ => (wiringRules w.service ι closed).Holds z.1) y s :=
    fun i hi y s hd => h i hi y s (hd hholds).inv
  obtain ⟨hw', hT, -⟩ := runPool_of_obeys bounds_wiring (fun _ _ _ _ _ _ hx hd _ => (hd hx).inv) width hnames (w := w)
    ⟨hw.faults, .inr trivial⟩ hobeys
  exact ⟨wired_of_holds (hT hholds), hw'.from_outside⟩

private theorem permits_delete_closed (k : ResourceKey) : (wiring m₀ ι True).Permits i (.delete k) :=
  permits_delete_of k fun _ => trivial

section Tasks

variable (hw : Secure w) {mgr : Manager}

include hw

private theorem Secure.reclaimNetwork (name : String) : Secure ((mgr.client.reclaimNetwork name).run.run w).2 :=
  hw.run (conforms_reclaimNetwork patient_wiring permits_delete_closed name)

private theorem Secure.launch {group : String} {count : Nat} {t : NodeTemplate}
    (hslash : '/' ∉ (mgr.networkFor group t).toList) : Secure (mgr.launch group count t w).2 := by
  have hchoose := hw.does (E := fun _ _ => True) (does_chooseNames mgr group count still_true)
  refine Manager.after_launch hw (fun f w' hfailed => ?_) fun names w' rs w'' hgroup hchosen hpool => ?_
  · rw [hfailed] at hchoose
    exact hchoose.1
  · rw [hchosen] at hchoose
    obtain ⟨hw', -, hnames⟩ := hchoose
    have hnodup : names.Nodup := hnames ▸ Naming.nodup_nextNodeNames _ _ _
    have hplain : ∀ n ∈ names, '/' ∉ n.toList := fun n hn =>
      Naming.slash_not_mem_nextNodeNames (Naming.slash_not_mem_of_group hgroup) (hnames ▸ hn)
    have hobeys : ∀ n ∈ names, ∀ x s, (wiringRules w'.service String False).Holds x.1 →
        (mgr.launchNode (.ofTemplate n group (mgr.networkFor group t) t)).Obeys
          (wiring w'.service String False).conduct n
          (fun _ y _ => (wiringRules w'.service String False).Holds y.1) x s :=
      fun n hn x s hx => obeys_launchNode id (hplain n hn) hslash hx
    have hnodes := hw'.runPool mgr.concurrency hnodup hobeys
    rw [hpool] at hnodes
    rcases (run_reclaimAfterLaunch (σ := Memory) mgr (mgr.networkFor group t) (Manager.launchReport rs) w'').2 with
      ⟨-, h⟩ | ⟨-, h⟩ <;> rw [h]
    · exact hnodes
    · exact hnodes.reclaimNetwork _

private theorem Secure.destroyGroup (group : String) : Secure (mgr.destroyGroup group w).2 := by
  have hlist := hw.run (conforms_list (c := mgr.client) .instance (.withLabel Naming.groupKey group))
  refine Manager.after_destroyGroup (fun f w' hfailed => ?_) fun members w' rs w'' hlisted hpool => ?_
  · rwa [hfailed] at hlist
  · rw [hlisted] at hlist
    -- Each member is known by its place in the list.
    have hobeys : ∀ e ∈ members.zipIdx, ∀ x t, (wiringRules w'.service (Instance × Nat) True).Holds x.1 →
        (mgr.destroyMember e.1).Obeys (wiring w'.service (Instance × Nat) True).conduct e
          (fun _ y _ => (wiringRules w'.service (Instance × Nat) True).Holds y.1) x t := by
      intro e _ x t hx
      have hdestroy : (wiring w'.service (Instance × Nat) True).Conforms e (mgr.client.destroy e.1) :=
        conforms_destroy patient_wiring permits_delete_closed e.1
      exact Program.obeys_bind.2 ((hdestroy.obeys x t hx trivial).mono fun _ _ _ hy => hy.1)
    have hmembers := hlist.runPool mgr.concurrency (nodup_zipIdx members) hobeys
    rw [← map_eq_map_zipIdx members mgr.destroyMember, hpool] at hmembers
    exact hmembers.run (conforms_reclaimGroup patient_wiring permits_delete_closed group members rs)

private theorem Secure.perform {task : Task} (ht : task.Plain mgr) : Secure (mgr.perform task w) := by
  cases task with
  | createNodes group count t => exact hw.launch ht
  | destroyNode id => exact hw.run (conforms_destroyNode patient_wiring permits_delete_closed id)
  | destroyGroup group => exact hw.destroyGroup group
  | reclaimNetwork name => exact hw.reclaimNetwork name

end Tasks

/-! ### Whatever is reached -/

theorem Memory.Reachable.wired (h : m.Reachable) : m.Wired := by
  induction h with
  | empty project polls => exact wired_empty project polls
  | seedNode _ zone group hname hnetwork ih => exact ih.seedNode zone group hname hnetwork
  | disturb _ f ih => exact ih.of_resources_eq (f.disturbed _).resources (f.disturbed _).project
  | perform _ hw ht ih => exact (Secure.perform ⟨ih, hw⟩ ht).wired

/-- Whatever goes wrong, every network link and every boot disk link is that of a stored resource. -/
theorem reachable_grounded {m : Memory} (h : m.Reachable) : m.Grounded := h.wired.canonical.grounded

/-- A platform with one node, on which an answer is going to get lost. -/
def lossy : Memory :=
  (Fault.dropInsert "web-1").apply
    (((Memory.empty "project").withPollsUntilDone 2).seedNode "zone-a" "db-1" "backend" "db").2

/-- Two more nodes are launched, and an operation fails. -/
def roughlyLaunched : Memory :=
  ((Manager.ofClient .standard).perform (.createNodes "web" 2 (.plain "zone-a" "f1-micro" "debian"))
    ⟨lossy, 0, [], [(700, (Fault.failOperation "web-2" .quotaExceeded "quota").apply)], none, none⟩).service

/-- Then the group is destroyed although fetches do not get through. -/
def roughlyDestroyed : Memory :=
  ((Manager.ofClient .standard).perform (.destroyGroup "web")
    (.start ((Fault.failFetches 2).apply roughlyLaunched) 0)).service

theorem reachable_grounded_of_roughly : roughlyDestroyed.Reachable ∧ roughlyDestroyed.Grounded := by
  have hlossy : lossy.Reachable :=
    .disturb (.seedNode (.empty "project" 2) "zone-a" "db" (by decide) (by decide)) (.dropInsert "web-1")
  have hlaunched : roughlyLaunched.Reachable := by
    refine .perform hlossy (fun e he => ?_) ?_
    · obtain rfl := List.mem_singleton.1 he
      exact ⟨.failOperation "web-2" .quotaExceeded "quota", rfl⟩
    · show '/' ∉ ((Manager.ofClient .standard).networkFor "web" (.plain "zone-a" "f1-micro" "debian")).toList
      decide
  have hdestroyed : roughlyDestroyed.Reachable := by
    refine .perform (hlaunched.disturb (.failFetches 2)) (fun e he => ?_) ?_
    · exact absurd he (by simp [World.start])
    · trivial
  exact ⟨hdestroyed, reachable_grounded hdestroyed⟩

end Fleet
