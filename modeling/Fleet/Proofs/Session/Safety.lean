import Fleet.Proofs.Launch.Run
import Fleet.Proofs.Record.Phases
import Fleet.Proofs.Session.Tasks

/-!
# No node loses its network

During a session, a network is deleted only while no instance is on it, and a firewall only while no instance is on
its network, whatever goes wrong (`session_fair`).
-/

namespace Fleet

open Memory Regime

variable {m₀ : Memory} {ι : Type} {i : ι} {closed : Prop}

/-! ### What is known of a watched platform -/

/-- All that was done was fair, and the rules of the session hold. -/
structure Sound (m₀ : Memory) (s : Watched) : Prop where
  holds : (sessionRules m₀ Unit True).Holds s.memory
  fair : ∀ p ∈ s.steps, Fair p.1.resources p.2.resources

/-- What holds does not depend on who is at work. -/
theorem holds_session {κ : Type} {closed' : Prop} {m : Memory} (h : (sessionRules m₀ ι closed).Holds m) :
    (sessionRules m₀ κ closed').Holds m :=
  ⟨h.keyed, h.store, h.project, h.polls, h.codes, fun hs => hs.elim, fun ht => ht.elim, fun ht => ht.elim⟩

/-- What happens from outside: something is made to go wrong, but no resource is made to seem missing. -/
def Mishap (f : Watched → Watched) : Prop := ∃ x : Fault, x.code? ≠ some .notFound ∧ f = Watched.disturb x

private theorem Sound.disturb {s : Watched} (h : Sound m₀ s) {x : Fault} (hx : x.code? ≠ some .notFound) :
    Sound m₀ (s.disturb x) := by
  refine ⟨(Rules.tolerates_fault id id (fun code hc => ?_) h.holds).inv, h.fair⟩
  rintro rfl
  exact hx hc

private theorem bounds_session :
    (session m₀ ι closed).conduct.Bounds Watched.memory (fun s s' => Sound m₀ s → Sound m₀ s') Mishap where
  isView := Watched.isView
  refl _ h := h
  trans _ _ _ h h' hs := h' (h hs)
  of_may i q s g hmay hs := by
    have hallow := hmay.2
    refine ⟨holds_session hallow.inv, fun p hp => ?_⟩
    rcases List.mem_append.1 hp with hp | hp
    · exact hs.fair p hp
    · obtain rfl := List.mem_singleton.1 hp
      exact hallow.respects
  tolerates f hf s := by
    obtain ⟨x, hx, rfl⟩ := hf
    refine ⟨fun hs => hs.disturb hx, Tolerates.drift fun hm => Rules.tolerates_fault id id (fun code hc => ?_) hm⟩
    rintro rfl
    exact hx hc

/-- An action that keeps to the rules of a session leaves a sound platform. -/
private theorem run_session {α : Type} {A : Memory → Prop} {a : Action α} {B : α → Memory → Prop}
    {E : Failure → Memory → Prop} (h : (session m₀ ι closed).Does i A a B E) {w : World Cloud Watched}
    (hw : ∀ e ∈ w.interventions, Mishap e.2) (hs : Sound m₀ w.service) (hA : A w.service.memory) :
    (∀ e ∈ (a.run.run w).2.interventions, Mishap e.2) ∧ Sound m₀ (a.run.run w).2.service ∧
      Ends B E (a.run.run w).1 (a.run.run w).2.service.memory := by
  obtain ⟨hw', hT, -, hends⟩ := h.run bounds_session ⟨hw, .inr trivial⟩ (holds_session hs.holds) hA
  exact ⟨hw'.from_outside, hT hs, hends⟩

/-! ### Single nodes and networks -/

section Alone

variable {c : Client} {mgr : Manager}

private theorem does_reclaimRecorded {excluding : List String} {link : String} (hlink : m₀.LinksNetwork link) :
    (session m₀ ι True).Does i (fun m => Excluded m₀ excluding m.resources) (c.reclaimRecorded link excluding)
      (fun _ m => Excluded m₀ excluding m.resources) (fun _ _ => True) := by
  refine (does_reclaimShared_session hlink excluding).outcome.bind fun r => ?_
  rcases r with f | o <;> exact does_pure fun _ _ h => h

private theorem does_reclaimAll {excluding links : List String} (hlinks : ∀ l ∈ links, m₀.LinksNetwork l) :
    (session m₀ ι True).Does i (fun m => Excluded m₀ excluding m.resources) (mgr.reclaimAll excluding links)
      (fun _ m => Excluded m₀ excluding m.resources) (fun _ _ => True) := by
  induction links with
  | nil => exact does_pure fun _ _ h => h
  | cons l ls ih =>
    refine (does_reclaimRecorded (hlinks l List.mem_cons_self)).bind fun o => ?_
    exact (ih fun l' hl' => hlinks l' (List.mem_cons_of_mem _ hl')).bind fun os => does_pure fun _ _ h => h

theorem linksNetwork_of_mem_networksOf {is : List Instance} (his : ∀ v ∈ is, (Resource.instance v).Tidy m₀)
    {l : String} (hl : l ∈ (networksOf is).keys) : m₀.LinksNetwork l := by
  obtain ⟨e, he, rfl⟩ := List.mem_map.1 (OrderedMap.mem_keys_ofList.1 hl)
  obtain ⟨n, hn, rfl⟩ := List.mem_map.1 he
  obtain ⟨v, hv, hn⟩ := List.mem_flatMap.1 hn
  obtain ⟨nic, hnic, rfl⟩ := List.mem_map.1 hn
  exact (his v hv).2.2 nic hnic

private theorem does_reclaimNetwork_session (name : String) :
    (session m₀ ι True).Does i (fun _ => True) (c.reclaimNetwork name) (fun _ _ => True) (fun _ _ => True) := by
  refine does_reclaimNetwork still_true (fun _ _ _ _ => trivial) fun n => ⟨fun x t hx hn => ?_⟩
  have hlink := (hx.store _ (.network n) hn.2).linksNetwork
  have hreclaim : (session m₀ ι True).Does i (fun _ => True) (c.reclaimShared n.selfLink []) (fun _ _ => True)
      (fun _ _ => True) :=
    (does_reclaimShared_session hlink []).conseq (fun _ _ _ l hl => absurd hl (by simp)) (fun _ _ _ _ => trivial)
      fun _ _ _ _ => trivial
  exact hreclaim.obeys x t hx trivial

private theorem does_destroyNode (id : NodeId) :
    (session m₀ ι True).Does i (fun _ => True) (mgr.destroyNode id) (fun _ _ => True) (fun _ _ => True) := by
  refine (does_fetch? mgr.client .instance (.zone id.zone) id.name still_true).bind fun v => ?_
  cases v with
  | none => exact does_pure fun _ _ _ => trivial
  | some v =>
    refine ⟨fun x t hx hv => Does.obeys (A := fun _ => True) ?_ x t hx trivial⟩
    have htidy := hx.store _ _ hv.2
    have hlinks : ∀ l ∈ (networksOf [v]).keys, m₀.LinksNetwork l := fun l hl =>
      linksNetwork_of_mem_networksOf (fun u hu => by rwa [List.mem_singleton.1 hu]) hl
    refine (does_destroy v).outcome.bind fun r => ?_
    rcases r with f | u
    · refine ((does_reclaimAll hlinks).pre fun m _ _ l hl => ?_).bind fun _ => does_throw fun _ _ _ => trivial
      exact absurd hl (by simp)
    · refine ((does_reclaimAll hlinks).pre fun m _ hgone l hl => ?_).bind fun _ => does_pure fun _ _ _ => trivial
      exact ⟨v, List.mem_singleton.1 hl, htidy, hgone⟩

end Alone

/-! ### Groups -/

/-- Programs that keep to the rules of a session are run side by side. -/
private theorem run_pool_session {α : Type} {Q : ι → α → Memory → Prop}
    (hQ : ∀ i a, (session m₀ ι closed).Stable i (Q i a)) (width : Nat) {names : List ι}
    (hnames : names.Nodup) {program : ι → Program Cloud α}
    (h : ∀ i ∈ names, ∀ x t, (sessionRules m₀ ι closed).Holds x.1 → (program i).Obeys (session m₀ ι closed).conduct i
      (fun a y _ => (sessionRules m₀ ι closed).Holds y.1 ∧ Q i a y.1) x t)
    {w : World Cloud Watched} (hw : ∀ e ∈ w.interventions, Mishap e.2) (hs : Sound m₀ w.service) :
    ∃ es : List (ι × α), (runPool width (names.map program) w).1 = es.map (·.2) ∧
      (∀ e ∈ (runPool width (names.map program) w).2.interventions, Mishap e.2) ∧
      Sound m₀ (runPool width (names.map program) w).2.service ∧
      ∀ e ∈ es, e.1 ∈ names ∧ Q e.1 e.2 (runPool width (names.map program) w).2.service.memory := by
  have stable : ∀ i a (x y : Memory × (Nat → Option ι)) (t s : Nat),
      (sessionRules m₀ ι closed).Holds x.1 ∧ Q i a x.1 → (session m₀ ι closed).conduct.drift i x y → t ≤ s →
      (sessionRules m₀ ι closed).Holds y.1 ∧ Q i a y.1 := by
    intro i a x y t s ⟨hx, hq⟩ hd _
    have hy := hd hx
    exact ⟨hy.inv, hQ i a x.1 y.1 hx hy.inv hy.keeps hq⟩
  have hobeys : ∀ i ∈ names, ∀ y s, (session m₀ ι closed).conduct.drift i (w.service.memory, fun _ => none) y →
      (program i).Obeys (session m₀ ι closed).conduct i
        (fun a z _ => (sessionRules m₀ ι closed).Holds z.1 ∧ Q i a z.1) y s :=
    fun i hi y s hd => h i hi y s (hd (holds_session hs.holds)).inv
  obtain ⟨hw', hT, g, es, hes, hperm, hall, -⟩ :=
    runPool_of_obeys bounds_session stable width hnames (w := w) ⟨hw, .inr trivial⟩ hobeys
  refine ⟨es, hes, hw'.from_outside, hT hs, fun e he => ⟨?_, (hall e he).2⟩⟩
  exact hperm.mem_iff.1 (List.mem_map_of_mem he)

section Group

variable {mgr : Manager} {w : World Cloud Watched}

/-- The members of a group that have been taken down are gone. -/
private theorem run_destroyMembers (mgr : Manager) (members : List Instance) (hw : ∀ e ∈ w.interventions, Mishap e.2)
    (hs : Sound m₀ w.service) :
    ∃ rs w', runPool mgr.concurrency (members.map mgr.destroyMember) w = (rs, w') ∧
      (∀ e ∈ w'.interventions, Mishap e.2) ∧ Sound m₀ w'.service ∧
      ∀ a ∈ rs, a.1 ∈ members ∧ (a.2 = .ok () → Gone a.1 w'.service.memory.resources) := by
  -- Each member is known by its place in the list.
  have hprograms : members.map mgr.destroyMember = members.zipIdx.map fun e => mgr.destroyMember e.1 :=
    map_eq_map_zipIdx members mgr.destroyMember
  have hstable : ∀ (e : Instance × Nat) (a : Instance × Except Failure Unit),
      (session m₀ (Instance × Nat) True).Stable e
        fun m => a.1 = e.1 ∧ (a.2 = .ok () → Gone e.1 m.resources) := by
    intro e a m m' hm hm' hk ⟨ha, hgone⟩
    exact ⟨ha, fun hok => (lasting_gone e.1).stable m m' hm hm' hk (hgone hok)⟩
  have hobeys : ∀ e ∈ members.zipIdx, ∀ x t, (sessionRules m₀ (Instance × Nat) True).Holds x.1 →
      (mgr.destroyMember e.1).Obeys (session m₀ (Instance × Nat) True).conduct e
        (fun a y _ => (sessionRules m₀ (Instance × Nat) True).Holds y.1 ∧
          a.1 = e.1 ∧ (a.2 = .ok () → Gone e.1 y.1.resources)) x t := by
    intro e _ x t hx
    refine Program.obeys_bind.2 (((does_destroy e.1).obeys x t hx trivial).mono fun r y s ⟨hy, hr⟩ => ?_)
    refine ⟨hy, rfl, fun hok => ?_⟩
    dsimp only at hok
    subst hok
    exact hr
  obtain ⟨es, hes, hw', hs', hall⟩ :=
    run_pool_session hstable mgr.concurrency (nodup_zipIdx members) hobeys hw hs
  rw [← hprograms] at hes hw' hs' hall
  rcases hpool : runPool mgr.concurrency (members.map mgr.destroyMember) w with ⟨rs, w'⟩
  rw [hpool] at hes hw' hs' hall
  refine ⟨rs, w', rfl, hw', hs', fun a ha => ?_⟩
  obtain rfl : rs = es.map (·.2) := hes
  obtain ⟨e, he, rfl⟩ := List.mem_map.1 ha
  obtain ⟨hmem, hfst, hgone⟩ := hall e he
  rw [hfst]
  exact ⟨List.fst_mem_of_mem_zipIdx hmem, hgone⟩

private theorem does_groupNetworks {members : List Instance}
    (hmembers : ∀ v ∈ members, (Resource.instance v).Tidy m₀) (group : String) (excluding : List String) :
    (session m₀ ι True).Does i (fun m => Excluded m₀ excluding m.resources) (mgr.groupNetworks group members)
      (fun links m => (∀ l ∈ links, m₀.LinksNetwork l) ∧ Excluded m₀ excluding m.resources) (fun _ _ => True) := by
  have hlinks : ∀ l ∈ (networksOf members).keys, m₀.LinksNetwork l := fun l hl =>
    linksNetwork_of_mem_networksOf hmembers hl
  have hstill : (session m₀ ι True).Still fun m => Excluded m₀ excluding m.resources :=
    (lasting_excluded excluding).still
  refine (does_fetch? mgr.client .network .global _ hstill).bind fun n => ?_
  cases n with
  | none => exact does_pure fun _ _ h => ⟨hlinks, h.1⟩
  | some n =>
    dsimp only
    split
    · exact does_pure fun _ _ h => ⟨hlinks, h.1⟩
    · refine does_pure fun m hm h => ⟨fun l hl => ?_, h.1⟩
      rcases OrderedMap.mem_keys_insert.1 hl with rfl | hl
      · exact (hm.store _ (.network n) h.2).linksNetwork
      · exact hlinks l hl

private theorem does_reclaimGroup (mgr : Manager) {members : List Instance}
    (hmembers : ∀ v ∈ members, (Resource.instance v).Tidy m₀) (group : String)
    (rs : List (Instance × Except Failure Unit)) :
    (session m₀ ι True).Does i (fun m => Excluded m₀ (Manager.destroyedLinks rs) m.resources)
      (mgr.reclaimGroup group members rs) (fun _ _ => True) (fun _ _ => True) := by
  refine (does_groupNetworks hmembers group _).bind fun links => does_and fun hlinks => ?_
  exact (does_reclaimAll hlinks).bind fun _ => does_pure fun _ _ _ => trivial

private theorem sound_destroyGroup (group : String) (hw : ∀ e ∈ w.interventions, Mishap e.2)
    (hs : Sound m₀ w.service) : Sound m₀ (mgr.destroyGroup group w).2.service := by
  have hdoes : (session m₀ Unit True).Does () (fun _ => True)
      (mgr.client.list .instance (.withLabel Naming.groupKey group))
      (fun is m => True ∧ is.map Resource.instance = listed m .instance (.withLabel Naming.groupKey group))
      (fun _ _ => True) := does_list mgr.client .instance _ still_true
  have hlist := run_session hdoes hw hs trivial
  refine Manager.after_destroyGroup (P := fun w => Sound m₀ w.service) (fun f w' hfailed => ?_)
    fun members w' rs w'' hlisted hpool => ?_
  · rw [hfailed] at hlist
    exact hlist.2.1
  · rw [hlisted] at hlist
    obtain ⟨hw', hs', -, hmembers⟩ := hlist
    have htidy : ∀ v ∈ members, (Resource.instance v).Tidy m₀ := by
      intro v hv
      have hmem : Resource.instance v ∈ listed w'.service.memory .instance (.withLabel Naming.groupKey group) :=
        hmembers ▸ List.mem_map_of_mem hv
      obtain ⟨k, hk, -⟩ := mem_listed.1 hmem
      exact hs'.holds.store k _ hk
    obtain ⟨rs', v'', hrun, hw'', hs'', hall⟩ := run_destroyMembers mgr members hw' hs'
    obtain ⟨rfl, rfl⟩ := Prod.mk.inj (hpool.symm.trans hrun)
    -- Only members whose teardown has ended well are left out of the count, and these are gone.
    have hexcluded : Excluded m₀ (Manager.destroyedLinks rs) w''.service.memory.resources := by
      intro l hl
      obtain ⟨⟨v, f | u⟩, ha, hl⟩ := List.mem_filterMap.1 hl
      · exact absurd hl (by simp)
      · obtain ⟨hmem, hgone⟩ := hall _ ha
        exact ⟨v, (Option.some.inj hl).symm, htidy v hmem, hgone rfl⟩
    exact (run_session (does_reclaimGroup (ι := Unit) (i := ()) mgr htidy group rs) hw'' hs'' hexcluded).2.1

/-! ### Launches -/

private theorem sound_launch {group : String} {count : Nat} {t : NodeTemplate}
    (hnetwork : '/' ∉ (mgr.networkFor group t).toList) (hw : ∀ e ∈ w.interventions, Mishap e.2)
    (hs : Sound m₀ w.service) : Sound m₀ (mgr.launch group count t w).2.service := by
  have hdoes : (session m₀ Unit True).Does () (fun _ => True) (mgr.chooseNames group count)
      (fun names m => True ∧ names = Naming.nextNodeNames group (m.namesOf .instance) count) (fun _ _ => True) :=
    does_chooseNames mgr group count still_true
  have hchoose := run_session hdoes hw hs trivial
  refine Manager.after_launch (P := fun w => Sound m₀ w.service) hs (fun f w' hfailed => ?_)
    fun names w' rs w'' hgroup hchosen hpool => ?_
  · rw [hfailed] at hchoose
    exact hchoose.2.1
  · rw [hchosen] at hchoose
    obtain ⟨hw', hs', -, hnames⟩ := hchoose
    have hnodup : names.Nodup := hnames ▸ Naming.nodup_nextNodeNames _ _ _
    have hplain : ∀ n ∈ names, '/' ∉ n.toList := fun n hn =>
      Naming.slash_not_mem_nextNodeNames (Naming.slash_not_mem_of_group hgroup) (hnames ▸ hn)
    have hobeys : ∀ n ∈ names, ∀ x s, (sessionRules m₀ String False).Holds x.1 →
        (mgr.launchNode (.ofTemplate n group (mgr.networkFor group t) t)).Obeys (session m₀ String False).conduct n
          (fun _ y _ => (sessionRules m₀ String False).Holds y.1 ∧ True) x s :=
      fun n hn x s hx => (launchNode_obeys_session id (hplain n hn) hnetwork hx).mono fun _ _ _ h => ⟨h, trivial⟩
    obtain ⟨es, -, hw'', hs'', -⟩ :=
      run_pool_session (fun _ _ => stable_const True) mgr.concurrency hnodup hobeys hw' hs'
    rw [hpool] at hw'' hs''
    rcases (run_reclaimAfterLaunch (σ := Watched) mgr (mgr.networkFor group t) (Manager.launchReport rs) w'').2 with
      ⟨-, h⟩ | ⟨-, h⟩ <;> rw [h]
    · exact hs''
    · exact (run_session (does_reclaimNetwork_session (ι := Unit) (i := ()) _) hw'' hs'' trivial).2.1

/-- Every task leaves a sound platform. -/
private theorem sound_perform (task : Task)
    (hnetwork : ∀ group count t, task = .createNodes group count t → '/' ∉ (mgr.networkFor group t).toList)
    (hw : ∀ e ∈ w.interventions, Mishap e.2) (hs : Sound m₀ w.service) : Sound m₀ (mgr.perform task w).service := by
  cases task with
  | createNodes group count t => exact sound_launch (hnetwork group count t rfl) hw hs
  | destroyNode id =>
    exact (run_session (does_destroyNode (ι := Unit) (i := ()) id) hw hs trivial).2.1
  | destroyGroup group => exact sound_destroyGroup group hw hs
  | reclaimNetwork name =>
    exact (run_session (does_reclaimNetwork_session (ι := Unit) (i := ()) name) hw hs trivial).2.1

end Group

/-! ### Sessions -/

private theorem Errand.Plain.sound {e : Errand} (he : e.Plain) {s : Watched} (hs : Sound m₀ s) :
    Sound m₀ (e.run s) := by
  have hbefore : ∀ (fs : List Fault) (s : Watched), (∀ f ∈ fs, f.code? ≠ some .notFound) → Sound m₀ s →
      Sound m₀ (fs.foldl (fun s f => s.disturb f) s) := by
    intro fs
    induction fs with
    | nil => exact fun _ _ h => h
    | cons f fs ih =>
      intro s hfs hs
      exact ih _ (fun g hg => hfs g (List.mem_cons_of_mem _ hg)) (hs.disturb (hfs f List.mem_cons_self))
  refine sound_perform e.task he.network (fun x hx => ?_) (hbefore e.before s he.before hs)
  obtain ⟨f, hf, rfl⟩ := List.mem_map.1 hx
  exact ⟨f.2, he.meanwhile f hf, rfl⟩

private theorem sound_session {errands : List Errand} (h : ∀ e ∈ errands, e.Plain) {s : Watched} (hs : Sound m₀ s) :
    Sound m₀ (errands.foldl (fun s e => e.run s) s) := by
  induction errands generalizing s with
  | nil => exact hs
  | cons e es ih => exact ih (fun e' he' => h e' (List.mem_cons_of_mem _ he')) ((h e List.mem_cons_self).sound hs)

/-- What is stored besides the resources that are put there. -/
private structure Fresh (m : Memory) : Prop where
  keyed : m.WellKeyed
  tidy : ∀ k r, m.resources.find? k = some r → r.Tidy m
  unscripted : ∀ n, m.scriptedFailures.find? n = none

private theorem Fresh.seed {m : Memory} (h : Fresh m) {r : Resource} (hr : r.Tidy m) : Fresh (m.seed r) := by
  refine ⟨h.keyed.seed r, fun k s hs => ?_, h.unscripted⟩
  have hs : (m.resources.insert r.key r).find? k = some s := hs
  show s.Tidy m
  rw [OrderedMap.find?_insert] at hs
  split at hs
  · cases hs
    exact hr
  · exact h.tidy k s hs

private theorem Populated.fresh (h : Populated m₀) : Fresh m₀ := by
  induction h with
  | empty project polls => exact ⟨wellKeyed_empty project, fun _ _ hr => (by cases hr), fun _ => rfl⟩
  | @seedNode m h zone name network group hname hnetwork ih =>
    unfold Memory.seedNode
    have hnet : Fresh (if m.has .network .global network then m else m.seed (.network (m.seedNetwork network))) := by
      split
      · exact ih
      · exact ih.seed ⟨hnetwork, rfl⟩
    generalize (if m.has .network .global network then m else m.seed (.network (m.seedNetwork network))) = m₁ at hnet
    have hdisk := hnet.seed (r := .disk (m₁.seedDisk zone name)) trivial
    have hnumber : Fresh (m₁.seed (.disk (m₁.seedDisk zone name))).newFingerprint.2 :=
      ⟨hdisk.keyed, hdisk.tidy, hdisk.unscripted⟩
    refine hnumber.seed ⟨hname, rfl, fun nic hnic => ?_⟩
    obtain rfl := List.mem_singleton.1 hnic
    exact ⟨network, hnetwork, rfl⟩

/-- In every session on the platform, whatever goes wrong, no network is deleted that an instance is on, and no
firewall of such a network. -/
theorem session_fair {m : Memory} (hm : Populated m) {errands : List Errand} (h : ∀ e ∈ errands, e.Plain) :
    ∀ p ∈ (runSession errands m).steps, Fair p.1.resources p.2.resources := by
  have hfresh := hm.fresh
  have hstart : Sound m ⟨m, []⟩ := by
    refine ⟨⟨hfresh.keyed, hfresh.tidy, rfl, rfl, fun n x hx => ?_, fun hs => hs.elim, fun ht => ht.elim,
      fun ht => ht.elim⟩, fun p hp => absurd hp (by simp)⟩
    rw [hfresh.unscripted] at hx
    exact absurd hx (by simp)
  exact (sound_session h hstart).fair

/-- Two nodes are launched beside one that is there; then all of them are destroyed, those of the group at the second
attempt only. An answer gets lost on the way, operations fail and fetches do not get through. -/
def roughSession : List Errand :=
  let mgr := Manager.ofClient .standard
  [⟨mgr, .createNodes "web" 2 (.plain "zone-a" "f1-micro" "debian"), 0, [.dropInsert "web-1"],
      [(700, .failOperation "web-2" .quotaExceeded "quota")], none, none⟩,
    ⟨mgr, .destroyGroup "web", 0, [.failOperation "web-1" .resourceInUse "busy"], [(1, .failFetches 2)], none, none⟩,
    ⟨mgr, .destroyGroup "web", 0, [.failFetches 2], [], none, none⟩,
    ⟨mgr, .destroyNode ⟨"zone-a", "db-1"⟩, 0, [], [], none, none⟩]

/-- A session with faults in which groups are launched and destroyed. -/
theorem session_fair_of_rough :
    (∀ e ∈ roughSession, e.Plain) ∧
      ∀ p ∈ (runSession roughSession
          (((Memory.empty "project").withPollsUntilDone 2).seedNode "zone-a" "db-1" "backend" "db").2).steps,
        Fair p.1.resources p.2.resources := by
  have hplain : ∀ e ∈ roughSession, e.Plain := fun e he => by
    simp only [roughSession, List.mem_cons, List.not_mem_nil, or_false] at he
    rcases he with rfl | rfl | rfl | rfl
    · refine ⟨fun group count t ht => ?_, by decide, by decide⟩
      cases ht
      decide
    · exact ⟨fun _ _ _ ht => (by cases ht), by decide, by decide⟩
    · exact ⟨fun _ _ _ ht => (by cases ht), by decide, by decide⟩
    · exact ⟨fun _ _ _ ht => (by cases ht), by decide, by decide⟩
  exact ⟨hplain, session_fair (.seedNode (.empty "project" 2) "zone-a" "db" (by decide) (by decide)) hplain⟩

end Fleet
