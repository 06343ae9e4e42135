import Fleet.Proofs.Teardown.Calm

/-!
# References to networks

Instances and firewalls refer to a network by its link, by the link of another place or by a bare name. The listings that
count the instances on a network and find its firewalls read references in the same way as the platform does when it
refuses to delete what is in use (`Memory.not_uses_network`). So where nobody interferes, a reclamation takes a network
away together with all firewalls that refer to it, or leaves everything as it is (`World.Calm.run_reclaimReferenced`).
-/

namespace Fleet

open Memory

namespace Memory

/-- The instances with a reference to a network. -/
def attached (m : Memory) (link : String) : List Instance := m.recordsOf .instance fun i => i.isOnNetwork link

/-- The firewalls that refer to a network. -/
def guarding (m : Memory) (link : String) : List Firewall :=
  m.recordsOf .firewall fun f => Link.sameResource f.network link

/-- No instance refers to the network, and it is not the platform's own. -/
def Abandoned (m : Memory) (link : String) : Prop := Link.name link ≠ Naming.defaultNetwork ∧ m.attached link = []

/-- The keys of a network and of the firewalls that refer to it. -/
def Joins (m : Memory) (link : String) (k : ResourceKey) : Prop :=
  (∃ f ∈ m.guarding link, k = (Resource.firewall f).key) ∨ k = networkKey link

/-- What becomes of a network that is reclaimed. -/
def settlement (m : Memory) (link : String) : NetworkOutcome :=
  if Link.name link = Naming.defaultNetwork then .retained (Link.name link)
  else if (m.attached link).isEmpty then .reclaimed (Link.name link) ((m.guarding link).map (·.name))
  else .inUse (Link.name link) (m.attached link).length

variable {m m' : Memory} {link : String}

theorem mem_attached (hm : m.WellKeyed) {i : Instance} : i ∈ m.attached link ↔
    m.resources.find? (Resource.instance i).key = some (.instance i) ∧ i.isOnNetwork link = true :=
  mem_recordsOf hm

theorem mem_guarding (hm : m.WellKeyed) {f : Firewall} : f ∈ m.guarding link ↔
    m.resources.find? (Resource.firewall f).key = some (.firewall f) ∧ Link.sameResource f.network link = true :=
  mem_recordsOf hm

theorem recordsOf_onNetwork_instance (m : Memory) (link : String) :
    (m.recordsOf .instance fun i => (Filter.onNetwork link).admits (Resource.ofRecord .instance i)) =
      m.attached link := by
  have hadmits : (fun i : Instance => (Filter.onNetwork link).admits (Resource.ofRecord .instance i)) =
      fun i => i.isOnNetwork link := by
    funext i
    simp [Resource.ofRecord, Filter.admits, Filter.onNetwork, Filter.any, Filter.isOn]
  rw [hadmits]
  rfl

theorem recordsOf_onNetwork_firewall (m : Memory) (link : String) :
    (m.recordsOf .firewall fun f => (Filter.onNetwork link).admits (Resource.ofRecord .firewall f)) =
      m.guarding link := by
  have hadmits : (fun f : Firewall => (Filter.onNetwork link).admits (Resource.ofRecord .firewall f)) =
      fun f => Link.sameResource f.network link := by
    funext f
    simp [Resource.ofRecord, Filter.admits, Filter.onNetwork, Filter.any, Filter.isOn]
  rw [hadmits]
  rfl

/-- A network that no instance refers to is used by nothing once its firewalls are gone. -/
theorem not_uses_network (hm : m.WellKeyed) {n : Network} (hempty : m.attached n.selfLink = [])
    (hl : m.Loses m' fun k => ∃ f ∈ m.guarding n.selfLink, k = (Resource.firewall f).key) {k : ResourceKey}
    {u : Resource} (hu : m'.resources.find? k = some u) : uses u (.network n) = false := by
  obtain ⟨hu, hstays⟩ := hl.find?_eq_some_iff.1 hu
  have hkey := hm k u hu
  refine Bool.eq_false_iff.2 fun huses => ?_
  cases u with
  | network n' => exact absurd huses (by simp [uses])
  | disk d => exact absurd huses (by simp [uses])
  | firewall f => exact hstays ⟨f, (mem_guarding hm).2 ⟨hkey ▸ hu, huses⟩, hkey.symm⟩
  | «instance» i =>
    have hmem : i ∈ m.attached n.selfLink := (mem_attached hm).2 ⟨hkey ▸ hu, huses⟩
    rw [hempty] at hmem
    exact absurd hmem (by simp)

end Memory

namespace World.Calm

variable {project : String} {polls : Nat} {w : World Cloud Memory} {c : Client} {link : String}
  {excluding : List String}

/-- When none of the excluded instances is left, the count is that of the instances on the network. -/
theorem run_remainingInstances (h : w.Calm (solitary project polls)) (c : Client) (link : String)
    (hgone : w.service.Misses excluding) :
    ∃ w', (c.remainingInstances link excluding).run.run w = (.ok (w.service.attached link).length, w') ∧
      w'.Calm (solitary project polls) ∧ w.service.Idle w'.service := by
  obtain ⟨w', hrun, hw', hidle⟩ := h.run_list c .instance (.onNetwork link)
  rw [recordsOf_onNetwork_instance] at hrun
  have hall : (w.service.attached link).filter (fun i => !excluding.contains i.selfLink) = w.service.attached link := by
    refine List.filter_eq_self.2 fun i hi => ?_
    simpa using hgone _ i ((mem_attached h.holds.keyed).1 hi).1
  refine ⟨w', ?_, hw', hidle⟩
  unfold Client.remainingInstances
  rw [Action.run_bind_of_ok hrun]
  show (Except.ok ((w.service.attached link).filter _).length, w') = _
  rw [hall]

/-- Nothing uses a firewall, so stored firewalls are deleted one after the other. -/
theorem run_deleteFirewalls (hp : c.poll.Patient polls) {fs : List Firewall} (hnodup : fs.Nodup)
    (h : w.Calm (solitary project polls))
    (hstored : ∀ f ∈ fs, w.service.resources.find? (Resource.firewall f).key = some (.firewall f)) :
    ∃ w', (c.deleteFirewalls fs).run.run w = (.ok (fs.map (·.name)), w') ∧ w'.Calm (solitary project polls) ∧
      w.service.Loses w'.service fun k => ∃ f ∈ fs, k = (Resource.firewall f).key := by
  induction fs generalizing w with
  | nil => exact ⟨w, rfl, h, (Loses.refl _).congr fun _ _ _ => by simp⟩
  | cons f fs ih =>
    obtain ⟨hf, hnodup⟩ := List.nodup_cons.1 hnodup
    have hthis := hstored f List.mem_cons_self
    have hfree : ∀ r, w.service.find? .firewall .global f.name = some r →
        ∀ k u, w.service.resources.find? k = some u → uses u r = false := by
      intro r hr k u _
      have hsame : r = .firewall f := Option.some.inj (hr.symm.trans hthis)
      rw [hsame]
      simp [uses]
    obtain ⟨w₁, hrun₁, hw₁, hl₁⟩ := h.run_deleteIfExists hp .firewall .global f.name (by simp) hfree
    -- Different firewalls are stored under different keys, so the others are still there.
    have hrest : ∀ f' ∈ fs, w₁.service.resources.find? (Resource.firewall f').key = some (.firewall f') := by
      intro f' hf'
      have hstored' := hstored f' (List.mem_cons_of_mem _ hf')
      refine hl₁.find?_eq_some_iff.2 ⟨hstored', fun hkey => ?_⟩
      have hkey : (Resource.firewall f').key = (Resource.firewall f).key := hkey
      rw [hkey, hthis] at hstored'
      cases hstored'
      exact hf hf'
    obtain ⟨w₂, hrun₂, hw₂, hl₂⟩ := ih hnodup hw₁ hrest
    have hfound : w.service.has .firewall .global f.name = true := by
      have : w.service.find? .firewall .global f.name = some (.firewall f) := hthis
      simp [has, this]
    refine ⟨w₂, ?_, hw₂, (hl₁.trans hl₂).congr fun k _ _ => ?_⟩
    · unfold Client.deleteFirewalls
      rw [hfound] at hrun₁
      rw [Action.run_bind_of_ok hrun₁, Action.run_bind_of_ok hrun₂]
      rfl
    · simp only [List.mem_cons, or_and_right, exists_or, exists_eq_left]
      rfl

/-- A network that nobody is on is deleted after its firewalls. The count that has found nobody comes first, so the
resources are those of an earlier platform `m`. -/
private theorem run_reclaimAbandoned (h : w.Calm (solitary project polls)) (hp : c.poll.Patient polls) {m : Memory}
    (hm : m.WellKeyed) (hres : w.service.resources = m.resources) (hl : m.HasNetwork link)
    (hempty : m.attached link = []) :
    ∃ w₁ w₂ w₃, (c.list .firewall (.onNetwork link)).run.run w = (.ok (m.guarding link), w₁) ∧
      (c.deleteFirewalls (m.guarding link)).run.run w₁ = (.ok ((m.guarding link).map (·.name)), w₂) ∧
      (c.deleteIfExists .network .global (Link.name link)).run.run w₂ = (.ok true, w₃) ∧
      w₃.Calm (solitary project polls) ∧ m.Loses w₃.service (m.Joins link) := by
  obtain ⟨w₁, hrun₁, hw₁, ⟨hres₁, -⟩⟩ := h.run_list c .firewall (.onNetwork link)
  have hres₁ := hres₁.trans hres
  rw [recordsOf_congr hres, recordsOf_onNetwork_firewall] at hrun₁
  have hstored : ∀ f ∈ m.guarding link,
      w₁.service.resources.find? (Resource.firewall f).key = some (.firewall f) := by
    intro f hf
    rw [hres₁]
    exact ((mem_guarding hm).1 hf).1
  obtain ⟨w₂, hrun₂, hw₂, hl₂⟩ := run_deleteFirewalls (c := c) hp (nodup_recordsOf hm) hw₁ hstored
  have hl₂ := hl₂.of_resources_eq hres₁.symm rfl
  obtain ⟨n, hn, rfl⟩ := hl
  have hn₂ : w₂.service.find? .network .global (Link.name n.selfLink) = some (.network n) := by
    refine hl₂.find?_eq_some_iff.2 ⟨hn, ?_⟩
    rintro ⟨f, -, hkey⟩
    exact absurd (congrArg (·.1) hkey) (by simp [resourceKey, Resource.key, Resource.kind])
  have hfree : ∀ r, w₂.service.find? .network .global (Link.name n.selfLink) = some r →
      ∀ k u, w₂.service.resources.find? k = some u → uses u r = false := by
    intro r hr k u hu
    have hsame : r = .network n := Option.some.inj (hr.symm.trans hn₂)
    rw [hsame]
    exact not_uses_network hm hempty hl₂ hu
  obtain ⟨w₃, hrun₃, hw₃, hl₃⟩ :=
    hw₂.run_deleteIfExists hp .network .global (Link.name n.selfLink) (by simp) hfree
  have hfound : w₂.service.has .network .global (Link.name n.selfLink) = true := by simp [has, hn₂]
  rw [hfound] at hrun₃
  exact ⟨w₁, w₂, w₃, hrun₁, hrun₂, hrun₃, hw₃, hl₂.trans hl₃⟩

/-- A stored network is taken away with the firewalls that refer to it when nobody is on it, and otherwise nothing
happens. -/
theorem run_reclaimReferenced (h : w.Calm (solitary project polls)) (hp : c.poll.Patient polls)
    (hl : w.service.HasNetwork link) (hgone : w.service.Misses excluding) :
    ∃ w', (c.reclaimShared link excluding).run.run w = (.ok (w.service.settlement link), w') ∧
      w'.Calm (solitary project polls) ∧ (¬ w.service.Abandoned link → w.service.Idle w'.service) ∧
      (w.service.Abandoned link → w.service.Loses w'.service (w.service.Joins link)) := by
  unfold Client.reclaimShared settlement
  by_cases hname : Link.name link = Naming.defaultNetwork
  · simp only [if_pos hname]
    exact ⟨w, rfl, h, fun _ => ⟨rfl, rfl⟩, fun habandoned => absurd hname habandoned.1⟩
  obtain ⟨w₁, hrun₁, hw₁, hidle₁⟩ := h.run_remainingInstances c link hgone
  simp only [if_neg hname]
  rw [Action.run_bind_of_ok hrun₁]
  by_cases hempty : w.service.attached link = []
  · obtain ⟨w₂, w₃, w₄, hrun₂, hrun₃, hrun₄, hw₄, hloses⟩ :=
      hw₁.run_reclaimAbandoned hp h.holds.keyed hidle₁.1 hl hempty
    have houtcome := Action.run_outcome (c.deleteIfExists .network .global (Link.name link)) w₃
    rw [hrun₄] at houtcome
    refine ⟨w₄, ?_, hw₄, fun hnot => absurd ⟨hname, hempty⟩ hnot, fun _ => hloses⟩
    rw [if_neg (by simp [hempty]), if_pos (by simp [hempty]), Action.run_bind_of_ok hrun₂,
      Action.run_bind_of_ok hrun₃, Action.run_bind_of_ok houtcome]
    rfl
  · have hpos : 0 < (w.service.attached link).length := List.length_pos_iff.2 hempty
    rw [if_pos hpos, if_neg (by simpa using hempty)]
    exact ⟨w₁, rfl, hw₁, fun _ => hidle₁, fun habandoned => absurd habandoned.2 hempty⟩

theorem run_reclaimNetwork_of_missing (h : w.Calm (solitary project polls)) (c : Client) {name : String}
    (hnone : w.service.find? .network .global name = none) :
    ∃ w', (c.reclaimNetwork name).run.run w = (.ok (.retained name), w') ∧ w'.Calm (solitary project polls) ∧
      w.service.Idle w'.service := by
  obtain ⟨found, w₁, hfetch, hw₁, hidle₁, hfound⟩ := h.run_fetch? c .network .global name
  have hsame : found = none := Option.map_eq_none_iff.1 (hfound.symm.trans hnone)
  subst hsame
  refine ⟨w₁, ?_, hw₁, hidle₁⟩
  unfold Client.reclaimNetwork
  rw [Action.run_bind_of_ok hfetch]
  rfl

/-- A network whose link ends with its name is found again by its link. -/
theorem run_reclaimNetwork_of_stored (h : w.Calm (solitary project polls)) (hp : c.poll.Patient polls) {name : String}
    {n : Network} (hn : w.service.find? .network .global name = some (.network n)) (hname : Link.name n.selfLink = name) :
    ∃ w', (c.reclaimNetwork name).run.run w = (.ok (w.service.settlement n.selfLink), w') ∧
      w'.Calm (solitary project polls) ∧ (¬ w.service.Abandoned n.selfLink → w.service.Idle w'.service) ∧
      (w.service.Abandoned n.selfLink → w.service.Loses w'.service (w.service.Joins n.selfLink)) := by
  obtain ⟨found, w₁, hfetch, hw₁, hidle₁, hfound⟩ := h.run_fetch? c .network .global name
  have hsame : found = some n := by
    have hn : w.service.resources.find? (resourceKey .network .global name) = some (.network n) := hn
    rw [hn] at hfound
    cases found with
    | none => exact absurd hfound (by simp)
    | some n' =>
      have hrecord : Resource.ofRecord .network n = Resource.ofRecord .network n' := Option.some.inj hfound
      rw [Resource.ofRecord_injective hrecord]
  subst hsame
  have hl : w₁.service.HasNetwork n.selfLink := by
    refine ⟨n, ?_, rfl⟩
    rw [hidle₁.1, networkKey, hname]
    exact hn
  have hgone : w₁.service.Misses [] := fun _ _ _ => by simp
  obtain ⟨w₂, hrun₂, hw₂, hkept, hloses⟩ := hw₁.run_reclaimReferenced hp hl hgone
  -- Fetching the network has left the store as it was.
  have hattached : w₁.service.attached n.selfLink = w.service.attached n.selfLink := recordsOf_congr hidle₁.1
  have hguarding : w₁.service.guarding n.selfLink = w.service.guarding n.selfLink := recordsOf_congr hidle₁.1
  have habandoned : w₁.service.Abandoned n.selfLink ↔ w.service.Abandoned n.selfLink := by
    rw [Abandoned, Abandoned, hattached]
  have hjoins : w₁.service.Joins n.selfLink = w.service.Joins n.selfLink := by
    funext k
    rw [Joins, Joins, hguarding]
  refine ⟨w₂, ?_, hw₂, fun hnot => hidle₁.trans (hkept fun h => hnot (habandoned.1 h)), fun hyes => ?_⟩
  · unfold Client.reclaimNetwork
    rw [Action.run_bind_of_ok hfetch]
    refine hrun₂.trans ?_
    rw [settlement, settlement, hattached, hguarding]
  · exact hjoins ▸ (hloses (habandoned.2 hyes)).of_resources_eq hidle₁.1.symm rfl

end World.Calm

/-- On any platform, whatever has been asked of it and put into it and in whatever form instances and firewalls refer to
networks: where nothing interferes and no fault is left, a network that is missing or the platform's own is retained; one
that instances refer to is in use by so many, and nothing happens; any other one goes together with exactly the firewalls
that refer to it, and is retained when it is reclaimed again. -/
theorem reclaimNetwork_settles (c : Client) {project : String} {polls : Nat} {es : List Event} {w : World Cloud Memory}
    {name : String} (hreached : w.service = ((Memory.empty project).withPollsUntilDone polls).after es)
    (hfree : w.service.FaultFree) (halone : w.interventions = []) (hp : c.poll.Patient w.service.pollsUntilDone)
    (hname : ∀ n, w.service.find? .network .global name = some (.network n) → Link.name n.selfLink = name) :
    ∃ o w', (c.reclaimNetwork name).run.run w = (.ok o, w') ∧
      (w.service.find? .network .global name = none ∨ name = Naming.defaultNetwork →
        o = .retained name ∧ w.service.Idle w'.service) ∧
      ∀ n, w.service.find? .network .global name = some (.network n) → name ≠ Naming.defaultNetwork →
        let users := w.service.recordsOf .instance fun i => i.isOnNetwork n.selfLink
        let firewalls := w.service.recordsOf .firewall fun f => Link.sameResource f.network n.selfLink
        (users ≠ [] → o = .inUse name users.length ∧ w.service.Idle w'.service) ∧
          (users = [] → o = .reclaimed name (firewalls.map (·.name)) ∧
            w.service.Loses w'.service (fun k =>
              (∃ f ∈ firewalls, k = (Resource.firewall f).key) ∨ k = resourceKey .network .global name) ∧
            ∃ w'', (c.reclaimNetwork name).run.run w' = (.ok (.retained name), w'') ∧
              w'.service.Idle w''.service) := by
  have hkeyed : w.service.WellKeyed := by
    rw [hreached]
    exact WellKeyed.after (m := (Memory.empty project).withPollsUntilDone polls) (wellKeyed_empty project) es
  have hcalm : w.Calm (solitary w.service.project w.service.pollsUntilDone) := ⟨halone, hfree.holds hkeyed⟩
  cases hstored : w.service.find? .network .global name with
  | none =>
    obtain ⟨w', hrun, -, hidle⟩ := hcalm.run_reclaimNetwork_of_missing c hstored
    exact ⟨_, w', hrun, fun _ => ⟨rfl, hidle⟩, fun n hn => absurd hn (by simp)⟩
  | some r =>
    have hkind : r.kind = .network := hkeyed.kind_eq hstored
    obtain ⟨n, rfl⟩ : ∃ n, r = .network n := by
      cases r with
      | network n => exact ⟨n, rfl⟩
      | _ => exact absurd hkind (by simp [Resource.kind])
    have hlast := hname n hstored
    obtain ⟨w', hrun, hcalm', hkept, hloses⟩ := hcalm.run_reclaimNetwork_of_stored hp hstored hlast
    refine ⟨_, w', hrun, ?_, fun n' hn' hdefault => ?_⟩
    · rintro (hnone | hdefault)
      · exact absurd hnone (by simp)
      · refine ⟨by rw [settlement, if_pos (hlast.trans hdefault), hlast], hkept fun habandoned => ?_⟩
        exact habandoned.1 (hlast.trans hdefault)
    · obtain rfl : n = n' := Resource.network.inj (Option.some.inj hn')
      have hdefault : ¬ Link.name n.selfLink = Naming.defaultNetwork := fun h => hdefault (hlast.symm.trans h)
      refine ⟨fun husers => ⟨?_, hkept fun habandoned => husers habandoned.2⟩, fun husers => ?_⟩
      · have husers : ¬ (w.service.attached n.selfLink).isEmpty = true := fun h => husers (List.isEmpty_iff.1 h)
        rw [settlement, if_neg hdefault, if_neg husers, hlast]
        rfl
      · have husers' : (w.service.attached n.selfLink).isEmpty = true := List.isEmpty_iff.2 husers
        have hloses := hloses ⟨hdefault, husers⟩
        have hkey : networkKey n.selfLink = resourceKey .network .global name := by rw [networkKey, hlast]
        have hmissing : w'.service.find? .network .global name = none := hloses.removed _ (.inr hkey.symm)
        obtain ⟨w'', hagain, -, hidle⟩ := hcalm'.run_reclaimNetwork_of_missing c hmissing
        refine ⟨?_, ?_, w'', hagain, hidle⟩
        · rw [settlement, if_neg hdefault, if_pos husers', hlast]
          rfl
        · refine hloses.congr fun k _ _ => ?_
          rw [Joins, hkey]
          rfl

/-- A network, a firewall that refers to it by its bare name, and another one on a network of the same name elsewhere. -/
def namesakes : List Event :=
  [.seed (.network ⟨"net", "projects/here/global/networks/net", some "10.0.0.0/8", none, none⟩),
    .seed (.firewall ⟨"net-a", "projects/here/global/firewalls/net-a", "net", [], [], [], []⟩),
    .seed (.firewall ⟨"net-b", "projects/here/global/firewalls/net-b", "projects/there/global/networks/net", [], [], [],
      []⟩)]

/-- Only the firewall with the bare name goes with the network. -/
theorem reclaimNetwork_settles_of_namesakes :
    ∃ w' w'', (Client.standard.reclaimNetwork "net").run.run
        (World.start (((Memory.empty "here").withPollsUntilDone 1).after namesakes) 0) =
          (.ok (.reclaimed "net" ["net-a"]), w') ∧
      (Client.standard.reclaimNetwork "net").run.run w' = (.ok (.retained "net"), w'') ∧
      w'.service.Idle w''.service := by
  generalize hw : World.start (((Memory.empty "here").withPollsUntilDone 1).after namesakes) 0 = w
  have hreached : w.service = ((Memory.empty "here").withPollsUntilDone 1).after namesakes := by rw [← hw]; rfl
  have hfree : w.service.FaultFree := by
    rw [hreached]
    exact ⟨rfl, rfl, fun _ => rfl, fun _ => rfl⟩
  have hstored : w.service.find? .network .global "net" =
      some (.network ⟨"net", "projects/here/global/networks/net", some "10.0.0.0/8", none, none⟩) := by
    rw [hreached]
    rfl
  have hname : ∀ n, w.service.find? .network .global "net" = some (.network n) → Link.name n.selfLink = "net" := by
    intro n hn
    rw [hstored] at hn
    cases hn
    decide
  have hpatient : Client.standard.poll.Patient w.service.pollsUntilDone := by
    rw [hreached]
    exact PollPolicy.patient_one _
  obtain ⟨o, w', hrun, -, hsettled⟩ := reclaimNetwork_settles .standard hreached hfree (hw ▸ rfl) hpatient hname
  obtain ⟨rfl, -, w'', hagain, hidle⟩ := (hsettled _ hstored (by decide)).2 (by rw [hreached]; decide +kernel)
  have hfirewalls : (w.service.recordsOf .firewall fun f =>
      Link.sameResource f.network "projects/here/global/networks/net").map (·.name) = ["net-a"] := by
    rw [hreached]
    decide +kernel
  exact ⟨w', w'', by rw [hrun, hfirewalls], hagain, hidle⟩

end Fleet
