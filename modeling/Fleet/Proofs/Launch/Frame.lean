import Fleet.Proofs.Client.Reclaiming
import Fleet.Proofs.Launch.Success
import Fleet.Proofs.Memory.Rules

/-!
# What a launch leaves alone

Whatever goes wrong during a launch, the instances that were stored before it are still stored afterwards, and so are
the disks, with one exception: cleaning up after a node deletes a disk that has the name of the node's boot disk, and
does so even when the disk was there before, unless an instance is attached to it (`launch_keeps_stored`).
-/

namespace Fleet

open Memory Regime

/-! ### What comes from outside -/

/-- The names that a launch gives to its resources. -/
def Manager.reservedNames (mgr : Manager) (group : String) (count : Nat) (t : NodeTemplate) (m : Memory) :
    List String :=
  let network := mgr.networkFor group t
  let names := Naming.nextNodeNames group (m.namesOf .instance) count
  network :: Naming.firewallName network t.inboundPorts :: names ++ names.map Naming.bootDiskName

/-- What may happen from outside: something is made to go wrong, or somebody else creates a resource. -/
inductive Outside (reserved : List String) : (Memory → Memory) → Prop where
  | fault (f : Fault) : Outside reserved f.apply
  | create (r : Resource) (h : r.name ∉ reserved) : Outside reserved fun m => (m.apply (.create r)).2

namespace Launch

variable {l : Launch} {m : Memory}

/-- Nothing is promised of what may happen. -/
def anyWeather : Circumstances := ⟨False, False, False, False, True⟩

private theorem Inv.disturbed (h : l.Inv m) {m' : Memory} (hd : m.Disturbed m') (ht : ¬ l.tame) (hc : ¬ l.calm)
    (hs : ¬ l.steady) : l.regime.Tolerates m m' where
  inv := ⟨h.store.congr hd.resources, h.journal.congr hd.resources hd.applied,
    ⟨hd.project.trans h.promise.project, hd.polls.trans h.promise.polls, fun ht' => absurd ht' ht,
      fun hc' => absurd hc' hc, fun hs' => absurd hs' hs⟩, fun ht' => absurd ht' ht⟩
  keeps n := by
    constructor
    · exact fun _ => by rw [hd.resources]
    · exact fun _ => by rw [hd.resources]
    · rw [hd.resources]
      exact fun _ h => h
    · rw [hd.resources]
      exact fun _ h => h
    · exact fun ht' => absurd ht' ht
  count := Nat.le_of_eq hd.count.symm
  record n := (hd.record n).imp_right fun hn => ⟨hs, hn⟩

/-- A resource that others create keeps the store in its form. -/
private theorem Store.create_foreign (h : l.Store m) (hclosed : ¬ l.closed) {r : Resource} (hown : ¬ l.Own r.key)
    (hn : m.resources.find? r.key = none) {m' : Memory} (hw : Writes m r.key (some r) m') : l.Store m' := by
  have hother {k : ResourceKey} (hk : l.Own k) : m'.resources.find? k = m.resources.find? k :=
    hw.other fun he => hown (he ▸ hk)
  -- What is created is not the launch's own, and nothing was stored under its key.
  refine ⟨hw.keyed h.keyed rfl, fun k s hk hs => ?_, fun hc => absurd hc hclosed, ?_, ?_, fun n hn => ?_,
    fun n hn => ?_⟩
  · have hs := h.persists k s hk hs
    rw [hw.other fun he => ?_]
    · exact hs
    · rw [he, hn] at hs
      exact absurd hs (by simp)
  · rw [hother own_networkKey]
    exact h.network
  · rw [hother own_firewallKey, hother own_networkKey]
    exact h.firewall
  · rw [hother (own_diskKey hn)]
    exact h.disk n hn
  · unfold HasNode
    rw [hother (own_diskKey hn), hother (own_instanceKey hn), hother own_networkKey]
    exact h.node n hn

private theorem Inv.create_foreign (h : l.Inv m) (hclosed : ¬ l.closed) (ht : ¬ l.tame) {r : Resource}
    (hown : ¬ l.Own r.key) : l.regime.Tolerates m (m.apply (.create r)).2 := by
  have hops := m.operations_apply (.create r)
  have hcount := m.operationCount_apply (.create r)
  refine ⟨?_, fun n => ?_, Nat.le_of_eq hcount.symm, fun n => .inl (by rw [hops])⟩ <;>
    rcases m.apply_create r with ⟨-, ha⟩ | ⟨-, k, -, ha⟩ | ⟨hn, -, ha⟩ <;> rw [ha]
  · exact h
  · exact h
  · have hw := writes_seed m (.insert r.kind r.name) r
    have hnet : l.networkKey ≠ r.key := fun he => hown (he ▸ own_networkKey)
    have hfw : l.firewallKey ≠ r.key := fun he => hown (he ▸ own_firewallKey)
    refine ⟨h.store.create_foreign hclosed hown hn hw, ?_, h.promise.continues (continues_seed m _ _),
      fun ht' => absurd ht' ht⟩
    refine h.journal.append (hw.other hnet) (hw.other hfw) rfl fun e he => ?_
    rw [List.mem_singleton.1 he]
    refine ⟨fun heq => hnet ?_, fun heq => hfw ?_⟩ <;> obtain ⟨hkind, hname⟩ := JournalEntry.insert.inj heq
    · simp [networkKey, Resource.key, resourceKey, hkind, hname, Kind.isZonal]
    · simp [firewallKey, Resource.key, resourceKey, hkind, hname, Kind.isZonal]
  · exact keeps_of_quiet (.refl m)
  · exact keeps_of_quiet (.refl m)
  · have hw := writes_seed m (.insert r.kind r.name) r
    exact keeps_of_writes hw (continues_seed m _ _) (fun hmem he => hown (he ▸ own_diskKey hmem))
      (fun hmem he => hown (he ▸ own_instanceKey hmem)) (fun _ => hn) fun _ => hn

private theorem own_reserved {mgr : Manager} {group : String} {count : Nat} {t : NodeTemplate} {m : Memory}
    {c : Circumstances} {hkeyed hgroup hnew} {k : ResourceKey}
    (h : (Launch.of mgr group count t m c hkeyed hgroup hnew).Own k) : k.2.2 ∈ mgr.reservedNames group count t m := by
  unfold Manager.reservedNames
  rcases h with rfl | rfl | ⟨n, hn, rfl | rfl⟩
  · exact List.mem_append_left _ List.mem_cons_self
  · exact List.mem_append_left _ (List.mem_cons_of_mem _ List.mem_cons_self)
  · exact List.mem_append_right _ (List.mem_map.2 ⟨n, hn, rfl⟩)
  · exact List.mem_append_left _ (List.mem_cons_of_mem _ (List.mem_cons_of_mem _ hn))

/-- Where nothing is promised, a launch puts up with whatever comes from outside. -/
private theorem tolerates_outside {mgr : Manager} {group : String} {count : Nat} {t : NodeTemplate} {m₀ : Memory}
    {hkeyed hgroup hnew} {f : Memory → Memory} (hf : Outside (mgr.reservedNames group count t m₀) f)
    (h : (Launch.of mgr group count t m₀ anyWeather hkeyed hgroup hnew).Inv m) :
    (Launch.of mgr group count t m₀ anyWeather hkeyed hgroup hnew).regime.Tolerates m (f m) := by
  cases hf with
  | fault f => exact h.disturbed (f.disturbed m) id id id
  | create r hr => exact h.create_foreign id id fun hown => hr (own_reserved hown)

end Launch

/-! ### Reclaiming the network -/

/-- Whoever reclaims a network leaves the disks and instances of `mid` alone, and nobody adds any when `closed`. -/
private def bystanders (mid : Memory) (closed : Prop) : Rules Unit where
  project := mid.project
  polls := mid.pollsUntilDone
  steady := False
  tame := False
  codes _ := True
  inv s := ∀ k : ResourceKey, k.1 = .disk ∨ k.1 = .instance →
    (closed → s.find? k = mid.resources.find? k) ∧ ∀ r, mid.resources.find? k = some r → s.find? k = some r
  keeps _ _ _ := True
  respects _ _ := True
  keeps_refl _ _ := trivial
  keeps_trans _ _ _ _ _ _ := trivial
  respects_refl _ := trivial

section Bystanders

variable {mid : Memory} {closed : Prop}

private theorem bystanders_start (h : mid.WellKeyed) : (bystanders mid closed).Holds mid where
  keyed := h
  store _ _ := ⟨fun _ => rfl, fun _ hr => hr⟩
  project := rfl
  polls := rfl
  codes _ _ _ := trivial
  fetches hs := hs.elim
  lost ht := ht.elim
  unscripted ht := ht.elim

private theorem bystanders_tolerates (hclosed : ¬ closed) {reserved : List String} {f : Memory → Memory}
    (hf : Outside reserved f) {m : Memory} (h : (bystanders mid closed).Holds m) :
    (bystanders mid closed).regime.Tolerates m (f m) := by
  cases hf with
  | fault f => exact Rules.tolerates_fault id id (fun _ _ => trivial) h
  | create r hr =>
    have hops := m.operations_apply (.create r)
    have hcount := m.operationCount_apply (.create r)
    refine ⟨?_, fun _ => ⟨trivial, fun ht => ht.elim⟩, Nat.le_of_eq hcount.symm, fun n => .inl (by rw [hops])⟩
    show (bystanders mid closed).Holds (m.apply (.create r)).2
    rcases m.apply_create r with ⟨-, ha⟩ | ⟨-, k, -, ha⟩ | ⟨hn, -, ha⟩ <;> rw [ha]
    · exact h
    · exact h
    · have hw := Launch.writes_seed m (.insert r.kind r.name) r
      refine h.continues (continues_seed m _ _) (hw.keyed h.keyed rfl)
        (fun k hk => ⟨fun hc => absurd hc hclosed, fun s hs => ?_⟩) fun ht => ht.elim
      have hs := (h.store k hk).2 s hs
      rw [hw.other fun he => ?_]
      · exact hs
      · rw [he, hn] at hs
        exact absurd hs (by simp)

private theorem deletion_shared {kind : Kind} (hkind : kind = .network ∨ kind = .firewall) (name : String) :
    (bystanders mid closed).regime.Deletion () (fun _ => True) kind .global name (fun _ => True) (fun _ => True)
      (fun _ _ => True) where
  stable := stable_const True
  still _ _ _ _ _ := trivial
  still_missing _ _ _ _ _ := trivial
  still_failed _ _ _ _ _ _ := trivial
  deleted m r hm _ hr _ := by
    have hk : r.kind = kind := hm.keyed.kind_eq hr
    have hne : r.kind ≠ .instance := by rcases hkind with h | h <;> simp [hk, h]
    refine ⟨Rules.allows hm (m.continues_removeWith _ r) (hm.keyed.removeWith _ r) (fun k hks => ?_)
      (fun ht => ht.elim) trivial fun _ _ => trivial, trivial⟩
    -- No disk goes along with a network or a firewall.
    rw [find?_removeWith_of_ne m _ hne, if_neg]
    · exact hm.store k hks
    · rintro rfl
      rcases hkind with rfl | rfl <;> simp [resourceKey] at hks
  missing _ _ _ _ := trivial
  in_use _ _ _ _ _ _ _ _ _ _ _ := trivial
  ordered _ _ _ _ _ _ _ _ _ _ _ _ := by split <;> trivial
  given_up _ _ _ _ _ _ := trivial

private theorem does_reclaim (c : Client) (name : String) :
    (bystanders mid closed).regime.Does () (fun _ => True) (c.reclaimNetwork name) (fun _ _ => True)
      (fun _ _ => True) := by
  have hp : (bystanders mid closed).regime.Patient c := fun hs => hs.elim
  have htrue : (bystanders mid closed).regime.Still fun _ => True := fun _ _ _ _ _ => trivial
  refine does_reclaimNetwork htrue (fun _ _ _ _ => trivial) fun n => ?_
  refine (does_reclaimShared (W := fun _ _ => True) htrue (fun _ _ _ _ => trivial) (fun _ _ _ _ => trivial)
    (fun _ _ _ _ _ _ _ => trivial) (fun f fs => does_deleteIfExists_of_same hp (deletion_shared (.inr rfl) f.name))
    ?_ htrue).pre fun _ _ _ => trivial
  exact (does_deleteIfExists_of_same hp (deletion_shared (.inl rfl) _)).conseq (fun _ _ h => h) (fun _ _ _ h => h)
    fun _ _ _ _ => ⟨fun _ => trivial, trivial⟩

/-- What follows a launch leaves the disks and instances alone. -/
private theorem run_reclaim_keeps (closed : Prop) {F : (Memory → Memory) → Prop}
    {c : Conduct Cloud Memory String (Nat → Option String)}
    (hF : ∀ f, F f → ∀ m, (bystanders mid closed).Holds m → (bystanders mid closed).regime.Tolerates m (f m))
    (mgr : Manager) (network : String) (report : LaunchReport) {w : World Cloud Memory} (hw : w.Within c F)
    (hmid : w.service = mid) (hkeyed : mid.WellKeyed) :
    (bystanders mid closed).Holds ((mgr.reclaimAfterLaunch network report).run w).2.service := by
  have hstart : (bystanders mid closed).Holds w.service := by
    rw [hmid]
    exact bystanders_start hkeyed
  rcases (run_reclaimAfterLaunch mgr network report w).2 with ⟨-, h⟩ | ⟨-, h⟩
  · rw [h]
    exact hstart
  · rw [h]
    have hw' : w.Within (bystanders mid closed).regime.conduct F := ⟨hw.from_outside, .inr trivial⟩
    have hrun := (does_reclaim mgr.client network).run (Regime.bounds hF) hw' hstart trivial
    exact hrun.2.2.1

end Bystanders

/-! ### The launch -/

/-- A disk that is attached to no instance and has the name of the boot disk of one of the nodes `names`. -/
def Memory.Spare (m : Memory) (names : List String) (zone : String) (k : ResourceKey) (d : Disk) : Prop :=
  (∃ n ∈ names, k = resourceKey .disk (.zone zone) (Naming.bootDiskName n)) ∧ m.resources.find? k = some (.disk d) ∧
    ∀ j u, m.resources.find? j = some u → uses u (.disk d) = false

variable {mgr : Manager} {group : String} {count : Nat} {t : NodeTemplate}

/-- Whatever happens meanwhile, the instances and disks that were there stay, but for spare disks. -/
private theorem launch_keeps {w : World Cloud Memory} (hkeyed : w.service.WellKeyed)
    (hbound : count + (w.service.namesOf .instance).length < UInt32.size)
    (hout : ∀ e ∈ w.interventions, Outside (mgr.reservedNames group count t w.service) e.2) {k : ResourceKey}
    {r : Resource} (hr : w.service.resources.find? k = some r) (hkind : k.1 = .disk ∨ k.1 = .instance)
    (hspare : ∀ d, r = .disk d →
      ¬ w.service.Spare (Naming.nextNodeNames group (w.service.namesOf .instance) count) t.zone k d) :
    (mgr.launch group count t w).2.service.resources.find? k = some r := by
  by_cases hgroup : Naming.validateGroup group = .ok ()
  · by_cases hcount : count = 0
    · rw [hcount, launch_zero]
      exact hr
    · let l : Launch := .of mgr group count t w.service Launch.anyWeather hkeyed hgroup
        fun n hn => Launch.new_of_bound hbound hn _
      have hinv : l.Inv l.before := Launch.inv_before (fun h => h.elim) (fun h => h.elim) fun h => h.elim
      have hwithin : w.Within l.regime.conduct (Outside (mgr.reservedNames group count t w.service)) :=
        ⟨hout, .inr trivial⟩
      obtain ⟨rs, w₁, hw₁, hinv₁, -, -, ms, hrun⟩ :=
        launch_eq (l := l) rfl hcount (fun h => h.elim) (fun f hf m hm => Launch.tolerates_outside hf hm) hwithin hinv
      have hholds := run_reclaim_keeps False (fun f hf m hm => bystanders_tolerates id hf hm) mgr l.network
        (Manager.launchReport rs) hw₁ rfl hinv₁.store.keyed
      rw [hrun]
      refine (hholds.store k hkind).2 r ?_
      by_cases hown : l.Own k
      · rcases hkind with hk | hk
        · obtain ⟨n, hn, rfl⟩ := hown.disk hk
          rcases hinv₁.store.disk n hn with he | ⟨he, -⟩ | ⟨-, hfree⟩
          · exact he.trans hr
          · exact absurd (hr.symm.trans he) (by simp)
          · -- The disk may be gone only when it is spare.
            obtain ⟨d, rfl⟩ := Launch.exists_disk Launch.store_before hr
            refine absurd ⟨⟨n, hn, rfl⟩, hr, fun j u hu => ?_⟩ (hspare d rfl)
            cases huse : uses u (.disk d) with
            | false => rfl
            | true => exact absurd ⟨d, j, u, hr, hu, huse⟩ hfree
        · obtain ⟨n, hn, rfl⟩ := hown.instance hk
          exact absurd (hr.symm.trans (l.new n hn)) (by simp)
      · exact hinv₁.store.persists k r hown hr
  · rw [launch_of_invalid hgroup]
    exact hr

/-- Cleaning up after the failed nodes deletes the spare disks. -/
private theorem launch_deletes_spare {w : World Cloud Memory} (hkeyed : w.service.WellKeyed)
    (hbound : count + (w.service.namesOf .instance).length < UInt32.size) (hw : w.Undisturbed)
    (hfree : w.service.FaultFree) (hgroup : Naming.validateGroup group = .ok ())
    (hp : mgr.client.poll.Patient w.service.pollsUntilDone) {k : ResourceKey} {d : Disk}
    (hspare : w.service.Spare (Naming.nextNodeNames group (w.service.namesOf .instance) count) t.zone k d)
    (hlink : d.selfLink = w.service.selfLink .disk (.zone t.zone) d.name) :
    (mgr.launch group count t w).2.service.resources.find? k = none := by
  obtain ⟨⟨n, hn, rfl⟩, hd, hunused⟩ := hspare
  have hcount : count ≠ 0 := by
    rintro rfl
    have := Naming.length_nextNodeNames group (w.service.namesOf .instance) 0
    rw [List.eq_nil_of_length_eq_zero this] at hn
    exact absurd hn (by simp)
  let l : Launch := .of mgr group count t w.service Launch.fairWeather hkeyed hgroup
    fun n hn => Launch.new_of_bound hbound hn _
  obtain ⟨rs, w₁, hw₁, hinv₁, hperm, hlaunched, ms, hrun⟩ :=
    launch_eq (l := l) rfl hcount (fun _ => hp) (fun _ hf => hf.elim) hw.within (Launch.inv_of_faultFree hfree)
  have hname : d.name = Naming.bootDiskName n := hkeyed.name_eq hd
  have hself : d.selfLink = l.diskLink n := by
    rw [hlink, hname]
    rfl
  have hloose : l.Loose n := by
    refine ⟨trivial, trivial, trivial, fun j i hi a ha => ?_, fun d' hd' => ?_⟩
    · have := hunused j _ hi
      simp only [uses, List.any_eq_false, Bool.not_eq_true] at this
      rw [← hself]
      exact this a ha
    · obtain rfl : d = d' := Resource.disk.inj (Option.some.inj (hd.symm.trans hd'))
      exact hself
  have hgone : w₁.service.resources.find? (l.diskKey n) = none := by
    obtain ⟨⟨n', f | i⟩, ha, rfl⟩ := List.mem_map.1 (hperm.mem_iff.2 hn)
    · exact ((hlaunched _ ha).2 id).2.2 hloose
    · -- The disk is in the way of the node.
      obtain ⟨-, net, fw, -, -, -, ⟨hno, -⟩, -⟩ := hlaunched _ ha
      exact absurd (hd.symm.trans hno) (by simp)
  have hholds := run_reclaim_keeps True (fun _ hf => hf.elim) mgr l.network
    (Manager.launchReport rs) hw₁ rfl hinv₁.store.keyed
  rw [hrun]
  exact ((hholds.store _ (.inl rfl)).1 trivial).trans hgone

/-- What was stored stays during a launch, whatever goes wrong and whatever others create meanwhile under names that
are not reserved, with the exception of spare disks: these are deleted, even when nothing goes wrong. -/
theorem launch_keeps_stored {w : World Cloud Memory} (hkeyed : w.service.WellKeyed)
    (hbound : count + (w.service.namesOf .instance).length < UInt32.size)
    (hout : ∀ e ∈ w.interventions, Outside (mgr.reservedNames group count t w.service) e.2) :
    (∀ k i, w.service.resources.find? k = some (.instance i) →
      (mgr.launch group count t w).2.service.resources.find? k = some (.instance i)) ∧
    (∀ k d, w.service.resources.find? k = some (.disk d) →
      ¬ w.service.Spare (Naming.nextNodeNames group (w.service.namesOf .instance) count) t.zone k d →
      (mgr.launch group count t w).2.service.resources.find? k = some (.disk d)) ∧
    (w.Undisturbed → w.service.FaultFree → Naming.validateGroup group = .ok () →
      mgr.client.poll.Patient w.service.pollsUntilDone → ∀ k d,
      w.service.Spare (Naming.nextNodeNames group (w.service.namesOf .instance) count) t.zone k d →
      d.selfLink = w.service.selfLink .disk (.zone t.zone) d.name →
      (mgr.launch group count t w).2.service.resources.find? k = none) := by
  refine ⟨fun k i hi => ?_, fun k d hd hspare => ?_, fun hw hfree hgroup hp k d hspare hlink => ?_⟩
  · exact launch_keeps hkeyed hbound hout hi (.inr (hkeyed.kind_eq hi).symm) fun d hd => absurd hd (by simp)
  · refine launch_keeps hkeyed hbound hout hd (.inl (hkeyed.kind_eq hd).symm) fun d' hd' => ?_
    cases hd'
    exact hspare
  · exact launch_deletes_spare hkeyed hbound hw hfree hgroup hp hspare hlink

/-- A node of another group stays when a launch fails halfway. -/
theorem launch_keeps_stored_of_quota :
    ((Manager.ofClient .standard).launch "web" 2 (.plain "zone-a" "f1-micro" "debian")
        { World.start ((Memory.empty "project").seedNode "zone-a" "db-1" "backend" "db").2 0 with
          interventions := [(1, (Fault.failOperation "web-1" .quotaExceeded "quota").apply)] }).2.service.find?
        .instance (.zone "zone-a") "db-1" =
      some (.instance ((Memory.empty "project").seedNode "zone-a" "db-1" "backend" "db").1) :=
  (launch_keeps_stored ((wellKeyed_empty _).seedNode _ _ _ _) (by decide) (by
    intro e he
    obtain rfl := List.mem_singleton.1 he
    exact .fault (.failOperation "web-1" .quotaExceeded "quota"))).1 _ _ (by rfl)

/-- A boot disk that was kept when its node was destroyed. -/
def keptDisk : Disk := (Memory.empty "project").seedDisk "zone-a" "web-1"

/-- The platform that stores nothing but this disk. -/
def keptDiskOnly : Memory := ((Memory.empty "project").withPollsUntilDone 1).seed (.disk keptDisk)

private theorem find?_keptDiskOnly {k : ResourceKey} {r : Resource} (h : keptDiskOnly.resources.find? k = some r) :
    r = .disk keptDisk := by
  have h : (OrderedMap.empty.insert (Resource.disk keptDisk).key (.disk keptDisk)).find? k = some r := h
  rw [OrderedMap.find?_insert] at h
  split at h
  · exact (Option.some.inj h).symm
  · exact absurd h (by simp)

/-- A launch deletes a disk that was there before. -/
theorem launch_deletes_boot_disk :
    keptDiskOnly.find? .disk (.zone "zone-a") "web-1-boot" = some (.disk keptDisk) ∧
    ((Manager.ofClient .standard).launch "web" 1 (.plain "zone-a" "f1-micro" "debian")
      (World.start keptDiskOnly 0)).2.service.find? .disk (.zone "zone-a") "web-1-boot" = none := by
  have hkeyed : keptDiskOnly.WellKeyed :=
    WellKeyed.seed (m := (Memory.empty "project").withPollsUntilDone 1) (wellKeyed_empty "project") _
  refine ⟨by rfl, launch_deletes_spare (d := keptDisk) hkeyed (by decide) ⟨rfl, fun _ _ => rfl⟩
    ⟨rfl, rfl, fun _ => rfl, fun _ => rfl⟩ (by rfl) (PollPolicy.patient_one _)
    ⟨⟨"web-1", by decide, rfl⟩, by rfl, fun j u hu => ?_⟩ (by rfl)⟩
  rw [find?_keptDiskOnly hu]
  rfl

end Fleet
