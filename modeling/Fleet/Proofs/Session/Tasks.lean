import Fleet.Proofs.Client.Reclaiming
import Fleet.Proofs.Conduct.Pool
import Fleet.Proofs.Session.Fairness

/-!
# The tasks of a session

Nodes are launched while the session is open: everything that a launch does is permitted, since it deletes no network
and no firewall (`launchNode_obeys_session`). Nodes are taken down and networks reclaimed while it is closed: then an
instance that has been found missing stays away (`does_destroy`), and when no instance is left on a network but such
ones, its firewalls may be deleted (`does_reclaimShared_session`).
-/

namespace Fleet

open Memory Regime

variable {m₀ : Memory} {ι : Type} {i : ι} {closed : Prop} {c : Client}

/-! ### Launching -/

private theorem permits_request (hopen : ¬ closed) (scope : Scope) (spec : ResourceSpec) (hs : spec.Tidy m₀ scope) :
    ∀ r, Makes (session m₀ ι closed).project scope spec r → (session m₀ ι closed).Permits i (.create r) :=
  fun _ hr => permits_create hopen (hr.tidy hs)

/-- A node with a plain name on a plain network is brought up, or not. -/
private theorem does_createNode_session (hopen : ¬ closed) {s : NodeSpec} (hname : '/' ∉ s.name.toList)
    (hnetwork : '/' ∉ s.network.toList) :
    (session m₀ ι closed).Does i (fun _ => True) (c.createNode s) (fun _ _ => True) (fun _ _ => True) := by
  have hp : (session m₀ ι closed).Patient c := patient_session c
  have network : (session m₀ ι closed).Does i (fun _ => True)
      (c.ensure .network .global s.network (.network s.networkSpec))
      (fun n _ => m₀.LinksNetwork n.selfLink ∧ True) (fun _ _ => True) := by
    refine (does_ensure_permitted hp (permits_request hopen .global (.network s.networkSpec) hnetwork)).conseq
      (fun _ _ hm => hm) (fun n m hm hn => ⟨?_, trivial⟩) fun _ _ _ hf => hf
    exact (hm.store _ (.network n) hn).linksNetwork
  refine network.bind fun n => does_and fun hn => ?_
  have firewall := does_ensure_permitted (c := c) (i := i) hp
    (permits_request hopen .global (.firewall (s.firewallSpec n)) hn)
  refine firewall.bind fun _ => ?_
  have disk := does_create_permitted (c := c) (i := i) hp
    (permits_request hopen (.zone s.zone) (.disk s.diskSpec) trivial)
  refine (disk.pre fun _ _ _ => trivial).bind fun d => ?_
  have inst := does_create_permitted (c := c) (i := i) hp
    (permits_request hopen (.zone s.zone) (.instance (s.instanceSpec n d)) ⟨⟨_, rfl⟩, hname, hn⟩)
  refine (inst.pre fun _ _ _ => trivial).bind fun v => ?_
  exact (does_setTags_permitted hp (fun _ _ _ _ hm hj hre => allows_retag hm hopen hj hre) _).pre fun _ _ _ => trivial

private theorem does_discardPartial_session {mgr : Manager} {s : NodeSpec} :
    (session m₀ ι closed).Does i (fun _ => True) (mgr.discardPartial s) (fun _ _ => True) (fun _ _ => True) := by
  have hp : (session m₀ ι closed).Patient mgr.client := patient_session _
  have inst := does_delete_permitted (i := i) hp (permits_delete (.inl rfl) (.zone s.zone) s.name)
  have disk := does_delete_permitted (i := i) hp (permits_delete (.inr rfl) (.zone s.zone) s.bootDiskName)
  refine inst.outcome.bind fun _ => ?_
  refine (disk.outcome.pre fun _ _ _ => trivial).bind fun _ => ?_
  exact does_pure fun _ _ _ => trivial

theorem launchNode_obeys_session (hopen : ¬ closed) {mgr : Manager} {s : NodeSpec} (hname : '/' ∉ s.name.toList)
    (hnetwork : '/' ∉ s.network.toList) {x : Memory × (Nat → Option ι)} {t : Nat}
    (hx : (sessionRules m₀ ι closed).Holds x.1) :
    (mgr.launchNode s).Obeys (session m₀ ι closed).conduct i
      (fun _ y _ => (sessionRules m₀ ι closed).Holds y.1) x t := by
  intro stop _
  cases stop with
  | true => exact hx
  | false =>
    simp only [Bool.false_eq_true, if_false]
    have hcreate := (does_createNode_session (i := i) (c := mgr.client) hopen hname hnetwork).obeys x t hx trivial
    refine Program.obeys_bind.2 (hcreate.mono fun r y s hy => ?_)
    rcases r with f | v
    · exact Program.obeys_bind.2 ((does_discardPartial_session.obeys y s hy.1 trivial).mono fun _ _ _ hz => hz.1)
    · exact hy.1

/-! ### Deleting in a closed session -/

/-- An assertion that only additions to the store can spoil. -/
def Lasting (A : Stock → Prop) : Prop := ∀ s s', Shrinks s s' → A s → A s'

section Closed

variable {A : Stock → Prop}

theorem Lasting.stable (hA : Lasting A) : (session m₀ ι True).Stable i fun m => A m.resources :=
  fun _ _ _ _ hk h => hA _ _ (hk.store trivial) h

theorem Lasting.still (hA : Lasting A) : (session m₀ ι True).Still fun m => A m.resources :=
  fun m m' _ hq h => hA m.resources m'.resources (by rw [hq.resources]; exact fun _ _ hr => hr) h

/-- A deletion leads to a state in which the resource is missing, unless it fails. -/
private theorem does_delete_closed (hA : Lasting A) {kind : Kind} {scope : Scope} {name : String}
    (hf : ∀ m f, (sessionRules m₀ ι True).Holds m → A m.resources →
      m.resources.find? (resourceKey kind scope name) = some (.firewall f) →
      ∀ j i, m.resources.find? j = some (.instance i) → i.isOnNetwork f.network = false) :
    (session m₀ ι True).Does i (fun m => A m.resources) (c.deleteIfExists kind scope name)
      (fun _ m => A m.resources ∧ m.resources.find? (resourceKey kind scope name) = none)
      (fun _ m => A m.resources) := by
  have hgone : Lasting fun s => A s ∧ s.find? (resourceKey kind scope name) = none := by
    intro s s' hs ⟨h, hn⟩
    refine ⟨hA s s' hs h, ?_⟩
    cases hr : s'.find? (resourceKey kind scope name) with
    | none => rfl
    | some r => exact absurd ((hs _ r hr).symm.trans hn) (by simp)
  refine does_deleteIfExists_of_same (patient_session c) ⟨hA.stable, hgone.still, hgone.still,
    fun _ => hA.still, fun m r hm hAm hr hu => ⟨?_, ?_, ?_⟩, fun _ _ hAm hnone => ⟨hAm, hnone⟩,
    fun _ _ _ _ _ _ hAm _ _ _ _ => hAm, fun m r x hm _ _ hx m' _ _ hAm' _ => ?_,
    fun _ _ _ _ hAm _ => hAm⟩
  · exact allows_remove hm hr hu fun f hfw => hf m f hm hAm (hfw ▸ hr)
  · exact hA _ _ (m.shrinks_removeWith _ r) hAm
  · rw [find?_removeWith]
    exact if_pos (.inl rfl)
  · rw [if_neg (hm.codes name x hx)]
    exact hAm'

/-- The instance is not stored. -/
def Gone (v : Instance) (s : Stock) : Prop := s.find? (Resource.instance v).key = none

theorem lasting_gone (v : Instance) : Lasting (Gone v) := by
  intro s s' hs h
  cases hr : s'.find? (Resource.instance v).key with
  | none => exact hr
  | some r => exact absurd ((hs _ r hr).symm.trans h) (by simp)

/-- When an instance has been destroyed, it is gone. -/
theorem does_destroy (v : Instance) :
    (session m₀ ι True).Does i (fun _ => True) (c.destroy v) (fun _ m => Gone v m.resources) (fun _ _ => True) := by
  have inst : (session m₀ ι True).Does i (fun _ => True) (c.deleteIfExists .instance (.zone v.zone) v.name)
      (fun _ m => Gone v m.resources) (fun _ _ => True) := by
    refine (does_delete_closed (A := fun _ => True) (fun _ _ _ h => h) fun m f hm _ hf => ?_).conseq
      (fun _ _ h => h) (fun _ _ _ h => h.2) fun _ _ _ h => h
    exact absurd (hm.keyed.kind_eq hf) (by simp [Resource.kind, resourceKey])
  have disk : (session m₀ ι True).Does i (fun m => Gone v m.resources)
      (c.deleteIfExists .disk (.zone v.zone) v.bootDiskName) (fun _ m => Gone v m.resources) (fun _ _ => True) := by
    refine (does_delete_closed (lasting_gone v) fun m f hm _ hf => ?_).conseq
      (fun _ _ h => h) (fun _ _ _ h => h.1) fun _ _ _ _ => trivial
    exact absurd (hm.keyed.kind_eq hf) (by simp [Resource.kind, resourceKey])
  refine inst.bind fun _ => ?_
  split
  · exact does_pure fun _ _ h => h
  · exact disk.bind fun _ => does_pure fun _ _ h => h

/-! ### Reclaiming networks -/

/-- The excluded links are those of instances that are gone. -/
def Excluded (m₀ : Memory) (excluding : List String) (s : Stock) : Prop :=
  ∀ l ∈ excluding, ∃ v, l = v.selfLink ∧ (Resource.instance v).Tidy m₀ ∧ Gone v s

theorem lasting_excluded (excluding : List String) : Lasting (Excluded m₀ excluding) := by
  intro s s' hs h l hl
  obtain ⟨v, hv, htidy, hgone⟩ := h l hl
  exact ⟨v, hv, htidy, lasting_gone v s s' hs hgone⟩

/-- No instance is on the network, and what is stored under the names of the firewalls are these firewalls. -/
def Deserted (m₀ : Memory) (excluding : List String) (link : String) (fs : List Firewall) (s : Stock) : Prop :=
  Excluded m₀ excluding s ∧ (∀ k v, s.find? k = some (.instance v) → v.isOnNetwork link = false) ∧
    ∀ f ∈ fs, f.network = link ∧ ∀ r, s.find? (resourceKey .firewall .global f.name) = some r → r = .firewall f

theorem lasting_deserted {excluding : List String} {link : String} (fs : List Firewall) :
    Lasting (Deserted m₀ excluding link fs) := by
  intro s s' hs ⟨hex, hinst, hfs⟩
  refine ⟨lasting_excluded excluding s s' hs hex, fun k v hv => hinst k v (hs k _ hv), fun f hf => ⟨(hfs f hf).1, ?_⟩⟩
  exact fun r hr => (hfs f hf).2 r (hs _ r hr)

/-- When only excluded instances are left on a network, there are none. -/
private theorem not_isOnNetwork_of_remaining {m : Memory} (hm : (sessionRules m₀ ι True).Holds m)
    {excluding : List String} (hex : Excluded m₀ excluding m.resources) {link : String}
    (hrem : remaining link excluding m = []) {k : ResourceKey} {v : Instance}
    (hv : m.resources.find? k = some (.instance v)) : v.isOnNetwork link = false := by
  cases hon : v.isOnNetwork link with
  | false => rfl
  | true =>
    have hadmits : (Filter.onNetwork link).admits (.instance v) = true := by
      simpa [Filter.admits, Filter.onNetwork, Filter.any, Filter.isOn] using hon
    have hmem : Resource.instance v ∈ listed m .instance (.onNetwork link) :=
      mem_listed.2 ⟨k, hv, (hm.keyed.kind_eq hv).symm, hadmits⟩
    have hexcl : v.selfLink ∈ excluding := by
      have := List.filter_eq_nil_iff.1 hrem _ hmem
      simpa [Resource.selfLink] using this
    -- The instance is not counted, so one of the same link is gone: that is the instance itself.
    obtain ⟨u, hu, htidy, hgone⟩ := hex _ hexcl
    have hkey := (hm.store k _ hv).key_eq htidy hu
    rw [Gone, ← hkey, hm.keyed k _ hv, hv] at hgone
    exact absurd hgone (by simp)

private theorem deserted_of_remaining {m : Memory} (hm : (sessionRules m₀ ι True).Holds m) {excluding : List String}
    (hex : Excluded m₀ excluding m.resources) {link : String} (hlink : m₀.LinksNetwork link)
    (hrem : remaining link excluding m = []) {fs : List Firewall}
    (hfs : fs.map Resource.firewall = listed m .firewall (.onNetwork link)) :
    Deserted m₀ excluding link fs m.resources := by
  refine ⟨hex, fun k v hv => not_isOnNetwork_of_remaining hm hex hrem hv, fun f hf => ?_⟩
  have hmem : Resource.firewall f ∈ listed m .firewall (.onNetwork link) := hfs ▸ List.mem_map_of_mem hf
  obtain ⟨k, hk, -, hadmits⟩ := mem_listed.1 hmem
  have hon : Link.sameResource f.network link = true := by
    simpa [Filter.admits, Filter.onNetwork, Filter.any, Filter.isOn] using hadmits
  have hkey : resourceKey .firewall .global f.name = k := hm.keyed k _ hk
  refine ⟨((hm.store k _ hk).sameResource hlink).1 hon, fun r hr => ?_⟩
  rw [hkey, hk] at hr
  exact (Option.some.inj hr).symm

/-- Reclaiming a network is fair when the excluded instances are gone. -/
theorem does_reclaimShared_session {link : String} (hlink : m₀.LinksNetwork link) (excluding : List String) :
    (session m₀ ι True).Does i (fun m => Excluded m₀ excluding m.resources) (c.reclaimShared link excluding)
      (fun _ m => Excluded m₀ excluding m.resources) (fun _ m => Excluded m₀ excluding m.resources) := by
  have hstill : (session m₀ ι True).Still fun m => Excluded m₀ excluding m.resources :=
    (lasting_excluded excluding).still
  refine does_reclaimShared (W := fun fs m => Deserted m₀ excluding link fs m.resources) hstill
    (fun _ _ _ hm => hm) (fun _ _ hm _ => hm)
    (fun _ m fs hm hex hrem hfs => deserted_of_remaining hm hex hlink hrem hfs) (fun f fs => ?_) ?_ hstill
  · refine (does_delete_closed (lasting_deserted (f :: fs)) fun m f' _ hdes hf' j v hv => ?_).conseq (fun _ _ h => h)
      (fun _ _ _ ⟨⟨hex, hinst, hfs⟩, _⟩ => ⟨hex, hinst, fun g hg => hfs g (List.mem_cons_of_mem _ hg)⟩)
      fun _ _ _ h => h.1
    obtain ⟨hnet, hsame⟩ := hdes.2.2 f List.mem_cons_self
    obtain rfl : f' = f := Resource.firewall.inj (hsame _ hf')
    rw [hnet]
    exact hdes.2.1 j v hv
  · refine (does_delete_closed (lasting_deserted []) fun m f hm _ hf => ?_).conseq (fun _ _ h => h)
      (fun _ _ _ h => h.1.1) fun _ _ _ h => ⟨fun _ => h.1, h.1⟩
    exact absurd (hm.keyed.kind_eq hf) (by simp [Resource.kind, resourceKey])

end Closed

end Fleet
