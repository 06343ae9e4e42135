import Fleet.Proofs.Client.Permitted
import Fleet.Proofs.Memory.Rules
import Fleet.Proofs.Names
import Fleet.Proofs.Session.Basic

/-!
# The rules of a session

Resources refer to networks by the links that the platform gives to them (`Resource.Tidy`), so that a firewall and an
instance that are on one network have the same link to it. The rules of a session keep it that way and demand that
every change of the store is fair; and while nodes are taken down or networks reclaimed, nobody adds anything.
-/

namespace Fleet

open Memory Regime

/-! ### Tidy resources -/

/-- The link is the one that the platform gives to a network. -/
def Memory.LinksNetwork (m₀ : Memory) (link : String) : Prop :=
  ∃ name : String, '/' ∉ name.toList ∧ link = m₀.selfLink .network .global name

/-- The links in a resource are those that the platform gives. -/
def Resource.Tidy (m₀ : Memory) : Resource → Prop
  | .instance i => '/' ∉ i.name.toList ∧ i.selfLink = m₀.selfLink .instance (.zone i.zone) i.name ∧
      ∀ nic ∈ i.networkInterfaces, m₀.LinksNetwork nic.network
  | .network n => '/' ∉ n.name.toList ∧ n.selfLink = m₀.selfLink .network .global n.name
  | .firewall f => m₀.LinksNetwork f.network
  | .disk _ => True

/-- A request for a tidy resource. -/
def ResourceSpec.Tidy (m₀ : Memory) (scope : Scope) : ResourceSpec → Prop
  | .network n => '/' ∉ n.name.toList
  | .firewall f => m₀.LinksNetwork f.network
  | .disk _ => True
  | .instance i => (∃ zone, scope = .zone zone) ∧ '/' ∉ i.name.toList ∧ m₀.LinksNetwork i.network

variable {m₀ m : Memory} {ι : Type} {i : ι} {closed : Prop}

theorem Memory.Makes.tidy {scope : Scope} {spec : ResourceSpec} {r : Resource} (h : Makes m₀.project scope spec r)
    (hs : spec.Tidy m₀ scope) : r.Tidy m₀ := by
  obtain ⟨m, hp, rfl⟩ := h
  cases spec with
  | network n => exact ⟨hs, selfLink_congr hp .network scope n.name⟩
  | firewall f => exact hs
  | disk d => trivial
  | «instance» i =>
    obtain ⟨⟨zone, rfl⟩, hname, hnetwork⟩ := hs
    refine ⟨hname, selfLink_congr hp .instance (.zone zone) i.name, fun nic hnic => ?_⟩
    obtain rfl := List.mem_singleton.1 hnic
    exact hnetwork

theorem Memory.LinksNetwork.sameResource {a b : String} (ha : m₀.LinksNetwork a) (hb : m₀.LinksNetwork b) :
    Link.sameResource a b = true ↔ a = b := by
  obtain ⟨_, -, rfl⟩ := ha
  obtain ⟨_, -, rfl⟩ := hb
  exact Link.sameResource_of_isPath (m₀.isPath_selfLink _ _ _) (m₀.isPath_selfLink _ _ _)

theorem Resource.Tidy.linksNetwork {n : Network} (h : (Resource.network n).Tidy m₀) : m₀.LinksNetwork n.selfLink :=
  ⟨n.name, h.1, h.2⟩

/-- Tidy instances with the same link are stored under the same key. -/
theorem Resource.Tidy.key_eq {a b : Instance} (ha : (Resource.instance a).Tidy m₀)
    (hb : (Resource.instance b).Tidy m₀) (h : a.selfLink = b.selfLink) :
    (Resource.instance a).key = (Resource.instance b).key := by
  rw [ha.2.1, hb.2.1] at h
  obtain ⟨hname, hpath⟩ := selfLink_injective ha.1 hb.1 h
  have hzone : a.zone = b.zone := Scope.zone_eq_of_path hpath
  show resourceKey .instance (.zone a.zone) a.name = resourceKey .instance (.zone b.zone) b.name
  rw [hname, hzone]

/-! ### The rules -/

/-- What the programs of a session promise each other. Nobody adds anything when `closed`. -/
def sessionRules (m₀ : Memory) (ι : Type) (closed : Prop) : Rules ι where
  project := m₀.project
  polls := m₀.pollsUntilDone
  steady := False
  tame := False
  codes c := c ≠ .notFound
  inv s := ∀ k r, s.find? k = some r → r.Tidy m₀
  keeps _ s s' := closed → Shrinks s s'
  respects := Fair
  keeps_refl _ _ _ _ _ h := h
  keeps_trans _ _ _ _ h h' hc k r hr := h hc k r (h' hc k r hr)
  respects_refl _ := fair_of_kept fun _ _ _ h => h

/-- The regime of a session. -/
abbrev session (m₀ : Memory) (ι : Type) (closed : Prop) : Regime ι := (sessionRules m₀ ι closed).regime

theorem patient_session (c : Client) : (session m₀ ι closed).Patient c := fun h => h.elim

namespace Memory

/-- Deleting a resource is fair when nothing uses it, and a firewall's network has no instances. -/
theorem fair_removeWith (hm : m.WellKeyed) {k : ResourceKey} {r : Resource} (hr : m.resources.find? k = some r)
    (hu : m.user? r = none) (hf : ∀ f, r = .firewall f → ∀ j i, m.resources.find? j = some (.instance i) →
      i.isOnNetwork f.network = false) : Fair m.resources ((m.remove k).removeWith r).resources := by
  have same {j : ResourceKey} {s : Resource} (hs : m.resources.find? j = some s) (hdisk : s.kind ≠ .disk)
      (hgone : ((m.remove k).removeWith r).resources.find? j ≠ some s) : r = s := by
    rw [find?_removeWith] at hgone
    split at hgone
    · next h =>
      rcases h with rfl | h
      · exact Option.some.inj (hr.symm.trans hs)
      · exact absurd ((hm.kind_eq hs).trans (kind_of_takesAlong h)) hdisk
    · exact absurd hs hgone
  -- Besides the resource itself only disks go, so a network or firewall that goes is the resource.
  refine ⟨fun j n hn hgone j' i hi => ?_, fun j f hfw hgone => hf f (same hfw (by simp [Resource.kind]) hgone)⟩
  rw [same hn (by simp [Resource.kind]) hgone] at hu
  exact not_uses_of_user? hu hi

end Memory

section Allowed

variable (hm : (sessionRules m₀ ι closed).Holds m)

include hm

theorem allows_remove {k : ResourceKey} {r : Resource} (hr : m.resources.find? k = some r) (hu : m.user? r = none)
    (hf : ∀ f, r = .firewall f → ∀ j i, m.resources.find? j = some (.instance i) → i.isOnNetwork f.network = false) :
    (session m₀ ι closed).Allows i m ((m.remove k).removeWith r) :=
  Rules.allows hm (m.continues_removeWith k r) (hm.keyed.removeWith k r)
    (fun j s hs => hm.store j s (m.shrinks_removeWith k r j s hs)) (fun ht => ht.elim)
    (fair_removeWith hm.keyed hr hu hf) fun _ _ _ => m.shrinks_removeWith k r

theorem allows_retag (hopen : ¬ closed) {k : ResourceKey} {j : Instance} {t : Tags} {m' : Memory}
    (hj : m.resources.find? k = some (.instance j)) (h : m.Retagged k j t m') :
    (session m₀ ι closed).Allows i m m' := by
  refine Rules.allows hm h.toContinues (h.forall_find? hj hm.keyed id) (h.forall_find? hj hm.store id)
    (fun ht => ht.elim) (fair_of_kept fun k' r hkind hr => ?_) fun _ _ hc => absurd hc hopen
  refine h.find?_of_kind_ne hj hr ?_
  rcases hkind with hkind | hkind <;> simp [hkind]

end Allowed

/-- Tidy resources may be created as long as the session is open. -/
theorem permits_create (hopen : ¬ closed) {r : Resource} (hr : r.Tidy m₀) :
    (session m₀ ι closed).Permits i (.create r) := by
  intro m hm
  have hc := m.continues_apply (.create r)
  rcases m.apply_create r with ⟨-, ha⟩ | ⟨-, k, -, ha⟩ | ⟨hn, -, ha⟩ <;> rw [ha] at hc ⊢
  · exact allows_of_quiet hm (.refl m)
  · exact allows_of_quiet hm (.refl m)
  · have found (k : ResourceKey) : ((m.log (.insert r.kind r.name)).seed r).resources.find? k =
        if k = r.key then some r else m.resources.find? k := OrderedMap.find?_insert _ _ _ _
    have hkeyed : ((m.log (.insert r.kind r.name)).seed r).WellKeyed := by
      refine WellKeyed.seed (m := m.log (.insert r.kind r.name)) ?_ r
      exact hm.keyed
    refine Rules.allows hm hc hkeyed (fun k s hs => ?_) (fun ht => ht.elim) (fair_of_kept fun k s _ hs => ?_)
      fun _ _ hc => absurd hc hopen
    · rw [found] at hs
      split at hs
      · cases hs
        exact hr
      · exact hm.store k s hs
    · rw [found, if_neg]
      · exact hs
      · rintro rfl
        rw [hn] at hs
        exact absurd hs (by simp)

/-- Instances and disks may be deleted at any time. -/
theorem permits_delete {kind : Kind} (hkind : kind = .instance ∨ kind = .disk) (scope : Scope) (name : String) :
    (session m₀ ι closed).Permits i (.delete (resourceKey kind scope name)) := by
  intro m hm
  rcases m.apply_delete (resourceKey kind scope name) with ⟨-, ha⟩ | ⟨r, u, -, -, ha⟩ | ⟨r, hr, hu, ha⟩ <;> rw [ha]
  · exact allows_of_quiet hm (.refl m)
  · exact allows_of_quiet hm (.refl m)
  · refine allows_remove hm hr hu fun f hf => ?_
    have hk : r.kind = kind := hm.keyed.kind_eq hr
    rw [hf] at hk
    rcases hkind with rfl | rfl <;> exact absurd hk (by simp [Resource.kind])

end Fleet
