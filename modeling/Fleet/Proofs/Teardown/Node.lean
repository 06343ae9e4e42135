import Fleet.Proofs.Teardown.Members
import Fleet.Proofs.Teardown.Networks

/-!
# Destroying a node

On a canonical platform where nothing goes wrong, destroying a node removes its instance, the disks that go with it, and
those of its networks that nobody else is attached to, with the firewalls on them; nothing else changes, and the result
tells of every network what became of it (`destroyNode_removes`).
-/

namespace Fleet

open Memory

namespace World.Calm

variable {project : String} {polls : Nat} {w : World Cloud Memory} {mgr : Manager}

/-- An identifier under which nothing is stored stands for a node that has been destroyed. -/
theorem run_destroyNode_of_missing (h : w.Calm (solitary project polls)) (mgr : Manager) {id : NodeId}
    (hnone : w.service.find? .instance (.zone id.zone) id.name = none) :
    ∃ w', (mgr.destroyNode id).run.run w = (.ok [], w') ∧ w'.Calm (solitary project polls) ∧
      w'.service.resources = w.service.resources := by
  obtain ⟨found, w₁, hfetch, hw₁, ⟨hres₁, -⟩, hfound⟩ := h.run_fetch? mgr.client .instance (.zone id.zone) id.name
  have hsame : found = none := Option.map_eq_none_iff.1 (hfound.symm.trans hnone)
  subst hsame
  refine ⟨w₁, ?_, hw₁, hres₁⟩
  unfold Manager.destroyNode
  rw [Action.run_bind_of_ok hfetch]
  rfl

theorem run_destroyNode (h : w.Calm (solitary project polls)) (hp : mgr.client.poll.Patient polls)
    (hc : w.service.Canonical) {k : ResourceKey} {i : Instance}
    (hi : w.service.resources.find? k = some (.instance i)) :
    ∃ links w', (mgr.destroyNode ⟨i.zone, i.name⟩).run.run w = (.ok (links.map (w.service.fate [i])), w') ∧
      links.Nodup ∧ (∀ link, link ∈ links ↔ ∃ nic ∈ i.networkInterfaces, nic.network = link) ∧
      w.service.Loses w'.service (w.service.Doomed [i] links) ∧ w'.Calm (solitary project polls) ∧
      w'.service.Canonical := by
  have hkey : k = (Resource.instance i).key := (hc.keyed k _ hi).symm
  subst hkey
  obtain ⟨found, w₁, hfetch, hw₁, ⟨hres₁, -⟩, hfound⟩ := h.run_fetch? mgr.client .instance (.zone i.zone) i.name
  -- Resources are stored under their own keys, so the node's identifier leads back to the instance.
  have hsame : found = some i := by
    rw [show resourceKey .instance (.zone i.zone) i.name = (Resource.instance i).key from rfl, hi] at hfound
    cases found with
    | none => exact absurd hfound (by simp)
    | some j =>
      have hrecord : Resource.ofRecord .instance i = Resource.ofRecord .instance j := Option.some.inj hfound
      rw [Resource.ofRecord_injective hrecord]
  subst hsame
  have hproject : w.service.project = project := h.holds.project
  have hc₁ : w₁.service.Canonical := hc.of_resources_eq hres₁ (hw₁.holds.project.trans hproject.symm)
  obtain ⟨w₂, hdestroy, hw₂, hl₂⟩ := hw₁.run_destroy hp hc₁ (hres₁.symm ▸ hi)
  have hl₂ := hl₂.of_resources_eq hres₁.symm rfl
  have hnetworks : ∀ link, link ∈ (networksOf [i]).keys ↔ ∃ nic ∈ i.networkInterfaces, nic.network = link := by
    intro link
    simp [mem_networksOf]
  have hstored : w.service.HasInstances [i] := by simpa [HasInstances] using hi
  have hlinks : ∀ link ∈ (networksOf [i]).keys, w.service.HasNetwork link := by
    intro link hlink
    obtain ⟨nic, hnic, rfl⟩ := (hnetworks link).1 hlink
    exact hc.network hi hnic
  have hexcluding : ∀ l ∈ [i.selfLink], ∃ v ∈ [i], v.selfLink = l := by simp
  obtain ⟨w₃, hreclaim, hw₃, hc₃, hl₃⟩ := hw₂.run_reclaimAll_of_takes hp hc hproject hstored hl₂
    (networksOf [i]).nodup_keys hlinks hexcluding
  refine ⟨(networksOf [i]).keys, w₃, ?_, (networksOf [i]).nodup_keys, hnetworks, hl₃, hw₃, hc₃⟩
  have houtcome := Action.run_outcome (mgr.client.destroy i) w₁
  rw [hdestroy] at houtcome
  unfold Manager.destroyNode
  rw [Action.run_bind_of_ok hfetch]
  simp only
  rw [Action.run_bind_of_ok houtcome, Action.run_bind_of_ok hreclaim]
  rfl

end World.Calm

/-- Destroying a node removes exactly what is doomed by it, and every network of the node comes to its fate. -/
theorem destroyNode_removes {mgr : Manager} {w : World Cloud Memory} (hcanonical : w.service.Canonical)
    (hfree : w.service.FaultFree) (hw : w.interventions = [])
    (hp : mgr.client.poll.Patient w.service.pollsUntilDone) {k : ResourceKey} {i : Instance}
    (hi : w.service.resources.find? k = some (.instance i)) :
    ∃ links w', (mgr.destroyNode ⟨i.zone, i.name⟩).run.run w = (.ok (links.map (w.service.fate [i])), w') ∧
      links.Nodup ∧ (∀ link, link ∈ links ↔ ∃ nic ∈ i.networkInterfaces, nic.network = link) ∧
      w.service.Loses w'.service (w.service.Doomed [i] links) := by
  have hcalm : w.Calm (solitary w.service.project w.service.pollsUntilDone) := ⟨hw, hfree.holds hcanonical.keyed⟩
  obtain ⟨links, w', hrun, hnodup, hlinks, hloses, -⟩ := hcalm.run_destroyNode hp hcanonical hi
  exact ⟨links, w', hrun, hnodup, hlinks, hloses⟩

/-- The network of the node that is destroyed is kept by the one next to it. -/
theorem destroyNode_removes_of_neighbours :
    ∃ links w', ((Manager.ofClient .standard).destroyNode ⟨"zone-a", "web-1"⟩).run.run (World.start neighbours.2 0) =
        (.ok (links.map (neighbours.2.fate [neighbours.1])), w') ∧ links.Nodup ∧
      (∀ link, link ∈ links ↔ ∃ nic ∈ neighbours.1.networkInterfaces, nic.network = link) ∧
      neighbours.2.Loses w'.service (neighbours.2.Doomed [neighbours.1] links) :=
  @destroyNode_removes (.ofClient .standard) (World.start neighbours.2 0) canonical_neighbours faultFree_neighbours rfl
    (PollPolicy.patient_one _) _ neighbours.1 find?_neighbours

end Fleet
