import Fleet.Proofs.Wording.Client
import Fleet.Provision
import Fleet.Reclaim
import Fleet.Teardown

/-!
# Nodes and networks without the wording

Bringing up a node, taking it down and taking away networks: what is done next depends on what failed and with which
code, never on messages, although messages are passed on in failures and outcomes.
-/

namespace Fleet.Client

open Action

variable (c : Client)

/-! ### Nodes -/

/-- The instance that has the tags, or the conflict without its message. -/
private def silentTagging : Instance ⊕ Failure → Instance ⊕ Failure := Sum.map id Failure.silent

private theorem alike_setTagsOnce (zone : Scope) (name : String) (wanted : List String) :
    Alike silentTagging (c.setTagsOnce zone name wanted) (c.setTagsOnce zone name wanted) := by
  unfold setTagsOnce
  refine (c.alike_fetch .instance zone name).bind_id fun i => ?_
  refine alike_ite Iff.rfl (alike_pure rfl) ?_
  refine (c.alike_update .instance zone name _).outcome.bind fun r s hrs => ?_
  rcases silenced_eq_cases hrs with ⟨x, y, rfl, rfl, -⟩ | ⟨f, g, rfl, rfl, hfg⟩
  · exact (c.alike_fetch .instance zone name).bind_id fun i' => alike_pure rfl
  · exact alike_ite (by rw [Failure.isConflict_congr hfg]) (alike_pure (congrArg Sum.inr hfg)) (alike_throw hfg)

theorem alike_setTags (zone : Scope) (name : String) (wanted : List String) :
    Alike id (c.setTags zone name wanted) (c.setTags zone name wanted) := by
  unfold setTags
  refine (c.alike_setTagsOnce zone name wanted).bind fun x y hxy => ?_
  rcases x with i | f <;> rcases y with j | g
  · obtain rfl : i = j := Sum.inl.inj hxy
    exact alike_pure rfl
  · cases hxy
  · cases hxy
  -- The message of a second conflict is passed on, and nothing else of it.
  refine (c.alike_setTagsOnce zone name wanted).bind fun x y hxy => ?_
  rcases x with i | f' <;> rcases y with j | g'
  · obtain rfl : i = j := Sum.inl.inj hxy
    exact alike_pure rfl
  · cases hxy
  · cases hxy
  · exact alike_throw rfl

theorem alike_createNode (s : NodeSpec) : Alike id (c.createNode s) (c.createNode s) := by
  unfold createNode
  refine (c.alike_ensure .network .global s.network _).bind_id fun n => ?_
  refine (c.alike_ensure .firewall .global s.firewallName _).bind_id fun _ => ?_
  refine (c.alike_create .disk (.zone s.zone) _).bind_id fun d => ?_
  refine (c.alike_create .instance (.zone s.zone) _).bind_id fun i => ?_
  exact c.alike_setTags (.zone s.zone) i.name s.desiredTags

theorem alike_destroy (i : Instance) : Alike id (c.destroy i) (c.destroy i) := by
  unfold destroy
  refine (c.alike_deleteIfExists .instance (.zone i.zone) i.name).bind_id fun _ => ?_
  refine alike_ite Iff.rfl (alike_pure rfl) ?_
  exact (c.alike_deleteIfExists .disk (.zone i.zone) i.bootDiskName).bind_id fun _ => alike_pure rfl

/-! ### Networks -/

private theorem alike_remainingInstances (link : String) (excluding : List String) :
    Alike id (c.remainingInstances link excluding) (c.remainingInstances link excluding) :=
  (c.alike_list .instance (.onNetwork link)).bind_id fun _ => alike_pure rfl

private theorem alike_deleteFirewalls (fs : List Firewall) :
    Alike id (c.deleteFirewalls fs) (c.deleteFirewalls fs) := by
  induction fs with
  | nil => exact alike_pure rfl
  | cons f fs ih =>
    unfold deleteFirewalls
    exact (c.alike_deleteIfExists .firewall .global f.name).bind_id fun _ => ih.bind_id fun _ => alike_pure rfl

theorem alike_reclaimShared (link : String) (excluding : List String) :
    Alike NetworkOutcome.silent (c.reclaimShared link excluding) (c.reclaimShared link excluding) := by
  unfold reclaimShared
  refine alike_ite Iff.rfl (alike_pure rfl) ?_
  refine (c.alike_remainingInstances link excluding).bind_id fun n => ?_
  refine alike_ite Iff.rfl (alike_pure rfl) ?_
  refine (c.alike_list .firewall (.onNetwork link)).bind_id fun fs => ?_
  refine (c.alike_deleteFirewalls fs).bind_id fun deleted => ?_
  refine (c.alike_deleteIfExists .network .global (Link.name link)).outcome.bind fun r s hrs => ?_
  rcases silenced_eq_cases hrs with ⟨x, y, rfl, rfl, hxy⟩ | ⟨f, g, rfl, rfl, hfg⟩
  · obtain rfl : x = y := hxy
    exact alike_pure rfl
  · refine alike_ite (by rw [Failure.isInUse_congr hfg]) ?_ (alike_throw hfg)
    exact (c.alike_remainingInstances link excluding).bind_id fun m => alike_pure rfl

theorem alike_reclaimNetwork (name : String) :
    Alike NetworkOutcome.silent (c.reclaimNetwork name) (c.reclaimNetwork name) := by
  refine (c.alike_fetch? .network .global name).bind_id fun n => ?_
  cases n with
  | none => exact alike_pure rfl
  | some n => exact c.alike_reclaimShared n.selfLink []

/-- A failed reclamation is told by its message only. -/
theorem alike_reclaimRecorded (link : String) (excluding : List String) :
    Alike NetworkOutcome.silent (c.reclaimRecorded link excluding) (c.reclaimRecorded link excluding) := by
  refine (c.alike_reclaimShared link excluding).outcome.bind fun r s hrs => ?_
  rcases silenced_eq_cases hrs with ⟨x, y, rfl, rfl, hxy⟩ | ⟨f, g, rfl, rfl, -⟩
  · exact alike_pure hxy
  · exact alike_pure rfl

end Fleet.Client
