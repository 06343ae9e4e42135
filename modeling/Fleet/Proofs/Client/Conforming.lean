import Fleet.Group
import Fleet.Proofs.Client.Permitted
import Fleet.Proofs.Client.Reclaiming

/-!
# Programs that may do all they do

An action conforms to a regime when everything that it does is permitted, whatever is stored: nothing is known before
and nothing is told afterwards (`Regime.Conforms`). Reading always conforms. Where every deletion is permitted, so do
all the programs that take nodes down and networks away.
-/

namespace Fleet

open Memory

namespace Regime

variable {ι α β : Type} {R : Regime ι} {i : ι} {c : Client} {mgr : Manager}

/-- Whatever is stored, the action of `i` keeps to the regime. -/
def Conforms (R : Regime ι) (i : ι) (a : Action α) : Prop :=
  R.Does i (fun _ => True) a (fun _ _ => True) (fun _ _ => True)

theorem Does.conforms {a : Action α} {B : α → Memory → Prop} {E : Failure → Memory → Prop}
    (h : R.Does i (fun _ => True) a B E) : R.Conforms i a :=
  h.conseq (fun _ _ _ => trivial) (fun _ _ _ _ => trivial) fun _ _ _ _ => trivial

theorem conforms_pure (v : α) : R.Conforms i (pure v) := does_pure fun _ _ _ => trivial

theorem conforms_throw (f : Failure) : R.Conforms i (throw f : Action α) := does_throw fun _ _ _ => trivial

theorem Conforms.bind {a : Action α} {k : α → Action β} (ha : R.Conforms i a) (hk : ∀ v, R.Conforms i (k v)) :
    R.Conforms i (a >>= k) :=
  Does.bind ha hk

theorem Conforms.outcome {a : Action α} (ha : R.Conforms i a) : R.Conforms i a.outcome := by
  have houtcome : R.Does i (fun _ => True) a.outcome (Ends (fun _ _ => True) fun _ _ => True) fun _ _ => True :=
    Does.outcome ha
  exact houtcome.conforms

/-! ### Reading -/

theorem conforms_fetch? (kind : Kind) (scope : Scope) (name : String) : R.Conforms i (c.fetch? kind scope name) :=
  (does_fetch? (E := fun _ _ => True) c kind scope name still_true).conforms

theorem conforms_list (kind : Kind) (filter : Filter) : R.Conforms i (c.list kind filter) :=
  (does_list (E := fun _ _ => True) c kind filter still_true).conforms

private theorem conforms_remainingInstances (link : String) (excluding : List String) :
    R.Conforms i (c.remainingInstances link excluding) :=
  (does_remainingInstances (E := fun _ _ => True) still_true).conforms

/-! ### Deleting -/

section Deleting

variable (hp : ∀ c, R.Patient c) (h : ∀ k, R.Permits i (.delete k))

include hp h

private theorem conforms_deleteIfExists (kind : Kind) (scope : Scope) (name : String) :
    R.Conforms i (c.deleteIfExists kind scope name) :=
  does_delete_permitted (hp c) (h _)

private theorem conforms_deleteFirewalls (fs : List Firewall) : R.Conforms i (c.deleteFirewalls fs) := by
  induction fs with
  | nil => exact conforms_pure []
  | cons f fs ih =>
    refine (conforms_deleteIfExists hp h .firewall .global f.name).bind fun deleted => ?_
    exact ih.bind fun more => conforms_pure _

theorem conforms_reclaimShared (link : String) (excluding : List String) :
    R.Conforms i (c.reclaimShared link excluding) := by
  have hcount := conforms_remainingInstances (R := R) (i := i) (c := c) link excluding
  unfold Client.reclaimShared
  by_cases hname : Link.name link = Naming.defaultNetwork
  · simp only [hname, if_true]
    exact conforms_pure _
  · simp only [hname, if_false]
    refine hcount.bind fun n => ?_
    split
    · exact conforms_pure _
    · refine (conforms_list .firewall (.onNetwork link)).bind fun fs => ?_
      refine (conforms_deleteFirewalls hp h fs).bind fun deleted => ?_
      refine (conforms_deleteIfExists hp h .network .global (Link.name link)).outcome.bind fun r => ?_
      rcases r with f | found
      · dsimp only
        split
        · exact hcount.bind fun m => conforms_pure _
        · exact conforms_throw f
      · exact conforms_pure _

theorem conforms_reclaimNetwork (name : String) : R.Conforms i (c.reclaimNetwork name) := by
  refine (conforms_fetch? .network .global name).bind fun n => ?_
  cases n with
  | none => exact conforms_pure _
  | some n => exact conforms_reclaimShared hp h n.selfLink []

private theorem conforms_reclaimAll (excluding links : List String) :
    R.Conforms i (mgr.reclaimAll excluding links) := by
  induction links with
  | nil => exact conforms_pure []
  | cons link links ih =>
    have hone : R.Conforms i (mgr.client.reclaimRecorded link excluding) := by
      refine (conforms_reclaimShared hp h link excluding).outcome.bind fun r => ?_
      rcases r with f | o <;> exact conforms_pure _
    exact hone.bind fun o => ih.bind fun os => conforms_pure _

theorem conforms_destroy (v : Instance) : R.Conforms i (c.destroy v) := by
  refine (conforms_deleteIfExists hp h .instance (.zone v.zone) v.name).bind fun _ => ?_
  split
  · exact conforms_pure _
  · exact (conforms_deleteIfExists hp h .disk (.zone v.zone) v.bootDiskName).bind fun _ => conforms_pure _

theorem conforms_destroyNode (id : NodeId) : R.Conforms i (mgr.destroyNode id) := by
  refine (conforms_fetch? .instance (.zone id.zone) id.name).bind fun v => ?_
  cases v with
  | none => exact conforms_pure _
  | some v =>
    refine (conforms_destroy hp h v).outcome.bind fun r => ?_
    rcases r with f | u
    · exact (conforms_reclaimAll hp h _ _).bind fun _ => conforms_throw _
    · exact (conforms_reclaimAll hp h _ _).bind fun _ => conforms_pure _

theorem conforms_reclaimGroup (group : String) (members : List Instance) (rs : List (Instance × Except Failure Unit)) :
    R.Conforms i (mgr.reclaimGroup group members rs) := by
  have hnetworks : R.Conforms i (mgr.groupNetworks group members) := by
    refine (conforms_fetch? .network .global _).bind fun n => ?_
    cases n with
    | none => exact conforms_pure _
    | some n =>
      dsimp only
      split <;> exact conforms_pure _
  refine hnetworks.bind fun links => ?_
  exact (conforms_reclaimAll hp h _ links).bind fun _ => conforms_pure _

end Deleting

/-- What a failed launch has left is discarded where instances and disks may be deleted. -/
theorem conforms_discardPartial (hp : ∀ c, R.Patient c)
    (h : ∀ kind scope name, kind = .instance ∨ kind = .disk → R.Permits i (.delete (resourceKey kind scope name)))
    (s : NodeSpec) : R.Conforms i (mgr.discardPartial s) := by
  have inst : R.Conforms i (mgr.client.deleteIfExists .instance (.zone s.zone) s.name) :=
    does_delete_permitted (hp _) (h _ _ _ (.inl rfl))
  have disk : R.Conforms i (mgr.client.deleteIfExists .disk (.zone s.zone) s.bootDiskName) :=
    does_delete_permitted (hp _) (h _ _ _ (.inr rfl))
  exact inst.outcome.bind fun _ => disk.outcome.bind fun _ => conforms_pure _

end Regime

end Fleet
