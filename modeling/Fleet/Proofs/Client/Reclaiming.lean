import Fleet.Proofs.Client.Requests
import Fleet.Reclaim

/-!
# Rules for reclaiming networks

What a client does when it takes away a network: it counts the instances that are left, deletes the firewalls one
after the other (`does_deleteFirewalls`) and then the network. `does_reclaimShared` reduces all this to what is
known when nobody is left, and to the single deletions.
-/

namespace Fleet

open Memory

variable {ι : Type}

namespace Regime

variable {R : Regime ι} {i : ι} {c : Client} {link : String} {excluding : List String} {A P : Memory → Prop}
  {W : List Firewall → Memory → Prop} {E : Failure → Memory → Prop}

/-- The instances on a network besides the excluded ones. -/
def remaining (link : String) (excluding : List String) (m : Memory) : List Resource :=
  (listed m .instance (.onNetwork link)).filter fun r => !excluding.contains r.selfLink

theorem still_listed (kind : Kind) (filter : Filter) (rs : List Resource) :
    R.Still fun m => listed m kind filter = rs := by
  intro m m' _ hq h
  unfold listed
  rw [hq.resources]
  exact h

private theorem length_remaining {is : List Instance} {m : Memory}
    (h : is.map (Resource.ofRecord .instance) = listed m .instance (.onNetwork link)) :
    (is.filter fun i => !excluding.contains i.selfLink).length = (remaining link excluding m).length := by
  unfold remaining
  rw [← h, List.filter_map, List.length_map]
  rfl

theorem does_remainingInstances (hA : R.Still A) :
    R.Does i A (c.remainingInstances link excluding)
      (fun n m => A m ∧ n = (remaining link excluding m).length) E := by
  refine (does_list c .instance (.onNetwork link) hA).bind fun is => ?_
  exact does_pure fun m _ h => ⟨h.1, length_remaining h.2⟩

/-- Deletions one after the other; what is known depends on the firewalls that are left to be deleted. -/
theorem does_deleteFirewalls
    (h : ∀ f fs, R.Does i (W (f :: fs)) (c.deleteIfExists .firewall .global f.name) (fun _ => W fs) E)
    (fs : List Firewall) : R.Does i (W fs) (c.deleteFirewalls fs) (fun _ => W []) E := by
  induction fs with
  | nil => exact does_pure fun _ _ hW => hW
  | cons f fs ih =>
    refine (h f fs).bind fun deleted => ih.bind fun more => ?_
    exact does_pure fun _ _ hW => hW

theorem does_reclaimShared (hA : R.Still A)
    (hdefault : Link.name link = Naming.defaultNetwork → ∀ m, R.inv m → A m → P m)
    (hbusy : ∀ m, R.inv m → A m → remaining link excluding m ≠ [] → P m)
    (hidle : Link.name link ≠ Naming.defaultNetwork → ∀ m fs, R.inv m → A m → remaining link excluding m = [] →
      fs.map Resource.firewall = listed m .firewall (.onNetwork link) → W fs m)
    (hfirewall : ∀ f fs, R.Does i (W (f :: fs)) (c.deleteIfExists .firewall .global f.name) (fun _ => W fs) E)
    (hnetwork : R.Does i (W []) (c.deleteIfExists .network .global (Link.name link)) (fun _ => P)
      fun f m => (f.isInUse = true → P m) ∧ E f m) (hP : R.Still P) :
    R.Does i A (c.reclaimShared link excluding) (fun _ => P) E := by
  unfold Client.reclaimShared
  by_cases hname : Link.name link = Naming.defaultNetwork
  · simp only [hname, if_true]
    exact does_pure fun m hm hAm => hdefault hname m hm hAm
  · simp only [hname, if_false]
    refine (does_remainingInstances hA).bind fun n => ?_
    by_cases hn : 0 < n
    · simp only [hn, if_true]
      refine does_pure fun m hm h => hbusy m hm h.1 fun hnil => ?_
      rw [h.2, hnil] at hn
      exact absurd hn (by simp)
    · simp only [hn, if_false]
      -- The count stays right while the firewalls are listed.
      have hstill : R.Still fun m => A m ∧ n = (remaining link excluding m).length := by
        intro m m' hm hq h
        refine ⟨hA m m' hm hq h.1, ?_⟩
        rw [h.2, remaining, remaining, still_listed (R := R) _ _ _ m m' hm hq rfl]
      refine (does_list c .firewall (.onNetwork link) hstill).bind fun fs => ?_
      refine ((does_deleteFirewalls hfirewall fs).pre fun m hm h => ?_).bind fun deleted => ?_
      · refine hidle hname m fs hm h.1.1 (List.length_eq_zero_iff.1 ?_) h.2
        have := h.1.2
        omega
      · refine hnetwork.outcome.bind fun r => ?_
        rcases r with f | found
        · show R.Does i _ (if f.isInUse = true then _ else throw f) _ E
          by_cases hf : f.isInUse = true
          · rw [if_pos hf]
            refine (does_remainingInstances (A := P) hP).bind (fun n => ?_) |>.pre fun m _ h => h.1 hf
            exact does_pure fun m _ h => h.1
          · rw [if_neg hf]
            exact does_throw fun m _ h => h.2
        · exact does_pure fun m _ h => h

theorem does_reclaimNetwork {name : String} (hA : R.Still A)
    (hnone : ∀ m, R.inv m → A m → m.resources.find? (resourceKey .network .global name) = none → P m)
    (hsome : ∀ n, R.Does i (fun m => A m ∧ m.resources.find? (resourceKey .network .global name) = some (.network n))
      (c.reclaimShared n.selfLink []) (fun _ => P) E) :
    R.Does i A (c.reclaimNetwork name) (fun _ => P) E := by
  refine (does_fetch? c .network .global name hA).bind fun n => ?_
  cases n with
  | none => exact does_pure fun m hm h => hnone m hm h.1 h.2
  | some n => exact hsome n

end Regime

end Fleet
