import Fleet.Proofs.Conduct.Pool
import Fleet.Proofs.Record.Phases
import Fleet.Proofs.Session.Basic

/-!
# Nothing goes wrong by itself

Calls bring no faults to the platform in memory: where nothing comes from outside, whatever programs ask for, alone or
side by side, the faults that are to come afterwards were to come before (`World.Proceeds`).
-/

namespace Fleet

open Memory

variable {ι α : Type}

/-- Nothing comes from outside, and no fault is added. -/
def World.Proceeds (w w' : World Cloud Memory) : Prop :=
  w.interventions = [] → w'.interventions = [] ∧ w.service.Continues w'.service

namespace World.Proceeds

theorem refl (w : World Cloud Memory) : w.Proceeds w := fun hw => ⟨hw, .refl w.service⟩

theorem trans {w w' w'' : World Cloud Memory} (h : w.Proceeds w') (h' : w'.Proceeds w'') : w.Proceeds w'' := by
  intro hw
  obtain ⟨hw', hc⟩ := h hw
  obtain ⟨hw'', hc'⟩ := h' hw'
  exact ⟨hw'', hc.trans hc'⟩

end World.Proceeds

/-- The conduct of programs that may ask for anything. -/
private def liberal (ι : Type) : Conduct Cloud Memory ι Unit where
  note _ _ _ := ()
  may _ _ _ := True
  drift _ x y := x.1.Continues y.1
  stoppable := True
  drift_refl _ x := .refl x.1
  drift_trans _ _ _ _ h h' := h.trans h'
  drift_of_may _ _ q x _ _ := continues_answer q x.1

private theorem bounds_liberal : (liberal ι).Bounds id Memory.Continues fun _ => False where
  isView := isView_id
  refl := .refl
  trans _ _ _ h h' := h.trans h'
  of_may _ q m _ _ := continues_answer q m
  tolerates _ hf := hf.elim

private theorem obeys_liberal {i : ι} (p : Program Cloud α) (x : Memory × Unit) (t : Nat) :
    p.Obeys (liberal ι) i (fun _ _ _ => True) x t := by
  induction p generalizing x t with
  | done a => trivial
  | ask q k ih => exact ⟨trivial, ih _ _ _⟩
  | sleep ms k ih => exact fun y _ => ih y _
  | clock k ih => exact ih _ _ _
  | cancelled k ih => exact fun b _ => ih b _ _

private theorem within_liberal {w : World Cloud Memory} (hw : w.interventions = []) :
    w.Within (liberal ι) fun _ => False :=
  World.within_of_quiet hw (.inr trivial)

theorem Program.proceeds_run (p : Program Cloud α) (w : World Cloud Memory) : w.Proceeds (p.run w).2 := by
  intro hw
  obtain ⟨hw', hc, -⟩ := (obeys_liberal (i := ()) p (w.service, ()) w.now).run bounds_liberal (within_liberal hw)
  exact ⟨hw'.interventions_eq_nil, hc⟩

theorem proceeds_runPool (width : Nat) (ps : List (Program Cloud α)) (w : World Cloud Memory) :
    w.Proceeds (runPool width ps w).2 := by
  intro hw
  have hstable : ∀ (i : Program Cloud α × Nat) (a : α) (x y : Memory × Unit) (t s : Nat),
      True → (liberal (Program Cloud α × Nat)).drift i x y → t ≤ s → True := fun _ _ _ _ _ _ _ _ _ => trivial
  have hps : ps = ps.zipIdx.map fun p => p.1 := (List.zipIdx_map_fst 0 ps).symm
  have hrun := runPool_of_obeys bounds_liberal hstable width (nodup_zipIdx ps) (within_liberal hw)
    (g := ()) fun i _ y s _ => obeys_liberal i.1 y s
  rw [← hps] at hrun
  obtain ⟨hw', hc, -⟩ := hrun
  exact ⟨hw'.interventions_eq_nil, hc⟩

namespace Manager

theorem proceeds_launch (mgr : Manager) (group : String) (count : Nat) (t : NodeTemplate) (w : World Cloud Memory) :
    w.Proceeds (mgr.launch group count t w).2 := by
  have hchoose := (mgr.chooseNames group count).run.proceeds_run w
  refine after_launch (.refl w) (fun f w₁ hfailed => ?_) fun names w₁ rs w₂ _ hnames hpool => ?_
  · rwa [hfailed] at hchoose
  · rw [hnames] at hchoose
    have hnodes := proceeds_runPool mgr.concurrency
      (names.map fun n => mgr.launchNode (.ofTemplate n group (mgr.networkFor group t) t)) w₁
    rw [hpool] at hnodes
    exact hchoose.trans (hnodes.trans (Program.proceeds_run _ w₂))

theorem proceeds_destroyGroup (mgr : Manager) (group : String) (w : World Cloud Memory) :
    w.Proceeds (mgr.destroyGroup group w).2 := by
  have hlist := (mgr.client.list .instance (.withLabel Naming.groupKey group)).run.proceeds_run w
  refine after_destroyGroup (fun f w₁ hfailed => ?_) fun members w₁ rs w₂ hlisted hpool => ?_
  · rwa [hfailed] at hlist
  · rw [hlisted] at hlist
    have hmembers := proceeds_runPool mgr.concurrency (members.map mgr.destroyMember) w₁
    rw [hpool] at hmembers
    exact hlist.trans (hmembers.trans (Program.proceeds_run _ w₂))

end Manager

end Fleet
