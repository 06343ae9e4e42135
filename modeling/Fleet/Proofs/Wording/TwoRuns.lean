import Fleet.Pool
import Fleet.Proofs.Conduct.Pool
import Mathlib.Data.List.Forall2

/-!
# Two runs of a program

Two services may answer the same question differently, as far as a relation between answers goes. When two programs
ask the same questions and sleep for the same times as long as the answers they get are related (`Program.Alike`), their
runs stay together: the same questions at the same times, related answers, related results (`Program.Alike.run`). So do
pools of such programs (`runPool_alike`), since who has the next turn depends on nothing else.
-/

namespace Fleet

variable {S : Signature} {σ τ α β : Type} {E : (q : S.Query) → S.Answer q → S.Answer q → Prop}

/-! ### Programs -/

/-- Two programs that go on alike after related answers, and end with related results. -/
inductive Program.Alike (E : (q : S.Query) → S.Answer q → S.Answer q → Prop) (P : α → α → Prop) :
    Program S α → Program S α → Prop
  | done {a b : α} (h : P a b) : Alike E P (.done a) (.done b)
  | ask {q : S.Query} {k l : S.Answer q → Program S α} (h : ∀ r s, E q r s → Alike E P (k r) (l s)) :
      Alike E P (.ask q k) (.ask q l)
  | sleep {ms : Nat} {k l : Program S α} (h : Alike E P k l) : Alike E P (.sleep ms k) (.sleep ms l)
  | clock {k l : Nat → Program S α} (h : ∀ t, Alike E P (k t) (l t)) : Alike E P (.clock k) (.clock l)
  | cancelled {k l : Bool → Program S α} (h : ∀ b, Alike E P (k b) (l b)) : Alike E P (.cancelled k) (.cancelled l)

theorem Program.Alike.bind {P : α → α → Prop} {Q : β → β → Prop} {p q : Program S α} (h : p.Alike E P q)
    {f g : α → Program S β} (hfg : ∀ a b, P a b → (f a).Alike E Q (g b)) : (p.bind f).Alike E Q (q.bind g) := by
  induction h with
  | done hab => exact hfg _ _ hab
  | ask _ ih => exact .ask fun r s hrs => ih r s hrs
  | sleep _ ih => exact .sleep ih
  | clock _ ih => exact .clock ih
  | cancelled _ ih => exact .cancelled ih

/-! ### Worlds -/

/-- Two exchanges of one question at one time, with related answers. -/
inductive Exchange.Alike (E : (q : S.Query) → S.Answer q → S.Answer q → Prop) : Exchange S → Exchange S → Prop
  | mk (t : Nat) {q : S.Query} {r s : S.Answer q} (h : E q r s) : Alike E ⟨t, q, r⟩ ⟨t, q, s⟩

/-- Two services in related states give related answers and are in related states again. -/
def AnswerAlike [Service S σ] [Service S τ] (E : (q : S.Query) → S.Answer q → S.Answer q → Prop)
    (R : σ → τ → Prop) : Prop :=
  ∀ q s t, R s t → E q (Service.answer q s).1 (Service.answer q t).1 ∧ R (Service.answer q s).2 (Service.answer q t).2

/-- Two interventions at one time that take related states to related states. -/
def InterveneAlike (R : σ → τ → Prop) (i : Nat × (σ → σ)) (j : Nat × (τ → τ)) : Prop :=
  i.1 = j.1 ∧ ∀ s t, R s t → R (i.2 s) (j.2 t)

/-- Two worlds at the same time with related services and records, in which the same is going to happen. -/
structure World.Alike (E : (q : S.Query) → S.Answer q → S.Answer q → Prop) (R : σ → τ → Prop) (w : World S σ)
    (v : World S τ) : Prop where
  service : R w.service v.service
  now : w.now = v.now
  record : List.Forall₂ (Exchange.Alike E) w.record v.record
  interventions : List.Forall₂ (InterveneAlike R) w.interventions v.interventions
  cancelAt : w.cancelAt = v.cancelAt
  cancelAfter : w.cancelAfter = v.cancelAfter

namespace World.Alike

variable {R : σ → τ → Prop} {w : World S σ} {v : World S τ}

theorem ask [Service S σ] [Service S τ] (hR : AnswerAlike E R) (h : w.Alike E R v) (q : S.Query) :
    E q (w.ask q).1 (v.ask q).1 ∧ (w.ask q).2.Alike E R (v.ask q).2 := by
  obtain ⟨hanswer, hnext⟩ := hR q w.service v.service h.service
  have hexchange : Exchange.Alike E ⟨w.now, q, (w.ask q).1⟩ ⟨v.now, q, (v.ask q).1⟩ := h.now ▸ .mk w.now hanswer
  exact ⟨hanswer, hnext, h.now, .cons hexchange h.record, h.interventions, h.cancelAt, h.cancelAfter⟩

private theorem intervene (t : Nat) {is : List (Nat × (σ → σ))} {js : List (Nat × (τ → τ))} {s : σ} {u : τ}
    (h : List.Forall₂ (InterveneAlike R) is js) (hs : R s u) :
    R (World.intervene t is s).1 (World.intervene t js u).1 ∧
      List.Forall₂ (InterveneAlike R) (World.intervene t is s).2 (World.intervene t js u).2 := by
  induction h generalizing s u with
  | nil => exact ⟨hs, .nil⟩
  | @cons i j is js hij hrest ih =>
    obtain ⟨htime, heffect⟩ := hij
    simp only [World.intervene, htime]
    by_cases ht : j.1 ≤ t
    · simp only [if_pos ht]
      exact ih (heffect s u hs)
    · simp only [if_neg ht]
      exact ⟨hs, .cons ⟨htime, heffect⟩ hrest⟩

theorem advanceTo (h : w.Alike E R v) (t : Nat) : (w.advanceTo t).Alike E R (v.advanceTo t) := by
  have hmax : max w.now t = max v.now t := congrArg (max · t) h.now
  obtain ⟨hservice, hrest⟩ := intervene (max w.now t) h.interventions h.service
  rw [World.advanceTo, World.advanceTo, ← hmax]
  exact ⟨hservice, rfl, h.record, hrest, h.cancelAt, h.cancelAfter⟩

theorem isCancelled (h : w.Alike E R v) : w.isCancelled = v.isCancelled := by
  have hlength : w.record.length = v.record.length := h.record.length_eq
  rw [World.isCancelled, World.isCancelled, World.signal, World.signal, h.cancelAt, h.cancelAfter, h.now, hlength]

end World.Alike

/-! ### Pools -/

section Pools

variable {R : σ → τ → Prop} {P : α → α → Prop} {w : World S σ} {v : World S τ}

private structure Sleeper.Alike (E : (q : S.Query) → S.Answer q → S.Answer q → Prop) (P : α → α → Prop)
    (s t : Sleeper S α) : Prop where
  wakeAt : s.wakeAt = t.wakeAt
  rest : s.rest.Alike E P t.rest

private structure Pool.Alike (E : (q : S.Query) → S.Answer q → S.Answer q → Prop) (P : α → α → Prop)
    (p q : Pool S α) : Prop where
  ready : List.Forall₂ (Program.Alike E P) p.ready q.ready
  sleeping : List.Forall₂ (Sleeper.Alike E P) p.sleeping q.sleeping
  waiting : List.Forall₂ (Program.Alike E P) p.waiting q.waiting

private theorem earliest_alike {ss ts : List (Sleeper S α)} (h : List.Forall₂ (Sleeper.Alike E P) ss ts) :
    Pool.earliest ss = Pool.earliest ts := by
  induction h with
  | nil => rfl
  | cons hst _ ih => rw [Pool.earliest, Pool.earliest, ih, hst.wakeAt]

namespace Pool.Alike

variable {p q : Pool S α}

private theorem release (h : p.Alike E P q) : p.release.Alike E P q.release := by
  have htail : List.Forall₂ (Program.Alike E P) p.ready.tail q.ready.tail := by
    simpa only [List.drop_one] using List.forall₂_drop 1 h.ready
  exact ⟨List.rel_append htail (List.forall₂_take 1 h.waiting), h.sleeping, List.forall₂_drop 1 h.waiting⟩

private theorem suspend (h : p.Alike E P q) {s t : Sleeper S α} (hst : s.Alike E P t) :
    (p.suspend s).Alike E P (q.suspend t) := by
  have htail : List.Forall₂ (Program.Alike E P) p.ready.tail q.ready.tail := by
    simpa only [List.drop_one] using List.forall₂_drop 1 h.ready
  exact ⟨htail, List.rel_append h.sleeping (.cons hst .nil), h.waiting⟩

private theorem settle (h : p.Alike E P q) (hw : w.Alike E R v) :
    (p.settle w).1.Alike E P (q.settle v).1 ∧ (p.settle w).2.Alike E R (q.settle v).2 := by
  have hempty : p.ready.isEmpty = q.ready.isEmpty := by
    rw [Bool.eq_iff_iff, List.isEmpty_iff_length_eq_zero, List.isEmpty_iff_length_eq_zero, h.ready.length_eq]
  unfold Pool.settle
  rw [hempty]
  split
  · unfold Pool.wake
    rw [earliest_alike h.sleeping]
    cases Pool.earliest q.sleeping with
    | none => exact ⟨h, hw⟩
    | some t =>
      -- Those that wake up now, and those that go on sleeping.
      have hdue {s u : Sleeper S α} (hsu : s.Alike E P u) :
          decide (s.wakeAt ≤ t) = true ↔ decide (u.wakeAt ≤ t) = true := by rw [hsu.wakeAt]
      have hlater {s u : Sleeper S α} (hsu : s.Alike E P u) :
          (!decide (s.wakeAt ≤ t)) = true ↔ (!decide (u.wakeAt ≤ t)) = true := by rw [hsu.wakeAt]
      have hwoken : List.Forall₂ (Program.Alike E P) ((p.sleeping.filter fun s => s.wakeAt ≤ t).map (·.rest))
          ((q.sleeping.filter fun s => s.wakeAt ≤ t).map (·.rest)) :=
        List.rel_map (R := Sleeper.Alike E P) (fun _ _ hsu => hsu.rest)
          (List.rel_filter (fun _ _ hsu => hdue hsu) h.sleeping)
      exact ⟨⟨List.rel_append h.ready hwoken, List.rel_filter (fun _ _ hsu => hlater hsu) h.sleeping, h.waiting⟩,
        hw.advanceTo t⟩
  · exact ⟨h, hw⟩

end Pool.Alike

end Pools

section Runs

variable [Service S σ] [Service S τ] {R : σ → τ → Prop} {P : α → α → Prop} {w : World S σ} {v : World S τ}

theorem Program.Alike.run (hR : AnswerAlike E R) {p q : Program S α} (h : p.Alike E P q) (hw : w.Alike E R v) :
    P (p.run w).1 (q.run v).1 ∧ (p.run w).2.Alike E R (q.run v).2 := by
  induction h generalizing w v with
  | done hab => exact ⟨hab, hw⟩
  | @ask q k l _ ih =>
    obtain ⟨hanswer, hworld⟩ := hw.ask hR q
    exact ih _ _ hanswer hworld
  | @sleep ms k l _ ih =>
    have hworld := hw.advanceTo (w.now + ms)
    rw [show v.advanceTo (w.now + ms) = v.advanceTo (v.now + ms) by rw [hw.now]] at hworld
    exact ih hworld
  | @clock k l _ ih =>
    have hnow := ih w.now hw
    rwa [show l w.now = l v.now by rw [hw.now]] at hnow
  | @cancelled k l _ ih =>
    have hstop := ih w.isCancelled hw
    rwa [show l w.isCancelled = l v.isCancelled by rw [hw.isCancelled]] at hstop

/-! ### Turns -/

/-- Two turns that end alike. -/
private inductive Turn.Alike (E : (q : S.Query) → S.Answer q → S.Answer q → Prop) (R : σ → τ → Prop)
    (P : α → α → Prop) : Turn S σ α → Turn S τ α → Prop
  | ended {a b : α} {w : World S σ} {v : World S τ} (h : P a b) (hw : w.Alike E R v) :
      Alike E R P (.ended a w) (.ended b v)
  | asleep {ms : Nat} {p q : Program S α} {w : World S σ} {v : World S τ} (h : p.Alike E P q) (hw : w.Alike E R v) :
      Alike E R P (.asleep ms p w) (.asleep ms q v)

private theorem turn_alike (hR : AnswerAlike E R) {p q : Program S α} (h : p.Alike E P q) (hw : w.Alike E R v) :
    Turn.Alike E R P (p.turn w) (q.turn v) := by
  induction h generalizing w v with
  | done hab => exact .ended hab hw
  | @ask q k l _ ih =>
    obtain ⟨hanswer, hworld⟩ := hw.ask hR q
    exact ih _ _ hanswer hworld
  | @sleep ms k l hkl ih =>
    cases ms with
    | zero => exact ih hw
    | succ ms => exact .asleep hkl hw
  | @clock k l _ ih =>
    have hnow := ih w.now hw
    rwa [show l w.now = l v.now by rw [hw.now]] at hnow
  | @cancelled k l _ ih =>
    have hstop := ih w.isCancelled hw
    rwa [show l w.isCancelled = l v.isCancelled by rw [hw.isCancelled]] at hstop

private theorem Pool.Alike.run {p q : Pool S α} (hR : AnswerAlike E R) (h : p.Alike E P q) (hw : w.Alike E R v) :
    List.Forall₂ P (p.run w).1 (q.run v).1 ∧ (p.run w).2.Alike E R (q.run v).2 := by
  -- The induction is on the run of the first pool; the second one takes the same turns.
  induction p, w using Pool.run.induct generalizing q v with
  | case1 p w hr =>
    obtain ⟨hpool, hworld⟩ := h.settle hw
    have hq : (q.settle v).1.ready = [] := List.forall₂_nil_left_iff.1 (hr ▸ hpool.ready)
    rw [Pool.run_of_nil hr, Pool.run_of_nil hq]
    exact ⟨.nil, hworld⟩
  | case2 p w a as hr r w' ht ih =>
    obtain ⟨hpool, hworld⟩ := h.settle hw
    obtain ⟨b, bs, hab, -, hq⟩ := List.forall₂_cons_left_iff.1 (hr ▸ hpool.ready)
    have hturn := turn_alike hR hab hworld
    rw [ht] at hturn
    generalize hs : b.turn (q.settle v).2 = turn at hturn
    cases hturn with
    | ended hrs hw' =>
      obtain ⟨hrest, hlast⟩ := ih hpool.release hw'
      rw [Pool.run_of_ended hr ht, Pool.run_of_ended hq hs]
      exact ⟨.cons hrs hrest, hlast⟩
  | case3 p w a as hr ms k w' ht ih =>
    obtain ⟨hpool, hworld⟩ := h.settle hw
    obtain ⟨b, bs, hab, -, hq⟩ := List.forall₂_cons_left_iff.1 (hr ▸ hpool.ready)
    have hturn := turn_alike hR hab hworld
    rw [ht] at hturn
    generalize hs : b.turn (q.settle v).2 = turn at hturn
    cases hturn with
    | asleep hkl hw' =>
      rw [Pool.run_of_asleep hr ht, Pool.run_of_asleep hq hs]
      exact ih (hpool.suspend ⟨congrArg (· + ms) hw'.now, hkl⟩) hw'

/-- Two lists of programs that are alike end in the same order with related results. -/
theorem runPool_alike (hR : AnswerAlike E R) (width : Nat) {ps qs : List (Program S α)}
    (h : List.Forall₂ (Program.Alike E P) ps qs) (hw : w.Alike E R v) :
    List.Forall₂ P (runPool width ps w).1 (runPool width qs v).1 ∧
      (runPool width ps w).2.Alike E R (runPool width qs v).2 :=
  Pool.Alike.run hR ⟨List.forall₂_take _ h, .nil, List.forall₂_drop _ h⟩ hw

end Runs

end Fleet
