import Fleet.Proofs.Record.Trace
import Mathlib.Data.Fintype.Card
import Mathlib.Logic.Relation

/-!
# Programs side by side in any order

How programs are run side by side when all that is known is that at most `width` of them have been started and have not
ended (`Floor.Step`): any program may be started as long as there is room, any program that has been started may make
its next step, and time may pass while those that have been started sleep or wait for an answer. A `Runner` is any way
to run programs so; the pool is one of them (`Runner.pool`).
-/

namespace Fleet

variable {S : Signature} {σ ι α : Type}

/-- How far one of several programs is. -/
inductive Stage (S : Signature) (α : Type) where
  | waiting (program : Program S α)
  /-- The program has been started, and what is left of it may go on from the time `due` on. -/
  | started (due : Nat) (rest : Program S α)
  | ended (result : α)

namespace Stage

def isStarted : Stage S α → Bool
  | started _ _ => true
  | _ => false

/-- At the time `now`, the program sleeps or waits for an answer, if it is going at all. -/
def Idles (now : Nat) : Stage S α → Prop
  | started due rest => now < due ∨ ∃ q next, rest = .ask q next
  | _ => True

end Stage

/-- The next step of a program that has been started. -/
def Program.advance [Service S σ] : Program S α → World S σ → Stage S α × World S σ
  | .done a, w => (.ended a, w)
  | .ask q k, w => (.started w.now (k (w.ask q).1), (w.ask q).2)
  | .sleep ms k, w => (.started (w.now + ms) k, w)
  | .clock k, w => (.started w.now (k w.now), w)
  | .cancelled k, w => (.started w.now (k w.isCancelled), w)

/-- Programs side by side on one world. -/
structure Floor (S : Signature) (σ ι α : Type) where
  stages : ι → Stage S α
  world : World S σ

namespace Floor

section Stages

variable [DecidableEq ι] {k : Floor S σ ι α} {i j : ι} {s s' : Stage S α} {w w' : World S σ}

/-- The floor after the program of `i` has come to the stage `s`. -/
def put (k : Floor S σ ι α) (i : ι) (s : Stage S α) (w : World S σ) : Floor S σ ι α :=
  ⟨Function.update k.stages i s, w⟩

@[simp] theorem stages_put_self : (k.put i s w).stages i = s := Function.update_self ..

theorem stages_put_of_ne (h : j ≠ i) : (k.put i s w).stages j = k.stages j := Function.update_of_ne h ..

theorem put_put : (k.put i s w).put i s' w' = k.put i s' w' := by
  unfold put
  rw [Function.update_idem]

variable [Fintype ι]

/-- The programs that have been started and have not ended. -/
def started (k : Floor S σ ι α) : Finset ι := Finset.univ.filter fun i => (k.stages i).isStarted

omit [DecidableEq ι] in
theorem mem_started : i ∈ k.started ↔ (k.stages i).isStarted = true := by simp [started]

theorem started_put_subset : (k.put i s w).started ⊆ insert i k.started := by
  intro j hj
  rw [mem_started] at hj
  by_cases hji : j = i
  · exact Finset.mem_insert.2 (.inl hji)
  · rw [stages_put_of_ne hji] at hj
    exact Finset.mem_insert_of_mem (mem_started.2 hj)

end Stages

section Step

variable [Service S σ] [Fintype ι] [DecidableEq ι]

/-- What may happen next when at most `width` programs are to be going at a time. Answers and sleeps take time, all
other steps take none. -/
inductive Step (width : Nat) : Floor S σ ι α → Floor S σ ι α → Prop
  | start {k : Floor S σ ι α} {i : ι} {p : Program S α} (hi : k.stages i = .waiting p)
      (hroom : k.started.card < width) : Step width k (k.put i (.started k.world.now p) k.world)
  | move {k : Floor S σ ι α} {i : ι} {due : Nat} {p : Program S α} (hi : k.stages i = .started due p)
      (hdue : due ≤ k.world.now) : Step width k (k.put i (p.advance k.world).1 (p.advance k.world).2)
  | pass {k : Floor S σ ι α} (t : Nat) (hidle : ∀ i, (k.stages i).Idles k.world.now) :
      Step width k ⟨k.stages, k.world.advanceTo t⟩

/-- The floor may come to be another one. -/
def Reaches (width : Nat) : Floor S σ ι α → Floor S σ ι α → Prop := Relation.ReflTransGen (Step width)

variable {width : Nat} {k k' : Floor S σ ι α}

/-- What has been asked stays on record. -/
theorem Step.record (h : Step width k k') : ∃ es, k'.world.record = es ++ k.world.record := by
  cases h with
  | start hi hroom => exact ⟨[], rfl⟩
  | @move i due p hi hdue =>
    cases p with
    | ask q next => exact ⟨[_], rfl⟩
    | _ => exact ⟨[], rfl⟩
  | pass t hidle => exact ⟨[], rfl⟩

theorem Reaches.record (h : k.Reaches width k') : ∃ es, k'.world.record = es ++ k.world.record := by
  induction h with
  | refl => exact ⟨[], rfl⟩
  | tail _ hstep ih =>
    obtain ⟨es, hes⟩ := ih
    obtain ⟨es', hes'⟩ := hstep.record
    exact ⟨es' ++ es, by rw [hes', hes, List.append_assoc]⟩

/-- There is never more going on than there is room for. -/
theorem Step.card_started_le (h : Step width k k') (hk : k.started.card ≤ width) : k'.started.card ≤ width := by
  cases h with
  | @start i p hi hroom =>
    have hcard := Finset.card_le_card
      (started_put_subset (k := k) (i := i) (s := .started k.world.now p) (w := k.world))
    have hinsert := Finset.card_insert_le i k.started
    omega
  | @move i due p hi hdue =>
    have hmem : i ∈ k.started := mem_started.2 (by rw [hi]; rfl)
    have hsub := started_put_subset (k := k) (i := i) (s := (p.advance k.world).1) (w := (p.advance k.world).2)
    rw [Finset.insert_eq_of_mem hmem] at hsub
    exact Nat.le_trans (Finset.card_le_card hsub) hk
  | pass t hidle => exact hk

end Step

end Floor

section Runner

variable [Service S σ]

/-- The programs have been run side by side, at most `width` at a time and in any order, from the world `w` until all
of them have ended, in the world `w'`. The results may come in any order. -/
def RunTogether (width : Nat) (programs : List (Program S α)) (w : World S σ) (rs : List α) (w' : World S σ) : Prop :=
  ∃ results : Fin programs.length → α, rs.Perm (List.ofFn results) ∧
    Floor.Reaches width ⟨fun i => .waiting programs[i], w⟩ ⟨fun i => .ended (results i), w'⟩

end Runner

/-- A way to run programs side by side. -/
structure Runner (S : Signature) (σ : Type) [Service S σ] where
  run : {α : Type} → Nat → List (Program S α) → World S σ → List α × World S σ
  together : ∀ {α : Type} {width : Nat} (programs : List (Program S α)) (w : World S σ), 0 < width →
    RunTogether width programs w (run width programs w).1 (run width programs w).2

/-! ### The pool as a runner -/

namespace Floor

section Manned

variable [DecidableEq ι] {width : Nat} {k : Floor S σ ι α} {c : Crew S ι α} {i : ι} {e : ι × Program S α}
  {es : List (ι × Program S α)} {w : World S σ}

/-- The floor is that of a crew. A program that is ready may not have been started yet. -/
private structure Manned (width : Nat) (k : Floor S σ ι α) (c : Crew S ι α) : Prop where
  ready : ∀ e ∈ c.ready, k.stages e.1 = .waiting e.2 ∨ ∃ due, due ≤ k.world.now ∧ k.stages e.1 = .started due e.2
  asleep : ∀ e ∈ c.asleep, k.world.now < e.2.wakeAt ∧ k.stages e.1 = .started e.2.wakeAt e.2.rest
  waiting : ∀ e ∈ c.waiting, k.stages e.1 = .waiting e.2
  others : ∀ i ∉ c.names, (k.stages i).isStarted = false
  nodup : c.names.Nodup
  room : c.ready.length + c.asleep.length ≤ width

/-- Those who are going are ready or asleep. -/
private theorem Manned.mem_of_isStarted (h : k.Manned width c) (hi : (k.stages i).isStarted = true) :
    (∃ p, (i, p) ∈ c.ready) ∨ ∃ s, (i, s) ∈ c.asleep := by
  by_contra hnone
  rw [not_or, not_exists, not_exists] at hnone
  by_cases hname : i ∈ c.names
  · simp only [Crew.names, List.mem_append, List.mem_map] at hname
    rcases hname with (⟨e, he, rfl⟩ | ⟨e, he, rfl⟩) | ⟨e, he, rfl⟩
    · exact hnone.1 e.2 he
    · exact hnone.2 e.2 he
    · rw [h.waiting e he] at hi
      exact absurd hi (by simp [Stage.isStarted])
  · rw [h.others i hname] at hi
    exact absurd hi (by simp)

/-- After the head has gone on and no time has passed, the others are where they were. -/
private theorem Manned.others_put (h : k.Manned width c) (hc : c.ready = e :: es) (hnow : w.now = k.world.now)
    (s : Stage S α) :
    (∀ f ∈ es, (k.put e.1 s w).stages f.1 = .waiting f.2 ∨
      ∃ due, due ≤ w.now ∧ (k.put e.1 s w).stages f.1 = .started due f.2) ∧
    (∀ f ∈ c.asleep, w.now < f.2.wakeAt ∧ (k.put e.1 s w).stages f.1 = .started f.2.wakeAt f.2.rest) ∧
    ∀ f ∈ c.waiting, (k.put e.1 s w).stages f.1 = .waiting f.2 := by
  have hn := h.nodup
  simp only [Crew.names, hc, List.map_cons, List.cons_append, List.nodup_cons, List.mem_append, List.mem_map,
    not_or, not_exists, not_and] at hn
  refine ⟨fun f hf => ?_, fun f hf => ?_, fun f hf => ?_⟩
  · rw [stages_put_of_ne (hn.1.1.1 f hf), hnow]
    exact h.ready f (hc ▸ List.mem_cons_of_mem _ hf)
  · rw [stages_put_of_ne (hn.1.1.2 f hf), hnow]
    exact h.asleep f hf
  · rw [stages_put_of_ne (hn.1.2 f hf)]
    exact h.waiting f hf

private theorem Manned.release (h : k.Manned width c) (hc : c.ready = e :: es) (hnow : w.now = k.world.now) (a : α) :
    (k.put e.1 (.ended a) w).Manned width c.release := by
  obtain ⟨hready, hasleep, hwaiting⟩ := h.others_put hc hnow (.ended a)
  have hperm := Crew.names_release hc
  refine ⟨fun f hf => ?_, hasleep, fun f hf => hwaiting f (List.mem_of_mem_drop hf), fun j hj => ?_,
    (List.nodup_cons.1 (hperm.nodup_iff.1 h.nodup)).2, ?_⟩
  · simp only [Crew.release, hc, List.tail_cons, List.mem_append] at hf
    rcases hf with hf | hf
    · exact hready f hf
    · exact .inl (hwaiting f (List.mem_of_mem_take hf))
  · by_cases hje : j = e.1
    · rw [hje, stages_put_self]
      rfl
    · rw [stages_put_of_ne hje]
      exact h.others j fun hmem => (List.mem_cons.1 (hperm.mem_iff.1 hmem)).elim hje hj
  · have hroom := h.room
    have htake := List.length_take_le 1 c.waiting
    simp only [Crew.release, hc, List.tail_cons, List.length_append, List.length_cons] at hroom ⊢
    omega

private theorem Manned.suspend (h : k.Manned width c) (hc : c.ready = e :: es) (hnow : w.now = k.world.now)
    {s : Sleeper S α} (hs : w.now < s.wakeAt) :
    (k.put e.1 (.started s.wakeAt s.rest) w).Manned width (c.suspend (e.1, s)) := by
  obtain ⟨hready, hasleep, hwaiting⟩ := h.others_put hc hnow (.started s.wakeAt s.rest)
  have hperm := Crew.names_suspend hc s
  refine ⟨fun f hf => ?_, fun f hf => ?_, hwaiting, fun j hj => ?_, hperm.nodup_iff.1 h.nodup, ?_⟩
  · simp only [Crew.suspend, hc, List.tail_cons] at hf
    exact hready f hf
  · simp only [Crew.suspend, List.mem_append, List.mem_singleton] at hf
    rcases hf with hf | rfl
    · exact hasleep f hf
    · exact ⟨hs, stages_put_self⟩
  · have hje : j ≠ e.1 := by
      rintro rfl
      exact hj (hperm.mem_iff.1 ((Crew.names_release hc).mem_iff.2 List.mem_cons_self))
    rw [stages_put_of_ne hje]
    exact h.others j fun hmem => hj (hperm.mem_iff.1 hmem)
  · have hroom := h.room
    simp only [Crew.suspend, hc, List.tail_cons, List.length_append, List.length_cons, List.length_nil] at hroom ⊢
    omega

end Manned

section Runs

variable [Service S σ] [Fintype ι] [DecidableEq ι] {width : Nat} {k : Floor S σ ι α} {c : Crew S ι α} {i : ι}
  {p q : Program S α} {e : ι × Program S α} {es : List (ι × Program S α)} {w w' : World S σ}

/-- The floor may come to where a turn of the program of `i` ends, which takes no time. -/
private def ComesTo (width : Nat) (k : Floor S σ ι α) (i : ι) (now : Nat) : Turn S σ α → Prop
  | .ended a w' => w'.now = now ∧ k.Reaches width (k.put i (.ended a) w')
  | .asleep ms q w' => w'.now = now ∧ 0 < ms ∧ k.Reaches width (k.put i (.started (w'.now + ms) q) w')

private theorem reaches_move {due : Nat} {s : Stage S α} (hi : k.stages i = .started due p) (hw : k.world = w)
    (hdue : due ≤ w.now) (hp : p.advance w = (s, w')) : k.Reaches width (k.put i s w') := by
  subst hw
  have hstep : Step width k _ := Step.move hi hdue
  rw [hp] at hstep
  exact .single hstep

/-- After a first move, the rest of the turn is that of what is left of the program. -/
private theorem ComesTo.of_move {r : Turn S σ α} {now : Nat}
    (hfirst : k.Reaches width (k.put i (.started now q) w))
    (hrest : (k.put i (.started now q) w).ComesTo width i now r) : k.ComesTo width i now r := by
  cases r with
  | ended a w' =>
    obtain ⟨hnow, hreaches⟩ := hrest
    rw [put_put] at hreaches
    exact ⟨hnow, hfirst.trans hreaches⟩
  | asleep ms q' w' =>
    obtain ⟨hnow, hms, hreaches⟩ := hrest
    rw [put_put] at hreaches
    exact ⟨hnow, hms, hfirst.trans hreaches⟩

/-- A turn of a program is a sequence of its moves. -/
private theorem comesTo_turn {due : Nat} (hi : k.stages i = .started due p) (hw : k.world = w) (hdue : due ≤ w.now) :
    k.ComesTo width i w.now (p.turn w) := by
  induction p generalizing k due w with
  | done a => exact ⟨rfl, reaches_move hi hw hdue rfl⟩
  | ask q next ih =>
    have hrest := ih (w.ask q).1 (k := k.put i (.started w.now (next (w.ask q).1)) (w.ask q).2) stages_put_self rfl
      (Nat.le_refl w.now)
    exact .of_move (reaches_move hi hw hdue rfl) hrest
  | sleep ms next ih =>
    cases ms with
    | zero =>
      have hrest := ih (k := k.put i (.started w.now next) w) stages_put_self rfl (Nat.le_refl w.now)
      exact .of_move (reaches_move hi hw hdue rfl) hrest
    | succ ms => exact ⟨rfl, Nat.succ_pos ms, reaches_move hi hw hdue rfl⟩
  | clock next ih =>
    have hrest := ih w.now (k := k.put i (.started w.now (next w.now)) w) stages_put_self rfl (Nat.le_refl w.now)
    exact .of_move (reaches_move hi hw hdue rfl) hrest
  | cancelled next ih =>
    have hrest := ih w.isCancelled (k := k.put i (.started w.now (next w.isCancelled)) w) stages_put_self rfl
      (Nat.le_refl w.now)
    exact .of_move (reaches_move hi hw hdue rfl) hrest

/-- The head of a crew has its turn, and is started before if need be. -/
private theorem Manned.turn (h : k.Manned width c) (hc : c.ready = e :: es) :
    k.ComesTo width e.1 k.world.now (e.2.turn k.world) := by
  rcases h.ready e (hc ▸ List.mem_cons_self) with hwaiting | ⟨due, hdue, hstarted⟩
  · -- Only the others have been started, so there is room for the head.
    have hsub : k.started ⊆ (es.map (·.1) ++ c.asleep.map (·.1)).toFinset := by
      intro j hj
      rw [List.mem_toFinset, List.mem_append]
      have hstarted := mem_started.1 hj
      rcases h.mem_of_isStarted hstarted with ⟨p, hp⟩ | ⟨s, hs⟩
      · rw [hc] at hp
        rcases List.mem_cons.1 hp with rfl | hp
        · rw [hwaiting] at hstarted
          exact absurd hstarted (by simp [Stage.isStarted])
        · exact .inl (List.mem_map_of_mem hp)
      · exact .inr (List.mem_map_of_mem hs)
    have hcard := (Finset.card_le_card hsub).trans (List.toFinset_card_le _)
    have hroom := h.room
    rw [hc, List.length_cons] at hroom
    rw [List.length_append, List.length_map, List.length_map] at hcard
    have hstart : Step width k _ := Step.start hwaiting (by omega)
    exact .of_move (.single hstart) (comesTo_turn stages_put_self rfl (Nat.le_refl _))
  · exact comesTo_turn hstarted rfl hdue

/-- While all of a crew sleep, time passes until the first of them are due. -/
private theorem Manned.wake (h : k.Manned width c) (hc : c.ready = []) {t : Nat}
    (ht : Pool.earliest (c.asleep.map (·.2)) = some t) :
    k.Reaches width ⟨k.stages, k.world.advanceTo t⟩ ∧
      (⟨k.stages, k.world.advanceTo t⟩ : Floor S σ ι α).Manned width (c.wake t) := by
  obtain ⟨hearliest, s, hs, hst⟩ := Pool.earliest_eq_some ht
  obtain ⟨f, hf, rfl⟩ := List.mem_map.1 hs
  have hnow : (k.world.advanceTo t).now = t := Nat.max_eq_right (by have := (h.asleep f hf).1; omega)
  have hperm := Crew.names_wake c t
  have hidle (i : ι) : (k.stages i).Idles k.world.now := by
    cases hi : k.stages i with
    | started due rest =>
      rcases h.mem_of_isStarted (i := i) (by rw [hi]; rfl) with ⟨p, hp⟩ | ⟨s, hs⟩
      · rw [hc] at hp
        exact absurd hp List.not_mem_nil
      · obtain ⟨hlt, hstage⟩ := h.asleep (i, s) hs
        obtain ⟨rfl, rfl⟩ := Stage.started.inj (hi.symm.trans hstage)
        exact .inl hlt
    | _ => trivial
  refine ⟨.single (.pass t hidle), fun g hg => ?_, fun g hg => ?_, h.waiting, fun j hj => ?_,
    hperm.nodup_iff.2 h.nodup, ?_⟩
  · simp only [Crew.wake, hc, List.nil_append, List.mem_map, List.mem_filter, decide_eq_true_eq] at hg
    obtain ⟨g, ⟨hg, hdue⟩, rfl⟩ := hg
    exact .inr ⟨g.2.wakeAt, by rw [hnow]; exact hdue, (h.asleep g hg).2⟩
  · simp only [Crew.wake, List.mem_filter, Bool.not_eq_true', decide_eq_false_iff_not, not_le] at hg
    exact ⟨by rw [hnow]; exact hg.2, (h.asleep g hg.1).2⟩
  · exact h.others j fun hmem => hj (hperm.mem_iff.2 hmem)
  · have hsplit := (List.filter_append_perm (fun g : ι × Sleeper S α => decide (g.2.wakeAt ≤ t)) c.asleep).length_eq
    have hroom := h.room
    rw [List.length_append] at hsplit
    simp only [Crew.wake, hc, List.nil_append, List.length_map, List.length_nil] at hroom ⊢
    omega

/-- A crew that is run to its end leaves a floor on which all of its programs have ended. -/
private theorem Manned.runs {rs : List (ι × α)} (hruns : c.Runs w rs w') (h : k.Manned width c) (hw : k.world = w) :
    ∃ k', k.Reaches width k' ∧ k'.world = w' ∧ (rs.map (·.1)).Perm c.names ∧
      (∀ r ∈ rs, k'.stages r.1 = .ended r.2) ∧ ∀ i ∉ c.names, k'.stages i = k.stages i := by
  induction hruns generalizing k with
  | idle w => exact ⟨k, .refl, hw, .refl _, by simp, fun _ _ => rfl⟩
  | @wake c w w' rs t hc ht _ ih =>
    subst hw
    obtain ⟨hreaches, hm⟩ := h.wake hc ht
    have hperm := Crew.names_wake c t
    obtain ⟨k', hreaches', hw', hrs, hended, hothers⟩ := ih hm rfl
    exact ⟨k', hreaches.trans hreaches', hw', hrs.trans hperm, hended,
      fun i hi => hothers i fun hmem => hi (hperm.mem_iff.1 hmem)⟩
  | @ended c w w₁ w' rs i p ps a hc ht _ ih =>
    subst hw
    have hturn := h.turn hc
    rw [ht] at hturn
    obtain ⟨hnow, hreaches⟩ := hturn
    have hperm := Crew.names_release hc
    obtain ⟨hi, -⟩ := List.nodup_cons.1 (hperm.nodup_iff.1 h.nodup)
    obtain ⟨k', hreaches', hw', hrs, hended, hothers⟩ := ih (h.release hc hnow a) rfl
    refine ⟨k', hreaches.trans hreaches', hw', (hrs.cons i).trans hperm.symm, fun r hr => ?_, fun j hj => ?_⟩
    · rcases List.mem_cons.1 hr with rfl | hr
      · exact (hothers i hi).trans stages_put_self
      · exact hended r hr
    · have hj' : j ∉ i :: c.release.names := fun hmem => hj (hperm.mem_iff.2 hmem)
      rw [List.mem_cons, not_or] at hj'
      exact (hothers j hj'.2).trans (stages_put_of_ne hj'.1)
  | @asleep c w w₁ w' rs i p q ps ms hc ht _ ih =>
    subst hw
    have hturn := h.turn hc
    rw [ht] at hturn
    obtain ⟨hnow, hms, hreaches⟩ := hturn
    have hperm := Crew.names_suspend hc (⟨w₁.now + ms, q⟩ : Sleeper S α)
    have hwake : w₁.now < w₁.now + ms := Nat.lt_add_of_pos_right hms
    obtain ⟨k', hreaches', hw', hrs, hended, hothers⟩ :=
      ih (h.suspend hc hnow (s := ⟨w₁.now + ms, q⟩) hwake) rfl
    refine ⟨k', hreaches.trans hreaches', hw', hrs.trans hperm.symm, hended, fun j hj => ?_⟩
    have hji : j ≠ i := by
      rintro rfl
      exact hj ((Crew.names_release hc).mem_iff.2 List.mem_cons_self)
    exact (hothers j fun hmem => hj (hperm.mem_iff.2 hmem)).trans (stages_put_of_ne hji)

end Runs

end Floor

section Pool

variable [Service S σ]

theorem runTogether_runPool {width : Nat} (programs : List (Program S α)) (w : World S σ) (hwidth : 0 < width) :
    RunTogether width programs w (runPool width programs w).1 (runPool width programs w).2 := by
  let start : Crew S (Fin programs.length) α := .start width (List.finRange programs.length) fun i => programs[i]
  have hprograms : (List.finRange programs.length).map (fun i => programs[i]) = programs :=
    List.map_getElem_finRange programs
  obtain ⟨rs, hrs, hruns⟩ := Crew.runs_runPool width (List.finRange programs.length) (fun i => programs[i]) w
  rw [hprograms] at hrs hruns
  have hnames : start.names = List.finRange programs.length := Crew.names_start ..
  have hm : (⟨fun i => .waiting programs[i], w⟩ : Floor S σ _ α).Manned width start := by
    refine ⟨fun e he => .inl ?_, fun e he => absurd he List.not_mem_nil, fun e he => ?_, fun i _ => rfl, ?_, ?_⟩
    · rw [(Crew.eq_program_of_mem_start (.inl he)).2]
    · rw [(Crew.eq_program_of_mem_start (.inr he)).2]
    · rw [hnames]
      exact List.nodup_finRange _
    · have hlength := List.length_take_le (max width 1)
        ((List.finRange programs.length).map fun i => (i, programs[i]))
      simp only [start, Crew.start, List.length_nil]
      omega
  obtain ⟨k', hreaches, hw', hperm, hended, -⟩ := hm.runs hruns rfl
  rw [hnames] at hperm
  have hresult (i : Fin programs.length) : ∃ a, (i, a) ∈ rs := by
    obtain ⟨r, hr, rfl⟩ := List.mem_map.1 (hperm.mem_iff.2 (List.mem_finRange i))
    exact ⟨r.2, hr⟩
  choose results hresults using hresult
  have hsecond : rs.map (·.2) = (rs.map (·.1)).map results := by
    rw [List.map_map]
    refine List.map_congr_left fun r hr => ?_
    exact Stage.ended.inj ((hended r hr).symm.trans (hended _ (hresults r.1)))
  have hfloor : k' = ⟨fun i => .ended (results i), (runPool width programs w).2⟩ := by
    obtain ⟨stages, world⟩ := k'
    obtain rfl := hw'
    congr 1
    exact funext fun i => hended _ (hresults i)
  refine ⟨results, ?_, hfloor ▸ hreaches⟩
  rw [hrs, hsecond, List.ofFn_eq_map]
  exact hperm.map results

/-- The pool runs programs side by side. -/
def Runner.pool : Runner S σ := ⟨runPool, runTogether_runPool⟩

end Pool

end Fleet
