import Fleet.Proofs.Conduct.Interleaving
import Fleet.Proofs.Conduct.Pool
import Mathlib.Logic.Relation

/-!
# Pools take turns

A run of a pool in which nothing happens from outside is one of the ways in which its programs can take turns
(`exists_play_of_runPool`). So what holds however the programs take turns holds of every run of a pool, of any width.

The moves of a run are those of its turns, and each of them leaves the programs alone that do not have their turn. The
invariant of a run is `Crowd.Seats`: the programs of the pool are those of the crowd, up to their order.
-/

namespace Fleet

variable {S : Signature} {σ ι α : Type}

/-- What a turn leaves of the program, and the world after it. -/
def Turn.left : Turn S σ α → Program S α × World S σ
  | .ended a w => (.done a, w)
  | .asleep _ q w => (q, w)

namespace Crowd

section Put

variable [DecidableEq ι] {k : Crowd S σ ι α} {i j : ι} {p q : Program S α} {s t : σ}

/-- The crowd after the program of `i` has gone on to `p`, with the service in state `s`. -/
def put (k : Crowd S σ ι α) (i : ι) (p : Program S α) (s : σ) : Crowd S σ ι α :=
  ⟨fun j => if j = i then p else k.programs j, s⟩

theorem programs_put_self : (k.put i p s).programs i = p := if_pos rfl

theorem programs_put_of_ne (h : j ≠ i) : (k.put i p s).programs j = k.programs j := if_neg h

theorem put_put : (k.put i p s).put i q t = k.put i q t := by
  unfold put
  congr 1
  funext j
  by_cases hj : j = i
  · rw [if_pos hj, if_pos hj]
  · rw [if_neg hj, if_neg hj]
    exact if_neg hj

theorem put_eq_self (hp : k.programs i = p) (hs : k.service = s) : k.put i p s = k := by
  subst hs
  unfold put
  congr 1
  funext j
  by_cases hj : j = i
  · rw [if_pos hj, hj, hp]
  · exact if_neg hj

end Put

variable [Service S σ] [DecidableEq ι] {k k' : Crowd S σ ι α} {schedule schedule' : Nat → Move ι} {n : Nat}

/-! ### Moves one after the other -/

/-- `k'` comes of `k` by moves. -/
def Reaches : Crowd S σ ι α → Crowd S σ ι α → Prop := Relation.ReflTransGen fun k k' => ∃ e, k' = k.move e

private theorem play_congr (h : ∀ m < n, schedule m = schedule' m) : k.play schedule n = k.play schedule' n := by
  induction n with
  | zero => rfl
  | succ n ih =>
    have hplay := ih fun m hm => h m (Nat.lt_succ_of_lt hm)
    show (k.play schedule n).move (schedule n) = (k.play schedule' n).move (schedule' n)
    rw [hplay, h n (Nat.lt_succ_self n)]

/-- Moves are the first ones of a schedule. -/
theorem Reaches.exists_play [Nonempty ι] (h : Reaches k k') : ∃ schedule n, k.play schedule n = k' := by
  obtain ⟨i⟩ := ‹Nonempty ι›
  induction h with
  | refl => exact ⟨fun _ => ⟨i, 0, false⟩, 0, rfl⟩
  | tail _ hmove ih =>
    obtain ⟨schedule, n, rfl⟩ := ih
    obtain ⟨e, rfl⟩ := hmove
    refine ⟨Function.update schedule n e, n + 1, ?_⟩
    have hsame : k.play (Function.update schedule n e) n = k.play schedule n :=
      play_congr fun m hm => Function.update_of_ne (Nat.ne_of_lt hm) e schedule
    show (k.play (Function.update schedule n e) n).move (Function.update schedule n e n) = _
    rw [hsame, Function.update_self]

private theorem reaches_step {i : ι} {p q : Program S α} {s s' : σ} (hp : k.programs i = p) (hs : k.service = s)
    (t : Nat) (b : Bool) (hq : p.step t b s = (q, s')) : Reaches k (k.put i q s') := by
  refine .single ⟨⟨i, t, b⟩, ?_⟩
  show k.put i q s' = k.put i ((k.programs i).step t b k.service).1 ((k.programs i).step t b k.service).2
  rw [hp, hs, hq]

/-- After its first move, the rest of a turn is the turn of what is left of the program. -/
private theorem reaches_rest {i : ι} {q : Program S α} {w : World S σ} (hfirst : Reaches k (k.put i q w.service))
    (hrest : Reaches (k.put i q w.service)
      ((k.put i q w.service).put i (q.turn w).left.1 (q.turn w).left.2.service)) :
    Reaches k (k.put i (q.turn w).left.1 (q.turn w).left.2.service) := by
  rw [put_put] at hrest
  exact hfirst.trans hrest

/-- A turn is a sequence of moves of one program. -/
theorem reaches_turn {i : ι} {p : Program S α} {w : World S σ} (hp : k.programs i = p) (hs : k.service = w.service) :
    Reaches k (k.put i (p.turn w).left.1 (p.turn w).left.2.service) := by
  induction p generalizing k w with
  | done a =>
    have hsame : k.put i (.done a) w.service = k := put_eq_self hp hs
    show Reaches k (k.put i (.done a) w.service)
    rw [hsame]
    exact .refl
  | ask q next ih =>
    have hfirst : Reaches k (k.put i (next (w.ask q).1) (w.ask q).2.service) := reaches_step hp hs 0 false rfl
    have hrest := reaches_rest hfirst (ih (w.ask q).1 programs_put_self rfl)
    exact hrest
  | sleep ms next ih =>
    have hfirst : Reaches k (k.put i next w.service) := reaches_step hp hs 0 false rfl
    cases ms with
    | zero =>
      have hrest := reaches_rest hfirst (ih programs_put_self rfl)
      exact hrest
    | succ ms => exact hfirst
  | clock next ih =>
    have hfirst : Reaches k (k.put i (next w.now) w.service) := reaches_step hp hs w.now false rfl
    have hrest := reaches_rest hfirst (ih w.now programs_put_self rfl)
    exact hrest
  | cancelled next ih =>
    have hfirst : Reaches k (k.put i (next w.isCancelled) w.service) := reaches_step hp hs 0 w.isCancelled rfl
    have hrest := reaches_rest hfirst (ih w.isCancelled programs_put_self rfl)
    exact hrest

end Crowd

theorem Turn.interventions_left [Service S σ] (p : Program S α) (w : World S σ) :
    (p.turn w).left.2.interventions = w.interventions := by
  induction p generalizing w with
  | done a => rfl
  | ask q next ih => exact ih (w.ask q).1 (w.ask q).2
  | sleep ms next ih =>
    cases ms with
    | zero => exact ih w
    | succ ms => rfl
  | clock next ih => exact ih w.now w
  | cancelled next ih => exact ih w.isCancelled w

/-! ### The turns of a pool -/

namespace Pool

/-- As long as a program waits for room, another one takes it. -/
def Busy (p : Pool S α) : Prop := p.waiting ≠ [] → p.ready ≠ [] ∨ p.sleeping ≠ []

theorem busy_start (width : Nat) (ps : List (Program S α)) : (start width ps).Busy := by
  intro hne
  refine .inl fun hnil => ?_
  rcases List.take_eq_nil_iff.1 hnil with h0 | h0
  · omega
  · exact hne (by simp [start, h0])

theorem busy_release (p : Pool S α) : p.release.Busy := by
  intro hne
  left
  cases hws : p.waiting with
  | nil => simp [release, hws] at hne
  | cons b bs => simp [release, hws]

theorem busy_suspend (p : Pool S α) (s : Sleeper S α) : (p.suspend s).Busy := fun _ => .inr (by simp [suspend])

/-- Something is ready in a pool that has settled, unless nobody sleeps and nobody was ready. -/
theorem settle_cases (p : Pool S α) (w : World S σ) : (p.settle w).1.ready ≠ [] ∨
    (p.settle w = (p, w) ∧ p.ready = [] ∧ p.sleeping = []) := by
  unfold settle
  by_cases hready : p.ready = []
  · rw [if_pos (by simp [hready])]
    cases he : earliest p.sleeping with
    | none =>
      have hwake : p.wake w = (p, w) := by rw [wake, he]
      exact .inr ⟨hwake, hready, earliest_eq_none he⟩
    | some t =>
      obtain ⟨-, s, hs, ht⟩ := earliest_eq_some he
      have hdue : s.rest ∈ (p.wake w).1.ready := by
        rw [wake, he]
        refine List.mem_append_right _ (List.mem_map_of_mem ?_)
        simp [hs, ht]
      exact .inl (List.ne_nil_of_mem hdue)
  · rw [if_neg (by simpa using hready)]
    exact .inl hready

theorem busy_settle {p : Pool S α} (hb : p.Busy) (w : World S σ) : (p.settle w).1.Busy := by
  rcases p.settle_cases w with hready | ⟨hsame, -⟩
  · exact fun _ => .inl hready
  · rw [hsame]
    exact hb

/-- Where nothing can be made ready, there is no program. -/
theorem programs_settle_eq_nil {p : Pool S α} {w : World S σ} (hb : p.Busy) (h : (p.settle w).1.ready = []) :
    p.programs = [] := by
  rcases p.settle_cases w with hready | ⟨-, hready, hsleeping⟩
  · exact absurd h hready
  · have hwaiting : p.waiting = [] := by
      by_contra hne
      rcases hb hne with hr | hs
      · exact hr hready
      · exact hs hsleeping
    simp [programs, hready, hsleeping, hwaiting]

/-- Where nothing happens from outside, only the clock moves. -/
theorem service_settle (p : Pool S α) {w : World S σ} (hw : w.interventions = []) :
    (p.settle w).2.service = w.service ∧ (p.settle w).2.interventions = [] := by
  have hadvance (t : Nat) : (w.advanceTo t).service = w.service ∧ (w.advanceTo t).interventions = [] := by
    simp [World.advanceTo, World.intervene, hw]
  unfold settle wake
  split
  · split
    · exact ⟨rfl, hw⟩
    · exact hadvance _
  · exact ⟨rfl, hw⟩

end Pool

namespace Crowd

section Seats

variable {k : Crowd S σ ι α} {names others : List ι} {p : Pool S α} {w : World S σ} {i : ι} {a : Program S α}
  {as : List (Program S α)}

/-- The pool runs the programs of these names, and nothing will happen from outside. -/
structure Seats (k : Crowd S σ ι α) (names : List ι) (p : Pool S α) (w : World S σ) : Prop where
  nodup : names.Nodup
  programs : p.programs.Perm (names.map k.programs)
  service : k.service = w.service
  interventions : w.interventions = []
  busy : p.Busy

private theorem Seats.settle (h : k.Seats names p w) : k.Seats names (p.settle w).1 (p.settle w).2 := by
  obtain ⟨hservice, hinterventions⟩ := p.service_settle h.interventions
  exact ⟨h.nodup, (Pool.programs_settle p w).trans h.programs, h.service.trans hservice.symm, hinterventions,
    Pool.busy_settle h.busy w⟩

variable [DecidableEq ι]

/-- The head of a pool is the program of somebody, and the others are those of the others. -/
private theorem Seats.exists_head (h : k.Seats names p w) (hr : p.ready = a :: as) :
    ∃ i others, names.Perm (i :: others) ∧ (i :: others).Nodup ∧ k.programs i = a ∧
      p.programs.Perm (a :: others.map k.programs) := by
  have hmem : a ∈ names.map k.programs := h.programs.mem_iff.1 (by simp [Pool.programs, hr])
  obtain ⟨i, hi, hia⟩ := List.mem_map.1 hmem
  have hnames : names.Perm (i :: names.erase i) := List.perm_cons_erase hi
  have hprograms : (names.map k.programs).Perm (a :: (names.erase i).map k.programs) := by
    have hmap := hnames.map k.programs
    rw [List.map_cons, hia] at hmap
    exact hmap
  exact ⟨i, names.erase i, hnames, hnames.nodup_iff.1 h.nodup, hia, h.programs.trans hprograms⟩

private theorem map_programs_put (hi : i ∉ others) (q : Program S α) (s : σ) :
    others.map (k.put i q s).programs = others.map k.programs :=
  List.map_congr_left fun _ hj => programs_put_of_ne fun h => hi (h ▸ hj)

/-- After the head has ended, the pool runs the others. -/
private theorem Seats.release (hr : p.ready = a :: as) (hp : p.programs.Perm (a :: others.map k.programs))
    (hnames : (i :: others).Nodup) (hw : w.interventions = []) (q : Program S α) :
    (k.put i q w.service).Seats others p.release w := by
  obtain ⟨hi, hothers⟩ := List.nodup_cons.1 hnames
  refine ⟨hothers, ?_, rfl, hw, p.busy_release⟩
  rw [map_programs_put hi]
  exact ((Pool.programs_release hr).symm.trans hp).cons_inv

/-- After the head has fallen asleep, the pool runs what is left of it and the others. -/
private theorem Seats.suspend (hr : p.ready = a :: as) (hp : p.programs.Perm (a :: others.map k.programs))
    (hnames : (i :: others).Nodup) (hw : w.interventions = []) (s : Sleeper S α) :
    (k.put i s.rest w.service).Seats (i :: others) (p.suspend s) w := by
  refine ⟨hnames, ?_, rfl, hw, p.busy_suspend s⟩
  rw [List.map_cons, programs_put_self, map_programs_put (List.nodup_cons.1 hnames).1]
  exact Pool.programs_suspend hr hp s

end Seats

variable [Service S σ] [DecidableEq ι] {k k' : Crowd S σ ι α} {names : List ι} {p : Pool S α} {w : World S σ}

/-- The crowd has come to `k'` with a run, and each of these programs has ended. -/
structure Played (k : Crowd S σ ι α) (names : List ι) (r : List α × World S σ) (k' : Crowd S σ ι α) : Prop where
  reaches : Reaches k k'
  service : k'.service = r.2.service
  others : ∀ i ∉ names, k'.programs i = k.programs i
  results : ∃ es : List (ι × α), r.1 = es.map (·.2) ∧ (es.map (·.1)).Perm names ∧
    ∀ e ∈ es, k'.programs e.1 = .done e.2

private theorem Seats.exists_played (h : k.Seats names p w) : ∃ k', k.Played names (p.run w) k' := by
  -- The crowd follows the pool turn by turn; after each turn, the pool runs what is left.
  induction p, w using Pool.run.induct generalizing k names with
  | case1 p w hr =>
    have hnil : names.map k.programs = [] := by
      have hperm := h.programs
      rw [Pool.programs_settle_eq_nil h.busy hr] at hperm
      exact hperm.symm.eq_nil
    have hnames : names = [] := List.map_eq_nil_iff.1 hnil
    have hservice := (p.service_settle h.interventions).1
    rw [Pool.run_of_nil hr]
    refine ⟨k, .refl, h.service.trans hservice.symm, fun _ _ => rfl, [], rfl, ?_, ?_⟩
    · simp [hnames]
    · simp
  | case2 p w a as hr r w' ht ih =>
    have hs := h.settle
    obtain ⟨i, others, hnames, hnodup, hi, hp⟩ := hs.exists_head hr
    have hturn := reaches_turn hi hs.service
    have hw' := Turn.interventions_left a (p.settle w).2
    rw [ht] at hturn hw'
    obtain ⟨k', hk'⟩ := ih (Seats.release hr hp hnodup (hw'.trans hs.interventions) (.done r))
    rw [Pool.run_of_ended hr ht]
    obtain ⟨es, hes, hperm, hdone⟩ := hk'.results
    have hiother := (List.nodup_cons.1 hnodup).1
    refine ⟨k', hturn.trans hk'.reaches, hk'.service, fun j hj => ?_, (i, r) :: es, ?_, ?_, fun e he => ?_⟩
    · rw [hnames.mem_iff, List.mem_cons, not_or] at hj
      exact (hk'.others j hj.2).trans (programs_put_of_ne hj.1)
    · exact congrArg (r :: ·) hes
    · exact (hperm.cons i).trans hnames.symm
    · rcases List.mem_cons.1 he with rfl | he
      · exact (hk'.others i hiother).trans programs_put_self
      · exact hdone e he
  | case3 p w a as hr ms q w' ht ih =>
    have hs := h.settle
    obtain ⟨i, others, hnames, hnodup, hi, hp⟩ := hs.exists_head hr
    have hturn := reaches_turn hi hs.service
    have hw' := Turn.interventions_left a (p.settle w).2
    rw [ht] at hturn hw'
    obtain ⟨k', hk'⟩ := ih (Seats.suspend hr hp hnodup (hw'.trans hs.interventions) ⟨w'.now + ms, q⟩)
    rw [Pool.run_of_asleep hr ht]
    obtain ⟨es, hes, hperm, hdone⟩ := hk'.results
    refine ⟨k', hturn.trans hk'.reaches, hk'.service, fun j hj => ?_, es, hes, hperm.trans hnames.symm, hdone⟩
    rw [hnames.mem_iff] at hj
    exact (hk'.others j hj).trans (programs_put_of_ne fun h => hj (h ▸ List.mem_cons_self))

/-- What a pool does when nothing happens from outside, its programs may do when they take turns. -/
theorem exists_play_of_runPool [Nonempty ι] (k : Crowd S σ ι α) (width : Nat) {names : List ι} (hnames : names.Nodup)
    {w : World S σ} (hs : k.service = w.service) (hw : w.interventions = []) :
    ∃ schedule n, (k.play schedule n).service = (runPool width (names.map k.programs) w).2.service ∧
      ∃ es : List (ι × α), (runPool width (names.map k.programs) w).1 = es.map (·.2) ∧ (es.map (·.1)).Perm names ∧
        ∀ e ∈ es, (k.play schedule n).programs e.1 = .done e.2 := by
  have hseats : k.Seats names (Pool.start width (names.map k.programs)) w := by
    refine ⟨hnames, ?_, hs, hw, Pool.busy_start width _⟩
    simp [Pool.start, Pool.programs]
  obtain ⟨k', hk'⟩ := hseats.exists_played
  obtain ⟨schedule, n, rfl⟩ := hk'.reaches.exists_play
  exact ⟨schedule, n, hk'.service, hk'.results⟩

end Crowd

end Fleet
