import Fleet.World

/-!
# Running programs side by side

A pool runs several programs on one clock, at most `width` at a time. A program that has its turn runs
until it sleeps or ends. The programs that are ready take turns in the order in which they became ready; a
program that ends makes room for the next one that waits, which goes to the end of the queue; and when none
is ready, the clock moves on to the earliest time at which one wakes up. Programs that wake up at the same
time become ready in the order in which they fell asleep. `Pool.run` collects the results in the order in
which the programs end.

That this comes to an end is the well-foundedness of `Pool.Smaller`: with every turn, one of the programs
is replaced by what is left of it or by nothing.
-/

namespace Fleet

variable {S : Signature} {σ α : Type}

/-- How a turn ends. -/
inductive Turn (S : Signature) (σ α : Type) where
  | ended (result : α) (world : World S σ)
  | asleep (ms : Nat) (rest : Program S α) (world : World S σ)

/-- Runs a program until it sleeps or ends. Sleeping for no time does not end the turn. -/
def Program.turn [Service S σ] : Program S α → World S σ → Turn S σ α
  | .done a, w => .ended a w
  | .ask q k, w => (k (w.ask q).1).turn (w.ask q).2
  | .sleep 0 k, w => k.turn w
  | .sleep (ms + 1) k, w => .asleep (ms + 1) k w
  | .clock k, w => (k w.now).turn w
  | .cancelled k, w => (k w.isCancelled).turn w

theorem Program.isRestOf_of_turn [Service S σ] {p q : Program S α} {w w' : World S σ} {ms : Nat}
    (h : p.turn w = .asleep ms q w') : q.IsRestOf p := by
  induction p generalizing w with
  | done a => simp [turn] at h
  | ask c k ih => exact .ask c k _ (ih _ (by simpa [turn] using h))
  | sleep n k ih =>
    cases n with
    | zero => exact .sleep 0 (ih (by simpa [turn] using h))
    | succ n =>
      simp only [turn, Turn.asleep.injEq] at h
      exact h.2.1 ▸ .wake (n + 1) k
  | clock k ih => exact .clock k _ (ih _ (by simpa [turn] using h))
  | cancelled k ih => exact .cancelled k _ (ih _ (by simpa [turn] using h))

/-- A program that sleeps until a time. -/
structure Sleeper (S : Signature) (α : Type) where
  wakeAt : Nat
  rest : Program S α

structure Pool (S : Signature) (α : Type) where
  /-- The programs that may run, the next one first. -/
  ready : List (Program S α)
  /-- The programs that sleep, in the order in which they fell asleep. -/
  sleeping : List (Sleeper S α)
  /-- The programs for which there is no room yet. -/
  waiting : List (Program S α)

namespace Pool

/-- The pool in which the first `width` programs are ready; there is always room for one. -/
def start (width : Nat) (ps : List (Program S α)) : Pool S α :=
  ⟨ps.take (max width 1), [], ps.drop (max width 1)⟩

/-- The programs of a pool that have not ended. -/
def programs (p : Pool S α) : List (Program S α) :=
  p.ready ++ p.sleeping.map (·.rest) ++ p.waiting

/-- The earliest time at which a sleeper wakes up. -/
def earliest : List (Sleeper S α) → Option Nat
  | [] => none
  | s :: ss => some ((earliest ss).elim s.wakeAt (min s.wakeAt))

/-- The pool when nothing is ready: the clock moves to the earliest time, and the sleepers of that time
become ready. -/
def wake (p : Pool S α) (w : World S σ) : Pool S α × World S σ :=
  match earliest p.sleeping with
  | none => (p, w)
  | some t =>
    let due := p.sleeping.filter (fun s => s.wakeAt ≤ t)
    let later := p.sleeping.filter (fun s => !(s.wakeAt ≤ t))
    (⟨p.ready ++ due.map (·.rest), later, p.waiting⟩, w.advanceTo t)

/-- The pool in which something is ready, if a program is left. -/
def settle (p : Pool S α) (w : World S σ) : Pool S α × World S σ :=
  if p.ready.isEmpty then p.wake w else (p, w)

/-- The pool after the program at its head has ended. -/
def release (p : Pool S α) : Pool S α :=
  ⟨p.ready.tail ++ p.waiting.take 1, p.sleeping, p.waiting.drop 1⟩

/-- The pool after the program at its head has fallen asleep. -/
def suspend (p : Pool S α) (s : Sleeper S α) : Pool S α :=
  ⟨p.ready.tail, p.sleeping ++ [s], p.waiting⟩

/-! ### Every pool empties -/

/-- `l` is `m` with one program replaced by what is left of it, or removed; the order does not matter. -/
def Smaller (l m : List (Program S α)) : Prop :=
  ∃ p rest, m.Perm (p :: rest) ∧ (l.Perm rest ∨ ∃ q, q.IsRestOf p ∧ l.Perm (q :: rest))

private theorem acc_of_perm {l m : List (Program S α)} (h : Acc Smaller l) (hp : l.Perm m) :
    Acc Smaller m :=
  ⟨_, fun _ ⟨p, rest, hm, hx⟩ => h.inv ⟨p, rest, hp.trans hm, hx⟩⟩

private theorem acc_nil : Acc (Smaller (S := S) (α := α)) [] :=
  ⟨_, fun _ ⟨_, _, h, _⟩ => absurd h.symm.eq_nil (by simp)⟩

private theorem acc_cons {p : Program S α} (hp : Acc Program.IsRestOf p) {l : List (Program S α)}
    (hl : Acc Smaller l) : Acc Smaller (p :: l) := by
  induction hp generalizing l with
  | intro p _ ihp =>
    induction hl with
    | intro l hl ihl =>
      refine ⟨_, fun x ⟨r, rest, hr, hx⟩ => ?_⟩
      -- Either `p` itself is replaced, or one of the others while `p` stays in front.
      rcases List.mem_cons.1 (hr.mem_iff.2 List.mem_cons_self) with rfl | hmem
      · have hrest := hr.cons_inv
        rcases hx with hx | ⟨q, hq, hx⟩
        · exact acc_of_perm ⟨_, hl⟩ (hrest.trans hx.symm)
        · exact acc_of_perm (ihp q hq ⟨_, hl⟩) ((hrest.cons q).trans hx.symm)
      · obtain ⟨u, v, rfl⟩ := List.append_of_mem hmem
        have hperm : (u ++ r :: v).Perm (r :: (u ++ v)) := List.perm_middle
        have hrest : rest.Perm (p :: (u ++ v)) :=
          ((hr.symm.trans (hperm.cons p)).trans (List.Perm.swap r p _)).cons_inv
        rcases hx with hx | ⟨q, hq, hx⟩
        · exact acc_of_perm (ihl (u ++ v) ⟨r, u ++ v, hperm, .inl (.refl _)⟩) (hrest.symm.trans hx.symm)
        · exact acc_of_perm (ihl (q :: (u ++ v)) ⟨r, u ++ v, hperm, .inr ⟨q, hq, .refl _⟩⟩)
            ((List.Perm.swap q p _).trans ((hrest.symm.cons q).trans hx.symm))

theorem wf_smaller : WellFounded (Smaller (S := S) (α := α)) := by
  refine ⟨fun l => ?_⟩
  induction l with
  | nil => exact acc_nil
  | cons p l ih => exact acc_cons (Program.acc_isRestOf p) ih

local instance : WellFoundedRelation (List (Program S α)) := ⟨Smaller, wf_smaller⟩

private theorem perm_filter_append {β : Type} (f : β → Bool) (l : List β) :
    (l.filter f ++ l.filter fun b => !f b).Perm l := by
  induction l with
  | nil => exact .refl _
  | cons a l ih =>
    cases h : f a with
    | true => simpa [h] using ih.cons a
    | false => simpa [h] using List.perm_middle.trans (ih.cons a)

theorem programs_settle (p : Pool S α) (w : World S σ) : (p.settle w).1.programs.Perm p.programs := by
  unfold settle wake
  split
  · split
    · exact .refl _
    · next t _ =>
      have h := (perm_filter_append (fun s : Sleeper S α => decide (s.wakeAt ≤ t)) p.sleeping).map (·.rest)
      rw [List.map_append] at h
      simpa [programs, List.append_assoc] using (h.append_left p.ready).append_right p.waiting
  · exact .refl _

theorem perm_take_append_drop {β : Type} (n : Nat) (u v : List β) :
    (u ++ v).Perm (v.take n ++ (u ++ v.drop n)) := by
  conv => lhs; rw [← List.take_append_drop n v, ← List.append_assoc]
  rw [← List.append_assoc]
  exact List.perm_append_comm.append_right _

theorem programs_release {p : Pool S α} {a : Program S α} {as : List (Program S α)} (hr : p.ready = a :: as) :
    p.programs.Perm (a :: p.release.programs) := by
  simpa [programs, release, hr, List.append_assoc] using
    (perm_take_append_drop 1 (p.sleeping.map (·.rest)) p.waiting).append_left as

theorem programs_suspend {p : Pool S α} {a : Program S α} {as ps : List (Program S α)} (hr : p.ready = a :: as)
    (hp : p.programs.Perm (a :: ps)) (s : Sleeper S α) : (p.suspend s).programs.Perm (s.rest :: ps) := by
  have hothers : (as ++ p.sleeping.map (·.rest) ++ p.waiting).Perm ps := by
    refine List.Perm.cons_inv (a := a) ?_
    simpa [programs, hr] using hp
  have hmiddle : (as ++ p.sleeping.map (·.rest) ++ s.rest :: p.waiting).Perm
      (s.rest :: (as ++ p.sleeping.map (·.rest) ++ p.waiting)) := List.perm_middle
  simpa [programs, suspend, hr] using hmiddle.trans (hothers.cons s.rest)

private theorem smaller_release {p q : Pool S α} {a : Program S α} {as : List (Program S α)}
    (h : p.programs.Perm q.programs) (hr : p.ready = a :: as) : Smaller p.release.programs q.programs :=
  ⟨a, p.release.programs, h.symm.trans (programs_release hr), .inl (.refl _)⟩

private theorem smaller_suspend {p q : Pool S α} {a : Program S α} {as : List (Program S α)} {s : Sleeper S α}
    (h : p.programs.Perm q.programs) (hr : p.ready = a :: as) (hs : s.rest.IsRestOf a) :
    Smaller (p.suspend s).programs q.programs := by
  have hp := programs_release hr
  exact ⟨a, p.release.programs, h.symm.trans hp, .inr ⟨s.rest, hs, programs_suspend hr hp s⟩⟩

/-- Runs the programs of a pool to their ends. The results are in the order in which the programs ended. -/
def run [Service S σ] (p : Pool S α) (w : World S σ) : List α × World S σ :=
  match _h : (p.settle w).1.ready with
  | [] => ([], (p.settle w).2)
  | a :: _ =>
    match _ht : a.turn (p.settle w).2 with
    | .ended r w' =>
      let rest := run (p.settle w).1.release w'
      (r :: rest.1, rest.2)
    | .asleep ms q w' => run ((p.settle w).1.suspend ⟨w'.now + ms, q⟩) w'
termination_by p.programs
decreasing_by
  · exact smaller_release (programs_settle p w) _h
  · exact smaller_suspend (programs_settle p w) _h (Program.isRestOf_of_turn _ht)

end Pool

/-- Runs programs side by side, at most `width` at a time. -/
def runPool [Service S σ] (width : Nat) (ps : List (Program S α)) (w : World S σ) : List α × World S σ :=
  (Pool.start width ps).run w

end Fleet
