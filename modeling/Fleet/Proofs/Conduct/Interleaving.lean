import Fleet.Proofs.Conduct.Basic
import Mathlib.Data.Fintype.Order

/-!
# Programs that take turns

Programs share a service, and at any time any of them may make its next step: between two steps of one program the
others may make as many steps as they like, and a clock shows any time. `Program.Heeds` is what `Program.Obeys` is for
programs that are left alone between their sleeps: the program keeps to a conduct and ends as it says, whatever the
others do before each of its steps. A crowd of heedful programs stays heedful (`Crowd.play_heeds`).

Every step of a program leaves a smaller one, so all programs come to their ends if everybody has a turn again and again
(`Crowd.exists_all_done`).
-/

namespace Fleet

variable {S : Signature} {σ ι γ α β : Type}

/-- One step of one program: whose turn it is, and what the clock and the signal to cancel show when looked at. -/
structure Move (ι : Type) where
  who : ι
  time : Nat
  stop : Bool

/-- The next step of a program. One that sleeps may wake up at any time. -/
def Program.step [Service S σ] (t : Nat) (b : Bool) : Program S α → σ → Program S α × σ
  | .done a, s => (.done a, s)
  | .ask q k, s => (k (Service.answer q s).1, (Service.answer q s).2)
  | .sleep _ k, s => (k, s)
  | .clock k, s => (k t, s)
  | .cancelled k, s => (k b, s)

/-- Programs and the service that they share. -/
structure Crowd (S : Signature) (σ ι α : Type) where
  programs : ι → Program S α
  service : σ

namespace Crowd

variable [Service S σ] [DecidableEq ι]

def move (k : Crowd S σ ι α) (e : Move ι) : Crowd S σ ι α :=
  let r := (k.programs e.who).step e.time e.stop k.service
  ⟨fun i => if i = e.who then r.1 else k.programs i, r.2⟩

/-- The crowd after the first moves of a schedule. -/
def play (k : Crowd S σ ι α) (schedule : Nat → Move ι) : Nat → Crowd S σ ι α
  | 0 => k
  | n + 1 => (k.play schedule n).move (schedule n)

end Crowd

/-- Everybody has a turn again and again. -/
def TakesTurns (schedule : Nat → Move ι) : Prop := ∀ i n, ∃ n', n ≤ n' ∧ (schedule n').who = i

namespace Program

variable [Service S σ]

/-- The program of `i` keeps to the conduct from the state `x` on and ends with a result and a state in `Q`, whatever
the others do before each of its steps. -/
def Heeds (c : Conduct S σ ι γ) (i : ι) (Q : α → σ × γ → Prop) : Program S α → σ × γ → Prop
  | .done a, x => ∀ y, c.drift i x y → Q a y
  | .ask q k, x => ∀ y, c.drift i x y → c.may i q y ∧ (k (Service.answer q y.1).1).Heeds c i Q (c.after i q y)
  | .sleep _ k, x => k.Heeds c i Q x
  | .clock k, x => ∀ t, (k t).Heeds c i Q x
  | .cancelled k, x => ∀ b, (k b).Heeds c i Q x

variable {c : Conduct S σ ι γ} {i : ι} {Q : α → σ × γ → Prop} {x y : σ × γ}

theorem Heeds.drift {p : Program S α} (h : p.Heeds c i Q x) (hd : c.drift i x y) : p.Heeds c i Q y := by
  induction p with
  | done a => exact fun z hz => h z (c.drift_trans i x y z hd hz)
  | ask q k ih => exact fun z hz => h z (c.drift_trans i x y z hd hz)
  | sleep ms k ih => exact ih h
  | clock k ih => exact fun t => ih t (h t)
  | cancelled k ih => exact fun b => ih b (h b)

/-- After a program that heeds, another one goes on from where its result is good whatever the others do. -/
theorem Heeds.bind {p : Program S α} {f : α → Program S β} {Q' : β → σ × γ → Prop} (h : p.Heeds c i Q x)
    (hf : ∀ a y, (∀ z, c.drift i y z → Q a z) → (f a).Heeds c i Q' y) : (p.bind f).Heeds c i Q' x := by
  induction p generalizing x with
  | done a => exact hf a x h
  | ask q k ih => exact fun y hy => ⟨(h y hy).1, ih _ (h y hy).2⟩
  | sleep ms k ih => exact ih h
  | clock k ih => exact fun t => ih t (h t)
  | cancelled k ih => exact fun b => ih b (h b)

/-- One step of a program that heeds: it keeps to the conduct, and for the others it is a drift. -/
theorem Heeds.step {P : σ → Prop} (hP : ∀ j q s g, P s → c.may j q (s, g) → P (Service.answer q s).2)
    {p : Program S α} {s : σ} {g : γ} (h : p.Heeds c i Q (s, g)) (hs : P s) (t : Nat) (b : Bool) :
    ∃ g', P (p.step t b s).2 ∧ (p.step t b s).1.Heeds c i Q ((p.step t b s).2, g') ∧
      ∀ j, i ≠ j → c.drift j (s, g) ((p.step t b s).2, g') := by
  cases p with
  | done a => exact ⟨g, hs, h, fun j _ => c.drift_refl j _⟩
  | ask q k =>
    obtain ⟨hmay, hk⟩ := h (s, g) (c.drift_refl i _)
    exact ⟨c.note i q (s, g), hP i q s g hs hmay, hk, fun j hj => c.drift_of_may i j q (s, g) hj hmay⟩
  | sleep ms k => exact ⟨g, hs, h, fun j _ => c.drift_refl j _⟩
  | clock k => exact ⟨g, hs, h t, fun j _ => c.drift_refl j _⟩
  | cancelled k => exact ⟨g, hs, h b, fun j _ => c.drift_refl j _⟩

end Program

namespace Crowd

variable [Service S σ] [DecidableEq ι] {k : Crowd S σ ι α} {schedule : Nat → Move ι} {i : ι} {n : Nat}

theorem programs_move_self (k : Crowd S σ ι α) (e : Move ι) :
    (k.move e).programs e.who = ((k.programs e.who).step e.time e.stop k.service).1 := if_pos rfl

theorem programs_move_of_ne (k : Crowd S σ ι α) {e : Move ι} (h : i ≠ e.who) :
    (k.move e).programs i = k.programs i := if_neg h

/-! ### Crowds that keep to a conduct -/

section Heedful

variable {c : Conduct S σ ι γ} {P : σ → Prop} {Q : ι → α → σ × γ → Prop}

theorem move_heeds (hP : ∀ j q s g, P s → c.may j q (s, g) → P (Service.answer q s).2) {g : γ} (hs : P k.service)
    (h : ∀ i, (k.programs i).Heeds c i (Q i) (k.service, g)) (e : Move ι) :
    P (k.move e).service ∧ ∃ g', ∀ i, ((k.move e).programs i).Heeds c i (Q i) ((k.move e).service, g') := by
  obtain ⟨g', hs', hown, hothers⟩ := (h e.who).step hP hs e.time e.stop
  refine ⟨hs', g', fun i => ?_⟩
  by_cases hi : i = e.who
  · subst hi
    rw [programs_move_self]
    exact hown
  · rw [programs_move_of_ne k hi]
    exact (h i).drift (hothers i (Ne.symm hi))

/-- However the programs take turns, they go on heeding. -/
theorem play_heeds (hP : ∀ j q s g, P s → c.may j q (s, g) → P (Service.answer q s).2) {g : γ} (hs : P k.service)
    (h : ∀ i, (k.programs i).Heeds c i (Q i) (k.service, g)) (schedule : Nat → Move ι) (n : Nat) :
    P (k.play schedule n).service ∧
      ∃ g', ∀ i, ((k.play schedule n).programs i).Heeds c i (Q i) ((k.play schedule n).service, g') := by
  induction n with
  | zero => exact ⟨hs, g, h⟩
  | succ n ih =>
    obtain ⟨hs', g', h'⟩ := ih
    exact move_heeds hP hs' h' (schedule n)

/-- So each program that has ended has ended well. -/
theorem ends_of_heeds (hP : ∀ j q s g, P s → c.may j q (s, g) → P (Service.answer q s).2) {g : γ} (hs : P k.service)
    (h : ∀ i, (k.programs i).Heeds c i (Q i) (k.service, g)) (schedule : Nat → Move ι) (n : Nat) :
    P (k.play schedule n).service ∧
      ∃ g', ∀ i a, (k.play schedule n).programs i = .done a → Q i a ((k.play schedule n).service, g') := by
  obtain ⟨hs', g', h'⟩ := play_heeds hP hs h schedule n
  refine ⟨hs', g', fun i a ha => ?_⟩
  have hi := h' i
  rw [ha] at hi
  exact hi _ (c.drift_refl i _)

end Heedful

/-! ### The ends of programs -/

theorem programs_move_of_done {a : α} (h : k.programs i = .done a) (e : Move ι) : (k.move e).programs i = .done a := by
  by_cases hi : i = e.who
  · subst hi
    rw [programs_move_self, h]
    rfl
  · rw [programs_move_of_ne k hi, h]

/-- A program that has ended stays so. -/
theorem programs_play_of_done {a : α} (h : (k.play schedule n).programs i = .done a) {n' : Nat} (hn : n ≤ n') :
    (k.play schedule n').programs i = .done a := by
  induction hn with
  | refl => exact h
  | step _ ih => exact programs_move_of_done ih _

/-- A program ends with one result only. -/
theorem eq_of_programs_play {n n' : Nat} {a b : α} (h : (k.play schedule n).programs i = .done a)
    (h' : (k.play schedule n').programs i = .done b) : a = b := by
  rcases Nat.le_total n n' with hn | hn
  · have hlater := programs_play_of_done h hn
    exact Program.done.inj (hlater.symm.trans h')
  · have hlater := programs_play_of_done h' hn
    exact Program.done.inj (h.symm.trans hlater)

/-- Until its turn comes, a program stays as it is. -/
private theorem exists_turn (k : Crowd S σ ι α) (schedule : Nat → Move ι) (i : ι) {n n' : Nat} (hn : n ≤ n')
    (hwho : (schedule n').who = i) :
    ∃ j, n ≤ j ∧ (schedule j).who = i ∧ (k.play schedule j).programs i = (k.play schedule n).programs i := by
  obtain ⟨d, rfl⟩ := Nat.exists_eq_add_of_le hn
  induction d generalizing n with
  | zero => exact ⟨n, Nat.le_refl n, hwho, rfl⟩
  | succ d ih =>
    by_cases hnow : (schedule n).who = i
    · exact ⟨n, Nat.le_refl n, hnow, rfl⟩
    · have hlater : (schedule (n + 1 + d)).who = i := by
        rw [← hwho]
        congr 2
        omega
      obtain ⟨j, hj, hwho', hsame⟩ := ih (Nat.le_add_right (n + 1) d) hlater
      refine ⟨j, by omega, hwho', hsame.trans ?_⟩
      exact programs_move_of_ne (k.play schedule n) (Ne.symm hnow)

private theorem exists_step (k : Crowd S σ ι α) (hturns : TakesTurns schedule) (i : ι) (n : Nat) :
    ∃ (j t : Nat) (b : Bool) (s : σ), (k.play schedule j).programs i =
      (((k.play schedule n).programs i).step t b s).1 := by
  obtain ⟨n', hn, hwho⟩ := hturns i n
  obtain ⟨j, -, hwho', hsame⟩ := exists_turn k schedule i hn hwho
  have hmoved := (k.play schedule j).programs_move_self (schedule j)
  rw [hwho', hsame] at hmoved
  exact ⟨j + 1, _, _, _, hmoved⟩

private theorem exists_done_of_eq (hturns : TakesTurns schedule) (i : ι) (p : Program S α) {n : Nat}
    (hp : (k.play schedule n).programs i = p) : ∃ n' a, (k.play schedule n').programs i = .done a := by
  induction p generalizing n with
  | done a => exact ⟨n, a, hp⟩
  | ask q next ih =>
    obtain ⟨j, t, b, s, hj⟩ := exists_step k hturns i n
    rw [hp] at hj
    exact ih _ hj
  | sleep ms next ih =>
    obtain ⟨j, t, b, s, hj⟩ := exists_step k hturns i n
    rw [hp] at hj
    exact ih hj
  | clock next ih =>
    obtain ⟨j, t, b, s, hj⟩ := exists_step k hturns i n
    rw [hp] at hj
    exact ih _ hj
  | cancelled next ih =>
    obtain ⟨j, t, b, s, hj⟩ := exists_step k hturns i n
    rw [hp] at hj
    exact ih _ hj

/-- When everybody has a turn again and again, all programs end, and each of them with one result for good. -/
theorem exists_all_done [Finite ι] (k : Crowd S σ ι α) (hturns : TakesTurns schedule) :
    ∃ N, ∃ results : ι → α, ∀ n, N ≤ n → ∀ i, (k.play schedule n).programs i = .done (results i) := by
  have hends (i : ι) : ∃ n a, (k.play schedule n).programs i = .done a := exists_done_of_eq (n := 0) hturns i _ rfl
  choose last results hdone using hends
  obtain ⟨N, hN⟩ := Finite.exists_le last
  exact ⟨N, results, fun n hn i => programs_play_of_done (hdone i) (Nat.le_trans (hN i) hn)⟩

end Crowd

end Fleet
