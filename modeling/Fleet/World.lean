import Fleet.Program

/-!
# Running a program

A program runs against a service, which answers its questions and keeps a state, on a clock that moves
only while the program sleeps. Answers take no time. Interventions are changes of the service's state that
come from outside at given times. The signal to cancel is set from a time on, or after a number of questions,
which tells apart moments of the same time. The world keeps a record of every question with its time and
answer.
-/

namespace Fleet

/-- A service with states in `σ` that answers the questions of a signature. -/
class Service (S : outParam Signature) (σ : Type) where
  answer : (q : S.Query) → σ → S.Answer q × σ

/-- One question as it was put and answered. -/
structure Exchange (S : Signature) where
  time : Nat
  query : S.Query
  answer : S.Answer query

/-- A service together with the clock and what is still to happen. -/
structure World (S : Signature) (σ : Type) where
  service : σ
  /-- Milliseconds since the beginning. -/
  now : Nat
  /-- The questions so far, the latest first. -/
  record : List (Exchange S)
  /-- Changes from outside, in the order in which they happen. -/
  interventions : List (Nat × (σ → σ))
  /-- The time from which on the signal to cancel is set. -/
  cancelAt : Option Nat
  /-- The number of questions after which the signal to cancel is set. -/
  cancelAfter : Option Nat

namespace World

variable {S : Signature} {σ : Type}

/-- The world at time `t` in which nothing has happened and nothing will. -/
def start (s : σ) (t : Nat) : World S σ := ⟨s, t, [], [], none, none⟩

/-- Puts a question to the service. -/
def ask [Service S σ] (w : World S σ) (q : S.Query) : S.Answer q × World S σ :=
  let r := Service.answer q w.service
  (r.1, { w with service := r.2, record := ⟨w.now, q, r.1⟩ :: w.record })

/-- The service after the interventions up to time `t`, and those that are left. -/
def intervene (t : Nat) : List (Nat × (σ → σ)) → σ → σ × List (Nat × (σ → σ))
  | [], s => (s, [])
  | e :: es, s => if e.1 ≤ t then intervene t es (e.2 s) else (s, e :: es)

/-- Moves the clock to time `t`, never back. -/
def advanceTo (w : World S σ) (t : Nat) : World S σ :=
  let r := intervene (max w.now t) w.interventions w.service
  { w with service := r.1, interventions := r.2, now := max w.now t }

/-- Whether the signal to cancel is set at time `t`, when `n` questions have been put. -/
def signal (w : World S σ) (t n : Nat) : Bool :=
  w.cancelAt.any (fun u => u ≤ t) || w.cancelAfter.any (fun k => k ≤ n)

def isCancelled (w : World S σ) : Bool := w.signal w.now w.record.length

end World

/-- Runs a program to its end. -/
def Program.run {S : Signature} {σ α : Type} [Service S σ] : Program S α → World S σ → α × World S σ
  | .done a, w => (a, w)
  | .ask q k, w => (k (w.ask q).1).run (w.ask q).2
  | .sleep ms k, w => k.run (w.advanceTo (w.now + ms))
  | .clock k, w => (k w.now).run w
  | .cancelled k, w => (k w.isCancelled).run w

theorem Program.run_bind {S : Signature} {σ α β : Type} [Service S σ] (p : Program S α)
    (f : α → Program S β) (w : World S σ) :
    (p.bind f).run w = (f (p.run w).1).run (p.run w).2 := by
  induction p generalizing w with
  | done a => rfl
  | ask q k ih => exact ih _ _
  | sleep ms k ih => exact ih _
  | clock k ih => exact ih _ _
  | cancelled k ih => exact ih _ _

end Fleet
