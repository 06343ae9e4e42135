import Fleet.Proofs.Load.Tending
import Fleet.Proofs.Memory.Lifecycle
import Mathlib.Data.Finset.Card
import Mathlib.Order.Interval.Finset.Nat

/-!
# Operations that are not done yet

What the answers of the platform in memory do to the operations that programs have in charge. Where nothing goes wrong,
an operation that is asked for is found (`Charge.Holds.expects`), and after an answer all operations that are not done
are those that were not done before, except that the program's own one may have come or gone (`Charge.Leaves`).
-/

namespace Fleet

open Memory

namespace Memory

/-- Whether the operation with a number is done. -/
def hasDone (m : Memory) (n : Nat) : Bool := (m.operations.find? (operationName n)).any fun r => r.operation.isDone

/-- The numbers of the operations that have been started since `m₀` and are not done. -/
def outstanding (m₀ m : Memory) : Finset Nat :=
  (Finset.Ioc m₀.operationCount m.operationCount).filter fun n => m.hasDone n = false

variable {m₀ m m' : Memory} {n : Nat}

theorem mem_outstanding : n ∈ m₀.outstanding m ↔
    (m₀.operationCount < n ∧ n ≤ m.operationCount) ∧ m.hasDone n = false := by
  simp [outstanding]

theorem hasDone_congr (h : m'.operations.find? (operationName n) = m.operations.find? (operationName n)) :
    m'.hasDone n = m.hasDone n := by
  rw [hasDone, hasDone, h]

theorem accepted?_answer (c : Call) (m : Memory) : c.accepted? (answer c m).1 = started? c m := by cases c <;> rfl

end Memory

namespace Charge

variable {m₀ m m' : Memory} {o o' : Option Charge} {c : Charge} {call : Call} {t : Nat}

/-- The operation in charge has been started since `m₀`, is not done and has been asked for as often as it says. -/
def Holds (m₀ m : Memory) (c : Charge) : Prop :=
  ∃ n, m₀.operationCount < n ∧ n ≤ m.operationCount ∧ c.handle.name = operationName n ∧
    ∃ r, m.operations.find? c.handle.name = some r ∧ r.operation.isDone = false ∧ r.polls = c.polls

/-- What becomes of the operations that are not done when a program has `o` in charge before an answer and `o'` after
it. -/
structure Leaves (m₀ m m' : Memory) (o o' : Option Charge) : Prop where
  count : m.operationCount ≤ m'.operationCount
  holds : ∀ c, o' = some c → c.Holds m₀ m'
  fresh : ∀ c, o' = some c → (∃ d, o = some d ∧ d.handle = c.handle) ∨
    ∀ n ≤ m.operationCount, c.handle.name ≠ operationName n
  outstanding : ∀ n ∈ m₀.outstanding m', (∃ c, o' = some c ∧ c.handle.name = operationName n) ∨
    (n ∈ m₀.outstanding m ∧ ∀ c, o = some c → c.handle.name ≠ operationName n)

theorem Holds.of_find? (h : c.Holds m₀ m) (hcount : m.operationCount ≤ m'.operationCount)
    (hfind : m'.operations.find? c.handle.name = m.operations.find? c.handle.name) : c.Holds m₀ m' := by
  obtain ⟨n, hn, hle, hname, r, hr, hrun, hpolls⟩ := h
  exact ⟨n, hn, Nat.le_trans hle hcount, hname, r, hfind.trans hr, hrun, hpolls⟩

/-- What others ask for leaves an operation as it is. -/
theorem Holds.of_others (h : c.Holds m₀ m) (hother : ∀ h', call = .operation h' → h'.name ≠ c.handle.name) :
    c.Holds m₀ (answer call m).2 := by
  have hfind : (Memory.answer call m).2.operations.find? c.handle.name = m.operations.find? c.handle.name := by
    obtain ⟨n, -, hle, hname, -⟩ := h
    rw [hname] at hother ⊢
    exact find?_operations_answer hle hother
  exact h.of_find? (operationCount_le_answer call m) hfind

/-- An answer that starts nothing and tells nothing of the program's operation. -/
private theorem leaves_of_eq (ho : ∀ c, o = some c → c.Holds m₀ m) (hops : m'.operations = m.operations)
    (hcount : m'.operationCount = m.operationCount) : Leaves m₀ m m' o o where
  count := Nat.le_of_eq hcount.symm
  holds c hc := (ho c hc).of_find? (Nat.le_of_eq hcount.symm) (by rw [hops])
  fresh c hc := .inl ⟨c, hc, rfl⟩
  outstanding n hn := by
    have hsame : m'.hasDone n = m.hasDone n := hasDone_congr (by rw [hops])
    rw [mem_outstanding, hcount, hsame] at hn
    by_cases hown : ∃ c, o = some c ∧ c.handle.name = operationName n
    · exact .inl hown
    · exact .inr ⟨mem_outstanding.2 hn, fun c hc hname => hown ⟨c, hc, hname⟩⟩

/-- An answer that starts an operation. -/
private theorem leaves_of_submitted (hm : m₀.operationCount ≤ m.operationCount) {target : Summary} {e : Effect}
    {h : OperationHandle} (hs : m.Submitted target e h m') (t : Nat) : Leaves m₀ m m' none (some ⟨h, t, 0⟩) where
  count := by
    rw [hs.count]
    omega
  holds c hc := by
    obtain rfl := Option.some.inj hc
    obtain ⟨r, hr, ha⟩ := hs.record
    exact ⟨m.operationCount + 1, by omega, Nat.le_of_eq hs.count.symm, hs.name, r, hr, ha.running, ha.polls⟩
  fresh c hc := by
    obtain rfl := Option.some.inj hc
    refine .inr fun n hn hname => ?_
    have hnumber := operationName_injective (hs.name.symm.trans hname)
    omega
  outstanding n hn := by
    obtain ⟨⟨hlt, hle⟩, hdone⟩ := mem_outstanding.1 hn
    rw [hs.count] at hle
    by_cases hnew : n = m.operationCount + 1
    · subst hnew
      exact .inl ⟨_, rfl, hs.name⟩
    · have hother : operationName n ≠ h.name := fun hname => hnew (operationName_injective (hname.trans hs.name))
      have hsame : m'.hasDone n = m.hasDone n := hasDone_congr (hs.others _ hother)
      rw [hsame] at hdone
      exact .inr ⟨mem_outstanding.2 ⟨⟨hlt, by omega⟩, hdone⟩, fun c hc => by cases hc⟩

/-- The record of an operation that is in charge: asked for, it is found, and goes on or is done now. -/
private theorem Holds.poll_cases (h : c.Holds m₀ m) (hfree : m.FaultFree) :
    ∃ op r, (answer (.operation c.handle) m).1 = .ok op ∧
      (answer (.operation c.handle) m).2.operations.find? c.handle.name = some r ∧ r.operation = op ∧
      (answer (.operation c.handle) m).2.operationCount = m.operationCount ∧
      (op.isDone = false → c.polls + 1 < m.pollsUntilDone ∧ r.polls = c.polls + 1) := by
  obtain ⟨n, -, -, -, r, hr, hrun, hpolls⟩ := h
  have hentered (m' : Memory) (r' : OperationRecord) :
      (m'.enter c.handle.name r').operations.find? c.handle.name = some r' :=
    (OrderedMap.find?_insert _ _ _ _).trans (if_pos rfl)
  rcases m.poll_cases c.handle with ⟨hf, -⟩ | ⟨-, hnone, -⟩ | ⟨r', -, hr', ⟨hdone, -⟩ | ⟨-, hk, ha⟩ | ⟨-, -, ha⟩⟩
  · have := hfree.fetches
    omega
  · rw [hr] at hnone
    exact absurd hnone (by simp)
  · obtain rfl := Option.some.inj (hr.symm.trans hr')
    rw [hrun] at hdone
    exact absurd hdone (by simp)
  · obtain rfl := Option.some.inj (hr.symm.trans hr')
    rw [hpolls] at hk
    rw [ha]
    exact ⟨_, _, rfl, hentered _ _, rfl, rfl, fun _ => ⟨hk, congrArg (· + 1) hpolls⟩⟩
  · obtain rfl := Option.some.inj (hr.symm.trans hr')
    rw [ha]
    refine ⟨_, _, rfl, hentered _ _, rfl, ?_,
      fun hne => absurd hne (by simp [settled, Memory.polled, Operation.isDone])⟩
    rcases m.attempt_cases r.effect with ⟨-, hattempt⟩ | ⟨e, -, hattempt⟩
    · rw [hattempt]
      rfl
    · rw [hattempt]
      exact m.operationCount_apply e

/-- An answer about the operation in charge. -/
private theorem leaves_poll (hfree : m.FaultFree) (h : c.Holds m₀ m) (t : Nat) :
    Leaves m₀ m (answer (.operation c.handle) m).2 (some c)
      (after (some c) t (.operation c.handle) (answer (.operation c.handle) m).1) := by
  obtain ⟨op, r, ha, hr, hop, hcount, hgoes⟩ := h.poll_cases hfree
  obtain ⟨n, hn, hle, hname, -⟩ := h
  have hafter : after (some c) t (.operation c.handle) (answer (.operation c.handle) m).1 =
      if op.isDone then none else some c.polled := by
    rw [ha]
    rfl
  have hothers {j : Nat} (hj : j ∈ m₀.outstanding (answer (.operation c.handle) m).2)
      (hne : c.handle.name ≠ operationName j) : j ∈ m₀.outstanding m := by
    obtain ⟨⟨hlt, hjle⟩, hdone⟩ := mem_outstanding.1 hj
    rw [hcount] at hjle
    have hsame : (answer (.operation c.handle) m).2.hasDone j = m.hasDone j :=
      hasDone_congr (find?_operations_answer hjle fun h' hh => by cases hh; exact hne)
    rw [hsame] at hdone
    exact mem_outstanding.2 ⟨⟨hlt, hjle⟩, hdone⟩
  rw [hafter]
  cases hdone : op.isDone with
  | true =>
    rw [if_pos rfl]
    refine ⟨Nat.le_of_eq hcount.symm, fun d hd => (by cases hd), fun d hd => (by cases hd), fun j hj => .inr ?_⟩
    -- The one operation that has been done now is not outstanding any more.
    have hne : c.handle.name ≠ operationName j := by
      intro hj'
      have hnot := (mem_outstanding.1 hj).2
      rw [hasDone, ← hj', hr] at hnot
      simp [hop, hdone] at hnot
    exact ⟨hothers hj hne, fun d hd => by cases hd; exact hne⟩
  | false =>
    rw [if_neg (by simp)]
    refine ⟨Nat.le_of_eq hcount.symm, fun d hd => ?_, fun d hd => ?_, fun j hj => ?_⟩
    · obtain rfl := Option.some.inj hd
      exact ⟨n, hn, hcount ▸ hle, hname, r, hr, hop ▸ hdone, (hgoes hdone).2⟩
    · obtain rfl := Option.some.inj hd
      exact .inl ⟨c, rfl, rfl⟩
    · by_cases hne : c.handle.name = operationName j
      · exact .inl ⟨c.polled, rfl, hne⟩
      · exact .inr ⟨hothers hj hne, fun d hd => by cases hd; exact hne⟩

theorem Permits.eq_some {h : OperationHandle} (hp : Permits o (.operation h)) : ∃ c, o = some c ∧ c.handle = h :=
  Option.map_eq_some_iff.1 hp

/-- What an answer leaves of the operations that are not done, when the call was permitted. -/
theorem leaves_answer (hfree : m.FaultFree) (hm : m₀.operationCount ≤ m.operationCount)
    (ho : ∀ c, o = some c → c.Holds m₀ m) (hp : Permits o call) (t : Nat) :
    Leaves m₀ m (answer call m).2 o (after o t call (answer call m).1) := by
  by_cases hcall : ∃ h, call = .operation h
  · obtain ⟨h, rfl⟩ := hcall
    obtain ⟨c, rfl, rfl⟩ := hp.eq_some
    exact leaves_poll hfree (ho c rfl) t
  · have hcall : ∀ h, call ≠ .operation h := fun h hh => hcall ⟨h, hh⟩
    rw [after_of_ne hcall, accepted?_answer]
    rcases answer_starts hcall with ⟨h, target, e, hstarted, hs⟩ | ⟨hstarted, hops, hcount⟩
    · rw [hstarted]
      obtain rfl : o = none := hp.eq_none (h := h) ((accepted?_answer call m).trans hstarted)
      exact leaves_of_submitted hm hs t
    · rw [hstarted]
      exact leaves_of_eq ho hops hcount

/-- What is answered is what a program expects, when the number of polls is a 32-bit number and the time of its
operation is not up. -/
theorem expects_answer {p : PollPolicy} (hfree : m.FaultFree) (hpolls : m.pollsUntilDone < UInt32.size)
    (ho : ∀ c, o = some c → c.Holds m₀ m) (hp : Permits o call)
    (htimely : ∀ c, o = some c → call.unfinished? (answer call m).1 = some c.handle → t < c.since + p.timeoutMs) :
    Expects p o t call (answer call m).1 := by
  cases call with
  | operation h =>
    obtain ⟨c, rfl, rfl⟩ := hp.eq_some
    obtain ⟨op, r, ha, -, -, -, hgoes⟩ := (ho c rfl).poll_cases hfree
    refine ⟨op, ha, fun hdone d hd => ?_⟩
    obtain rfl := Option.some.inj hd
    have hunfinished : Call.unfinished? (.operation c.handle) (answer (.operation c.handle) m).1 = some c.handle := by
      rw [ha, Call.unfinished?, hdone]
      rfl
    have hsoon := htimely c rfl hunfinished
    have := (hgoes hdone).1
    exact ⟨hsoon, by omega⟩
  | _ => trivial

end Charge

end Fleet
