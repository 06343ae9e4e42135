import Fleet.Proofs.Memory.Calls
import Fleet.Proofs.Memory.Canonical

/-!
# Faults

What can be made to go wrong on the platform in memory, at any time. A fault changes what the next calls are
answered, and may make the record of an operation disappear; it leaves the store and the journal as they are
(`Disturbed`). Where no faults are to come, no call brings any (`FaultFree.continues`).
-/

namespace Fleet

namespace Memory

inductive Fault where
  | failFetches (count : Nat)
  | expire (operation : String)
  | failOperation (name : String) (code : ErrorCode) (message : String)
  | dropInsert (name : String)
  | tagConflicts (count : Nat)

namespace Fault

def apply : Fault → Memory → Memory
  | failFetches count, m => m.failNextFetches count
  | expire operation, m => m.expire operation
  | failOperation name code message, m => m.failOperation name code message
  | dropInsert name, m => m.dropInsert name
  | tagConflicts count, m => m.injectTagConflicts count

/-- The code with which an operation is made to fail. -/
def code? : Fault → Option ErrorCode
  | failOperation _ code _ => some code
  | _ => none

end Fault

/-- `m'` is the platform `m`, with the same resources, after things have been made to go wrong. -/
structure Disturbed (m m' : Memory) : Prop where
  resources : m'.resources = m.resources
  applied : m'.applied = m.applied
  project : m'.project = m.project
  polls : m'.pollsUntilDone = m.pollsUntilDone
  count : m'.operationCount = m.operationCount
  record : ∀ n, m'.operations.find? n = m.operations.find? n ∨ m'.operations.find? n = none

theorem Fault.disturbed (f : Fault) (m : Memory) : m.Disturbed (f.apply m) := by
  cases f with
  | expire operation =>
    refine ⟨rfl, rfl, rfl, rfl, rfl, fun n => ?_⟩
    show (m.operations.erase operation).find? n = _ ∨ (m.operations.erase operation).find? n = none
    rw [OrderedMap.find?_erase]
    split
    · exact .inr rfl
    · exact .inl rfl
  | _ => exact ⟨rfl, rfl, rfl, rfl, rfl, fun _ => .inl rfl⟩

/-- The failures that are ordered after a fault were ordered before, or have the code of the fault. -/
theorem Fault.scripted {f : Fault} {m : Memory} {n : String} {x : OperationError}
    (h : (f.apply m).scriptedFailures.find? n = some x) :
    m.scriptedFailures.find? n = some x ∨ f.code? = some x.code := by
  cases f with
  | failOperation name code message =>
    have hfind : (m.scriptedFailures.insert name ⟨code, message, none⟩).find? n = some x := h
    rw [OrderedMap.find?_insert] at hfind
    split at hfind
    · cases hfind
      exact .inr rfl
    · exact .inl hfind
  | _ => exact .inl h

theorem FaultFree.continues {m m' : Memory} (h : m.FaultFree) (hc : m.Continues m') : m'.FaultFree where
  fetches := Nat.le_zero.1 (h.fetches ▸ hc.fetches)
  conflicts := Nat.le_zero.1 (h.conflicts ▸ hc.conflicts)
  scripted n := hc.scripted_none (h.scripted n)
  lost n := by
    refine Bool.eq_false_iff.2 fun hn => ?_
    have hlost := hc.lost n hn
    rw [h.lost n] at hlost
    exact absurd hlost (by simp)

end Memory

end Fleet
