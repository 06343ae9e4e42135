import Fleet.Proofs.Memory.Faults
import Fleet.Proofs.Memory.Wiring

/-!
# Histories of the platform

Whatever happens to the platform in memory is a sequence of calls, faults and resources that are put there from
outside (`Memory.Event`, `Memory.after`). `poll_cases` says what every single fetch of an operation does. Names of
operations are never used again, so the record of an operation is touched only by fetches of the operation and by its
expiry (`Event.find?_operations`).
-/

namespace Fleet

namespace Memory

inductive Event
  | call (c : Call)
  | fault (f : Fault)
  | seed (r : Resource)
  | seedNode (zone name network group : String)

def Event.apply : Event → Memory → Memory
  | call c, m => (answer c m).2
  | fault f, m => f.apply m
  | seed r, m => m.seed r
  | seedNode zone name network group, m => (m.seedNode zone name network group).2

/-- The platform after a history. -/
def after (m : Memory) (es : List Event) : Memory := es.foldl (fun m e => e.apply m) m

variable {m : Memory}

@[simp] theorem after_nil (m : Memory) : m.after [] = m := rfl

@[simp] theorem after_cons (m : Memory) (e : Event) (es : List Event) : m.after (e :: es) = (e.apply m).after es := rfl

@[simp] theorem after_append (m : Memory) (es es' : List Event) : m.after (es ++ es') = (m.after es).after es' :=
  List.foldl_append

/-- What the events of a history keep, the history keeps. -/
theorem after_of_forall {P : Memory → Prop} {es : List Event} (hstep : ∀ e ∈ es, ∀ m, P m → P (Event.apply e m))
    (h : P m) : P (m.after es) := by
  induction es generalizing m with
  | nil => exact h
  | cons e es ih =>
    obtain ⟨hfirst, hrest⟩ := List.forall_mem_cons.1 hstep
    exact ih hrest (hfirst m h)

/-- What every event keeps, every history keeps. -/
theorem after_of_step {P : Memory → Prop} (hstep : ∀ m e, P m → P (Event.apply e m)) (h : P m) (es : List Event) :
    P (m.after es) :=
  after_of_forall (fun e _ m => hstep m e) h

/-! ### Asking for an operation -/

/-- Tries to carry out what an operation has still to do. -/
def attempt (m : Memory) : Option Effect → Except OperationError Unit × Memory
  | none => (.ok (), m)
  | some e => m.apply e

/-- The snapshot of an operation at the poll at which it is done. -/
def settled (m : Memory) (r : OperationRecord) : Operation :=
  { polled r true with errors := r.operation.errors ++ (error? (m.attempt r.effect).1).toList }

def enter (m : Memory) (name : String) (r : OperationRecord) : Memory :=
  { m with operations := m.operations.insert name r }

/-- What one fetch does: it gets lost, the record is gone, or the operation is done, goes on or is done now. -/
theorem poll_cases (m : Memory) (h : OperationHandle) :
    (0 < m.failingFetches ∧ answer (.operation h) m =
      (.error (.transport "connection reset by peer"), { m with failingFetches := m.failingFetches - 1 })) ∨
    (m.failingFetches = 0 ∧ m.operations.find? h.name = none ∧ answer (.operation h) m =
      (.error (.rejected .notFound ("The resource '" ++ h.selfLink ++ "' was not found")), m)) ∨
    ∃ r, m.failingFetches = 0 ∧ m.operations.find? h.name = some r ∧
      ((r.operation.isDone = true ∧ answer (.operation h) m =
          (.ok r.operation, m.enter h.name ⟨r.operation, r.polls + 1, r.effect⟩)) ∨
        (r.operation.isDone = false ∧ r.polls + 1 < m.pollsUntilDone ∧ answer (.operation h) m =
          (.ok (polled r false), m.enter h.name ⟨polled r false, r.polls + 1, r.effect⟩)) ∨
        (r.operation.isDone = false ∧ m.pollsUntilDone ≤ r.polls + 1 ∧ answer (.operation h) m =
          (.ok (m.settled r), (m.attempt r.effect).2.enter h.name ⟨m.settled r, r.polls + 1, none⟩))) := by
  have hans : answer (.operation h) m = m.pollOperation h := rfl
  rw [hans]
  unfold pollOperation
  by_cases hf : 0 < m.failingFetches
  · exact .inl ⟨hf, if_pos hf⟩
  · rw [if_neg hf]
    have hf : m.failingFetches = 0 := by omega
    right
    cases ho : m.operations.find? h.name with
    | none => exact .inl ⟨hf, rfl, rfl⟩
    | some r =>
      refine .inr ⟨r, hf, rfl, ?_⟩
      by_cases hdone : r.operation.isDone = true
      · exact .inl ⟨hdone, if_pos hdone⟩
      · right
        simp only [if_neg hdone]
        by_cases hk : r.polls + 1 < m.pollsUntilDone
        · exact .inl ⟨by simpa using hdone, hk, if_pos hk⟩
        · refine .inr ⟨by simpa using hdone, by omega, ?_⟩
          rw [if_neg hk]
          unfold settled attempt
          cases r.effect with
          | none => simp [error?, enter, polled]
          | some e =>
            simp only
            generalize m.apply e = p
            obtain ⟨x | u, m'⟩ := p <;> simp [error?, enter, polled]

theorem attempt_cases (m : Memory) (e? : Option Effect) :
    (e? = none ∧ m.attempt e? = (.ok (), m)) ∨ ∃ e, e? = some e ∧ m.attempt e? = m.apply e := by
  cases e? with
  | none => exact .inl ⟨rfl, rfl⟩
  | some e => exact .inr ⟨e, rfl, rfl⟩

/-- What quiet changes, effects and new tags keep, every call keeps. -/
theorem answer_keeps {P : Memory → Prop} (hquiet : ∀ {m m' : Memory}, m.Quiet m' → P m → P m')
    (happly : ∀ {m : Memory} (e : Effect), P m → P (m.apply e).2)
    (hretag : ∀ {m m' : Memory} {k : ResourceKey} {i : Instance} {t : Tags},
      m.resources.find? k = some (.instance i) → m.Retagged k i t m' → P m → P m')
    (c : Call) (h : P m) : P (answer c m).2 := by
  cases c with
  | get kind scope name => exact hquiet (m.quiet_get kind scope name) h
  | list kind filter => exact hquiet (m.quiet_list kind filter) h
  | insert scope spec =>
    obtain ⟨r, m₁, -, hq, -, -, ⟨-, x, -, ha⟩ | ⟨-, -, text, ha⟩ | ⟨o, -, hs⟩⟩ := m.answer_insert scope spec
    · rw [ha]
      exact happly _ (hquiet hq h)
    · rw [ha]
      exact happly _ (hquiet hq h)
    · exact hquiet hs.quiet h
  | delete kind scope name =>
    rcases m.answer_delete kind scope name with ⟨-, -, hq⟩ | ⟨r, o, -, -, hs⟩
    · exact hquiet hq h
    · exact hquiet hs.quiet h
  | setTags kind scope name tags =>
    rcases m.answer_setTags kind scope name tags with
      ⟨-, -, hq⟩ | ⟨i, hi, -, ⟨-, t, hre⟩ | ⟨-, -, hq⟩⟩ | ⟨i, o, -, -, hs⟩
    · exact hquiet hq h
    · exact hretag hi hre h
    · exact hquiet hq h
    · exact hquiet hs.quiet h
  | operation o =>
    rcases m.poll_cases o with ⟨-, ha⟩ | ⟨-, -, ha⟩ | ⟨r, -, -, ⟨-, ha⟩ | ⟨-, -, ha⟩ | ⟨-, -, ha⟩⟩ <;> rw [ha]
    · have hq : m.Quiet { m with failingFetches := m.failingFetches - 1 } :=
        ⟨⟨rfl, rfl, fun _ _ h => h, fun _ h => h, Nat.le_refl _, Nat.sub_le _ _⟩, rfl, rfl⟩
      exact hquiet hq h
    · exact h
    · exact hquiet (m.quiet_record _ _) h
    · exact hquiet (m.quiet_record _ _) h
    · refine hquiet (quiet_record _ _ _) ?_
      rcases m.attempt_cases r.effect with ⟨-, he⟩ | ⟨e, -, he⟩ <;> rw [he]
      · exact h
      · exact happly e h

/-! ### What no history changes -/

theorem Event.pollsUntilDone (e : Event) (m : Memory) : (e.apply m).pollsUntilDone = m.pollsUntilDone := by
  cases e with
  | call c => exact (m.continues_answer c).polls
  | fault f => exact (f.disturbed m).polls
  | seed r => rfl
  | seedNode zone name network group =>
    show (m.seedNode zone name network group).2.pollsUntilDone = _
    unfold Memory.seedNode
    split <;> rfl

theorem pollsUntilDone_after (m : Memory) (es : List Event) : (m.after es).pollsUntilDone = m.pollsUntilDone :=
  after_of_step (P := fun m' => m'.pollsUntilDone = m.pollsUntilDone)
    (fun m' e h => (e.pollsUntilDone m').trans h) rfl es

theorem Event.operationCount_le (e : Event) (m : Memory) : m.operationCount ≤ (e.apply m).operationCount := by
  cases e with
  | call c => exact operationCount_le_answer c m
  | fault f => exact Nat.le_of_eq (f.disturbed m).count.symm
  | seed r => exact Nat.le_refl _
  | seedNode zone name network group =>
    show m.operationCount ≤ (m.seedNode zone name network group).2.operationCount
    unfold Memory.seedNode
    split <;> exact Nat.le_refl _

/-! ### Keys -/

theorem WellKeyed.of_resources_eq {m' : Memory} (h : m.WellKeyed) (hres : m'.resources = m.resources) :
    m'.WellKeyed := by
  unfold WellKeyed
  rw [hres]
  exact h

theorem WellKeyed.retag (h : m.WellKeyed) {k : ResourceKey} {i : Instance} {t : Tags} {m' : Memory}
    (hi : m.resources.find? k = some (.instance i)) (hre : m.Retagged k i t m') : m'.WellKeyed :=
  hre.forall_find? hi h id

theorem WellKeyed.apply (h : m.WellKeyed) (e : Effect) : (m.apply e).2.WellKeyed := by
  cases e with
  | create r =>
    rcases m.apply_create r with ⟨-, ha⟩ | ⟨-, k, -, ha⟩ | ⟨-, -, ha⟩ <;> rw [ha]
    · exact h
    · exact h
    · exact WellKeyed.seed (m := m.log (.insert r.kind r.name)) h r
  | delete k =>
    rcases m.apply_delete k with ⟨-, ha⟩ | ⟨r, u, -, -, ha⟩ | ⟨r, -, -, ha⟩ <;> rw [ha]
    · exact h
    · exact h
    · exact h.removeWith k r
  | setTags k items =>
    rcases m.apply_setTags_cases k items with ⟨i, f, hi, -, hre⟩ | ⟨-, -, hq⟩
    · exact h.retag hi hre
    · exact h.of_resources_eq hq.resources

theorem WellKeyed.answer (h : m.WellKeyed) (c : Call) : (Memory.answer c m).2.WellKeyed :=
  answer_keeps (fun hq hm => hm.of_resources_eq hq.resources) (fun e hm => hm.apply e)
    (fun hi hre hm => hm.retag hi hre) c h

theorem WellKeyed.event (h : m.WellKeyed) (e : Event) : (e.apply m).WellKeyed := by
  cases e with
  | call c => exact h.answer c
  | fault f => exact h.of_resources_eq (f.disturbed m).resources
  | seed r => exact h.seed r
  | seedNode zone name network group => exact h.seedNode zone name network group

theorem WellKeyed.after (h : m.WellKeyed) (es : List Event) : (m.after es).WellKeyed :=
  after_of_step (P := WellKeyed) (fun _ e hm => hm.event e) h es

/-! ### The records of operations -/

/-- Only fetches of an operation and its expiry touch its record. -/
theorem Event.find?_operations {e : Event} {n : Nat} (hn : n ≤ m.operationCount)
    (hcall : ∀ h, e = .call (.operation h) → h.name ≠ operationName n)
    (hfault : e ≠ .fault (.expire (operationName n))) :
    (e.apply m).operations.find? (operationName n) = m.operations.find? (operationName n) := by
  cases e with
  | call c => exact find?_operations_answer hn fun h hc => hcall h (congrArg _ hc)
  | fault f =>
    cases f with
    | expire operation =>
      show (m.operations.erase operation).find? (operationName n) = _
      rw [OrderedMap.find?_erase, if_neg]
      rintro rfl
      exact hfault rfl
    | _ => rfl
  | seed r => rfl
  | seedNode zone name network group =>
    show (m.seedNode zone name network group).2.operations.find? _ = _
    unfold Memory.seedNode
    split <;> rfl

theorem find?_operations_expire (m : Memory) (n : String) :
    ((Fault.expire n).apply m).operations.find? n = none := by
  show (m.operations.erase n).find? n = none
  rw [OrderedMap.find?_erase, if_pos rfl]

theorem find?_operations_enter (m : Memory) (n : String) (r : OperationRecord) :
    (m.enter n r).operations.find? n = some r := by
  show (m.operations.insert n r).find? n = some r
  rw [OrderedMap.find?_insert, if_pos rfl]

end Memory

end Fleet
