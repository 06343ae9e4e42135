import Fleet.Proofs.Memory.History

/-!
# The life of an operation

A change that the platform accepts becomes an operation, and what the fetches of it report depends on nothing but how
many of them have got through: it is pending, then running, and done from the poll on that the platform is set to
(`statusAt`). At that poll its effect happens as a whole (`Effect.Happens`) or is refused, and then nothing changes and
the operation says why (`Completed`). `operation_lifecycle` puts this together for all histories of the platform. The
invariant that carries it is the phase of an operation after so many reports (`Phase`), which no event spoils
(`Phase.event`).
-/

namespace Fleet

/-- How far an operation is. -/
def OperationStatus.rank : OperationStatus → Nat
  | pending => 0
  | running => 1
  | done => 2

/-- All of an effect takes place from `m` to `m'`, and is entered in the journal once. -/
def Effect.Happens : Effect → Memory → Memory → Prop
  | .create r, m, m' => m.resources.find? r.key = none ∧ m'.resources = m.resources.insert r.key r ∧
      m'.applied = m.applied ++ [.insert r.kind r.name]
  | .delete k, m, m' => ∃ (r : Resource) (keys : List ResourceKey), m.resources.find? k = some r ∧ keys.Nodup ∧
      (∀ j, j ∈ keys ↔ j = k ∨ (Memory.takesAlong r j = true ∧ m.resources.contains j = true)) ∧
      m.Loses m' (· ∈ keys) ∧
      m'.applied = m.applied ++ keys.map fun j => JournalEntry.delete j.1 j.2.2
  | .setTags k items, m, m' => ∃ i fingerprint, m.resources.find? k = some (.instance i) ∧
      m'.resources = m.resources.insert k (.instance { i with tags := ⟨items, some fingerprint⟩ }) ∧
      m'.applied = m.applied ++ [.setTags k.2.2 items (some fingerprint)]

namespace Memory

/-! ### What is said of an operation -/

/-- The change that a call asks for, with the name that it is about. -/
def change? : Call → Memory → Option (String × Effect)
  | .insert scope spec, m => some (spec.name, .create (m.materialize scope spec).1)
  | .delete kind scope name, _ => some (name, .delete (resourceKey kind scope name))
  | .setTags kind scope name tags, _ => some (name, .setTags (resourceKey kind scope name) tags.items)
  | _, _ => none

/-- The handle of the operation that a call starts. -/
def started? : Call → Memory → Option OperationHandle
  | .insert scope spec, m => (m.insert scope spec).1.toOption
  | .delete kind scope name, m => (m.delete kind scope name).1.toOption
  | .setTags kind scope name tags, m => (m.setTags kind scope name tags).1.toOption
  | _, _ => none

/-- The snapshot of an operation that an event brings: every fetch of it brings one, unless the fetch gets lost or the
record is gone. -/
def Event.report? (n : String) : Event → Memory → Option Operation
  | .call (.operation h), m => if h.name = n then (m.pollOperation h).1.toOption else none
  | _, _ => none

/-- The snapshots of an operation during a history. -/
def reports (n : String) : List Event → Memory → List Operation
  | [], _ => []
  | e :: es, m => (e.report? n m).toList ++ reports n es (e.apply m)

/-- The status that the `k`-th report tells. -/
def statusAt (polls k : Nat) : OperationStatus :=
  if polls ≤ k then .done else if k = 1 then .pending else .running

/-- Nothing happens to what is stored. -/
def Idle (m m' : Memory) : Prop := m'.resources = m.resources ∧ m'.applied = m.applied

/-- What the fetch does at which an operation is done: its effect happens and no error is reported, or it is refused, or
it was ordered to fail, and the reason is reported while nothing happens. -/
def Completed (plan : Except OperationError Effect) (m : Memory) (o : Operation) (m' : Memory) : Prop :=
  (∃ e, plan = .ok e ∧ e.Happens m m' ∧ o.errors = []) ∨
  (∃ x, (plan = .error x ∨ ∃ e, plan = .ok e ∧ (m.apply e).1 = .error x) ∧ o.errors = [x] ∧ m.Idle m')

/-- What the history `es` tells of the operation `n` that has been started in `m` with a plan. -/
structure Lifecycle (polls : Nat) (plan : Except OperationError Effect) (n : String) (es : List Event) (m : Memory) :
    Prop where
  /-- The operation never goes back. -/
  forward : (reports n es m).Pairwise fun o o' => o.status.rank ≤ o'.status.rank
  done_iff : ∀ k o, (reports n es m)[k]? = some o → (o.isDone = true ↔ polls ≤ k + 1)
  /-- Fetches bring reports unless they get lost or the record has expired. -/
  answers : ∀ es₁ h es₂, es = es₁ ++ .call (.operation h) :: es₂ → h.name = n → (m.after es₁).failingFetches = 0 →
    .fault (.expire n) ∉ es₁ → ∃ o, ((m.after es₁).pollOperation h).1 = .ok o
  completes : ∀ es₁ h es₂ o, es = es₁ ++ .call (.operation h) :: es₂ → h.name = n →
    ((m.after es₁).pollOperation h).1 = .ok o → (reports n es₁ m).length + 1 = polls →
    Completed plan (m.after es₁) o ((m.after es₁).pollOperation h).2
  idle : ∀ es₁ h es₂, es = es₁ ++ .call (.operation h) :: es₂ → h.name = n → (reports n es₁ m).length + 1 ≠ polls →
    (m.after es₁).Idle ((m.after es₁).pollOperation h).2
  /-- The record of an operation that is done only counts the fetches, until it expires. -/
  final : ∀ es₁ es₂ r, es = es₁ ++ es₂ → (m.after es₁).operations.find? n = some r → r.operation.isDone = true →
    (∃ count, (m.after es).operations.find? n = some { r with polls := count }) ∨
      (.fault (.expire n) ∈ es₂ ∧ (m.after es).operations.find? n = none)

/-- The events that may change what is stored: the fetch at which an operation is done, an insert whose answer is lost,
a change of tags that meets a conflict, and what is put there from outside. -/
inductive Event.Changes : Event → Memory → Prop
  | completion {m : Memory} {h : OperationHandle} {r : OperationRecord} (hf : m.failingFetches = 0)
    (hr : m.operations.find? h.name = some r) (hrun : r.operation.isDone = false)
    (hk : m.pollsUntilDone ≤ r.polls + 1) : Changes (.call (.operation h)) m
  | lost {m : Memory} {scope : Scope} {spec : ResourceSpec} (h : m.lostInserts.contains spec.name = true) :
    Changes (.call (.insert scope spec)) m
  | conflict {m : Memory} {kind : Kind} {scope : Scope} {name : String} {tags : Tags} (h : 0 < m.tagConflicts) :
    Changes (.call (.setTags kind scope name tags)) m
  | seed (m : Memory) (r : Resource) : Changes (.seed r) m
  | seedNode (m : Memory) (zone name network group : String) : Changes (.seedNode zone name network group) m

variable {m m' : Memory} {plan : Except OperationError Effect} {n : String}
  {k : Nat} {k' : ResourceKey}

/-! ### Effects happen as a whole or not at all -/

private theorem contains_remove (m : Memory) (k j : ResourceKey) :
    (m.remove k).resources.contains j = true ↔ j ≠ k ∧ m.resources.contains j = true := by
  rw [OrderedMap.contains_eq_true_iff, OrderedMap.contains_eq_true_iff, find?_remove]
  by_cases hj : j = k
  · simp [hj]
  · simp [hj]

/-- The keys of the disks that are removed with an instance, in the order of the journal. -/
private theorem exists_keys_removeAttached (m : Memory) (zone : String) (ds : List AttachedDisk) :
    ∃ keys : List ResourceKey, keys.Nodup ∧
      (∀ j, j ∈ keys ↔ ds.any (fun d => d.autoDelete && diskKey zone d.source == j) = true ∧
        m.resources.contains j = true) ∧
      (m.removeAttached zone ds).applied = m.applied ++ keys.map fun j => JournalEntry.delete j.1 j.2.2 := by
  induction ds generalizing m with
  | nil => exact ⟨[], .nil, by simp, (List.append_nil _).symm⟩
  | cons d ds ih =>
    by_cases hd : (d.autoDelete && m.resources.contains (diskKey zone d.source)) = true
    · have hstep : m.removeAttached zone (d :: ds) = (m.remove (diskKey zone d.source)).removeAttached zone ds := by
        rw [removeAttached, if_pos hd]
      obtain ⟨hauto, hstored⟩ := Bool.and_eq_true_iff.1 hd
      obtain ⟨keys, hnodup, hmem, happlied⟩ := ih (m.remove (diskKey zone d.source))
      refine ⟨diskKey zone d.source :: keys, List.nodup_cons.2 ⟨fun hin => ?_, hnodup⟩, fun j => ?_, ?_⟩
      · exact ((contains_remove m _ _).1 ((hmem _).1 hin).2).1 rfl
      · rw [List.mem_cons, hmem, contains_remove, List.any_cons, Bool.or_eq_true_iff]
        by_cases hj : j = diskKey zone d.source
        · subst hj
          simp [hauto, hstored]
        · have hne : ¬ diskKey zone d.source = j := fun h => hj h.symm
          simp [hj, hne]
      · rw [hstep, happlied]
        exact List.append_assoc _ _ _
    · have hstep : m.removeAttached zone (d :: ds) = m.removeAttached zone ds := by
        rw [removeAttached, if_neg hd]
      obtain ⟨keys, hnodup, hmem, happlied⟩ := ih m
      refine ⟨keys, hnodup, fun j => ?_, by rw [hstep, happlied]⟩
      rw [hmem, List.any_cons, Bool.or_eq_true_iff]
      -- What this disk would remove is not stored, or the disk stays.
      have hnot : ¬ ((d.autoDelete && diskKey zone d.source == j) = true ∧ m.resources.contains j = true) := by
        rintro ⟨hj, hc⟩
        obtain ⟨hauto, hj⟩ := Bool.and_eq_true_iff.1 hj
        obtain rfl := beq_iff_eq.1 hj
        exact hd (by rw [hauto, hc]; rfl)
      constructor
      · intro hj
        exact ⟨.inr hj.1, hj.2⟩
      · rintro ⟨hthis | hj, hc⟩
        · exact absurd ⟨hthis, hc⟩ hnot
        · exact ⟨hj, hc⟩

private theorem happens_delete {r : Resource} (hr : m.resources.find? k' = some r) :
    (Effect.delete k').Happens m ((m.remove k').removeWith r) := by
  have hkeys : ∃ keys : List ResourceKey, keys.Nodup ∧
      (∀ j, j ∈ keys ↔ takesAlong r j = true ∧ (m.remove k').resources.contains j = true) ∧
      ((m.remove k').removeWith r).applied =
        (m.remove k').applied ++ keys.map fun j => JournalEntry.delete j.1 j.2.2 := by
    cases r with
    | «instance» i => exact exists_keys_removeAttached (m.remove k') i.zone i.disks
    | _ => exact ⟨[], .nil, by simp [takesAlong], (List.append_nil _).symm⟩
  obtain ⟨keys, hnodup, hmem, happlied⟩ := hkeys
  have hmem' : ∀ j, j ∈ k' :: keys ↔ j = k' ∨ (takesAlong r j = true ∧ m.resources.contains j = true) := by
    intro j
    rw [List.mem_cons, hmem, contains_remove]
    by_cases hj : j = k'
    · simp [hj]
    · simp [hj]
  refine ⟨r, k' :: keys, hr, List.nodup_cons.2 ⟨fun hin => ?_, hnodup⟩, hmem', ?_, ?_⟩
  · exact ((contains_remove m _ _).1 ((hmem _).1 hin).2).1 rfl
  · refine (Loses.of_removeWith m k' r).congr fun j s hs => ?_
    have hstored : m.resources.contains j = true := OrderedMap.contains_eq_true_iff.2 ⟨s, hs⟩
    simp [hmem', hstored]
  · rw [happlied]
    exact List.append_assoc _ _ _

/-- An effect that is carried out happens, and one that is refused does not change anything. -/
theorem apply_happens (m : Memory) (e : Effect) :
    ((m.apply e).1 = .ok () ∧ e.Happens m (m.apply e).2) ∨ (∃ x, (m.apply e).1 = .error x ∧ m.Idle (m.apply e).2) := by
  cases e with
  | create r =>
    rcases m.apply_create r with ⟨-, ha⟩ | ⟨-, k, -, ha⟩ | ⟨hn, -, ha⟩ <;> rw [ha]
    · exact .inr ⟨_, rfl, rfl, rfl⟩
    · exact .inr ⟨_, rfl, rfl, rfl⟩
    · exact .inl ⟨rfl, hn, rfl, rfl⟩
  | delete k =>
    rcases m.apply_delete k with ⟨-, ha⟩ | ⟨r, u, -, -, ha⟩ | ⟨r, hr, -, ha⟩ <;> rw [ha]
    · exact .inr ⟨_, rfl, rfl, rfl⟩
    · exact .inr ⟨_, rfl, rfl, rfl⟩
    · exact .inl ⟨rfl, happens_delete hr⟩
  | setTags k items =>
    rcases m.apply_setTags k items with ⟨i, hi, ha⟩ | ⟨-, ha⟩ <;> rw [ha]
    · exact .inl ⟨rfl, i, _, hi, rfl, rfl⟩
    · exact .inr ⟨_, rfl, rfl, rfl⟩

/-! ### Events that change nothing -/

theorem Idle.of_quiet (h : m.Quiet m') : m.Idle m' := ⟨h.resources, h.applied⟩

theorem Idle.trans {m'' : Memory} (h : m.Idle m') (h' : m'.Idle m'') : m.Idle m'' :=
  ⟨h'.1.trans h.1, h'.2.trans h.2⟩

/-- Nothing else changes what is stored. -/
theorem Event.idle_of_not_changes {e : Event} (h : ¬ e.Changes m) : m.Idle (e.apply m) := by
  cases e with
  | call c =>
    cases c with
    | get kind scope name => exact .of_quiet (m.quiet_get kind scope name)
    | list kind filter => exact .of_quiet (m.quiet_list kind filter)
    | insert scope spec =>
      obtain ⟨r, m₁, -, -, -, -, ⟨hlost, -⟩ | ⟨hlost, -⟩ | ⟨o, -, hs⟩⟩ := m.answer_insert scope spec
      · exact absurd (.lost hlost) h
      · exact absurd (.lost hlost) h
      · exact .of_quiet hs.quiet
    | delete kind scope name =>
      rcases m.answer_delete kind scope name with ⟨-, -, hq⟩ | ⟨r, o, -, -, hs⟩
      · exact .of_quiet hq
      · exact .of_quiet hs.quiet
    | setTags kind scope name tags =>
      rcases m.answer_setTags kind scope name tags with
        ⟨-, -, hq⟩ | ⟨i, -, -, ⟨hc, -⟩ | ⟨-, -, hq⟩⟩ | ⟨i, o, -, -, hs⟩
      · exact .of_quiet hq
      · exact absurd (.conflict hc) h
      · exact .of_quiet hq
      · exact .of_quiet hs.quiet
    | operation o =>
      show m.Idle (answer (.operation o) m).2
      rcases m.poll_cases o with ⟨-, ha⟩ | ⟨-, -, ha⟩ | ⟨r, hf, hr, ⟨-, ha⟩ | ⟨-, -, ha⟩ | ⟨hrun, hk, -⟩⟩
      · rw [ha]
        exact ⟨rfl, rfl⟩
      · rw [ha]
        exact ⟨rfl, rfl⟩
      · rw [ha]
        exact ⟨rfl, rfl⟩
      · rw [ha]
        exact ⟨rfl, rfl⟩
      · exact absurd (.completion hf hr hrun hk) h
  | fault f => exact ⟨(f.disturbed m).resources, (f.disturbed m).applied⟩
  | seed r => exact absurd (.seed m r) h
  | seedNode zone name network group => exact absurd (.seedNode m zone name network group) h

/-! ### Phases -/

/-- How an operation stands after `k` reports: it is still to be carried out, it is done, or its record is gone. -/
inductive Phase (plan : Except OperationError Effect) (n : String) : Nat → Memory → Prop
  | running {k : Nat} {m : Memory} {r : OperationRecord} (hr : m.operations.find? n = some r) (ha : Awaits r k plan)
    (hk : k < m.pollsUntilDone) : Phase plan n k m
  | done {k : Nat} {m : Memory} {r : OperationRecord} (hr : m.operations.find? n = some r)
    (hdone : r.operation.isDone = true) (hk : m.pollsUntilDone ≤ k) : Phase plan n k m
  | expired {k : Nat} {m : Memory} (hnone : m.operations.find? n = none) : Phase plan n k m

private theorem Phase.of_find? (hp : Phase plan n k m) (hfind : m'.operations.find? n = m.operations.find? n)
    (hpolls : m'.pollsUntilDone = m.pollsUntilDone) : Phase plan n k m' := by
  cases hp with
  | running hr ha hk => exact .running (hfind.trans hr) ha (hpolls ▸ hk)
  | done hr hdone hk => exact .done (hfind.trans hr) hdone (hpolls ▸ hk)
  | expired hnone => exact .expired (hfind.trans hnone)

private theorem happens_congr {e : Effect} {m'' : Memory} (h : e.Happens m m') (hres : m''.resources = m'.resources)
    (happlied : m''.applied = m'.applied) : e.Happens m m'' := by
  cases e with
  | create r => exact ⟨h.1, hres.trans h.2.1, happlied.trans h.2.2⟩
  | delete k =>
    obtain ⟨r, keys, hr, hnodup, hmem, hloses, hjournal⟩ := h
    exact ⟨r, keys, hr, hnodup, hmem, hloses.of_resources_eq rfl hres, happlied.trans hjournal⟩
  | setTags k items =>
    obtain ⟨i, f, hi, hstored, hjournal⟩ := h
    exact ⟨i, f, hi, hres.trans hstored, happlied.trans hjournal⟩

theorem completed_of_awaits {r : OperationRecord} (ha : Awaits r k plan) (r' : OperationRecord) :
    Completed plan m (m.settled r) ((m.attempt r.effect).2.enter n r') := by
  have herrors : (m.settled r).errors = (error? plan).toList ++ (error? (m.attempt r.effect).1).toList := by
    rw [← ha.errors]
    rfl
  cases plan with
  | error x =>
    have hnothing : m.attempt r.effect = (.ok (), m) := by
      rw [ha.effect]
      rfl
    rw [hnothing] at herrors ⊢
    exact .inr ⟨x, .inl rfl, herrors, rfl, rfl⟩
  | ok e =>
    have hattempt : m.attempt r.effect = m.apply e := by
      rw [ha.effect]
      rfl
    rw [hattempt] at herrors ⊢
    rcases m.apply_happens e with ⟨hok, hhappens⟩ | ⟨x, hx, hidle⟩
    · refine .inl ⟨e, rfl, happens_congr hhappens rfl rfl, ?_⟩
      rw [herrors, hok]
      rfl
    · refine .inr ⟨x, .inr ⟨e, rfl, hx⟩, ?_, hidle⟩
      rw [herrors, hx]
      rfl

/-- The fetch of the operation `n` that brings the report `o` after `k` others, and leaves `m'`. -/
private structure Reported (plan : Except OperationError Effect) (n : String) (k : Nat) (m : Memory) (o : Operation)
    (m' : Memory) : Prop where
  done_iff : o.isDone = true ↔ m.pollsUntilDone ≤ k + 1
  status : o.status = statusAt m.pollsUntilDone (k + 1)
  phase : Phase plan n (k + 1) m'
  idle : k + 1 ≠ m.pollsUntilDone → m.Idle m'
  completed : k + 1 = m.pollsUntilDone → Completed plan m o m'

private theorem reported_running {r : OperationRecord} (ha : Awaits r k plan) (hk : k + 1 < m.pollsUntilDone) :
    Reported plan n k m (polled r false) (m.enter n ⟨polled r false, r.polls + 1, r.effect⟩) := by
  have hstatus : (polled r false).status = statusAt m.pollsUntilDone (k + 1) := by
    rw [statusAt, if_neg (Nat.not_le_of_lt hk)]
    by_cases hk₀ : k = 0
    · simp [polled, ha.polls, hk₀]
    · simp [polled, ha.polls, hk₀]
  refine ⟨?_, hstatus, .running (find?_operations_enter _ _ _) ha.next hk, fun _ => ⟨rfl, rfl⟩, fun hlast => ?_⟩
  · rw [isDone_polled]
    simpa using hk
  · exact absurd hlast (Nat.ne_of_lt hk)

private theorem reported_last {r : OperationRecord} (ha : Awaits r k plan) (hk : k + 1 = m.pollsUntilDone) :
    Reported plan n k m (m.settled r) ((m.attempt r.effect).2.enter n ⟨m.settled r, r.polls + 1, none⟩) := by
  have hle : m.pollsUntilDone ≤ k + 1 := Nat.le_of_eq hk.symm
  have hpolls : ((m.attempt r.effect).2.enter n ⟨m.settled r, r.polls + 1, none⟩).pollsUntilDone =
      m.pollsUntilDone := by
    rcases m.attempt_cases r.effect with ⟨-, he⟩ | ⟨e, -, he⟩ <;> rw [he]
    · rfl
    · exact m.pollsUntilDone_apply e
  refine ⟨⟨fun _ => hle, fun _ => rfl⟩, ?_, ?_, fun hne => absurd hk hne, fun _ => completed_of_awaits ha _⟩
  · rw [statusAt, if_pos hle]
    rfl
  · exact .done (find?_operations_enter _ _ _) rfl (hpolls.symm ▸ hle)

private theorem reported_done {r : OperationRecord} (hdone : r.operation.isDone = true) (hk : m.pollsUntilDone ≤ k) :
    Reported plan n k m r.operation (m.enter n ⟨r.operation, r.polls + 1, r.effect⟩) := by
  have hle : m.pollsUntilDone ≤ k + 1 := Nat.le_succ_of_le hk
  refine ⟨⟨fun _ => hle, fun _ => hdone⟩, ?_, .done (find?_operations_enter _ _ _) hdone hle, fun _ => ⟨rfl, rfl⟩,
    fun hlast => by omega⟩
  rw [statusAt, if_pos hle]
  simpa [Operation.isDone] using hdone

/-- A fetch of an operation changes nothing, or it brings the next report. -/
private theorem Phase.fetch {h : OperationHandle} (hp : Phase plan h.name k m) :
    ((m.pollOperation h).1.toOption = none ∧ m.Idle (m.pollOperation h).2 ∧
      Phase plan h.name k (m.pollOperation h).2) ∨
    ∃ o, (m.pollOperation h).1 = .ok o ∧ Reported plan h.name k m o (m.pollOperation h).2 := by
  have hans : m.pollOperation h = answer (.operation h) m := rfl
  rw [hans]
  rcases m.poll_cases h with ⟨-, ha⟩ | ⟨-, -, ha⟩ | ⟨r, -, hr, hcases⟩
  · rw [ha]
    exact .inl ⟨rfl, ⟨rfl, rfl⟩, hp.of_find? rfl rfl⟩
  · rw [ha]
    exact .inl ⟨rfl, ⟨rfl, rfl⟩, hp⟩
  right
  cases hp with
  | running hr' haw hk =>
    obtain rfl := Option.some.inj (hr.symm.trans hr')
    rcases hcases with ⟨hdone, -⟩ | ⟨-, hlt, ha⟩ | ⟨-, hle, ha⟩
    · exact nomatch hdone.symm.trans haw.running
    · rw [ha]
      exact ⟨_, rfl, reported_running haw (haw.polls ▸ hlt)⟩
    · rw [ha]
      exact ⟨_, rfl, reported_last haw (Nat.le_antisymm hk (haw.polls ▸ hle))⟩
  | done hr' hdone hk =>
    obtain rfl := Option.some.inj (hr.symm.trans hr')
    rcases hcases with ⟨-, ha⟩ | ⟨hrun, -⟩ | ⟨hrun, -⟩
    · rw [ha]
      exact ⟨_, rfl, reported_done hdone hk⟩
    · exact nomatch hdone.symm.trans hrun
    · exact nomatch hdone.symm.trans hrun
  | expired hnone => exact nomatch hr.symm.trans hnone

private theorem Phase.reported {h : OperationHandle} {o : Operation} (hp : Phase plan n k m) (hn : h.name = n)
    (ho : (m.pollOperation h).1 = .ok o) : Reported plan n k m o (m.pollOperation h).2 := by
  subst hn
  rcases hp.fetch with ⟨hnone, -⟩ | ⟨o', ho', hreported⟩
  · rw [ho] at hnone
    exact nomatch hnone
  · obtain rfl := Except.ok.inj (ho.symm.trans ho')
    exact hreported

/-- A fetch of an operation by the name of its record. -/
private theorem report?_fetch {h : OperationHandle} (hn : h.name = n) :
    (Event.call (.operation h)).report? n m = (m.pollOperation h).1.toOption :=
  if_pos hn

private theorem report?_eq_none {e : Event} (h : ∀ o, e = .call (.operation o) → o.name ≠ n) :
    e.report? n m = none := by
  unfold Event.report?
  split
  · next o => exact if_neg (h o rfl)
  · rfl

/-- Every event leaves an operation in the phase that its reports tell. -/
theorem Phase.event {j : Nat} (hj : j ≤ m.operationCount) (hp : Phase plan (operationName j) k m) (e : Event) :
    Phase plan (operationName j) (k + (e.report? (operationName j) m).toList.length) (e.apply m) := by
  by_cases hfetch : ∃ h, e = .call (.operation h) ∧ h.name = operationName j
  · obtain ⟨h, rfl, hname⟩ := hfetch
    rw [report?_fetch hname]
    rw [← hname] at hp ⊢
    rcases hp.fetch with ⟨hnone, -, hp'⟩ | ⟨o, ho, hreported⟩
    · rw [hnone]
      exact hp'
    · rw [ho]
      exact hreported.phase
  · have hother : ∀ h, e = .call (.operation h) → h.name ≠ operationName j :=
      fun h he hname => hfetch ⟨h, he, hname⟩
    rw [report?_eq_none hother]
    by_cases hexpire : e = .fault (.expire (operationName j))
    · subst hexpire
      exact .expired (find?_operations_expire m _)
    · exact hp.of_find? (e.find?_operations hj hother hexpire) (e.pollsUntilDone m)

theorem Phase.after {j : Nat} (hj : j ≤ m.operationCount) (hp : Phase plan (operationName j) k m) (es : List Event) :
    Phase plan (operationName j) (k + (reports (operationName j) es m).length) (m.after es) := by
  induction es generalizing m k with
  | nil => exact hp
  | cons e es ih =>
    have := ih (Nat.le_trans hj (e.operationCount_le m)) (hp.event hj e)
    rw [reports, List.length_append, ← Nat.add_assoc]
    exact this

/-! ### Reports -/

/-- Every report is brought by a fetch, after as many reports as it has predecessors. -/
theorem exists_fetch_of_reports {es : List Event} {o : Operation} (h : (reports n es m)[k]? = some o) :
    ∃ es₁ h es₂, es = es₁ ++ .call (.operation h) :: es₂ ∧ h.name = n ∧ (reports n es₁ m).length = k ∧
      ((m.after es₁).pollOperation h).1 = .ok o := by
  induction es generalizing m k with
  | nil => exact absurd h (by simp [reports])
  | cons e es ih =>
    rw [reports] at h
    cases hreport : e.report? n m with
    | none =>
      rw [hreport] at h
      obtain ⟨es₁, h', es₂, rfl, hname, hlen, hok⟩ := ih h
      refine ⟨e :: es₁, h', es₂, rfl, hname, ?_, hok⟩
      rw [reports, hreport]
      exact hlen
    | some o' =>
      rw [hreport] at h
      cases k with
      | zero =>
        obtain rfl : o' = o := Option.some.inj h
        -- The event is the fetch itself.
        unfold Event.report? at hreport
        split at hreport
        · next h' =>
          split at hreport
          · next hname =>
            refine ⟨[], h', es, rfl, hname, rfl, ?_⟩
            cases hr : (m.pollOperation h').1 with
            | error f =>
              rw [hr] at hreport
              exact absurd hreport (by simp [Except.toOption])
            | ok v =>
              rw [hr] at hreport
              rw [after_nil, hr, Option.some.inj hreport]
          · exact absurd hreport (by simp)
        · exact absurd hreport (by simp)
      | succ k =>
        obtain ⟨es₁, h', es₂, rfl, hname, hlen, hok⟩ := ih (k := k) (by simpa using h)
        refine ⟨e :: es₁, h', es₂, rfl, hname, ?_, hok⟩
        rw [reports, hreport, List.length_append, hlen]
        exact Nat.add_comm 1 k

private theorem rank_statusAt_le (polls : Nat) {i j : Nat} (h : i ≤ j) :
    (statusAt polls (i + 1)).rank ≤ (statusAt polls (j + 1)).rank := by
  unfold statusAt
  by_cases hj : polls ≤ j + 1
  · rw [if_pos hj]
    split
    · exact Nat.le_refl _
    · split <;> decide
  · rw [if_neg hj, if_neg (show ¬ polls ≤ i + 1 by omega)]
    by_cases hi : i = 0
    · simp [hi, OperationStatus.rank]
    · simp [hi, show ¬ j = 0 by omega]

/-! ### Records -/

/-- A record stays until it expires, and that of an operation that is done only counts. -/
private theorem Event.record {j : Nat} (hj : j ≤ m.operationCount) {r : OperationRecord}
    (hr : m.operations.find? (operationName j) = some r) {e : Event} (he : e ≠ .fault (.expire (operationName j))) :
    ∃ r', (e.apply m).operations.find? (operationName j) = some r' ∧
      (r.operation.isDone = true → ∃ count, r' = { r with polls := count }) := by
  by_cases hfetch : ∃ h, e = .call (.operation h) ∧ h.name = operationName j
  · obtain ⟨h, rfl, hname⟩ := hfetch
    rw [← hname] at hr ⊢
    show ∃ r', (answer (.operation h) m).2.operations.find? h.name = some r' ∧ _
    rcases m.poll_cases h with ⟨-, ha⟩ | ⟨-, -, ha⟩ | ⟨r₁, -, hr₁, hcases⟩
    · rw [ha]
      exact ⟨r, hr, fun _ => ⟨r.polls, rfl⟩⟩
    · rw [ha]
      exact ⟨r, hr, fun _ => ⟨r.polls, rfl⟩⟩
    · obtain rfl := Option.some.inj (hr₁.symm.trans hr)
      rcases hcases with ⟨-, ha⟩ | ⟨hrun, -, ha⟩ | ⟨hrun, -, ha⟩ <;> rw [ha] <;>
        refine ⟨_, find?_operations_enter _ _ _, fun hdone => ?_⟩
      · exact ⟨r₁.polls + 1, rfl⟩
      · rw [hdone] at hrun
        exact absurd hrun (by simp)
      · rw [hdone] at hrun
        exact absurd hrun (by simp)
  · rw [Event.find?_operations hj (fun h hh hname => hfetch ⟨h, hh, hname⟩) he]
    exact ⟨r, hr, fun _ => ⟨r.polls, rfl⟩⟩

private theorem Event.record_gone {j : Nat} (hj : j ≤ m.operationCount)
    (hnone : m.operations.find? (operationName j) = none) (e : Event) :
    (e.apply m).operations.find? (operationName j) = none := by
  by_cases hexpire : e = .fault (.expire (operationName j))
  · subst hexpire
    exact find?_operations_expire m _
  · by_cases hfetch : ∃ h, e = .call (.operation h) ∧ h.name = operationName j
    · obtain ⟨h, rfl, hname⟩ := hfetch
      rw [← hname] at hnone ⊢
      show (answer (.operation h) m).2.operations.find? h.name = none
      rcases m.poll_cases h with ⟨-, ha⟩ | ⟨-, -, ha⟩ | ⟨r, -, hr, -⟩
      · rw [ha]
        exact hnone
      · rw [ha]
        exact hnone
      · rw [hr] at hnone
        exact absurd hnone (by simp)
    · rw [Event.find?_operations hj (fun h hh hname => hfetch ⟨h, hh, hname⟩) hexpire, hnone]

private theorem record_after {j : Nat} (hj : j ≤ m.operationCount) {r : OperationRecord}
    (hr : m.operations.find? (operationName j) = some r) {es : List Event}
    (hes : .fault (.expire (operationName j)) ∉ es) :
    ∃ r', (m.after es).operations.find? (operationName j) = some r' ∧
      (r.operation.isDone = true → ∃ count, r' = { r with polls := count }) := by
  induction es generalizing m r with
  | nil => exact ⟨r, hr, fun _ => ⟨r.polls, rfl⟩⟩
  | cons e es ih =>
    simp only [List.mem_cons, not_or] at hes
    obtain ⟨hne, hes⟩ := hes
    obtain ⟨r₁, hr₁, hcount₁⟩ := Event.record hj hr (Ne.symm hne)
    obtain ⟨r₂, hr₂, hcount₂⟩ := ih (Nat.le_trans hj (e.operationCount_le m)) hr₁ hes
    refine ⟨r₂, hr₂, fun hdone => ?_⟩
    obtain ⟨c₁, rfl⟩ := hcount₁ hdone
    obtain ⟨c₂, rfl⟩ := hcount₂ hdone
    exact ⟨c₂, rfl⟩

private theorem record_gone_after {j : Nat} (hj : j ≤ m.operationCount)
    (hnone : m.operations.find? (operationName j) = none) (es : List Event) :
    (m.after es).operations.find? (operationName j) = none := by
  induction es generalizing m with
  | nil => exact hnone
  | cons e es ih => exact ih (Nat.le_trans hj (e.operationCount_le m)) (e.record_gone hj hnone)

theorem operationCount_le_after (m : Memory) (es : List Event) :
    m.operationCount ≤ (m.after es).operationCount :=
  after_of_step (P := fun m' => m.operationCount ≤ m'.operationCount)
    (fun m' e h => Nat.le_trans h (e.operationCount_le m')) (Nat.le_refl _) es

/-- An operation whose record has expired is gone for good. -/
private theorem record_gone_of_expired {j : Nat} (hj : j ≤ m.operationCount) {es : List Event}
    (hes : .fault (.expire (operationName j)) ∈ es) : (m.after es).operations.find? (operationName j) = none := by
  obtain ⟨es₁, es₂, rfl⟩ := List.append_of_mem hes
  rw [after_append, after_cons]
  refine record_gone_after ?_ (find?_operations_expire _ _) es₂
  exact Nat.le_trans (Nat.le_trans hj (operationCount_le_after m es₁))
    (Event.operationCount_le (.fault (.expire (operationName j))) _)

/-! ### Lives -/

/-- An operation that has just been started lives as it should. -/
private theorem lifecycle_of_awaits {j : Nat} (hj : j ≤ m.operationCount) {r : OperationRecord}
    (hr : m.operations.find? (operationName j) = some r) (ha : Awaits r 0 plan) (hpos : 0 < m.pollsUntilDone)
    (es : List Event) : Lifecycle m.pollsUntilDone plan (operationName j) es m := by
  have hphase (es₁ : List Event) :
      Phase plan (operationName j) (reports (operationName j) es₁ m).length (m.after es₁) := by
    have := Phase.after hj (.running hr ha hpos) es₁
    rwa [Nat.zero_add] at this
  have hpolls (es₁ : List Event) : (m.after es₁).pollsUntilDone = m.pollsUntilDone := pollsUntilDone_after m es₁
  -- The k-th report is brought by a fetch in the k-th phase.
  have hreport {k : Nat} {o : Operation} (ho : (reports (operationName j) es m)[k]? = some o) :
      (o.isDone = true ↔ m.pollsUntilDone ≤ k + 1) ∧ o.status = statusAt m.pollsUntilDone (k + 1) := by
    obtain ⟨es₁, h, es₂, -, hname, rfl, hok⟩ := exists_fetch_of_reports ho
    have hreported := (hphase es₁).reported hname hok
    exact ⟨hpolls es₁ ▸ hreported.done_iff, hpolls es₁ ▸ hreported.status⟩
  refine ⟨?_, fun k o ho => (hreport ho).1, ?_, ?_, ?_, ?_⟩
  · refine List.pairwise_iff_getElem.2 fun i k hi hk hlt => ?_
    rw [(hreport (List.getElem?_eq_getElem hi)).2, (hreport (List.getElem?_eq_getElem hk)).2]
    exact rank_statusAt_le _ (Nat.le_of_lt hlt)
  · intro es₁ h es₂ _ hname hfetches hexpire
    obtain ⟨r', hr', -⟩ := record_after hj hr hexpire
    have hans : (m.after es₁).pollOperation h = answer (.operation h) (m.after es₁) := rfl
    rw [hans]
    rcases (m.after es₁).poll_cases h with ⟨hpos, -⟩ | ⟨-, hnone, -⟩ | ⟨r₁, -, -, ⟨-, ha⟩ | ⟨-, -, ha⟩ | ⟨-, -, ha⟩⟩
    · omega
    · rw [hname, hr'] at hnone
      exact absurd hnone (by simp)
    · exact ⟨_, congrArg Prod.fst ha⟩
    · exact ⟨_, congrArg Prod.fst ha⟩
    · exact ⟨_, congrArg Prod.fst ha⟩
  · intro es₁ h es₂ o _ hname hok hk
    exact ((hphase es₁).reported hname hok).completed (hk.trans (hpolls es₁).symm)
  · intro es₁ h es₂ _ hname hk
    rcases (hname ▸ hphase es₁ : Phase plan h.name _ _).fetch with ⟨-, hidle, -⟩ | ⟨o, -, hreported⟩
    · exact hidle
    · exact hreported.idle (hname ▸ hpolls es₁ ▸ hk)
  · intro es₁ es₂ r' he hr' hdone
    have hj' : j ≤ (m.after es₁).operationCount := Nat.le_trans hj (operationCount_le_after m es₁)
    rw [he, after_append]
    by_cases hexpire : .fault (.expire (operationName j)) ∈ es₂
    · exact .inr ⟨hexpire, record_gone_of_expired hj' hexpire⟩
    · obtain ⟨r₂, hr₂, hcount⟩ := record_after hj' hr' hexpire
      obtain ⟨count, rfl⟩ := hcount hdone
      exact .inl ⟨count, hr₂⟩

private theorem started?_insert (scope : Scope) (spec : ResourceSpec) (m : Memory) :
    started? (.insert scope spec) m = (answer (.insert scope spec) m).1.toOption := rfl

private theorem started?_delete (kind : Kind) (scope : Scope) (name : String) (m : Memory) :
    started? (.delete kind scope name) m = (answer (.delete kind scope name) m).1.toOption := rfl

private theorem started?_setTags (kind : Kind) (scope : Scope) (name : String) (tags : Tags) (m : Memory) :
    started? (.setTags kind scope name tags) m = (answer (.setTags kind scope name tags) m).1.toOption := rfl

/-- A call that is accepted starts an operation with the change that it asks for. -/
theorem submitted_of_started (hkeyed : m.WellKeyed) {c : Call} {h : OperationHandle}
    (hc : started? c m = some h) :
    ∃ target e, change? c m = some (target.name, e) ∧ m.Submitted target e h (answer c m).2 := by
  cases c with
  | get kind scope name => exact absurd hc (by simp [started?])
  | list kind filter => exact absurd hc (by simp [started?])
  | operation o => exact absurd hc (by simp [started?])
  | insert scope spec =>
    have hj := m.quiet_journal (.insert spec.kind spec.name)
    have hfst : ((m.journal (.insert spec.kind spec.name)).materialize scope spec).1 =
        (m.materialize scope spec).1 := by
      cases spec <;> rfl
    have hname : (m.materialize scope spec).1.summary.name = spec.name := by cases spec <;> rfl
    obtain ⟨hcount, hops, hscripted⟩ : let m₁ := ((m.journal (.insert spec.kind spec.name)).materialize scope spec).2
        m₁.operationCount = m.operationCount ∧ m₁.operations = m.operations ∧
          m₁.scriptedFailures = m.scriptedFailures := by
      cases spec <;> exact ⟨rfl, rfl, rfl⟩
    have hq := hj.trans ((m.journal (.insert spec.kind spec.name)).quiet_materialize scope spec)
    have hans : answer (.insert scope spec) m = m.insert scope spec := rfl
    rw [started?_insert, hans] at hc
    rw [hans, change?, ← hname, ← hfst]
    unfold insert at hc ⊢
    rcases hp : (m.journal (.insert spec.kind spec.name)).materialize scope spec with ⟨r, m₁⟩
    rw [hp] at hc hcount hops hscripted hq
    simp only at hc hcount hops hscripted hq ⊢
    -- An insert whose answer is lost starts no operation.
    by_cases hl : m₁.lostInserts.contains spec.name = true
    · rw [if_pos hl] at hc
      split at hc <;> exact absurd hc (by simp [Except.toOption])
    · rw [if_neg hl] at hc ⊢
      obtain rfl := Option.some.inj hc
      exact ⟨r.summary, _, rfl, (m₁.submitted_submit .insert r.summary (.create r)).of_quiet hq hcount hops hscripted⟩
  | delete kind scope name =>
    rw [started?_delete] at hc
    rcases m.answer_delete kind scope name with ⟨-, ha, -⟩ | ⟨r, o, hr, ha, hs⟩
    · rw [ha] at hc
      cases hc
    · rw [ha] at hc
      obtain rfl := Option.some.inj hc
      have hname : r.summary.name = name := hkeyed.name_eq hr
      exact ⟨r.summary, _, by rw [hname]; rfl, hs⟩
  | setTags kind scope name tags =>
    rw [started?_setTags] at hc
    rcases m.answer_setTags kind scope name tags with ⟨-, ha, -⟩ | ⟨i, -, ha, -⟩ | ⟨i, o, hi, ha, hs⟩
    · rw [ha] at hc
      cases hc
    · rw [ha] at hc
      cases hc
    · rw [ha] at hc
      obtain rfl := Option.some.inj hc
      have hname : (Resource.instance i).summary.name = name := hkeyed.name_eq hi
      exact ⟨_, _, by rw [hname]; rfl, hs⟩

/-- Besides asking for an operation, a call starts one or leaves all of them as they are. -/
theorem answer_starts {c : Call} (hc : ∀ h, c ≠ .operation h) :
    (∃ h target e, started? c m = some h ∧ m.Submitted target e h (answer c m).2) ∨
      (started? c m = none ∧ (answer c m).2.operations = m.operations ∧
        (answer c m).2.operationCount = m.operationCount) := by
  cases c with
  | get kind scope name => exact .inr ⟨rfl, rfl, rfl⟩
  | list kind filter => exact .inr ⟨rfl, rfl, rfl⟩
  | operation h => exact absurd rfl (hc h)
  | insert scope spec =>
    rw [started?_insert]
    obtain ⟨r, m₁, -, -, ho, hcount, ⟨-, x, -, ha⟩ | ⟨-, -, text, ha⟩ | ⟨h, ha, hs⟩⟩ := m.answer_insert scope spec
    · rw [ha]
      exact .inr ⟨rfl, (m₁.operations_apply _).trans ho, (m₁.operationCount_apply _).trans hcount⟩
    · rw [ha]
      exact .inr ⟨rfl, (m₁.operations_apply _).trans ho, (m₁.operationCount_apply _).trans hcount⟩
    · exact .inl ⟨h, _, _, by rw [ha]; rfl, hs⟩
  | delete kind scope name =>
    rw [started?_delete]
    rcases m.answer_delete kind scope name with ⟨hnone, ha, -⟩ | ⟨r, h, -, ha, hs⟩
    · refine .inr ⟨by rw [ha]; rfl, ?_⟩
      have hres : (m.journal (.delete kind name)).resources = m.resources := rfl
      show (m.delete kind scope name).2.operations = _ ∧ (m.delete kind scope name).2.operationCount = _
      unfold delete
      simp only [hres, hnone]
      exact ⟨rfl, rfl⟩
    · exact .inl ⟨h, _, _, by rw [ha]; rfl, hs⟩
  | setTags kind scope name tags =>
    rw [started?_setTags]
    have hrefused (hne : ∀ h, (answer (.setTags kind scope name tags) m).1 ≠ .ok h) :
        (answer (.setTags kind scope name tags) m).2.operations = m.operations ∧
          (answer (.setTags kind scope name tags) m).2.operationCount = m.operationCount := by
      have hans : answer (.setTags kind scope name tags) m = m.setTags kind scope name tags := rfl
      rw [hans] at hne ⊢
      unfold setTags at hne ⊢
      simp only at hne ⊢
      split
      · next hi =>
        rw [hi] at hne
        split
        · exact ⟨rfl, rfl⟩
        · next hcon =>
          split
          · exact ⟨rfl, rfl⟩
          · next htags =>
            simp only [if_neg hcon, if_neg htags] at hne
            exact absurd rfl (hne _)
      · exact ⟨rfl, rfl⟩
    rcases m.answer_setTags kind scope name tags with ⟨-, ha, -⟩ | ⟨i, -, ha, -⟩ | ⟨i, h, -, ha, hs⟩
    · exact .inr ⟨by rw [ha]; rfl, hrefused (by simp [ha])⟩
    · exact .inr ⟨by rw [ha]; rfl, hrefused (by simp [ha])⟩
    · exact .inl ⟨h, _, _, by rw [ha]; rfl, hs⟩

/-- In every history of a platform, what is stored changes only where operations are done, answers to inserts get lost,
changes of tags meet conflicts and resources are put there; and every operation that is started lives as it should. -/
theorem operation_lifecycle (project : String) (polls : Nat) (es : List Event) :
    let m := ((Memory.empty project).withPollsUntilDone polls).after es
    (∀ e : Event, ¬ e.Changes m → m.Idle (e.apply m)) ∧
      ∀ c h, started? c m = some h → ∃ name e, change? c m = some (name, e) ∧
        ∀ es', Lifecycle (max polls 1) (m.planFor name e) h.name es' (answer c m).2 := by
  intro m
  refine ⟨fun e he => Event.idle_of_not_changes he, fun c h hc => ?_⟩
  have hkeyed : m.WellKeyed := WellKeyed.after (m := (Memory.empty project).withPollsUntilDone polls)
    (wellKeyed_empty project) es
  obtain ⟨target, e, hchange, hs⟩ := submitted_of_started hkeyed hc
  obtain ⟨r, hr, ha⟩ := hs.record
  have hpolls : (answer c m).2.pollsUntilDone = max polls 1 :=
    hs.quiet.polls.trans (pollsUntilDone_after ((Memory.empty project).withPollsUntilDone polls) es)
  refine ⟨target.name, e, hchange, fun es' => ?_⟩
  rw [hs.name] at hr ⊢
  rw [← hpolls]
  exact lifecycle_of_awaits (Nat.le_of_eq hs.count.symm) hr ha (by omega) es'

/-- A platform with one node. -/
def staffed : Memory := ((Memory.empty "project").withPollsUntilDone 2).after [.seedNode "zone-a" "web-1" "net" "web"]

theorem operation_lifecycle_of_delete :
    ∃ h, started? (.delete .instance (.zone "zone-a") "web-1") staffed = some h ∧
      Lifecycle 2 (staffed.planFor "web-1" (.delete (resourceKey .instance (.zone "zone-a") "web-1"))) h.name
        [.call (.operation h), .fault (.failFetches 1), .call (.operation h), .call (.operation h)]
        (answer (.delete .instance (.zone "zone-a") "web-1") staffed).2 := by
  have hstarted : started? (.delete .instance (.zone "zone-a") "web-1") staffed =
      some (staffed.nextHandle .delete
        (Resource.instance (staffed.seedInstance "zone-a" "web-1" "net" "web" "fp-0001")).summary) := rfl
  obtain ⟨name, e, hchange, hlife⟩ :=
    (operation_lifecycle "project" 2 [.seedNode "zone-a" "web-1" "net" "web"]).2 _ _ hstarted
  obtain ⟨rfl, rfl⟩ := Prod.mk.inj (Option.some.inj hchange)
  exact ⟨_, hstarted, hlife _⟩

/-- That an operation is done does not seal its record: a fetch is counted still, and the record may expire. -/
theorem done_record_changes :
    let m := (Memory.empty "project").withPollsUntilDone 1
    let c := Call.insert .global (.network ⟨"net", "10.0.0.0/8", none⟩)
    ∃ h r, started? c m = some h ∧
      ((answer c m).2.after [.call (.operation h)]).operations.find? h.name = some r ∧ r.operation.isDone = true ∧
      ((answer c m).2.after [.call (.operation h), .call (.operation h)]).operations.find? h.name =
        some { r with polls := 2 } ∧ r.polls = 1 ∧
      ((answer c m).2.after [.call (.operation h), .fault (.expire h.name)]).operations.find? h.name = none :=
  ⟨_, _, rfl, rfl, rfl, rfl, rfl, rfl⟩

end Memory

end Fleet
