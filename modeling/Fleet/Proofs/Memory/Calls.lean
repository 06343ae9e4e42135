import Fleet.Proofs.Memory.Effects

/-!
# What calls do to the platform

Most calls leave the store as it is (`Quiet`): they read, or they enter an operation that has still to be carried
out. The store changes when an operation is done, when an insert takes effect although its answer gets lost and
when a change of tags meets a conflict. What an operation is going to do is its plan: an effect, or the failure
that was ordered for it.

Operations have different names (`operationName_injective`), so a call leaves the records of all operations as
they are that it does not ask for (`find?_operations_answer`).
-/

namespace Fleet

namespace Memory

/-! ### Names of operations -/

private theorem ofDigitChars_fourDigits (n : Nat) : Nat.ofDigitChars 10 (fourDigits n).toList 0 = n := by
  simp [fourDigits, Nat.ofDigitChars_append]

theorem fourDigits_injective {a b : Nat} (h : fourDigits a = fourDigits b) : a = b := by
  rw [← ofDigitChars_fourDigits a, h, ofDigitChars_fourDigits]

theorem operationName_injective {a b : Nat} (h : operationName a = operationName b) : a = b := by
  have ht : (fourDigits a).toList = (fourDigits b).toList := by
    have := congrArg String.toList h
    simpa [operationName] using this
  exact fourDigits_injective (String.toList_inj.1 ht)

/-! ### Changes that leave the store alone -/

/-- `m'` belongs to the same platform as `m`, and every fault that is still to come in `m'` was to come in `m`. -/
structure Continues (m m' : Memory) : Prop where
  project : m'.project = m.project
  polls : m'.pollsUntilDone = m.pollsUntilDone
  scripted : ∀ n e, m'.scriptedFailures.find? n = some e → m.scriptedFailures.find? n = some e
  lost : ∀ n, m'.lostInserts.contains n = true → m.lostInserts.contains n = true
  conflicts : m'.tagConflicts ≤ m.tagConflicts
  fetches : m'.failingFetches ≤ m.failingFetches

/-- Besides, `m'` stores what `m` stores and has done what `m` has done. -/
structure Quiet (m m' : Memory) : Prop extends Continues m m' where
  resources : m'.resources = m.resources
  applied : m'.applied = m.applied

theorem Continues.refl (m : Memory) : m.Continues m :=
  ⟨rfl, rfl, fun _ _ h => h, fun _ h => h, Nat.le_refl _, Nat.le_refl _⟩

theorem Continues.trans {m m' m'' : Memory} (h : m.Continues m') (h' : m'.Continues m'') : m.Continues m'' :=
  ⟨h'.project.trans h.project, h'.polls.trans h.polls, fun n e hn => h.scripted n e (h'.scripted n e hn),
    fun n hn => h.lost n (h'.lost n hn), Nat.le_trans h'.conflicts h.conflicts,
    Nat.le_trans h'.fetches h.fetches⟩

theorem Quiet.refl (m : Memory) : m.Quiet m := ⟨.refl m, rfl, rfl⟩

theorem Quiet.trans {m m' m'' : Memory} (h : m.Quiet m') (h' : m'.Quiet m'') : m.Quiet m'' :=
  ⟨h.toContinues.trans h'.toContinues, h'.resources.trans h.resources, h'.applied.trans h.applied⟩

theorem Continues.scripted_none {m m' : Memory} (h : m.Continues m') {n : String}
    (hn : m.scriptedFailures.find? n = none) : m'.scriptedFailures.find? n = none := by
  cases he : m'.scriptedFailures.find? n with
  | none => rfl
  | some e => rw [h.scripted n e he] at hn; exact absurd hn (by simp)

theorem continues_apply (m : Memory) (e : Effect) : m.Continues (m.apply e).2 :=
  ⟨project_apply m e, pollsUntilDone_apply m e, fun n x h => by simpa using h, fun n h => by simpa using h,
    Nat.le_of_eq (tagConflicts_apply m e), Nat.le_of_eq (failingFetches_apply m e)⟩

theorem continues_seed (m : Memory) (e : JournalEntry) (r : Resource) : m.Continues ((m.log e).seed r) :=
  ⟨rfl, rfl, fun _ _ h => h, fun _ h => h, Nat.le_refl _, Nat.le_refl _⟩

theorem continues_removeWith (m : Memory) (k : ResourceKey) (r : Resource) :
    m.Continues ((m.remove k).removeWith r) := by
  rw [removeWith_eq]
  exact ⟨rfl, rfl, fun _ _ h => h, fun _ h => h, Nat.le_refl _, Nat.le_refl _⟩

theorem Quiet.missingReference? {m m' : Memory} (h : m.Quiet m') (r : Resource) :
    m'.missingReference? r = m.missingReference? r := by
  cases r <;> simp [Memory.missingReference?, h.resources]

/-- Changes of what is counted and of what is journalled are quiet. -/
private theorem quiet_of_eq {m m' : Memory} (h : m' = { m with
    operations := m'.operations, operationCount := m'.operationCount, fingerprintCount := m'.fingerprintCount
    addressCount := m'.addressCount, calls := m'.calls }) : m.Quiet m' := by
  rw [h]
  exact ⟨⟨rfl, rfl, fun _ _ h => h, fun _ h => h, Nat.le_refl _, Nat.le_refl _⟩, rfl, rfl⟩

theorem quiet_journal (m : Memory) (e : JournalEntry) : m.Quiet (m.journal e) := quiet_of_eq rfl

theorem quiet_materialize (m : Memory) (scope : Scope) (spec : ResourceSpec) :
    m.Quiet (m.materialize scope spec).2 := by
  cases spec <;> exact quiet_of_eq rfl

/-- A record that is entered changes nothing else. -/
theorem quiet_record (m : Memory) (n : String) (r : OperationRecord) :
    m.Quiet { m with operations := m.operations.insert n r } := quiet_of_eq rfl

private theorem quiet_of_lost (m : Memory) (n : String) :
    m.Quiet { m with lostInserts := m.lostInserts.erase n } := by
  refine ⟨⟨rfl, rfl, fun _ _ h => h, fun k hk => ?_, Nat.le_refl _, Nat.le_refl _⟩, rfl, rfl⟩
  rw [OrderedMap.contains_eq_true_iff] at hk ⊢
  obtain ⟨u, hu⟩ := hk
  rw [OrderedMap.find?_erase] at hu
  split at hu
  · exact absurd hu (by simp)
  · exact ⟨u, hu⟩

private theorem quiet_of_scripted (m : Memory) (n : String) :
    m.Quiet { m with scriptedFailures := m.scriptedFailures.erase n } := by
  refine ⟨⟨rfl, rfl, fun k e hk => ?_, fun _ h => h, Nat.le_refl _, Nat.le_refl _⟩, rfl, rfl⟩
  rw [OrderedMap.find?_erase] at hk
  split at hk
  · exact absurd hk (by simp)
  · exact hk

/-! ### Plans -/

/-- Carries out a plan: an effect, or a failure without an effect. -/
def perform (m : Memory) : Except OperationError Effect → Except OperationError Unit × Memory
  | .ok e => m.apply e
  | .error x => (.error x, m)

/-- The error of a refusal. -/
def error? {α : Type} : Except OperationError α → Option OperationError
  | .ok _ => none
  | .error x => some x

/-- The record of an operation that has been asked for `k` times, is not done and will carry out a plan. -/
structure Awaits (r : OperationRecord) (k : Nat) (plan : Except OperationError Effect) : Prop where
  polls : r.polls = k
  running : r.operation.isDone = false
  errors : r.operation.errors = (error? plan).toList
  effect : r.effect = plan.toOption

theorem isDone_polled (r : OperationRecord) : (polled r false).isDone = false := by
  unfold polled Operation.isDone
  by_cases hr : r.polls = 0 <;> simp [hr]

/-- A poll that comes too early is counted. -/
theorem Awaits.next {r : OperationRecord} {k : Nat} {plan : Except OperationError Effect} (h : Awaits r k plan) :
    Awaits ⟨polled r false, r.polls + 1, r.effect⟩ (k + 1) plan :=
  ⟨congrArg (· + 1) h.polls, isDone_polled r, h.errors, h.effect⟩

/-- The plan of the next operation on a name. -/
def planFor (m : Memory) (name : String) (e : Effect) : Except OperationError Effect :=
  match m.scriptedFailures.find? name with
  | some x => .error x
  | none => .ok e

/-- What entering an operation does. -/
structure Submitted (m : Memory) (target : Summary) (e : Effect) (h : OperationHandle) (m' : Memory) : Prop where
  name : h.name = operationName (m.operationCount + 1)
  target_eq : h.target = target
  quiet : m.Quiet m'
  count : m'.operationCount = m.operationCount + 1
  record : ∃ r, m'.operations.find? h.name = some r ∧ Awaits r 0 (m.planFor target.name e)
  others : ∀ n, n ≠ h.name → m'.operations.find? n = m.operations.find? n
  unscripted : m'.scriptedFailures.find? target.name = none

theorem submitted_submit (m : Memory) (kind : OperationKind) (target : Summary) (e : Effect) :
    m.Submitted target e (m.submit kind target e).1 (m.submit kind target e).2 where
  name := rfl
  target_eq := rfl
  quiet := (m.quiet_of_scripted target.name).trans (quiet_of_eq rfl)
  count := rfl
  record := by
    refine ⟨_, (OrderedMap.find?_insert _ _ _ _).trans (if_pos rfl), ?_⟩
    unfold planFor
    cases m.scriptedFailures.find? target.name <;> exact ⟨rfl, rfl, rfl, rfl⟩
  others n hn := (OrderedMap.find?_insert _ _ _ _).trans (if_neg hn)
  unscripted := (OrderedMap.find?_erase _ _ _).trans (if_pos rfl)

/-- A quiet change before an operation is entered can be counted to it. -/
theorem Submitted.of_quiet {m m₁ m' : Memory} {target : Summary} {e : Effect} {h : OperationHandle}
    (hs : m₁.Submitted target e h m') (hq : m.Quiet m₁) (hc : m₁.operationCount = m.operationCount)
    (ho : m₁.operations = m.operations) (hf : m₁.scriptedFailures = m.scriptedFailures) :
    m.Submitted target e h m' where
  name := hc ▸ hs.name
  target_eq := hs.target_eq
  quiet := hq.trans hs.quiet
  count := hc ▸ hs.count
  record := by
    have hp : m.planFor target.name e = m₁.planFor target.name e := by rw [planFor, planFor, hf]
    exact hp ▸ hs.record
  others n hn := ho ▸ hs.others n hn
  unscripted := hs.unscripted

/-! ### The answers to calls -/

theorem quiet_get (m : Memory) (kind : Kind) (scope : Scope) (name : String) :
    m.Quiet (answer (.get kind scope name) m).2 := m.quiet_journal _

theorem quiet_list (m : Memory) (kind : Kind) (filter : Filter) : m.Quiet (answer (.list kind filter) m).2 :=
  m.quiet_journal _

/-- `r` is what a request makes of a resource, up to the numbers that are given out. -/
def Makes (project : String) (scope : Scope) (spec : ResourceSpec) (r : Resource) : Prop :=
  ∃ m : Memory, m.project = project ∧ (m.materialize scope spec).1 = r

theorem answer_insert (m : Memory) (scope : Scope) (spec : ResourceSpec) :
    ∃ r m₁, Makes m.project scope spec r ∧ m.Quiet m₁ ∧ m₁.operations = m.operations ∧
      m₁.operationCount = m.operationCount ∧
      ((m.lostInserts.contains spec.name = true ∧ ∃ x, (m₁.apply (.create r)).1 = .error x ∧
          answer (.insert scope spec) m = (.error (rejection x), (m₁.apply (.create r)).2)) ∨
        (m.lostInserts.contains spec.name = true ∧ (m₁.apply (.create r)).1 = .ok () ∧ ∃ text,
          answer (.insert scope spec) m = (.error (.transport text), (m₁.apply (.create r)).2)) ∨
        (∃ h, (answer (.insert scope spec) m).1 = .ok h ∧
          m.Submitted r.summary (.create r) h (answer (.insert scope spec) m).2)) := by
  have hj := m.quiet_journal (.insert spec.kind spec.name)
  generalize hm : m.journal (.insert spec.kind spec.name) = m₀ at hj
  have hmat := m₀.quiet_materialize scope spec
  have hops : (m₀.materialize scope spec).2.operations = m.operations := by subst hm; cases spec <;> rfl
  have hcount : (m₀.materialize scope spec).2.operationCount = m.operationCount := by subst hm; cases spec <;> rfl
  have hlost : (m₀.materialize scope spec).2.lostInserts = m.lostInserts := by subst hm; cases spec <;> rfl
  have hscripted : (m₀.materialize scope spec).2.scriptedFailures = m.scriptedFailures := by
    subst hm; cases spec <;> rfl
  have hmakes : Makes m.project scope spec (m₀.materialize scope spec).1 := ⟨m₀, hj.project, rfl⟩
  have hans : answer (.insert scope spec) m = m.insert scope spec := rfl
  rw [hans]
  unfold insert
  rw [hm]
  generalize hr : m₀.materialize scope spec = p at hmat hops hcount hlost hscripted hmakes
  obtain ⟨r, m₁⟩ := p
  simp only at hmat hops hcount hlost hscripted hmakes ⊢
  -- A request whose answer is lost takes effect at once, all others start an operation.
  by_cases hl : m₁.lostInserts.contains spec.name = true
  · rw [if_pos hl]
    rw [hlost] at hl
    refine ⟨r, { m₁ with lostInserts := m₁.lostInserts.erase spec.name }, hmakes,
      (hj.trans hmat).trans (m₁.quiet_of_lost spec.name), hops, hcount, ?_⟩
    rcases ha : apply { m₁ with lostInserts := m₁.lostInserts.erase spec.name } (.create r) with ⟨x | u, m₂⟩
    · exact .inl ⟨hl, x, rfl, rfl⟩
    · exact .inr (.inl ⟨hl, rfl, _, rfl⟩)
  · rw [if_neg hl]
    refine ⟨r, m₁, hmakes, hj.trans hmat, hops, hcount, .inr (.inr ⟨_, rfl, ?_⟩)⟩
    exact (m₁.submitted_submit .insert r.summary (.create r)).of_quiet (hj.trans hmat) hcount hops hscripted

theorem answer_delete (m : Memory) (kind : Kind) (scope : Scope) (name : String) :
    (m.resources.find? (resourceKey kind scope name) = none ∧
      (answer (.delete kind scope name) m).1 = .error (rejection (notFound (resourceKey kind scope name))) ∧
      m.Quiet (answer (.delete kind scope name) m).2) ∨
    (∃ r h, m.resources.find? (resourceKey kind scope name) = some r ∧
      (answer (.delete kind scope name) m).1 = .ok h ∧
      m.Submitted r.summary (.delete (resourceKey kind scope name)) h (answer (.delete kind scope name) m).2) := by
  have hj := m.quiet_journal (.delete kind name)
  show (_ ∧ (m.delete kind scope name).1 = _ ∧ m.Quiet (m.delete kind scope name).2) ∨
    ∃ r h, _ ∧ (m.delete kind scope name).1 = _ ∧ m.Submitted _ _ h (m.delete kind scope name).2
  have hres : (m.journal (.delete kind name)).resources = m.resources := rfl
  unfold delete
  simp only [hres]
  cases hf : m.resources.find? (resourceKey kind scope name) with
  | none => exact .inl ⟨rfl, rfl, hj⟩
  | some r =>
    exact .inr ⟨r, _, rfl, rfl, (submitted_submit _ .delete r.summary _).of_quiet hj rfl rfl rfl⟩

/-- `m'` is `m` after an instance has got other tags. -/
structure Retagged (m : Memory) (k : ResourceKey) (i : Instance) (t : Tags) (m' : Memory) : Prop extends
    Continues m m' where
  resources : m'.resources = m.resources.insert k (.instance { i with tags := t })
  applied : ∃ es, m'.applied = m.applied ++ es ∧ ∀ e ∈ es, ∃ n items fingerprint, e = .setTags n items fingerprint

namespace Retagged

variable {m m' : Memory} {k j : ResourceKey} {i : Instance} {t : Tags} {s : Resource}

theorem find?_eq (h : m.Retagged k i t m') (j : ResourceKey) :
    m'.resources.find? j = if j = k then some (.instance { i with tags := t }) else m.resources.find? j := by
  rw [h.resources]
  exact OrderedMap.find?_insert _ _ _ _

/-- What is stored afterwards was stored before, unless it is the instance with its new tags. -/
theorem find?_cases (h : m.Retagged k i t m') (hs : m'.resources.find? j = some s) :
    m.resources.find? j = some s ∨ (j = k ∧ s = .instance { i with tags := t }) := by
  rw [h.find?_eq] at hs
  split at hs
  · next hj => exact .inr ⟨hj, (Option.some.inj hs).symm⟩
  · exact .inl hs

/-- What holds of everything that is stored, whatever tags the instances have, goes on to hold. -/
theorem forall_find? (h : m.Retagged k i t m') (hi : m.resources.find? k = some (.instance i))
    {P : ResourceKey → Resource → Prop} (hP : ∀ j s, m.resources.find? j = some s → P j s)
    (htags : P k (.instance i) → P k (.instance { i with tags := t })) :
    ∀ j s, m'.resources.find? j = some s → P j s := by
  intro j s hs
  rcases h.find?_cases hs with hs | ⟨rfl, rfl⟩
  · exact hP j s hs
  · exact htags (hP j _ hi)

/-- Everything but instances stays as it is. -/
theorem find?_of_kind_ne (h : m.Retagged k i t m') (hi : m.resources.find? k = some (.instance i))
    (hs : m.resources.find? j = some s) (hkind : s.kind ≠ .instance) : m'.resources.find? j = some s := by
  rw [h.find?_eq, if_neg]
  · exact hs
  · rintro rfl
    rw [← Option.some.inj (hi.symm.trans hs)] at hkind
    exact hkind rfl

/-- Every instance was there before, up to its tags. -/
theorem exists_instance (h : m.Retagged k i t m') (hi : m.resources.find? k = some (.instance i)) {v : Instance}
    (hv : m'.resources.find? j = some (.instance v)) :
    ∃ v' t', m.resources.find? j = some (.instance v') ∧ v = { v' with tags := t' } := by
  rcases h.find?_cases hv with hv | ⟨rfl, hv⟩
  · exact ⟨v, v.tags, hv, rfl⟩
  · exact ⟨i, t, hi, Resource.instance.inj hv⟩

end Retagged

/-- Tags are replaced, or there is no instance to be tagged. -/
theorem apply_setTags_cases (m : Memory) (k : ResourceKey) (items : List String) :
    (∃ i f, m.resources.find? k = some (.instance i) ∧ (m.apply (.setTags k items)).1 = .ok () ∧
      m.Retagged k i ⟨items, f⟩ (m.apply (.setTags k items)).2) ∨
    ((∀ i, m.resources.find? k ≠ some (.instance i)) ∧ (m.apply (.setTags k items)).1 = .error (notFound k) ∧
      m.Quiet (m.apply (.setTags k items)).2) := by
  have hc := m.continues_apply (.setTags k items)
  rcases m.apply_setTags k items with ⟨i, hi, ha⟩ | ⟨hi, ha⟩ <;> rw [ha] at hc ⊢
  · exact .inl ⟨i, _, hi, rfl, hc, rfl, ⟨_, rfl, fun e he => ⟨_, _, _, List.mem_singleton.1 he⟩⟩⟩
  · exact .inr ⟨hi, rfl, hc, rfl, rfl⟩

theorem answer_setTags (m : Memory) (kind : Kind) (scope : Scope) (name : String) (tags : Tags) :
    ((∀ i, m.resources.find? (resourceKey kind scope name) ≠ some (.instance i)) ∧
      (answer (.setTags kind scope name tags) m).1 = .error (rejection (notFound (resourceKey kind scope name))) ∧
      m.Quiet (answer (.setTags kind scope name tags) m).2) ∨
    (∃ i, m.resources.find? (resourceKey kind scope name) = some (.instance i) ∧
      (answer (.setTags kind scope name tags) m).1 = .error staleFingerprint ∧
      ((0 < m.tagConflicts ∧ ∃ t,
          m.Retagged (resourceKey kind scope name) i t (answer (.setTags kind scope name tags) m).2) ∨
        (m.tagConflicts = 0 ∧ tags.fingerprint ≠ i.tags.fingerprint ∧
          m.Quiet (answer (.setTags kind scope name tags) m).2))) ∨
    (∃ i h, m.resources.find? (resourceKey kind scope name) = some (.instance i) ∧
      (answer (.setTags kind scope name tags) m).1 = .ok h ∧
      m.Submitted (Resource.instance i).summary (.setTags (resourceKey kind scope name) tags.items) h
        (answer (.setTags kind scope name tags) m).2) := by
  have hj := m.quiet_journal (.setTags name tags.items tags.fingerprint)
  generalize hk : resourceKey kind scope name = k
  have hans : answer (.setTags kind scope name tags) m = m.setTags kind scope name tags := rfl
  have hres : (m.journal (.setTags name tags.items tags.fingerprint)).resources = m.resources := rfl
  have hcon : (m.journal (.setTags name tags.items tags.fingerprint)).tagConflicts = m.tagConflicts := rfl
  rw [hans]
  unfold setTags
  simp only [hk, hres, hcon]
  rcases hf : m.resources.find? k with _ | r
  · exact .inl ⟨by simp, rfl, hj⟩
  · cases r with
    | «instance» i =>
      right
      simp only
      by_cases hc : 0 < m.tagConflicts
      · rw [if_pos hc]
        refine .inl ⟨i, rfl, rfl, .inl ⟨hc, _, hj.toContinues.trans ?_, rfl, ?_⟩⟩
        · exact ⟨rfl, rfl, fun _ _ h => h, fun _ h => h, Nat.sub_le _ _, Nat.le_refl _⟩
        · exact ⟨[], (List.append_nil _).symm, by simp⟩
      · rw [if_neg hc]
        by_cases ht : tags.fingerprint ≠ i.tags.fingerprint
        · rw [if_pos ht]
          exact .inl ⟨i, rfl, rfl, .inr ⟨by omega, ht, hj⟩⟩
        · rw [if_neg ht]
          exact .inr ⟨i, _, rfl, rfl, (submitted_submit _ .update _ _).of_quiet hj rfl rfl rfl⟩
    | network n => exact .inl ⟨by simp, rfl, hj⟩
    | firewall f => exact .inl ⟨by simp, rfl, hj⟩
    | disk d => exact .inl ⟨by simp, rfl, hj⟩

/-! ### Asking for operations -/

section Asking

variable {m : Memory} {h : OperationHandle} {r : OperationRecord} {k : Nat} {plan : Except OperationError Effect}

/-- A poll at which the operation goes on. -/
private theorem Awaits.poll_early (hr : Awaits r k plan) (hf : m.failingFetches = 0)
    (ho : m.operations.find? h.name = some r) (hk : k + 1 < m.pollsUntilDone) :
    m.pollOperation h =
      (.ok (polled r false),
        { m with operations := m.operations.insert h.name ⟨polled r false, r.polls + 1, r.effect⟩ }) := by
  have hfetch : ¬ 0 < m.failingFetches := by omega
  have hrunning : ¬ r.operation.isDone = true := Bool.eq_false_iff.1 hr.running
  have hearly : r.polls + 1 < m.pollsUntilDone := hr.polls.symm ▸ hk
  unfold pollOperation
  simp only [if_neg hfetch, ho, if_neg hrunning, if_pos hearly]

/-- The poll at which the operation is done: its planned effect is carried out, or its ordered failure comes true. -/
private theorem Awaits.poll_last (hr : Awaits r k plan) (hf : m.failingFetches = 0)
    (ho : m.operations.find? h.name = some r) (hk : ¬ k + 1 < m.pollsUntilDone) :
    (m.perform plan).2.Quiet (m.pollOperation h).2 ∧ ∃ o, (m.pollOperation h).1 = .ok o ∧ o.isDone = true ∧
      o.primaryError? = error? (m.perform plan).1 := by
  have hfetch : ¬ 0 < m.failingFetches := by omega
  have hrunning : ¬ r.operation.isDone = true := Bool.eq_false_iff.1 hr.running
  have hlast : ¬ r.polls + 1 < m.pollsUntilDone := hr.polls.symm ▸ hk
  have herrors := hr.errors
  unfold pollOperation
  simp only [if_neg hfetch, ho, if_neg hrunning, if_neg hlast, hr.effect]
  cases plan with
  | error x =>
    simp only [Except.toOption]
    refine ⟨m.quiet_record _ _, _, rfl, rfl, ?_⟩
    simp [Operation.primaryError?, polled, herrors, perform, error?]
  | ok e =>
    simp only [Except.toOption, perform]
    rcases m.apply e with ⟨x | u, m'⟩
    · refine ⟨m'.quiet_record _ _, _, rfl, rfl, ?_⟩
      simp [Operation.primaryError?, polled, herrors, error?]
    · refine ⟨m'.quiet_record _ _, _, rfl, rfl, ?_⟩
      simp [Operation.primaryError?, polled, herrors, error?]

end Asking

/-- What asking for an operation does: the fetch may fail, the record may be gone, and otherwise the operation
goes on or carries out its plan. -/
theorem answer_operation (m : Memory) (h : OperationHandle) :
    (0 < m.failingFetches ∧ (∃ text, (answer (.operation h) m).1 = .error (.transport text)) ∧
      m.Quiet (answer (.operation h) m).2 ∧ (answer (.operation h) m).2.operations = m.operations ∧
      (answer (.operation h) m).2.failingFetches + 1 = m.failingFetches) ∨
    (m.failingFetches = 0 ∧ m.operations.find? h.name = none ∧
      (∃ text, (answer (.operation h) m).1 = .error (.rejected .notFound text)) ∧
      (answer (.operation h) m).2 = m) ∨
    (m.failingFetches = 0 ∧ ∃ r, m.operations.find? h.name = some r ∧
      ∀ k plan, Awaits r k plan →
        (k + 1 < m.pollsUntilDone ∧ m.Quiet (answer (.operation h) m).2 ∧ ∃ o r',
          (answer (.operation h) m).1 = .ok o ∧ o.isDone = false ∧
          (answer (.operation h) m).2.operations.find? h.name = some r' ∧ Awaits r' (k + 1) plan) ∨
        (m.pollsUntilDone ≤ k + 1 ∧ (m.perform plan).2.Quiet (answer (.operation h) m).2 ∧ ∃ o,
          (answer (.operation h) m).1 = .ok o ∧ o.isDone = true ∧
          o.primaryError? = error? (m.perform plan).1)) := by
  have hans : answer (.operation h) m = m.pollOperation h := rfl
  rw [hans]
  by_cases hf : 0 < m.failingFetches
  · unfold pollOperation
    rw [if_pos hf]
    refine .inl ⟨hf, ⟨_, rfl⟩, ⟨?_, rfl, rfl⟩, rfl, Nat.sub_add_cancel hf⟩
    exact ⟨rfl, rfl, fun _ _ h => h, fun _ h => h, Nat.le_refl _, Nat.sub_le _ _⟩
  right
  have hf' : m.failingFetches = 0 := by omega
  rcases ho : m.operations.find? h.name with _ | r
  · unfold pollOperation
    rw [if_neg hf, ho]
    exact .inl ⟨hf', rfl, ⟨_, rfl⟩, rfl⟩
  · refine .inr ⟨hf', r, rfl, fun k plan hr => ?_⟩
    by_cases hk : k + 1 < m.pollsUntilDone
    · rw [hr.poll_early hf' ho hk]
      exact .inl ⟨hk, m.quiet_record _ _, _, _, rfl, isDone_polled r,
        (OrderedMap.find?_insert _ _ _ _).trans (if_pos rfl), hr.next⟩
    · exact .inr ⟨Nat.le_of_not_lt hk, hr.poll_last hf' ho hk⟩

/-! ### The records of other operations -/

/-- `m'` has at least the operations of `m`, with the same records besides the one under `name`. -/
private def KeepsRecords (name : Option String) (m m' : Memory) : Prop :=
  m.operationCount ≤ m'.operationCount ∧ ∀ n, n ≤ m.operationCount → name ≠ some (operationName n) →
    m'.operations.find? (operationName n) = m.operations.find? (operationName n)

private theorem KeepsRecords.of_eq {name : Option String} {m m' : Memory} (ho : m'.operations = m.operations)
    (hc : m'.operationCount = m.operationCount) : KeepsRecords name m m' :=
  ⟨Nat.le_of_eq hc.symm, fun n _ _ => by rw [ho]⟩

private theorem KeepsRecords.of_submitted {name : Option String} {m m' : Memory} {target : Summary} {e : Effect}
    {h : OperationHandle} (hs : m.Submitted target e h m') : KeepsRecords name m m' := by
  refine ⟨by rw [hs.count]; omega, fun n hn _ => hs.others _ fun he => ?_⟩
  rw [hs.name] at he
  have := operationName_injective he
  omega

private theorem keepsRecords_poll (m : Memory) (h : OperationHandle) :
    KeepsRecords (some h.name) m (m.pollOperation h).2 := by
  have entered (m' : Memory) (ho : m'.operations = m.operations) (hc : m'.operationCount = m.operationCount)
      (r : OperationRecord) :
      KeepsRecords (some h.name) m { m' with operations := m'.operations.insert h.name r } := by
    refine ⟨Nat.le_of_eq hc.symm, fun n _ hn => ?_⟩
    rw [← ho]
    exact (OrderedMap.find?_insert _ _ _ _).trans (if_neg fun he => hn (congrArg some he.symm))
  unfold pollOperation
  split
  · exact .of_eq rfl rfl
  · split
    · exact .of_eq rfl rfl
    · next r _ =>
      simp only
      split
      · exact entered m rfl rfl _
      · split
        · exact entered m rfl rfl _
        · split
          · exact entered m rfl rfl _
          · next e _ =>
            have ho := m.operations_apply e
            have hc := m.operationCount_apply e
            rcases ha : m.apply e with ⟨x | u, m'⟩ <;> rw [ha] at ho hc <;> exact entered m' ho hc _

private theorem keepsRecords_answer (c : Call) (m : Memory) :
    KeepsRecords (match c with | .operation h => some h.name | _ => none) m (answer c m).2 := by
  cases c with
  | get kind scope name => exact .of_eq rfl rfl
  | list kind filter => exact .of_eq rfl rfl
  | insert scope spec =>
    obtain ⟨r, m₁, -, -, ho, hc, ⟨-, x, -, ha⟩ | ⟨-, -, text, ha⟩ | ⟨h, -, hs⟩⟩ := m.answer_insert scope spec
    · rw [ha]
      exact .of_eq ((m₁.operations_apply _).trans ho) ((m₁.operationCount_apply _).trans hc)
    · rw [ha]
      exact .of_eq ((m₁.operations_apply _).trans ho) ((m₁.operationCount_apply _).trans hc)
    · exact .of_submitted hs
  | delete kind scope name =>
    show KeepsRecords none m (m.delete kind scope name).2
    unfold delete
    simp only
    split
    · exact .of_eq rfl rfl
    · exact .of_submitted ((submitted_submit _ _ _ _).of_quiet (m.quiet_journal _) rfl rfl rfl)
  | setTags kind scope name tags =>
    show KeepsRecords none m (m.setTags kind scope name tags).2
    unfold setTags
    simp only
    split
    · split
      · exact .of_eq rfl rfl
      · split
        · exact .of_eq rfl rfl
        · exact .of_submitted ((submitted_submit _ _ _ _).of_quiet (m.quiet_journal _) rfl rfl rfl)
    · exact .of_eq rfl rfl
  | operation h => exact keepsRecords_poll m h

theorem operationCount_le_answer (c : Call) (m : Memory) : m.operationCount ≤ (answer c m).2.operationCount :=
  (keepsRecords_answer c m).1

theorem find?_operations_answer {c : Call} {m : Memory} {n : Nat} (hn : n ≤ m.operationCount)
    (hc : ∀ h, c = .operation h → h.name ≠ operationName n) :
    (answer c m).2.operations.find? (operationName n) = m.operations.find? (operationName n) := by
  refine (keepsRecords_answer c m).2 n hn ?_
  cases c with
  | operation h => exact fun he => hc h rfl (Option.some.inj he)
  | _ => simp

/-! ### The faults that are left -/

private theorem continues_poll (m : Memory) (h : OperationHandle) : m.Continues (m.pollOperation h).2 := by
  have entered (m' : Memory) (r : OperationRecord) :
      m'.Continues { m' with operations := m'.operations.insert h.name r } := (m'.quiet_record h.name r).toContinues
  unfold pollOperation
  split
  · exact ⟨rfl, rfl, fun _ _ h => h, fun _ h => h, Nat.le_refl _, Nat.sub_le _ _⟩
  · split
    · exact .refl m
    · next r _ =>
      simp only
      split
      · exact entered m _
      · split
        · exact entered m _
        · split
          · exact entered m _
          · next e _ =>
            have happly := m.continues_apply e
            rcases ha : m.apply e with ⟨x | u, m'⟩ <;> rw [ha] at happly <;> exact happly.trans (entered m' _)

/-- No call makes anything go wrong later. -/
theorem continues_answer (c : Call) (m : Memory) : m.Continues (answer c m).2 := by
  cases c with
  | get kind scope name => exact (m.quiet_get kind scope name).toContinues
  | list kind filter => exact (m.quiet_list kind filter).toContinues
  | insert scope spec =>
    obtain ⟨r, m₁, -, hq, -, -, ⟨-, x, -, ha⟩ | ⟨-, -, text, ha⟩ | ⟨h, -, hs⟩⟩ := m.answer_insert scope spec
    · rw [ha]
      exact hq.toContinues.trans (m₁.continues_apply _)
    · rw [ha]
      exact hq.toContinues.trans (m₁.continues_apply _)
    · exact hs.quiet.toContinues
  | delete kind scope name =>
    rcases m.answer_delete kind scope name with ⟨-, -, hq⟩ | ⟨r, h, -, -, hs⟩
    · exact hq.toContinues
    · exact hs.quiet.toContinues
  | setTags kind scope name tags =>
    rcases m.answer_setTags kind scope name tags with ⟨-, -, hq⟩ | ⟨i, -, -, ⟨-, t, hre⟩ | ⟨-, -, hq⟩⟩ | ⟨i, h, -, -, hs⟩
    · exact hq.toContinues
    · exact hre.toContinues
    · exact hq.toContinues
    · exact hs.quiet.toContinues
  | operation h => exact continues_poll m h

end Memory

end Fleet
