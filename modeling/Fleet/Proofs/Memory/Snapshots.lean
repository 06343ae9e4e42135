import Fleet.Proofs.Memory.Lifecycle

/-!
# The errors that operations report

An operation that is done reports errors exactly when its effect has not happened. As long as it is not done, it reports
nothing that its effect may meet; but a failure that has been ordered for it is reported from the beginning, and not only
when the operation is done. The record of the operation carries both (`Told`), and what is fetched is always the record
of an operation that has been started (`exists_started`).
-/

namespace Fleet

namespace Memory

/-- The effect of the operation `n` happens at a fetch of it, during the history `es`. -/
def Happened (n : String) (e : Effect) (es : List Event) (m : Memory) : Prop :=
  ∃ es₁ h es₂, es = es₁ ++ .call (.operation h) :: es₂ ∧ h.name = n ∧
    e.Happens (m.after es₁) ((m.after es₁).pollOperation h).2

variable {m m' : Memory} {plan : Except OperationError Effect} {n : String} {e : Effect} {es : List Event}

/-! ### What has happened -/

/-- What happens is entered in the journal. -/
theorem Idle.not_happens (h : m.Idle m') : ¬ e.Happens m m' := by
  intro hhappens
  have hgrown : ∃ entries, entries ≠ [] ∧ m'.applied = m.applied ++ entries := by
    cases e with
    | create r => exact ⟨_, by simp, hhappens.2.2⟩
    | delete k =>
      obtain ⟨r, keys, -, -, hmem, -, happlied⟩ := hhappens
      have hk : k ∈ keys := (hmem k).2 (.inl rfl)
      refine ⟨_, ?_, happlied⟩
      intro hnil
      rw [List.map_eq_nil_iff.1 hnil] at hk
      exact absurd hk (by simp)
    | setTags k items =>
      obtain ⟨i, fingerprint, -, -, happlied⟩ := hhappens
      exact ⟨_, by simp, happlied⟩
  obtain ⟨entries, hne, happlied⟩ := hgrown
  rw [h.2] at happlied
  exact hne (List.self_eq_append_right.1 happlied)

private theorem not_happened_nil : ¬ Happened n e [] m := by
  rintro ⟨es₁, h, es₂, hes, -⟩
  exact absurd hes (by simp)

/-- An effect has happened before the last event or happens at it. -/
private theorem happened_concat {ev : Event} : Happened n e (es ++ [ev]) m ↔ Happened n e es m ∨
    ∃ h, ev = .call (.operation h) ∧ h.name = n ∧ e.Happens (m.after es) ((m.after es).pollOperation h).2 := by
  constructor
  · rintro ⟨es₁, h, es₂, hes, hname, hhappens⟩
    rcases List.eq_nil_or_concat es₂ with rfl | ⟨es₃, last, rfl⟩
    · obtain ⟨rfl, hev⟩ := List.append_inj' hes rfl
      exact .inr ⟨h, (List.cons.inj hev).1, hname, hhappens⟩
    · have hes : es ++ [ev] = (es₁ ++ .call (.operation h) :: es₃) ++ [last] := by
        rw [hes, List.concat_eq_append, List.append_assoc, List.cons_append]
      exact .inl ⟨es₁, h, es₃, (List.append_inj' hes rfl).1, hname, hhappens⟩
  · rintro (⟨es₁, h, es₂, rfl, hname, hhappens⟩ | ⟨h, rfl, hname, hhappens⟩)
    · exact ⟨es₁, h, es₂ ++ [ev], by simp, hname, hhappens⟩
    · exact ⟨es, h, [], rfl, hname, hhappens⟩

/-- A fetch at which nothing happens. -/
private theorem happened_concat_of_idle {h : OperationHandle} (hidle : (m.after es).Idle ((m.after es).pollOperation h).2) :
    Happened n e (es ++ [.call (.operation h)]) m ↔ Happened n e es m := by
  rw [happened_concat]
  constructor
  · rintro (hbefore | ⟨h', heq, -, hhappens⟩)
    · exact hbefore
    · cases heq
      exact absurd hhappens hidle.not_happens
  · exact .inl

/-- Only fetches of an operation can make its effect happen. -/
private theorem happened_concat_of_other {ev : Event} (hev : ∀ h, ev = .call (.operation h) → h.name ≠ n) :
    Happened n e (es ++ [ev]) m ↔ Happened n e es m := by
  rw [happened_concat]
  constructor
  · rintro (hbefore | ⟨h, heq, hname, -⟩)
    · exact hbefore
    · exact absurd hname (hev h heq)
  · exact .inl

/-! ### What records tell -/

/-- What the record of an operation tells after a history: it waits for its plan and nothing has happened, it is done and
tells errors exactly when nothing has happened, or it is gone. -/
inductive Told (plan : Except OperationError Effect) (e : Effect) (n : String) (es : List Event) (m : Memory) : Prop
  | running {r : OperationRecord} {k : Nat} (hr : (m.after es).operations.find? n = some r) (ha : Awaits r k plan)
    (hnot : ¬ Happened n e es m)
  | done {r : OperationRecord} (hr : (m.after es).operations.find? n = some r) (hdone : r.operation.isDone = true)
    (herrors : r.operation.errors ≠ [] ↔ ¬ Happened n e es m)
  | gone (hnone : (m.after es).operations.find? n = none)

private theorem Told.of_same {ev : Event} (h : Told plan e n es m)
    (hfind : (m.after (es ++ [ev])).operations.find? n = (m.after es).operations.find? n)
    (hhappened : Happened n e (es ++ [ev]) m ↔ Happened n e es m) : Told plan e n (es ++ [ev]) m := by
  cases h with
  | running hr ha hnot => exact .running (hfind.trans hr) ha (fun h => hnot (hhappened.1 h))
  | done hr hdone herrors => exact .done (hfind.trans hr) hdone (herrors.trans (not_congr hhappened.symm))
  | gone hnone => exact .gone (hfind.trans hnone)

/-- The fetch at which the operation is done: its effect happens and there is no error, or nothing happens and there is
one. -/
private theorem told_settled (hplan : ∀ e', plan = .ok e' → e' = e) {h : OperationHandle} {r : OperationRecord} {k : Nat}
    (ha : Awaits r k plan) (hnot : ¬ Happened h.name e es m)
    (hans : (m.after es).pollOperation h = (.ok ((m.after es).settled r),
      ((m.after es).attempt r.effect).2.enter h.name ⟨(m.after es).settled r, r.polls + 1, none⟩)) :
    Told plan e h.name (es ++ [.call (.operation h)]) m := by
  have hafter : m.after (es ++ [.call (.operation h)]) = ((m.after es).pollOperation h).2 := after_append _ _ _
  refine .done (r := ⟨(m.after es).settled r, r.polls + 1, none⟩) ?_ rfl ?_
  · rw [hafter, hans]
    exact find?_operations_enter _ _ _
  · rcases completed_of_awaits (m := m.after es) (n := h.name) ha ⟨(m.after es).settled r, r.polls + 1, none⟩ with
      ⟨e', he', hhappens, herrors⟩ | ⟨x, -, herrors, hnothing⟩
    · obtain rfl := hplan e' he'
      have hnow : Happened h.name e' (es ++ [.call (.operation h)]) m := by
        refine happened_concat.2 (.inr ⟨h, rfl, rfl, ?_⟩)
        rw [hans]
        exact hhappens
      simp [herrors, hnow]
    · have hidle : (m.after es).Idle ((m.after es).pollOperation h).2 := by
        rw [hans]
        exact hnothing
      have hnever : ¬ Happened h.name e (es ++ [.call (.operation h)]) m :=
        fun hnow => hnot ((happened_concat_of_idle hidle).1 hnow)
      simp [herrors, hnever]

/-- A fetch of the operation. -/
private theorem Told.fetch (hplan : ∀ e', plan = .ok e' → e' = e) {h : OperationHandle} (ht : Told plan e h.name es m) :
    Told plan e h.name (es ++ [.call (.operation h)]) m := by
  have hafter : m.after (es ++ [.call (.operation h)]) = (answer (.operation h) (m.after es)).2 := after_append _ _ _
  have hidle : (m.after es).Idle (answer (.operation h) (m.after es)).2 →
      (Happened h.name e (es ++ [.call (.operation h)]) m ↔ Happened h.name e es m) := happened_concat_of_idle
  rcases (m.after es).poll_cases h with ⟨-, ha⟩ | ⟨-, -, ha⟩ | ⟨r, -, hr, hcases⟩
  · rw [ha] at hafter hidle
    exact ht.of_same (by rw [hafter]) (hidle ⟨rfl, rfl⟩)
  · rw [ha] at hafter hidle
    exact ht.of_same (by rw [hafter]) (hidle ⟨rfl, rfl⟩)
  cases ht with
  | running hr' haw hnot =>
    obtain rfl := Option.some.inj (hr.symm.trans hr')
    rcases hcases with ⟨hdone, -⟩ | ⟨-, -, ha⟩ | ⟨-, -, ha⟩
    · exact nomatch hdone.symm.trans haw.running
    · rw [ha] at hafter hidle
      refine .running ?_ haw.next (fun h => hnot ((hidle ⟨rfl, rfl⟩).1 h))
      rw [hafter]
      exact find?_operations_enter _ _ _
    · exact told_settled hplan haw hnot ha
  | done hr' hdone herrors =>
    obtain rfl := Option.some.inj (hr.symm.trans hr')
    rcases hcases with ⟨-, ha⟩ | ⟨hrun, -⟩ | ⟨hrun, -⟩
    · rw [ha] at hafter hidle
      refine .done (r := ⟨r.operation, r.polls + 1, r.effect⟩) ?_ hdone ?_
      · rw [hafter]
        exact find?_operations_enter _ _ _
      · exact herrors.trans (not_congr (hidle ⟨rfl, rfl⟩).symm)
    · exact nomatch hdone.symm.trans hrun
    · exact nomatch hdone.symm.trans hrun
  | gone hnone => exact nomatch hr.symm.trans hnone

/-- Every event leaves a record that tells what has happened. -/
theorem Told.event {j : Nat} (hj : j ≤ m.operationCount) (hplan : ∀ e', plan = .ok e' → e' = e)
    (ht : Told plan e (operationName j) es m) (ev : Event) : Told plan e (operationName j) (es ++ [ev]) m := by
  by_cases hfetch : ∃ h, ev = .call (.operation h) ∧ h.name = operationName j
  · obtain ⟨h, rfl, hname⟩ := hfetch
    rw [← hname] at ht ⊢
    exact ht.fetch hplan
  · have hother : ∀ h, ev = .call (.operation h) → h.name ≠ operationName j := fun h he hname => hfetch ⟨h, he, hname⟩
    have hafter : m.after (es ++ [ev]) = ev.apply (m.after es) := after_append _ _ _
    by_cases hexpire : ev = .fault (.expire (operationName j))
    · subst hexpire
      exact .gone (by rw [hafter]; exact find?_operations_expire _ _)
    · have hj' : j ≤ (m.after es).operationCount := Nat.le_trans hj (operationCount_le_after m es)
      refine ht.of_same ?_ (happened_concat_of_other hother)
      rw [hafter]
      exact ev.find?_operations hj' hother hexpire

theorem Told.after {j : Nat} (hj : j ≤ m.operationCount) (hplan : ∀ e', plan = .ok e' → e' = e)
    (ht : Told plan e (operationName j) es m) (es' : List Event) : Told plan e (operationName j) (es ++ es') m := by
  induction es' generalizing es with
  | nil =>
    rw [List.append_nil]
    exact ht
  | cons ev es' ih =>
    rw [List.append_cons]
    exact ih (ht.event hj hplan ev)

/-! ### Where records come from -/

private theorem operations_attempt (m : Memory) (e? : Option Effect) : (m.attempt e?).2.operations = m.operations := by
  rcases m.attempt_cases e? with ⟨-, he⟩ | ⟨e, -, he⟩ <;> rw [he]
  exact m.operations_apply e

private theorem find?_enter_of_none {name : String} {r : OperationRecord}
    (hstored : ∃ r, m.operations.find? name = some r) (hnone : m.operations.find? n = none) :
    (m.enter name r).operations.find? n = none := by
  show (m.operations.insert name r).find? n = none
  rw [OrderedMap.find?_insert]
  split
  · next hn =>
    obtain ⟨r', hr'⟩ := hstored
    rw [hn, hr'] at hnone
    exact absurd hnone (by simp)
  · exact hnone

/-- Fetches make no records. -/
private theorem find?_operations_poll (h : OperationHandle) (hnone : m.operations.find? n = none) :
    (answer (.operation h) m).2.operations.find? n = none := by
  rcases m.poll_cases h with ⟨-, ha⟩ | ⟨-, -, ha⟩ | ⟨r, -, hr, ⟨-, ha⟩ | ⟨-, -, ha⟩ | ⟨-, -, ha⟩⟩ <;> rw [ha]
  · exact hnone
  · exact hnone
  · exact find?_enter_of_none ⟨r, hr⟩ hnone
  · exact find?_enter_of_none ⟨r, hr⟩ hnone
  · have ho := m.operations_attempt r.effect
    exact find?_enter_of_none ⟨r, (congrArg (·.find? h.name) ho).trans hr⟩ ((congrArg (·.find? n) ho).trans hnone)

/-- A record appears only with the operation that a call starts. -/
private theorem Event.starts (ev : Event) (hnone : m.operations.find? n = none) :
    (ev.apply m).operations.find? n = none ∨ ∃ c h, ev = .call c ∧ started? c m = some h ∧ h.name = n := by
  cases ev with
  | seed r => exact .inl hnone
  | seedNode zone name network group =>
    left
    show (m.seedNode zone name network group).2.operations.find? n = none
    unfold Memory.seedNode
    split <;> exact hnone
  | fault f =>
    left
    rcases (f.disturbed m).record n with ho | ho
    · exact ho.trans hnone
    · exact ho
  | call c =>
    by_cases hfetch : ∃ h, c = .operation h
    · obtain ⟨h, rfl⟩ := hfetch
      exact .inl (find?_operations_poll h hnone)
    · rcases answer_starts (m := m) (fun h hc => hfetch ⟨h, hc⟩) with ⟨h, target, e, hstarted, hs⟩ | ⟨-, ho, -⟩
      · by_cases hname : h.name = n
        · exact .inr ⟨c, h, rfl, hstarted, hname⟩
        · exact .inl ((hs.others n (Ne.symm hname)).trans hnone)
      · exact .inl ((congrArg (·.find? n) ho).trans hnone)

/-- The operation of every record has been started in the course of the history. -/
theorem exists_started {r : OperationRecord} (hnone : m.operations.find? n = none)
    (hr : (m.after es).operations.find? n = some r) :
    ∃ es₀ c es₁ h, es = es₀ ++ .call c :: es₁ ∧ started? c (m.after es₀) = some h ∧ h.name = n := by
  induction es generalizing m with
  | nil =>
    rw [after_nil, hnone] at hr
    exact absurd hr (by simp)
  | cons ev es ih =>
    rcases ev.starts hnone with hnone' | ⟨c, h, rfl, hstarted, hname⟩
    · obtain ⟨es₀, c, es₁, h, rfl, hstarted, hname⟩ := ih hnone' hr
      exact ⟨ev :: es₀, c, es₁, h, rfl, hstarted, hname⟩
    · exact ⟨[], c, es, h, rfl, hstarted, hname⟩

/-! ### Snapshots -/

/-- A snapshot is that of the record, before and after it is taken. -/
private theorem record_of_snapshot {h : OperationHandle} {o : Operation} (ho : (m.pollOperation h).1 = .ok o) :
    (∃ r, m.operations.find? h.name = some r) ∧
      ∃ r, (m.pollOperation h).2.operations.find? h.name = some r ∧ r.operation = o := by
  have hans : m.pollOperation h = answer (.operation h) m := rfl
  rw [hans] at ho ⊢
  rcases m.poll_cases h with ⟨-, ha⟩ | ⟨-, -, ha⟩ | ⟨r, -, hr, ⟨-, ha⟩ | ⟨-, -, ha⟩ | ⟨-, -, ha⟩⟩ <;> rw [ha] at ho ⊢
  · exact absurd ho (by simp)
  · exact absurd ho (by simp)
  · exact ⟨⟨r, hr⟩, _, find?_operations_enter _ _ _, Except.ok.inj ho⟩
  · exact ⟨⟨r, hr⟩, _, find?_operations_enter _ _ _, Except.ok.inj ho⟩
  · exact ⟨⟨r, hr⟩, _, find?_operations_enter _ _ _, Except.ok.inj ho⟩

private theorem planFor_eq_ok {name : String} {e' : Effect} (h : m.planFor name e = .ok e') : e' = e := by
  unfold planFor at h
  split at h
  · exact absurd h (by simp)
  · exact (Except.ok.inj h).symm

private theorem error?_planFor (m : Memory) (name : String) (e : Effect) :
    error? (m.planFor name e) = m.scriptedFailures.find? name := by
  unfold planFor
  split
  · next x hx => exact hx.symm
  · next hx => exact hx.symm

/-- Every snapshot that a fetch brings is one of an operation that has been started. While it is not done, it reports the
failure that was ordered for the operation when it was started and nothing else; when it is done, it reports errors
exactly when the change that was asked for has not happened. -/
theorem snapshot_errors {project : String} {polls : Nat} {es : List Event} {h : OperationHandle} {o : Operation}
    (ho : ((((Memory.empty project).withPollsUntilDone polls).after es).pollOperation h).1 = .ok o) :
    ∃ es₀ c es₁ h₀ name e, es = es₀ ++ .call c :: es₁ ∧
      let m := ((Memory.empty project).withPollsUntilDone polls).after es₀
      started? c m = some h₀ ∧ h₀.name = h.name ∧ change? c m = some (name, e) ∧
        (o.isDone = false → o.errors = (m.scriptedFailures.find? name).toList) ∧
        (o.isDone = true →
          (o.errors ≠ [] ↔ ¬ Happened h.name e (es₁ ++ [.call (.operation h)]) (answer c m).2)) := by
  generalize hm₀ : (Memory.empty project).withPollsUntilDone polls = m₀ at ho ⊢
  obtain ⟨⟨r₀, hr₀⟩, r, hr, rfl⟩ := record_of_snapshot ho
  have hempty : m₀.operations.find? h.name = none := by
    rw [← hm₀]
    rfl
  obtain ⟨es₀, c, es₁, h₀, rfl, hstarted, hname⟩ := exists_started hempty hr₀
  have hkeyed : (m₀.after es₀).WellKeyed := by
    rw [← hm₀]
    exact WellKeyed.after (m := (Memory.empty project).withPollsUntilDone polls) (wellKeyed_empty project) es₀
  obtain ⟨target, e, hchange, hs⟩ := submitted_of_started hkeyed hstarted
  refine ⟨es₀, c, es₁, h₀, target.name, e, rfl, hstarted, hname, hchange, ?_⟩
  -- The record is followed from the start of the operation to the fetch.
  obtain ⟨r₁, hr₁, hawaits⟩ := hs.record
  have hnumber : h.name = operationName ((m₀.after es₀).operationCount + 1) := hname.symm.trans hs.name
  have htold : Told ((m₀.after es₀).planFor target.name e) e h.name [] (answer c (m₀.after es₀)).2 :=
    .running (hname ▸ hr₁) hawaits not_happened_nil
  rw [hnumber] at htold
  have htold := htold.after (Nat.le_of_eq hs.count.symm) (fun _ => planFor_eq_ok) (es₁ ++ [.call (.operation h)])
  rw [← hnumber, List.nil_append] at htold
  have hafter : ((answer c (m₀.after es₀)).2.after (es₁ ++ [.call (.operation h)])) =
      ((m₀.after (es₀ ++ .call c :: es₁)).pollOperation h).2 := by
    rw [after_append, after_append]
    rfl
  cases htold with
  | running hr' ha hnot =>
    rw [hafter] at hr'
    obtain rfl := Option.some.inj (hr.symm.trans hr')
    refine ⟨fun _ => ?_, fun hdone => ?_⟩
    · rw [ha.errors, error?_planFor]
    · rw [ha.running] at hdone
      exact absurd hdone (by simp)
  | done hr' hdone herrors =>
    rw [hafter] at hr'
    obtain rfl := Option.some.inj (hr.symm.trans hr')
    refine ⟨fun hrun => ?_, fun _ => herrors⟩
    rw [hdone] at hrun
    exact absurd hrun (by simp)
  | gone hnone =>
    rw [hafter, hr] at hnone
    exact absurd hnone (by simp)

private def insertNet : Event := .call (.insert .global (.network ⟨"net", "10.0.0.0/8", none⟩))

private def fetchNet (n : Nat) : OperationHandle :=
  ⟨operationName n, "", .insert, .global, ⟨.network, "net", "", .global, none⟩⟩

/-- The second of two inserts of a network is done with an error, since it has not happened. -/
theorem snapshot_errors_of_duplicate :
    ∃ o, ((((Memory.empty "project").withPollsUntilDone 1).after
        [insertNet, insertNet, .call (.operation (fetchNet 1))]).pollOperation (fetchNet 2)).1 = .ok o ∧
      o.isDone = true ∧ ∃ es₀ c es₁ name e,
        [insertNet, insertNet, .call (.operation (fetchNet 1))] = es₀ ++ .call c :: es₁ ∧
        change? c (((Memory.empty "project").withPollsUntilDone 1).after es₀) = some (name, e) ∧
        ¬ Happened (fetchNet 2).name e (es₁ ++ [.call (.operation (fetchNet 2))])
          (answer c (((Memory.empty "project").withPollsUntilDone 1).after es₀)).2 := by
  have hfetch : ∃ o, ((((Memory.empty "project").withPollsUntilDone 1).after
      [insertNet, insertNet, .call (.operation (fetchNet 1))]).pollOperation (fetchNet 2)).1 = .ok o ∧
        o.isDone = true ∧ o.errors ≠ [] := ⟨_, rfl, rfl, List.cons_ne_nil _ _⟩
  obtain ⟨o, ho, hdone, herrors⟩ := hfetch
  obtain ⟨es₀, c, es₁, h₀, name, e, hes, -, -, hchange, -, hiff⟩ := snapshot_errors ho
  exact ⟨o, ho, hdone, es₀, c, es₁, name, e, hes, hchange, (hiff hdone).1 herrors⟩

/-- A failure that is ordered for an operation is reported already while the operation is not done. -/
theorem pending_operation_fails :
    let m := ((Memory.empty "project").withPollsUntilDone 2).after
      [.fault (.failOperation "net" .quotaExceeded "Quota 'NETWORKS' exceeded"), insertNet]
    ∃ o, (m.pollOperation (fetchNet 1)).1 = .ok o ∧ o.isDone = false ∧ o.errors ≠ [] :=
  ⟨_, rfl, rfl, List.cons_ne_nil _ _⟩

end Memory

end Fleet
