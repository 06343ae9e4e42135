import Fleet.Proofs.Client.Waiting
import Fleet.Proofs.Record.Client

/-!
# What decides about a change

Waiting for an operation is one request after the other. All but the last have shown it running, and the answer to the
last one decides (`Client.Followed`, `Client.Verdict`). A change is carried out by a request for it and by waiting for
the operation as which it was accepted (`Client.Carried`); whether it has succeeded can be told from the answers alone
(`Client.Carried.ok_iff`, `Client.Carried.error_of_refused`). Reading makes its result of the answer to one request
(`Client.Fetched`).
-/

namespace Fleet

variable {n : Nat} {call : Call}

/-- The operation as which a change was accepted. -/
def Call.operation? : (call : Call) → call.Value → Option OperationHandle
  | .insert _ _, h => some h
  | .delete _ _ _, h => some h
  | .setTags _ _ _ _, h => some h
  | _, _ => none

/-- A failure that tells something about a change, and not that nothing is known of it or that there is nothing to
change. -/
structure Failure.IsReason (f : Failure) : Prop where
  known : ¬ f.GivesUp
  reached : ∀ m, f ≠ .transport m
  found : f.isNotFound = false

theorem Failure.IsReason.of_code {f : Failure} {code : ErrorCode} (hf : f.code? = some code)
    (hfound : code ≠ .notFound) : f.IsReason := by
  cases f with
  | rejected | operationFailed =>
    cases hf
    exact ⟨id, by simp, by simpa [Failure.isNotFound, Failure.code?] using hfound⟩
  | _ => cases hf

theorem Failure.isReason_of_isAlreadyExists {f : Failure} (hf : f.isAlreadyExists = true) : f.IsReason :=
  .of_code (eq_of_beq hf) (by decide)

/-! ### Requests -/

/-- The last attempt comes first. -/
theorem Request.sent {r : Except Failure call.Value} {es : List (Exchange Cloud)} (h : Request n call r es) :
    Client.Sent call r es := by
  cases h with
  | answered _ hlost _ => exact ⟨_, _, _, rfl, hlost, .inl rfl⟩
  | givenUp hlost _ => exact ⟨_, _, _, rfl, hlost, .inr ⟨_, _, rfl, rfl⟩⟩

theorem Request.mem_of_ok {v : call.Value} {es : List (Exchange Cloud)} (h : Request n call (.ok v) es) :
    ∃ t, ⟨t, call, .ok v⟩ ∈ es := by
  obtain ⟨t, lost, rfl, -⟩ := h.sent.eq_cons_of_ok
  exact ⟨t, List.mem_cons_self⟩

/-- An answer is the outcome, unless it is that the platform could not be reached. -/
theorem Request.eq_of_mem {r a : Except Failure call.Value} {es : List (Exchange Cloud)} (h : Request n call r es)
    {t : Nat} (ha : ⟨t, call, a⟩ ∈ es) (hreached : ∀ m, a ≠ .error (.transport m)) : r = a := by
  have hlost {lost : List (Exchange Cloud)} (hlost : ∀ e ∈ lost, ∃ s m, e = ⟨s, call, .error (.transport m)⟩) :
      ⟨t, call, a⟩ ∉ lost := by
    intro hmem
    obtain ⟨s, m, he⟩ := hlost _ hmem
    cases he
    exact hreached m rfl
  cases h with
  | answered _ hes _ =>
    rcases List.mem_cons.1 ha with he | hmem
    · cases he
      rfl
    · exact absurd hmem (hlost hes)
  | givenUp hes _ =>
    rcases List.mem_cons.1 ha with he | hmem
    · cases he
      exact absurd rfl (hreached _)
    · exact absurd hmem (hlost hes)

namespace Client

/-! ### Operations -/

/-- What the answer to the last question for an operation makes of the wait for it. -/
inductive Verdict (h : OperationHandle) : Except Failure Operation → Except Failure Summary → Prop
  /-- That the platform has no record of the operation has a name of its own. -/
  | unread (f : Failure) : Verdict h (.error f) (.error (if f.isNotFound then .lost h.name else f))
  | done {o : Operation} (ho : o.isDone = true) : Verdict h (.ok o) (settled h o)
  | running {o : Operation} (ho : o.isDone = false) (waited : Nat) :
      Verdict h (.ok o) (.error (.timeout h.name waited))

/-- The requests of a wait for an operation, with the outcome `r`. The latest exchange comes first. -/
inductive Followed (limit : Nat) (h : OperationHandle) : Except Failure Summary → List (Exchange Cloud) → Prop
  | last {a : Except Failure Operation} {r : Except Failure Summary} {es : List (Exchange Cloud)}
      (hpoll : Request limit (.operation h) a es) (hr : Verdict h a r) : Followed limit h r es
  | again {o : Operation} {r : Except Failure Summary} {es es' : List (Exchange Cloud)}
      (hpoll : Request limit (.operation h) (.ok o) es) (ho : o.isDone = false) (hrest : Followed limit h r es') :
      Followed limit h r (es' ++ es)

variable {limit : Nat} {h : OperationHandle} {r : Except Failure Summary} {es es' : List (Exchange Cloud)}

theorem Verdict.eq_settled {o : Operation} (hr : Verdict h (.ok o) r) (ho : o.isDone = true) : r = settled h o := by
  cases hr with
  | done _ => rfl
  | running hrunning _ => exact absurd ho (by simp [hrunning])

theorem Verdict.eq_error {f : Failure} (hr : Verdict h (.error f) r) :
    r = .error (if f.isNotFound then .lost h.name else f) := by
  cases hr
  rfl

theorem Followed.query_eq (hw : Followed limit h r es) : ∀ e ∈ es, e.query = .operation h := by
  induction hw with
  | last hpoll _ => exact hpoll.query_eq
  | again hpoll _ _ ih => exact fun e he => (List.mem_append.1 he).elim (ih e) (hpoll.query_eq e)

/-- The last exchange of a wait is that of a request with the outcome that decides. -/
theorem Followed.exists_last (hw : Followed limit h r es) :
    ∃ t a b es', es = ⟨t, .operation h, a⟩ :: es' ∧ Verdict h b r ∧
      (b = a ∨ ∃ n m, b = .error (.transportExhausted n m) ∧ a = .error (.transport m)) := by
  induction hw with
  | last hpoll hr =>
    obtain ⟨t, a, lost, rfl, -, hra⟩ := hpoll.sent
    exact ⟨t, a, _, lost, rfl, hr, hra⟩
  | again _ _ _ ih =>
    obtain ⟨t, a, b, es', rfl, hr, hab⟩ := ih
    exact ⟨t, a, b, es' ++ _, rfl, hr, hab⟩

/-- An answer decides unless it shows the operation running, or is that the platform could not be reached. -/
theorem Followed.verdict (hw : Followed limit h r es) {t : Nat} {h' : OperationHandle} {a : Except Failure Operation}
    (hmem : ⟨t, .operation h', a⟩ ∈ es) (hreached : ∀ m, a ≠ .error (.transport m))
    (hdone : ∀ o, a = .ok o → o.isDone = true) : Verdict h' a r := by
  obtain rfl : h' = h := Call.operation.inj (hw.query_eq _ hmem)
  induction hw with
  | last hpoll hr =>
    obtain rfl := hpoll.eq_of_mem hmem hreached
    exact hr
  | @again o r es es' hpoll hrunning _ ih =>
    refine ih ((List.mem_append.1 hmem).resolve_right fun hmem => ?_)
    exact absurd (hdone o (hpoll.eq_of_mem hmem hreached).symm) (by simp [hrunning])

theorem settled_eq_ok_iff {o : Operation} {v : Summary} : settled h o = .ok v ↔ o.errors = [] ∧ h.target = v := by
  unfold settled Operation.primaryError?
  cases o.errors <;> simp

theorem settled_eq_error_iff {o : Operation} {f : Failure} : settled h o = .error f ↔
    ∃ x, o.primaryError? = some x ∧ .operationFailed h.name x.code x.message = f := by
  unfold settled
  cases o.primaryError? <;> simp

/-- A wait that succeeds has ended with a snapshot that shows the operation done without errors. -/
theorem Followed.mem_of_ok {v : Summary} (hw : Followed limit h (.ok v) es) :
    ∃ t o, ⟨t, .operation h, .ok o⟩ ∈ es ∧ o.isDone = true ∧ o.errors = [] := by
  obtain ⟨t, a, b, es', rfl, hr, hab⟩ := hw.exists_last
  generalize hv : (Except.ok v : Except Failure Summary) = r at hr
  cases hr with
  | unread f => cases hv
  | running _ _ => cases hv
  | @done o ho =>
    rcases hab with rfl | ⟨n, m, hnm, -⟩
    · exact ⟨t, o, List.mem_cons_self, ho, (settled_eq_ok_iff.1 hv.symm).1⟩
    · cases hnm

/-- A wait that fails has been told so, in the place of an answer or as the first error of the operation, unless the
client has given up. -/
theorem Followed.mem_of_error {f : Failure} (hw : Followed limit h (.error f) es) (hf : ¬ f.GivesUp) :
    ∃ t, ⟨t, .operation h, .error f⟩ ∈ es ∨ ∃ o x, ⟨t, .operation h, .ok o⟩ ∈ es ∧ o.isDone = true ∧
      o.primaryError? = some x ∧ .operationFailed h.name x.code x.message = f := by
  obtain ⟨t, a, b, es', rfl, hr, hab⟩ := hw.exists_last
  generalize hg : (Except.error f : Except Failure Summary) = r at hr
  cases hr with
  | unread g =>
    have hg := Except.error.inj hg
    by_cases hmissing : g.isNotFound = true
    · rw [if_pos hmissing] at hg
      cases hg
      exact absurd trivial hf
    rw [if_neg hmissing] at hg
    obtain rfl := hg
    rcases hab with rfl | ⟨n, m, hnm, -⟩
    · exact ⟨t, .inl List.mem_cons_self⟩
    · cases hnm
      exact absurd trivial hf
  | running _ _ =>
    cases hg
    exact absurd trivial hf
  | @done o ho =>
    obtain ⟨x, hx, hfx⟩ := settled_eq_error_iff.1 hg.symm
    rcases hab with rfl | ⟨n, m, hnm, -⟩
    · exact ⟨t, .inr ⟨o, x, List.mem_cons_self, ho, hx, hfx⟩⟩
    · cases hnm

/-- Reading a snapshot of an operation, where a missing record has a name of its own. -/
private def named (h : OperationHandle) : Except Failure Operation → Except Failure Operation
  | .error f => .error (if f.isNotFound then .lost h.name else f)
  | .ok o => .ok o

private theorem always_snapshot_named (c : Client) (h : OperationHandle) : (c.snapshot h).run.Always fun r es =>
    ∃ a, Request c.retry.limit (.operation h) a es ∧ r = named h a := by
  refine Program.always_bind.2 ((c.always_send_request (.operation h)).mono fun a es ha => ?_)
  cases a with
  | ok o => exact Program.always_done.2 ⟨_, ha, rfl⟩
  | error f =>
    show (if f.isNotFound = true then _ else _ : Program Cloud _).Always _
    split
    · next hf => exact Program.always_done.2 ⟨_, ha, by rw [named, if_pos hf]⟩
    · next hf => exact Program.always_done.2 ⟨_, ha, by rw [named, if_neg hf]⟩

/-- One poll: it decides, or what comes next does. -/
private theorem always_poll_followed (c : Client) (h : OperationHandle) {next : Nat → Action Summary}
    (hnext : ∀ now, (next now).run.Always fun r es =>
      (∃ waited, r = .error (.timeout h.name waited) ∧ es = []) ∨ Followed c.retry.limit h r es) :
    (do
      let o ← c.snapshot h
      if o.isDone then ExceptT.mk (.done (settled h o))
      else
        let now ← ExceptT.lift Program.now
        next now : Action Summary).run.Always (Followed c.retry.limit h) := by
  refine Action.always_bind ((always_snapshot_named c h).mono fun r es hr => ?_)
  obtain ⟨f | o, ha, rfl⟩ := hr
  · exact .last ha (.unread f)
  · show (if o.isDone = true then _ else _ : Action Summary).run.Always _
    by_cases hd : o.isDone = true
    · rw [if_pos hd]
      exact Action.always_result (.last ha (.done hd))
    · have hrunning : o.isDone = false := Bool.eq_false_iff.2 hd
      rw [if_neg hd]
      refine Action.always_now fun now => (hnext now).mono fun r es' hr => ?_
      rcases hr with ⟨waited, rfl, rfl⟩ | hr
      · exact .last ha (.running hrunning waited)
      · exact .again ha hrunning hr

private theorem always_awaitFrom_followed (c : Client) (h : OperationHandle) (started deadline fuel poll : Nat) :
    (c.awaitFrom h started deadline fuel poll).run.Always (Followed c.retry.limit h) := by
  have gaveUp (waited : Nat) : (throw (.timeout h.name waited) : Action Summary).run.Always fun r es =>
      (∃ waited, r = .error (.timeout h.name waited) ∧ es = []) ∨ Followed c.retry.limit h r es :=
    Action.always_throw (.inl ⟨waited, rfl, rfl⟩)
  induction fuel generalizing poll with
  | zero =>
    unfold awaitFrom
    refine always_poll_followed c h fun now => ?_
    split <;> exact gaveUp _
  | succ fuel ih =>
    unfold awaitFrom
    refine always_poll_followed c h fun now => ?_
    split
    · exact gaveUp _
    · exact Program.always_sleep.2 ((ih (poll + 1)).mono fun _ _ hr => .inr hr)

-- The fuel is a large number that must not be computed with, so it is a variable here.
private theorem always_clock_followed (c : Client) (h : OperationHandle) (ms fuel : Nat) :
    (Program.clock fun started => (c.awaitFrom h started (started + ms) fuel 0).run).Always
      (Followed c.retry.limit h) :=
  Program.always_clock.2 fun started => always_awaitFrom_followed c h started (started + ms) fuel 0

theorem always_awaitDoneWithin_followed (c : Client) (h : OperationHandle) (timeoutMs : Nat) :
    (c.awaitDoneWithin h timeoutMs).run.Always (Followed c.retry.limit h) := by
  rw [run_awaitDoneWithin]
  exact always_clock_followed c h _ _

theorem always_awaitDone_followed (c : Client) (h : OperationHandle) :
    (c.awaitDone h).run.Always (Followed c.retry.limit h) := c.always_awaitDoneWithin_followed h c.poll.timeoutMs

/-! ### Changes -/

/-- A change is requested, and when it is accepted, the operation is waited for. The outcome is `r`. -/
inductive Carried (limit : Nat) (call : Call) : Except Failure Summary → (polls submission : List (Exchange Cloud)) → Prop
  | refused {f : Failure} {es : List (Exchange Cloud)} (h : Request limit call (.error f) es) :
      Carried limit call (.error f) [] es
  | accepted {v : call.Value} {h : OperationHandle} {r : Except Failure Summary} {es es' : List (Exchange Cloud)}
      (ha : Request limit call (.ok v) es) (hv : call.operation? v = some h) (hw : Followed limit h r es') :
      Carried limit call r es' es

/-- The change was accepted as an operation, and a snapshot shows it done, as `P` says. -/
def Showed (call : Call) (P : OperationHandle → Operation → Prop) (es : List (Exchange Cloud)) : Prop :=
  ∃ t v h t' o, ⟨t, call, .ok v⟩ ∈ es ∧ call.operation? v = some h ∧ ⟨t', .operation h, .ok o⟩ ∈ es ∧
    o.isDone = true ∧ P h o

/-- The platform has given `f` as the reason that the change failed: when it refused the request, when it was asked for
the operation as which the request was accepted, or by the first error of that operation. -/
def Blamed (call : Call) (f : Failure) (es : List (Exchange Cloud)) : Prop :=
  (∃ t, ⟨t, call, .error f⟩ ∈ es) ∨
    (∃ t v h t', ⟨t, call, .ok v⟩ ∈ es ∧ call.operation? v = some h ∧ ⟨t', .operation h, .error f⟩ ∈ es) ∨
    Showed call (fun h o => ∃ x, o.primaryError? = some x ∧ .operationFailed h.name x.code x.message = f) es

section Changes

variable {polls submission : List (Exchange Cloud)}

theorem Carried.request (hc : Carried limit call r polls submission) : ∃ a, Request limit call a submission := by
  cases hc with
  | refused ha => exact ⟨_, ha⟩
  | accepted ha _ _ => exact ⟨_, ha⟩

theorem Carried.polls_query (hc : Carried limit call r polls submission) :
    ∀ e ∈ polls, ∃ h, e.query = .operation h := by
  cases hc with
  | refused _ => simp
  | accepted _ _ hw => exact fun e he => ⟨_, hw.query_eq e he⟩

/-- The change is asked for by the request alone. -/
theorem Carried.filter_eq (hc : Carried limit call r polls submission) (hcall : ∀ h, call ≠ .operation h) :
    ((polls ++ submission).filter fun e => e.query = call) = submission := by
  have hpolls : (polls.filter fun e => e.query = call) = [] := by
    refine List.filter_eq_nil_iff.2 fun e he => ?_
    obtain ⟨h, hh⟩ := hc.polls_query e he
    simpa [hh] using (hcall h).symm
  obtain ⟨a, ha⟩ := hc.request
  rw [List.filter_append, hpolls, List.nil_append]
  exact List.filter_eq_self.2 fun e he => decide_eq_true (ha.query_eq e he)

/-- Questions for operations belong to the wait. -/
private theorem Carried.accepted_of_mem (hc : Carried limit call r polls submission)
    (hcall : ∀ h, call ≠ .operation h) {t : Nat} {h : OperationHandle} {a : Except Failure Operation}
    (ha : ⟨t, .operation h, a⟩ ∈ polls ++ submission) :
    ∃ h', Followed limit h' r polls ∧ ⟨t, .operation h, a⟩ ∈ polls := by
  have hmem : ⟨t, .operation h, a⟩ ∈ polls := by
    refine (List.mem_append.1 ha).resolve_right fun hmem => ?_
    obtain ⟨b, hb⟩ := hc.request
    exact hcall h (hb.query_eq _ hmem).symm
  cases hc with
  | refused _ => cases hmem
  | accepted _ _ hw => exact ⟨_, hw, hmem⟩

/-- An answer to the question for the operation decides about the change. -/
theorem Carried.verdict (hc : Carried limit call r polls submission) (hcall : ∀ h, call ≠ .operation h) {t : Nat}
    {h : OperationHandle} {a : Except Failure Operation} (ha : ⟨t, .operation h, a⟩ ∈ polls ++ submission)
    (hreached : ∀ m, a ≠ .error (.transport m)) (hdone : ∀ o, a = .ok o → o.isDone = true) : Verdict h a r := by
  obtain ⟨h', hw, hmem⟩ := hc.accepted_of_mem hcall ha
  exact hw.verdict hmem hreached hdone

/-- What the platform refuses is not waited for. -/
theorem Carried.error_of_refused (hc : Carried limit call r polls submission) (hcall : ∀ h, call ≠ .operation h)
    {t : Nat} {f : Failure} (hf : ⟨t, call, .error f⟩ ∈ polls ++ submission) (hreached : ∀ m, f ≠ .transport m) :
    r = .error f := by
  have hsubmission : ⟨t, call, .error f⟩ ∈ submission := by
    refine (List.mem_append.1 hf).resolve_left fun hmem => ?_
    obtain ⟨h, hh⟩ := hc.polls_query _ hmem
    exact hcall h hh
  have hne : ∀ m, (Except.error f : Except Failure call.Value) ≠ .error (.transport m) := fun m hm =>
    hreached m (Except.error.inj hm)
  cases hc with
  | refused ha => exact congrArg _ (Except.error.inj (ha.eq_of_mem hsubmission hne))
  | accepted ha _ _ => cases ha.eq_of_mem hsubmission hne

/-- A change succeeds when its operation is seen done without errors, and not otherwise. -/
theorem Carried.ok_iff (hc : Carried limit call r polls submission) (hcall : ∀ h, call ≠ .operation h) :
    (∃ v, r = .ok v) ↔ Showed call (fun _ o => o.errors = []) (polls ++ submission) := by
  constructor
  · rintro ⟨v, rfl⟩
    cases hc with
    | accepted ha hv hw =>
      obtain ⟨t, hmem⟩ := ha.mem_of_ok
      obtain ⟨t', o, hmem', hdone, herrors⟩ := hw.mem_of_ok
      exact ⟨t, _, _, t', o, List.mem_append_right _ hmem, hv, List.mem_append_left _ hmem', hdone, herrors⟩
  · rintro ⟨t, v, h, t', o, -, -, ho, hdone, herrors⟩
    have hr : Verdict h (.ok o) r := hc.verdict hcall ho (fun m => nofun) fun o' ho' => Except.ok.inj ho' ▸ hdone
    exact ⟨h.target, (hr.eq_settled hdone).trans (settled_eq_ok_iff.2 ⟨herrors, rfl⟩)⟩

/-- A change fails for the reason that the platform gives, unless the client gives up. -/
theorem Carried.error_iff (hc : Carried limit call r polls submission) (hcall : ∀ h, call ≠ .operation h)
    {f : Failure} (hf : f.IsReason) : r = .error f ↔ Blamed call f (polls ++ submission) := by
  obtain ⟨hf, hreached, hfound⟩ := hf
  constructor
  · rintro rfl
    cases hc with
    | refused ha =>
      rcases ha.sent.answered with ⟨t, hmem⟩ | ⟨n, m, hnm⟩
      · exact .inl ⟨t, hmem⟩
      · cases hnm
        exact absurd trivial hf
    | accepted ha hv hw =>
      obtain ⟨t, hmem⟩ := ha.mem_of_ok
      have hmem := List.mem_append_right polls hmem
      obtain ⟨t', hrefused | ⟨o, x, hmem', hdone, hx, hfx⟩⟩ := hw.mem_of_error hf
      · exact .inr (.inl ⟨t, _, _, t', hmem, hv, List.mem_append_left _ hrefused⟩)
      · exact .inr (.inr ⟨t, _, _, t', o, hmem, hv, List.mem_append_left _ hmem', hdone, x, hx, hfx⟩)
  · rintro (⟨t, hmem⟩ | ⟨t, v, h, t', -, -, hmem⟩ | ⟨t, v, h, t', o, -, -, ho, hdone, hx⟩)
    · exact hc.error_of_refused hcall hmem hreached
    · have hr : Verdict h (.error f) r := hc.verdict hcall hmem (fun m hm => hreached m (Except.error.inj hm)) fun o => nofun
      rw [hr.eq_error, hfound, if_neg Bool.false_ne_true]
    · have hr : Verdict h (.ok o) r := hc.verdict hcall ho (fun m => nofun) fun o' ho' => Except.ok.inj ho' ▸ hdone
      exact (hr.eq_settled hdone).trans (settled_eq_error_iff.2 hx)

/-- A change that is requested by `a` and then waited for. -/
theorem always_carried (c : Client) {a : Action OperationHandle} {call : Call}
    {asked : Except Failure OperationHandle → List (Exchange Cloud) → Prop} (ha : a.run.Always asked)
    (hrefused : ∀ f es, asked (.error f) es → Request c.retry.limit call (.error f) es)
    (haccepted : ∀ h es, asked (.ok h) es → ∃ v, call.operation? v = some h ∧ Request c.retry.limit call (.ok v) es) :
    (do
      let h ← a
      c.awaitDone h : Action Summary).run.Always fun r es =>
        ∃ polls submission, es = polls ++ submission ∧ Carried c.retry.limit call r polls submission := by
  refine Action.always_bind (ha.mono fun r es hr => ?_)
  cases r with
  | error f => exact ⟨[], es, rfl, .refused (hrefused f es hr)⟩
  | ok h =>
    obtain ⟨v, hv, hr⟩ := haccepted h es hr
    exact (c.always_awaitDone_followed h).mono fun r es' hw => ⟨es', es, rfl, .accepted hr hv hw⟩

theorem always_update_carried (c : Client) (kind : Kind) (scope : Scope) (name : String) (tags : Tags) :
    (c.update kind scope name tags).run.Always fun r es => ∃ polls submission, es = polls ++ submission ∧
      Carried c.retry.limit (.setTags kind scope name tags) r polls submission :=
  c.always_carried (c.always_send_request (.setTags kind scope name tags)) (fun _ _ h => h) fun h _ hr => ⟨h, rfl, hr⟩

theorem always_delete_carried (c : Client) (kind : Kind) (scope : Scope) (name : String) :
    (c.delete kind scope name).run.Always fun r es => ∃ o polls submission, es = polls ++ submission ∧
      Carried c.retry.limit (.delete kind scope name) o polls submission ∧ r = o.map fun _ => () := by
  refine Action.always_bind ((c.always_send_request (.delete kind scope name)).mono fun a es ha => ?_)
  cases a with
  | error f => exact ⟨.error f, [], es, rfl, .refused ha, rfl⟩
  | ok h =>
    refine Action.always_discard ((c.always_awaitDone_followed h).mono fun o es' hw => ?_)
    cases o with
    | error f => exact ⟨.error f, es', es, rfl, .accepted ha rfl hw, rfl⟩
    | ok v => exact ⟨.ok v, es', es, rfl, .accepted ha rfl hw, rfl⟩

/-- What a deletion with an outcome tells about the resource. -/
def existed : Except Failure Summary → Except Failure Bool
  | .ok _ => .ok true
  | .error f => if f.isNotFound then .ok false else .error f

theorem always_deleteIfExists_carried (c : Client) (kind : Kind) (scope : Scope) (name : String) :
    (c.deleteIfExists kind scope name).run.Always fun r es => ∃ o polls submission, es = polls ++ submission ∧
      Carried c.retry.limit (.delete kind scope name) o polls submission ∧ r = existed o := by
  refine Action.always_bind (Action.always_outcome ((c.always_delete_carried kind scope name).mono fun r es hr => ?_))
  obtain ⟨o, polls, submission, rfl, hc, rfl⟩ := hr
  cases o with
  | ok v => exact Action.always_pure ⟨.ok v, polls, submission, rfl, hc, rfl⟩
  | error f =>
    show (if f.isNotFound = true then pure false else throw f : Action Bool).run.Always _
    split
    · next hf => exact Action.always_pure ⟨.error f, polls, submission, rfl, hc, by rw [existed, if_pos hf]⟩
    · next hf => exact Action.always_throw ⟨.error f, polls, submission, rfl, hc, by rw [existed, if_neg hf]⟩

end Changes

/-! ### Reading -/

/-- What is made of the answer to the question for a resource. -/
def reading (kind : Kind) (name : String) : Except Failure (Option Resource) → Except Failure kind.Record
  | .error f => .error f
  | .ok none => .error (.missing (kind.text ++ " " ++ name))
  | .ok (some r) => Resource.ofKind? kind r

/-- A resource has been read, with the outcome `r`. -/
def Fetched (limit : Nat) (kind : Kind) (scope : Scope) (name : String) (r : Except Failure kind.Record)
    (es : List (Exchange Cloud)) : Prop :=
  ∃ a, Request limit (.get kind scope name) a es ∧ r = reading kind name a

variable {kind : Kind} {scope : Scope} {name : String}

theorem Fetched.query_eq {r : Except Failure kind.Record} (hf : Fetched limit kind scope name r es) :
    ∀ e ∈ es, e.query = .get kind scope name := by
  obtain ⟨a, ha, -⟩ := hf
  exact ha.query_eq

/-- A resource has been read when the last answer is a resource of the kind, and not otherwise. -/
theorem Fetched.ok_iff {r : Except Failure kind.Record} (hf : Fetched limit kind scope name r es) (v : kind.Record) :
    r = .ok v ↔ ∃ t es', es = ⟨t, .get kind scope name, .ok (some (.ofRecord kind v))⟩ :: es' := by
  obtain ⟨a, ha, rfl⟩ := hf
  constructor
  · intro hv
    rcases a with f | _ | x
    · cases hv
    · cases hv
    · obtain ⟨t, lost, rfl, -⟩ := ha.sent.eq_cons_of_ok
      rw [← Resource.ofRecord_of_ofKind? hv]
      exact ⟨t, lost, rfl⟩
  · rintro ⟨t, es', rfl⟩
    rw [ha.eq_of_mem List.mem_cons_self fun m => nofun, reading, Resource.ofKind?_ofRecord]

theorem always_fetch_fetched (c : Client) (kind : Kind) (scope : Scope) (name : String) :
    (c.fetch kind scope name).run.Always (Fetched c.retry.limit kind scope name) := by
  unfold fetch fetch?
  refine Action.always_bind (Action.always_bind ((c.always_send_request (.get kind scope name)).mono fun a es ha => ?_))
  rcases a with f | _ | x
  · exact ⟨_, ha, rfl⟩
  · exact Action.always_pure (Action.always_throw ⟨_, ha, rfl⟩)
  · refine Action.always_result ?_
    have hr : reading kind name (.ok (some x)) = Resource.ofKind? kind x := rfl
    cases hx : Resource.ofKind? kind x with
    | error f => exact ⟨_, ha, (hr.trans hx).symm⟩
    | ok v => exact Action.always_pure ⟨_, ha, (hr.trans hx).symm⟩

end Client

end Fleet
