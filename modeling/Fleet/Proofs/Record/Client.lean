import Fleet.Proofs.Record.Request

/-!
# What clients leave in the record

The exchanges of a client with any platform: a call that is sent again while the platform cannot be reached
(`always_send`), an operation that is waited for (`always_awaitDone`) and a deletion (`always_deleteIfExists`). What
matters is what the platform has said: a deletion that fails has not been confirmed, and one that fails because the
resource is in use has been told so.
-/

namespace Fleet

variable {α β : Type}

namespace Exchange

/-- The operation as which a deletion of a resource of a kind was accepted. -/
def deletes? (kind : Kind) : Exchange Cloud → Option OperationHandle
  | ⟨_, .delete k _ _, .ok h⟩ => if k = kind then some h else none
  | _ => none

/-- Whether the platform says that an operation is done without errors. -/
def confirms : Exchange Cloud → OperationHandle → Bool
  | ⟨_, .operation h, .ok o⟩, h' => h == h' && o.isDone && o.errors.isEmpty
  | _, _ => false

/-- Whether the platform says that something is in use, by refusing the call or in the errors of an operation. -/
def saysInUse : Exchange Cloud → Bool
  | ⟨_, _, .error f⟩ => f.isInUse
  | ⟨_, .operation _, .ok o⟩ => o.primaryError?.any fun x => x.code == .resourceInUse
  | _ => false

theorem deletes?_eq_none {e : Exchange Cloud} {kind : Kind} (h : ∀ scope name, e.query ≠ Call.delete kind scope name) :
    e.deletes? kind = none := by
  obtain ⟨t, q, a⟩ := e
  cases q with
  | delete k scope name =>
    have hk : k ≠ kind := fun hk => h scope name (by rw [← hk])
    rcases a with f | o
    · rfl
    · exact if_neg hk
  | _ => rfl

theorem confirms_eq_false {e : Exchange Cloud} (h : ∀ o, e.query ≠ Call.operation o) (o : OperationHandle) :
    e.confirms o = false := by
  obtain ⟨t, q, a⟩ := e
  cases q with
  | operation o' => exact absurd rfl (h o')
  | _ => rfl

end Exchange

/-- Whether a deletion of a resource of a kind was accepted and done without errors later on. The latest exchange is
the first one. -/
def hasDeleted (kind : Kind) : List (Exchange Cloud) → Bool
  | [] => false
  | e :: es => (es.filterMap (Exchange.deletes? kind)).any e.confirms || hasDeleted kind es

theorem hasDeleted_eq_false {kind : Kind} {es : List (Exchange Cloud)} (h : ∀ e ∈ es, e.deletes? kind = none) :
    hasDeleted kind es = false := by
  induction es with
  | nil => rfl
  | cons e es ih =>
    have hes : ∀ e' ∈ es, e'.deletes? kind = none := fun e' he' => h e' (List.mem_cons_of_mem _ he')
    have hnone : es.filterMap (Exchange.deletes? kind) = [] := List.filterMap_eq_nil_iff.2 hes
    simp [hasDeleted, hnone, ih hes]

/-- Nothing has been deleted when the platform has confirmed nothing after the first deletion was asked for. -/
theorem hasDeleted_append {kind : Kind} {later earlier : List (Exchange Cloud)}
    (hlater : ∀ e ∈ later, ∀ o, e.confirms o = false) (hearlier : ∀ e ∈ earlier, e.deletes? kind = none) :
    hasDeleted kind (later ++ earlier) = false := by
  induction later with
  | nil => exact hasDeleted_eq_false hearlier
  | cons e es ih =>
    have hno : ∀ o, e.confirms o = false := hlater e List.mem_cons_self
    have hes := ih fun e' he' => hlater e' (List.mem_cons_of_mem _ he')
    simp only [List.cons_append, hasDeleted, hes, Bool.or_false, List.any_eq_false]
    intro o _
    simp [hno o]

theorem hasDeleted_append_left {kind : Kind} {later earlier : List (Exchange Cloud)}
    (hearlier : ∀ e ∈ earlier, e.deletes? kind = none) :
    hasDeleted kind (later ++ earlier) = hasDeleted kind later := by
  induction later with
  | nil => exact hasDeleted_eq_false hearlier
  | cons e es ih =>
    have hnone : earlier.filterMap (Exchange.deletes? kind) = [] := List.filterMap_eq_nil_iff.2 hearlier
    rw [List.cons_append, hasDeleted, hasDeleted, ih, List.filterMap_append, hnone, List.append_nil]

/-! ### Actions -/

namespace Action

theorem always_bind {a : Action α} {k : α → Action β} {Q : Except Failure β → List (Exchange Cloud) → Prop}
    (h : a.run.Always fun r es => match r with
      | .ok v => (k v).run.Always fun r' es' => Q r' (es' ++ es)
      | .error f => Q (.error f) es) : (a >>= k).run.Always Q := by
  refine Program.always_bind.2 (h.mono fun r es hr => ?_)
  cases r with
  | ok v => exact hr
  | error f => exact Program.always_done.2 hr

theorem always_pure {v : α} {Q : Except Failure α → List (Exchange Cloud) → Prop} (h : Q (.ok v) []) :
    (pure v : Action α).run.Always Q := Program.always_done.2 h

theorem always_throw {f : Failure} {Q : Except Failure α → List (Exchange Cloud) → Prop} (h : Q (.error f) []) :
    (throw f : Action α).run.Always Q := Program.always_done.2 h

theorem always_result {r : Except Failure α} {Q : Except Failure α → List (Exchange Cloud) → Prop} (h : Q r []) :
    (ExceptT.mk (.done r) : Action α).run.Always Q := Program.always_done.2 h

theorem always_now {k : Nat → Action α} {Q : Except Failure α → List (Exchange Cloud) → Prop}
    (h : ∀ t, (k t).run.Always Q) : (ExceptT.lift Program.now >>= k).run.Always Q :=
  Program.always_clock.2 h

theorem always_lift {p : Program Cloud α} {k : α → Action β} {Q : Except Failure β → List (Exchange Cloud) → Prop}
    (h : p.Always fun a es => (k a).run.Always fun r es' => Q r (es' ++ es)) :
    (ExceptT.lift p >>= k).run.Always Q :=
  Program.always_bind.2 (Program.always_bind.2 (h.mono fun _ _ ha => Program.always_done.2 ha))

theorem always_discard {a : Action α} {Q : Except Failure Unit → List (Exchange Cloud) → Prop}
    (h : a.run.Always fun r es => match r with
      | .ok _ => Q (.ok ()) es
      | .error f => Q (.error f) es) : (discard a : Action Unit).run.Always Q := by
  refine Program.always_bind.2 (h.mono fun r es hr => ?_)
  cases r with
  | ok v => exact Program.always_done.2 hr
  | error f => exact Program.always_done.2 hr

theorem always_outcome {a : Action α} {Q : Except Failure (Except Failure α) → List (Exchange Cloud) → Prop}
    (h : a.run.Always fun r es => Q (.ok r) es) : a.outcome.run.Always Q :=
  Program.always_bind.2 (h.mono fun _ _ hr => Program.always_done.2 hr)

end Action

namespace Client

variable {call : Call} {es : List (Exchange Cloud)}

/-! ### Sending again -/

/-- A call has been made until the platform could be reached, or given up. -/
def Sent (call : Call) (r : Except Failure call.Value) (es : List (Exchange Cloud)) : Prop :=
  ∃ t a es', es = ⟨t, call, a⟩ :: es' ∧ (∀ e ∈ es', ∃ s m, e = ⟨s, call, .error (.transport m)⟩) ∧
    (r = a ∨ ∃ n m, r = .error (.transportExhausted n m) ∧ a = .error (.transport m))

theorem Sent.forall {r : Except Failure call.Value} (h : Sent call r es) {P : Exchange Cloud → Prop}
    (hlost : ∀ s m, P ⟨s, call, .error (.transport m)⟩) (hr : ∀ t, P ⟨t, call, r⟩) : ∀ e ∈ es, P e := by
  obtain ⟨t, a, es', rfl, hes, hra⟩ := h
  intro e he
  rcases List.mem_cons.1 he with rfl | he
  · rcases hra with rfl | ⟨n, m, -, rfl⟩
    · exact hr t
    · exact hlost t m
  · obtain ⟨s, m, rfl⟩ := hes e he
    exact hlost s m

theorem Sent.query_eq {r : Except Failure call.Value} (h : Sent call r es) : ∀ e ∈ es, e.query = call :=
  h.forall (fun _ _ => rfl) fun _ => rfl

/-- An outcome is what the platform has answered, unless the client has given up. -/
theorem Sent.answered {r : Except Failure call.Value} (h : Sent call r es) :
    (∃ t, ⟨t, call, r⟩ ∈ es) ∨ ∃ n m, r = .error (.transportExhausted n m) := by
  obtain ⟨t, a, es', rfl, -, rfl | ⟨n, m, hr, -⟩⟩ := h
  · exact .inl ⟨t, List.mem_cons_self⟩
  · exact .inr ⟨n, m, hr⟩

/-- A call that has succeeded was answered last; before that, the platform could not be reached. -/
theorem Sent.eq_cons_of_ok {v : call.Value} (hs : Sent call (.ok v) es) :
    ∃ t es', es = ⟨t, call, .ok v⟩ :: es' ∧ ∀ e ∈ es', ∃ s m, e = ⟨s, call, .error (.transport m)⟩ := by
  obtain ⟨t, a, es', rfl, hes', rfl | ⟨n, m, hnm, -⟩⟩ := hs
  · exact ⟨t, es', rfl, hes'⟩
  · cases hnm

private theorem sent_of_request {limit : Nat} {r : Except Failure call.Value} (h : Request limit call r es) :
    Sent call r es := by
  cases h with
  | answered _ hlost _ => exact ⟨_, _, _, rfl, hlost, .inl rfl⟩
  | givenUp hlost _ => exact ⟨_, _, _, rfl, hlost, .inr ⟨_, _, rfl, rfl⟩⟩

/-- The number of attempts is the number of calls. -/
theorem always_retryCounted (c : Client) (call : Call) :
    (c.retry.retryCounted (Action.call call).run).Always fun r es => Sent call r.1 es ∧ r.2 = es.length :=
  (always_retryCounted_request c.retry call).mono fun _ _ h => ⟨sent_of_request h.1, h.2⟩

theorem always_send (c : Client) (call : Call) : (c.send call).run.Always (Sent call) :=
  Program.always_bind.2 ((always_retryCounted c call).mono fun _ _ h => Program.always_done.2 h.1)

/-! ### Waiting for operations -/

/-- What is known of the exchanges while an operation is waited for: nothing else is asked for, and when the
operation fails, the platform has not said that it was done. -/
structure Awaited (h : OperationHandle) (r : Except Failure α) (es : List (Exchange Cloud)) : Prop where
  query_eq : ∀ e ∈ es, e.query = .operation h
  unconfirmed : ∀ f, r = .error f → ∀ e ∈ es, ∀ h', e.confirms h' = false
  in_use : ∀ f, r = .error f → f.isInUse = true → ∃ e ∈ es, e.saysInUse = true

/-- A snapshot is what the platform has answered; the failure to find the record has another name. -/
private theorem always_snapshot (c : Client) (h : OperationHandle) : (c.snapshot h).run.Always fun r es =>
    match r with
    | .ok o => Sent (.operation h) (.ok o) es
    | .error f => Awaited h (.error f : Except Failure Summary) es := by
  refine Program.always_bind.2 ((always_send c (.operation h)).mono fun r es hr => ?_)
  rcases r with f | o
  · have hun : ∀ e ∈ es, ∀ h', e.confirms h' = false := hr.forall (fun _ _ _ => rfl) fun _ _ => rfl
    show (if f.isNotFound = true then _ else _ : Program Cloud _).Always _
    split
    · refine Program.always_done.2 ⟨hr.query_eq, fun _ _ => hun, fun g hg hu => ?_⟩
      cases hg
      exact absurd hu Bool.false_ne_true
    · refine Program.always_done.2 ⟨hr.query_eq, fun _ _ => hun, fun g hg hu => ?_⟩
      cases hg
      rcases hr.answered with ⟨t, ht⟩ | ⟨n, m, hnm⟩
      · exact ⟨_, ht, hu⟩
      · cases hnm
        exact absurd hu Bool.false_ne_true
  · exact Program.always_done.2 hr

/-- What is known after a snapshot of an operation that goes on, or is done with an error. -/
private theorem Sent.unconfirmed {h : OperationHandle} {o : Operation} (hs : Sent (.operation h) (.ok o) es)
    (ho : (o.isDone && o.errors.isEmpty) = false) : ∀ e ∈ es, ∀ h', e.confirms h' = false := by
  refine hs.forall (fun _ _ _ => rfl) fun _ h' => ?_
  rw [Exchange.confirms, Bool.and_assoc, ho, Bool.and_false]

private theorem awaited_settled {h : OperationHandle} {o : Operation} (hs : Sent (.operation h) (.ok o) es) :
    Awaited h (settled h o) es := by
  unfold settled
  rcases hx : o.primaryError? with _ | x
  · exact ⟨hs.query_eq, fun f hf => (by cases hf), fun f hf => (by cases hf)⟩
  · have herrors : o.errors ≠ [] := fun hnil => by
      rw [Operation.primaryError?, hnil] at hx
      exact absurd hx (by simp)
    refine ⟨hs.query_eq, fun f hf => hs.unconfirmed ?_, fun f hf hu => ?_⟩
    · simp [herrors]
    · cases hf
      rcases hs.answered with ⟨t, ht⟩ | ⟨n, m, hnm⟩
      · refine ⟨_, ht, ?_⟩
        rw [Exchange.saysInUse, hx]
        simpa [Failure.isInUse, Failure.code?] using hu
      · cases hnm

private theorem Awaited.append {h : OperationHandle} {r : Except Failure α} {es es' : List (Exchange Cloud)}
    (hr : Awaited h r es') (hq : ∀ e ∈ es, e.query = .operation h) (hun : ∀ e ∈ es, ∀ h', e.confirms h' = false) :
    Awaited h r (es' ++ es) := by
  refine ⟨fun e he => ?_, fun f hf e he => ?_, fun f hf hu => ?_⟩
  · exact (List.mem_append.1 he).elim (hr.query_eq e) (hq e)
  · exact (List.mem_append.1 he).elim (hr.unconfirmed f hf e) (hun e)
  · obtain ⟨e, he, hs⟩ := hr.in_use f hf hu
    exact ⟨e, List.mem_append_left _ he, hs⟩

/-- A failure of the client's own, which has nothing to do with what the platform says. -/
private theorem awaited_timeout (h : OperationHandle) (waited : Nat) :
    Awaited h (.error (.timeout h.name waited) : Except Failure Summary) [] :=
  ⟨by simp, by simp, fun f hf hu => by cases hf; exact absurd hu Bool.false_ne_true⟩

/-- One poll of an operation: what comes after it adds to what is known. -/
private theorem always_poll_awaited (c : Client) (h : OperationHandle) {next : Nat → Action Summary}
    (hnext : ∀ now, (next now).run.Always (Awaited h)) :
    (do
      let o ← c.snapshot h
      if o.isDone then ExceptT.mk (.done (settled h o))
      else
        let now ← ExceptT.lift Program.now
        next now : Action Summary).run.Always (Awaited h) := by
  refine Action.always_bind ((always_snapshot c h).mono fun r es hr => ?_)
  rcases r with f | o
  · exact hr
  · show (if o.isDone = true then _ else _ : Action Summary).run.Always _
    by_cases hd : o.isDone = true
    · rw [if_pos hd]
      exact Action.always_result (awaited_settled hr)
    · rw [if_neg hd]
      have hun := hr.unconfirmed (by simp [hd])
      exact Action.always_now fun now => (hnext now).mono fun _ _ hr' => hr'.append hr.query_eq hun

private theorem always_awaitFrom (c : Client) (h : OperationHandle) (started deadline fuel poll : Nat) :
    (c.awaitFrom h started deadline fuel poll).run.Always (Awaited h) := by
  induction fuel generalizing poll with
  | zero =>
    unfold awaitFrom
    refine always_poll_awaited c h fun now => ?_
    split <;> exact Action.always_throw (awaited_timeout h _)
  | succ fuel ih =>
    unfold awaitFrom
    refine always_poll_awaited c h fun now => ?_
    split
    · exact Action.always_throw (awaited_timeout h _)
    · exact Program.always_sleep.2 (ih (poll + 1))

-- The fuel is a large number that must not be computed with, so it is a variable here.
private theorem always_clock (c : Client) (h : OperationHandle) (ms fuel : Nat) :
    (Program.clock fun started => (c.awaitFrom h started (started + ms) fuel 0).run).Always (Awaited h) :=
  Program.always_clock.2 fun started => always_awaitFrom c h started (started + ms) fuel 0

theorem always_awaitDone (c : Client) (h : OperationHandle) : (c.awaitDone h).run.Always (Awaited h) := by
  rw [run_awaitDone]
  exact always_clock c h _ _

/-! ### Deleting -/

/-- The platform has said that the resource of a deletion is in use, when it was asked for the deletion or for the
operation as which it was accepted. -/
def ToldInUse (kind : Kind) (scope : Scope) (name : String) (es : List (Exchange Cloud)) : Prop :=
  ∃ e ∈ es, e.saysInUse = true ∧ (e.query = .delete kind scope name ∨
    ∃ h, e.query = .operation h ∧ ∃ e' ∈ es, e'.query = .delete kind scope name ∧ e'.deletes? kind = some h)

/-- What is known of the exchanges of a deletion: nothing else is asked for, and when it fails, nothing has been
confirmed, and the resource is in use only if the platform has said so. -/
structure Attempted (kind : Kind) (scope : Scope) (name : String) (r : Except Failure α) (es : List (Exchange Cloud)) :
    Prop where
  query_eq : ∀ e ∈ es, e.query = .delete kind scope name ∨ ∃ h, e.query = .operation h
  unconfirmed : ∀ f, r = .error f → ∀ e ∈ es, ∀ h, e.confirms h = false
  in_use : ∀ f, r = .error f → f.isInUse = true → ToldInUse kind scope name es

theorem always_delete (c : Client) (kind : Kind) (scope : Scope) (name : String) :
    (c.delete kind scope name).run.Always (Attempted kind scope name) := by
  refine Action.always_bind ((always_send c (.delete kind scope name)).mono fun r es hr => ?_)
  have hun : ∀ e ∈ es, ∀ h, e.confirms h = false := hr.forall (fun _ _ _ => rfl) fun _ _ => rfl
  rcases r with f | o
  · refine ⟨fun e he => .inl (hr.query_eq e he), fun _ _ => hun, fun g hg hu => ?_⟩
    cases hg
    rcases hr.answered with ⟨t, ht⟩ | ⟨n, m, hnm⟩
    · exact ⟨_, ht, hu, .inl rfl⟩
    · cases hnm
      exact absurd hu Bool.false_ne_true
  · refine Action.always_discard ((always_awaitDone c o).mono fun r es' hr' => ?_)
    -- Until it is done, the operation is only asked for.
    have hq : ∀ e ∈ es' ++ es, e.query = .delete kind scope name ∨ ∃ h, e.query = .operation h := by
      intro e he
      rcases List.mem_append.1 he with he | he
      · exact .inr ⟨o, hr'.query_eq e he⟩
      · exact .inl (hr.query_eq e he)
    rcases r with f | v
    · refine ⟨hq, fun g hg e he => ?_, fun g hg hu => ?_⟩
      · exact (List.mem_append.1 he).elim (hr'.unconfirmed f rfl e) (hun e)
      · cases hg
        obtain ⟨e, he, hs⟩ := hr'.in_use f rfl hu
        rcases hr.answered with ⟨t, ht⟩ | ⟨n, m, hnm⟩
        · refine ⟨e, List.mem_append_left _ he, hs, .inr ⟨o, hr'.query_eq e he, _, List.mem_append_right _ ht, rfl, ?_⟩⟩
          exact if_pos rfl
        · cases hnm
    · exact ⟨hq, fun g hg => (by cases hg), fun g hg => (by cases hg)⟩

theorem always_deleteIfExists (c : Client) (kind : Kind) (scope : Scope) (name : String) :
    (c.deleteIfExists kind scope name).run.Always (Attempted kind scope name) := by
  refine Action.always_bind (Action.always_outcome ((always_delete c kind scope name).mono fun r es hr => ?_))
  rcases r with f | v
  · show (if f.isNotFound = true then pure false else throw f : Action Bool).run.Always _
    split
    · exact Action.always_pure ⟨hr.query_eq, fun g hg => (by cases hg), fun g hg => (by cases hg)⟩
    · refine Action.always_throw ⟨hr.query_eq, fun g _ => hr.unconfirmed f rfl, fun g hg => ?_⟩
      cases hg
      exact hr.in_use f rfl
  · exact Action.always_pure ⟨hr.query_eq, fun g hg => (by cases hg), fun g hg => (by cases hg)⟩

/-! ### Reading -/

theorem always_fetch? (c : Client) (kind : Kind) (scope : Scope) (name : String) :
    (c.fetch? kind scope name).run.Always fun _ es => ∀ e ∈ es, e.query = Call.get kind scope name := by
  refine Action.always_bind ((always_send c (.get kind scope name)).mono fun r es hr => ?_)
  rcases r with f | _ | r
  · exact hr.query_eq
  · exact Action.always_pure hr.query_eq
  · exact Action.always_result hr.query_eq

theorem always_list (c : Client) (kind : Kind) (filter : Filter) :
    (c.list kind filter).run.Always fun _ es => ∀ e ∈ es, e.query = Call.list kind filter := by
  refine Action.always_bind ((always_send c (.list kind filter)).mono fun r es hr => ?_)
  rcases r with f | rs
  · exact hr.query_eq
  · exact Action.always_result hr.query_eq

end Client

end Fleet
