import Fleet.Group

/-!
# One operation at a time

A program tends its operations when it asks for a change only while it has no operation going, asks for nothing but its
own operation after that, and has seen it done when it goes on or ends (`Program.Tends`). What the platform answers is
left open, except that an operation that is asked for is found and does not run out of time. Every program of a client
and of a manager is tidy in this sense: it starts and ends with no operation going.
-/

namespace Fleet

variable {α β : Type}

/-! ### Operations in charge -/

namespace Call

/-- The operation that an answer says has been started. -/
def accepted? : (c : Call) → Except Failure c.Value → Option OperationHandle
  | insert _ _, r => r.toOption
  | delete _ _ _, r => r.toOption
  | setTags _ _ _ _, r => r.toOption
  | _, _ => none

/-- The operation that an answer says is not done. -/
def unfinished? : (c : Call) → Except Failure c.Value → Option OperationHandle
  | operation h, .ok o => if o.isDone then none else some h
  | _, _ => none

theorem accepted?_error (c : Call) (f : Failure) : c.accepted? (.error f) = none := by cases c <;> rfl

end Call

/-- No operation is seen unfinished when the time is up that a client waits for it. -/
def PollPolicy.Timely (p : PollPolicy) (es : List (Exchange Cloud)) : Prop :=
  ∀ a ∈ es, ∀ b ∈ es, ∀ h, Call.accepted? a.query a.answer = some h → Call.unfinished? b.query b.answer = some h →
    b.time < a.time + p.timeoutMs

/-- All is in time if everything has happened before the client would give up on its first operation. -/
theorem PollPolicy.timely_of_lt {p : PollPolicy} {es : List (Exchange Cloud)} (h : ∀ e ∈ es, e.time < p.timeoutMs) :
    p.Timely es := fun _ _ b hb _ _ _ => Nat.lt_of_lt_of_le (h b hb) (Nat.le_add_left _ _)

theorem PollPolicy.Timely.mono {p : PollPolicy} {es es' : List (Exchange Cloud)} (h : p.Timely es')
    (hes : ∀ e ∈ es, e ∈ es') : p.Timely es := fun a ha b hb => h a (hes a ha) b (hes b hb)

/-- An operation that a program has started and not yet seen done. -/
structure Charge where
  handle : OperationHandle
  /-- When the platform has accepted the change. -/
  since : Nat
  /-- How often the operation has been asked for. -/
  polls : Nat

namespace Charge

/-- The operation has been asked for once more. -/
def polled (c : Charge) : Charge := { c with polls := c.polls + 1 }

/-- What a program has in charge after an answer at the time `t`. -/
def after (o : Option Charge) (t : Nat) : (c : Call) → Except Failure c.Value → Option Charge
  | .operation _, .ok op => if op.isDone then none else o.map polled
  | c, r => (c.accepted? r).elim o fun h => some ⟨h, t, 0⟩

/-- What a program may ask: for changes when it has nothing in charge, and for no operation but the one in charge. -/
def Permits (o : Option Charge) : Call → Prop
  | .operation h => o.map handle = some h
  | c => c.isMutation = true → o = none

/-- What the answer to a call may be: an operation that is asked for is there, and its time is not up. -/
def Expects (p : PollPolicy) (o : Option Charge) (t : Nat) : (c : Call) → Except Failure c.Value → Prop
  | .operation _, r => ∃ op, r = .ok op ∧ (op.isDone = false →
      ∀ c, o = some c → t < c.since + p.timeoutMs ∧ c.polls + 1 < UInt32.size)
  | _, _ => True

theorem after_error {o : Option Charge} {t : Nat} {c : Call} {f : Failure} : after o t c (.error f) = o := by
  cases c <;> rfl

theorem after_of_ne {o : Option Charge} {t : Nat} {c : Call} (hc : ∀ h, c ≠ .operation h)
    {r : Except Failure c.Value} : after o t c r = (c.accepted? r).elim o fun h => some ⟨h, t, 0⟩ := by
  cases c with
  | operation h => exact absurd rfl (hc h)
  | _ => rfl

/-- What is in charge after an answer has just been started, or was in charge before. -/
theorem after_cases {o : Option Charge} {t : Nat} {c : Call} {r : Except Failure c.Value} {d : Charge}
    (h : after o t c r = some d) : (c.accepted? r = some d.handle ∧ d.since = t) ∨
      ∃ e, o = some e ∧ e.handle = d.handle ∧ e.since = d.since := by
  by_cases hcall : ∃ h, c = .operation h
  · obtain ⟨h', rfl⟩ := hcall
    cases r with
    | error f => exact .inr ⟨d, h, rfl, rfl⟩
    | ok op =>
      simp only [after] at h
      split at h
      · cases h
      · obtain ⟨e, he, rfl⟩ := Option.map_eq_some_iff.1 h
        exact .inr ⟨e, he, rfl, rfl⟩
  · rw [after_of_ne fun h' hh => hcall ⟨h', hh⟩] at h
    cases hr : c.accepted? r with
    | none =>
      rw [hr] at h
      exact .inr ⟨d, h, rfl, rfl⟩
    | some h' =>
      rw [hr] at h
      obtain rfl := Option.some.inj h
      exact .inl ⟨rfl, rfl⟩

/-- An operation can only be started where none is in charge. -/
theorem Permits.eq_none {o : Option Charge} {c : Call} (hp : Permits o c) {r : Except Failure c.Value}
    {h : OperationHandle} (hr : c.accepted? r = some h) : o = none := by
  cases c with
  | get kind scope name => exact absurd hr (by simp [Call.accepted?])
  | list kind filter => exact absurd hr (by simp [Call.accepted?])
  | operation h' => exact absurd hr (by simp [Call.accepted?])
  | insert scope spec => exact hp rfl
  | delete kind scope name => exact hp rfl
  | setTags kind scope name tags => exact hp rfl

end Charge

open Charge

namespace Program

variable {p : PollPolicy} {Q R : α → Nat → Option Charge → Prop} {t : Nat} {o : Option Charge}

/-- From the time `t` on and with `o` in charge, the program tends its operations, and ends with a result, at a time
and with an operation in charge of which `Q` holds. Answers and sleeps may take any time. -/
def Tends (p : PollPolicy) (Q : α → Nat → Option Charge → Prop) : Program Cloud α → Nat → Option Charge → Prop
  | .done a, t, o => Q a t o
  | .ask c k, t, o => Permits o c ∧ ∀ t', t ≤ t' → ∀ r, Expects p o t' c r → (k r).Tends p Q t' (after o t' c r)
  | .sleep ms k, t, o => ∀ t', t + ms ≤ t' → k.Tends p Q t' o
  | .clock k, t, o => (k t).Tends p Q t o
  | .cancelled k, t, o => ∀ b, (k b).Tends p Q t o

section Steps

variable {ms : Nat} {a : α} {c : Call} {k : Except Failure c.Value → Program Cloud α}

theorem tends_done : (Program.done a).Tends p Q t o ↔ Q a t o := Iff.rfl

theorem tends_ask : (Program.ask (S := Cloud) c k).Tends p Q t o ↔
    Permits o c ∧ ∀ t', t ≤ t' → ∀ r, Expects p o t' c r → (k r).Tends p Q t' (after o t' c r) := Iff.rfl

theorem tends_sleep {k : Program Cloud α} : (Program.sleep ms k).Tends p Q t o ↔
    ∀ t', t + ms ≤ t' → k.Tends p Q t' o := Iff.rfl

theorem tends_clock {k : Nat → Program Cloud α} : (Program.clock k).Tends p Q t o ↔ (k t).Tends p Q t o := Iff.rfl

theorem tends_cancelled {k : Bool → Program Cloud α} : (Program.cancelled k).Tends p Q t o ↔
    ∀ b, (k b).Tends p Q t o := Iff.rfl

end Steps

theorem Tends.bind {a : Program Cloud α} (h : a.Tends p Q t o) {k : α → Program Cloud β}
    {R : β → Nat → Option Charge → Prop} (hk : ∀ v t' o', t ≤ t' → Q v t' o' → (k v).Tends p R t' o') :
    (a.bind k).Tends p R t o := by
  induction a generalizing t o with
  | done v => exact hk v t o (Nat.le_refl t) h
  | ask c next ih =>
    refine ⟨h.1, fun t' ht r hr => ih r (h.2 t' ht r hr) fun v s o' hs => hk v s o' (Nat.le_trans ht hs)⟩
  | sleep ms next ih =>
    exact fun t' ht => ih (h t' ht) fun v s o' hs => hk v s o' (by omega)
  | clock next ih => exact ih t h hk
  | cancelled next ih => exact fun b => ih b (h b) hk

/-- A program that waits for an answer may go on waiting. -/
theorem Tends.of_ask {c : Call} {k : Except Failure c.Value → Program Cloud α}
    (h : (Program.ask (S := Cloud) c k).Tends p Q t o) {t' : Nat} (ht : t ≤ t') :
    (Program.ask (S := Cloud) c k).Tends p Q t' o :=
  ⟨h.1, fun s hs r hr => h.2 s (Nat.le_trans ht hs) r hr⟩

theorem Tends.mono {a : Program Cloud α} (h : a.Tends p Q t o) {R : α → Nat → Option Charge → Prop}
    (hR : ∀ v t' o', Q v t' o' → R v t' o') : a.Tends p R t o := by
  rw [← bind_done a]
  exact h.bind fun v t' o' _ hv => hR v t' o' hv

-- As with what always holds, this is not to be computed whenever it is looked at.
attribute [irreducible] Tends

/-- The program sees to the operation in charge and ends with none. -/
abbrev Clears (p : PollPolicy) (a : Program Cloud α) (t : Nat) (o : Option Charge) : Prop :=
  a.Tends p (fun _ _ o => o = none) t o

/-- The program starts no operation that it does not see to. -/
def Tidy (p : PollPolicy) (a : Program Cloud α) : Prop := ∀ t, a.Clears p t none

theorem tidy_done {v : α} : (Program.done v).Tidy p := fun _ => tends_done.2 rfl

theorem Clears.bind {a : Program Cloud α} (h : a.Clears p t o) {k : α → Program Cloud β} (hk : ∀ v, (k v).Tidy p) :
    (a.bind k).Clears p t o := by
  refine Tends.bind h fun v t' o' _ ho => ?_
  subst ho
  exact hk v t'

theorem Tidy.bind {a : Program Cloud α} (h : a.Tidy p) {k : α → Program Cloud β} (hk : ∀ v, (k v).Tidy p) :
    (a.bind k).Tidy p := fun t => (h t).bind hk

end Program

open Program

/-! ### Actions -/

namespace Action

variable {p : PollPolicy} {t : Nat} {o : Option Charge}

theorem tidy_pure {v : α} : (pure v : Action α).run.Tidy p := tidy_done

theorem tidy_throw {f : Failure} : (throw f : Action α).run.Tidy p := tidy_done

theorem clears_bind {a : Action α} (ha : a.run.Clears p t o) {k : α → Action β} (hk : ∀ v, (k v).run.Tidy p) :
    (a >>= k).run.Clears p t o := by
  refine Clears.bind ha fun r => ?_
  cases r with
  | ok v => exact hk v
  | error f => exact tidy_done

theorem clears_outcome {a : Action α} (ha : a.run.Clears p t o) : a.outcome.run.Clears p t o :=
  Clears.bind ha fun _ => tidy_done

theorem tidy_bind {a : Action α} (ha : a.run.Tidy p) {k : α → Action β} (hk : ∀ v, (k v).run.Tidy p) :
    (a >>= k).run.Tidy p := fun t => clears_bind (ha t) hk

theorem tidy_outcome {a : Action α} (ha : a.run.Tidy p) : a.outcome.run.Tidy p := fun t => clears_outcome (ha t)

end Action

namespace Client

open Action

variable (c : Client)

/-! ### Requests -/

/-- A request is sent until it is answered, and is answered once. -/
private theorem tends_retryFrom {retry : RetryPolicy} {p : PollPolicy} (call : Call) {o : Option Charge}
    {Q : Except Failure call.Value × Nat → Nat → Option Charge → Prop} {t : Nat} (hpermits : Permits o call)
    (hQ : ∀ r n t', t ≤ t' → Expects p o t' call r → Q (r, n) t' (after o t' call r))
    (hlost : ∀ f n t', t ≤ t' → (∃ g, Expects p o t' call (.error g)) → Q (.error f, n) t' o) (left made : Nat) :
    (retry.retryFrom (Action.call call).run left made).Tends p Q t o := by
  induction left generalizing t made with
  | zero =>
    unfold RetryPolicy.retryFrom
    refine tends_ask.2 ⟨hpermits, fun t' ht r hr => ?_⟩
    rcases r with f | v
    · cases f with
      | transport text =>
        rw [after_error]
        exact tends_done.2 (hlost _ _ t' ht ⟨_, hr⟩)
      | _ => exact tends_done.2 (hQ _ _ t' ht hr)
    · exact tends_done.2 (hQ _ _ t' ht hr)
  | succ left ih =>
    unfold RetryPolicy.retryFrom
    refine tends_ask.2 ⟨hpermits, fun t' ht r hr => ?_⟩
    rcases r with f | v
    · cases f with
      | transport text =>
        rw [after_error]
        refine tends_sleep.2 fun t'' ht' => ih (fun r n s hs => hQ r n s (by omega)) (fun f n s hs => hlost f n s (by omega)) _
      | _ => exact tends_done.2 (hQ _ _ t' ht hr)
    · exact tends_done.2 (hQ _ _ t' ht hr)

/-- After a request, an operation is in charge if the platform has started one. -/
private theorem tends_retryCounted {retry : RetryPolicy} {p : PollPolicy} {call : Call}
    (hcall : ∀ h, call ≠ .operation h) (t : Nat) : (retry.retryCounted (Action.call call).run).Tends p
      (fun r t' o => o = (call.accepted? r.1).map fun h => ⟨h, t', 0⟩) t none := by
  refine tends_retryFrom call ?_ (fun r n t' _ _ => ?_) (fun f n t' _ _ => ?_) _ _
  · cases call with
    | operation h => exact absurd rfl (hcall h)
    | _ => exact fun _ => rfl
  · cases call with
    | operation h => exact absurd rfl (hcall h)
    | get kind scope name => rfl
    | list kind filter => rfl
    | _ => cases r <;> rfl
  · cases call <;> rfl

private theorem tends_send {call : Call} (hcall : ∀ h, call ≠ .operation h) (t : Nat) :
    (c.send call).run.Tends c.poll (fun r t' o => o = (call.accepted? r).map fun h => ⟨h, t', 0⟩) t none :=
  (tends_retryCounted hcall t).bind fun _ _ _ _ ho => tends_done.2 ho

/-- Reading starts no operation. -/
private theorem tidy_send (call : Call) (hcall : ∀ h, call ≠ .operation h) (hread : ∀ r, call.accepted? r = none) :
    (c.send call).run.Tidy c.poll := by
  intro t
  refine Tends.mono (c.tends_send hcall t) fun r t' o ho => ?_
  rw [ho, hread]
  rfl

/-! ### Waiting for operations -/

private theorem tends_snapshot {ch : Charge} {Q : Except Failure Operation → Nat → Option Charge → Prop} {t : Nat}
    (hdone : ∀ o t', t ≤ t' → o.isDone = true → Q (.ok o) t' none)
    (hrunning : ∀ o t', t ≤ t' → o.isDone = false → t' < ch.since + c.poll.timeoutMs → ch.polls + 1 < UInt32.size →
      Q (.ok o) t' (some ch.polled)) : (c.snapshot ch.handle).run.Tends c.poll Q t (some ch) := by
  have hcounted : (c.retry.retryCounted (Action.call (.operation ch.handle)).run).Tends c.poll
      (fun r t' o => ∃ op, r.1 = .ok op ∧ Q (.ok op) t' o) t (some ch) := by
    refine tends_retryFrom (.operation ch.handle) (o := some ch) rfl (fun r n t' ht hr => ?_)
      (fun f n t' _ hf => ?_) _ _
    · obtain ⟨op, rfl, htimely⟩ := hr
      refine ⟨op, rfl, ?_⟩
      cases hop : op.isDone with
      | true =>
        simp only [after, hop, if_true]
        exact hdone op t' ht hop
      | false =>
        obtain ⟨hsoon, hpolls⟩ := htimely hop ch rfl
        simp only [after, hop, Bool.false_eq_true, if_false]
        exact hrunning op t' ht hop hsoon hpolls
    · obtain ⟨g, op, hg, -⟩ := hf
      cases hg
  have hsend : (c.send (.operation ch.handle)).run.Tends c.poll
      (fun r t' o => ∃ op, r = .ok op ∧ Q (.ok op) t' o) t (some ch) := hcounted.bind fun r t' o _ hr => tends_done.2 hr
  refine hsend.bind fun r t' o _ hr => ?_
  obtain ⟨op, rfl, hop⟩ := hr
  exact tends_done.2 hop

/-- One round of waiting. That the operation is not done means that there is time left. -/
private theorem clears_round {ch : Charge} {t deadline : Nat} (hdeadline : ch.since + c.poll.timeoutMs = deadline)
    {giveUp next : Nat → Action Summary} (hnext : ∀ t', ch.polls + 1 < UInt32.size →
      (next t').run.Clears c.poll t' (some ch.polled)) :
    (do let o ← c.snapshot ch.handle
        if o.isDone then ExceptT.mk (.done (settled ch.handle o))
        else
          let now ← ExceptT.lift Program.now
          if deadline ≤ now then giveUp now else next now : Action Summary).run.Clears c.poll t (some ch) := by
  refine Tends.bind (Q := fun r t' o => ∃ op, r = .ok op ∧ ((op.isDone = true ∧ o = none) ∨
      (op.isDone = false ∧ t' < deadline ∧ ch.polls + 1 < UInt32.size ∧ o = some ch.polled)))
    (c.tends_snapshot (fun op t' _ hop => ⟨op, rfl, .inl ⟨hop, rfl⟩⟩) fun op t' _ hop hsoon hpolls =>
      ⟨op, rfl, .inr ⟨hop, hdeadline ▸ hsoon, hpolls, rfl⟩⟩) fun r t' o _ hr => ?_
  obtain ⟨op, rfl, ⟨hop, rfl⟩ | ⟨hop, hsoon, hpolls, rfl⟩⟩ := hr
  · simp only [ExceptT.bindCont, hop, if_true]
    exact tidy_done t'
  · simp only [ExceptT.bindCont, hop, Bool.false_eq_true, if_false]
    refine tends_clock.2 ?_
    show (if deadline ≤ t' then giveUp t' else next t').run.Clears c.poll t' _
    rw [if_neg (by omega)]
    exact hnext t' hpolls

private theorem clears_awaitFrom {started fuel : Nat} (ch : Charge) (hsince : ch.since = started)
    (hfuel : UInt32.size ≤ fuel + ch.polls) (t : Nat) :
    (c.awaitFrom ch.handle started (started + c.poll.timeoutMs) fuel ch.polls).run.Clears
      c.poll t (some ch) := by
  subst hsince
  induction fuel generalizing ch t with
  | zero =>
    unfold awaitFrom
    refine c.clears_round rfl fun t' hpolls => ?_
    omega
  | succ fuel ih =>
    unfold awaitFrom
    refine c.clears_round rfl fun t' hpolls => tends_sleep.2 fun t'' _ => ?_
    exact ih ch.polled (by show _ ≤ fuel + (ch.polls + 1); omega) t''

-- The fuel is a large number that must not be computed with, so it is a variable here.
private theorem clears_clock (h : OperationHandle) {fuel : Nat} (hfuel : UInt32.size ≤ fuel) (t : Nat) :
    (Program.clock fun started => (c.awaitFrom h started (started + c.poll.timeoutMs) fuel 0).run).Clears c.poll t
      (some ⟨h, t, 0⟩) :=
  tends_clock.2 (c.clears_awaitFrom ⟨h, t, 0⟩ rfl (Nat.le_trans hfuel (Nat.le_add_right fuel 0)) t)

/-- Waiting ends with the operation seen done. -/
private theorem clears_awaitDone (h : OperationHandle) (t : Nat) :
    (c.awaitDone h).run.Clears c.poll t (some ⟨h, t, 0⟩) := by
  rw [run_awaitDone]
  refine c.clears_clock h ?_ t
  unfold pollLimit
  omega

/-- A request for a change, with what comes after it: the operation that is started is seen through. -/
private theorem tidy_change {call : Call} (hcall : ∀ h, call ≠ .operation h) {waited : call.Value → Action α}
    (hwaited : ∀ v t, ∃ h, call.accepted? (.ok v) = some h ∧
      (waited v).run.Clears c.poll t (some ⟨h, t, 0⟩)) :
    (c.send call >>= waited).run.Tidy c.poll := by
  refine fun t => (c.tends_send hcall t).bind fun r t' o _ ho => ?_
  subst ho
  cases r with
  | error f =>
    rw [Call.accepted?_error]
    exact tidy_done t'
  | ok v =>
    obtain ⟨h, hh, htends⟩ := hwaited v t'
    rw [hh]
    exact htends

/-! ### Reading -/

private theorem tidy_fetch? (kind : Kind) (scope : Scope) (name : String) :
    (c.fetch? kind scope name).run.Tidy c.poll := by
  refine tidy_bind (c.tidy_send (.get kind scope name) (by simp) fun _ => rfl) fun r => ?_
  cases r with
  | none => exact tidy_pure
  | some r => exact tidy_done

private theorem tidy_fetch (kind : Kind) (scope : Scope) (name : String) :
    (c.fetch kind scope name).run.Tidy c.poll := by
  refine tidy_bind (c.tidy_fetch? kind scope name) fun r => ?_
  cases r with
  | none => exact tidy_throw
  | some a => exact tidy_pure

theorem tidy_list (kind : Kind) (filter : Filter) : (c.list kind filter).run.Tidy c.poll :=
  tidy_bind (c.tidy_send (.list kind filter) (by simp) fun _ => rfl) fun _ => tidy_done

/-! ### Changing -/

private theorem tidy_create (kind : Kind) (scope : Scope) (spec : ResourceSpec) :
    (c.create kind scope spec).run.Tidy c.poll := by
  unfold create
  by_cases hkind : spec.kind ≠ kind
  · rw [if_pos hkind]
    exact tidy_done
  rw [if_neg hkind]
  have hfailed (f : Failure) (n : Nat) : (if f.isAlreadyExists = true ∧ 1 < n then c.fetch kind scope spec.name
      else throw f : Action kind.Record).run.Tidy c.poll := by
    split
    · exact c.tidy_fetch kind scope spec.name
    · exact tidy_throw
  intro t
  show (((c.retry.retryCounted (Action.call (.insert scope spec)).run).bind _).bind _).Tends c.poll _ t none
  rw [Program.bind_assoc]
  refine (tends_retryCounted (by simp) t).bind fun r t' o _ ho => ?_
  subst ho
  obtain ⟨f | h, n⟩ := r
  · exact hfailed f n t'
  · refine clears_bind (clears_outcome (c.clears_awaitDone h t')) fun r => ?_
    cases r with
    | ok v => exact c.tidy_fetch kind scope spec.name
    | error f => exact hfailed f n

private theorem tidy_deleteIfExists (kind : Kind) (scope : Scope) (name : String) :
    (c.deleteIfExists kind scope name).run.Tidy c.poll := by
  have hdelete : (c.delete kind scope name).run.Tidy c.poll :=
    c.tidy_change (by simp) fun h t => ⟨h, rfl, (c.clears_awaitDone h t).bind fun r => by cases r <;> exact tidy_done⟩
  refine tidy_bind (tidy_outcome hdelete) fun r => ?_
  cases r with
  | ok v => exact tidy_pure
  | error f =>
    show (if f.isNotFound = true then pure false else throw f : Action Bool).run.Tidy c.poll
    split
    · exact tidy_pure
    · exact tidy_throw

private theorem tidy_createShared (kind : Kind) (scope : Scope) (name : String) (spec : ResourceSpec) :
    (c.createShared kind scope name spec).run.Tidy c.poll := by
  have hcreated : (c.submitInsert scope spec >>= c.awaitDone).run.Tidy c.poll :=
    c.tidy_change (by simp) fun h t => ⟨h, rfl, c.clears_awaitDone h t⟩
  refine tidy_bind (tidy_outcome hcreated) fun r => ?_
  cases r with
  | ok v => exact c.tidy_fetch kind scope name
  | error f =>
    show (if f.isAlreadyExists = true then c.fetch kind scope name else throw f : Action kind.Record).run.Tidy c.poll
    split
    · exact c.tidy_fetch kind scope name
    · exact tidy_throw

private theorem tidy_ensure (kind : Kind) (scope : Scope) (name : String) (spec : ResourceSpec) :
    (c.ensure kind scope name spec).run.Tidy c.poll := by
  have hnoting : (c.ensureNoting kind scope name spec).Tidy c.poll := by
    refine Tidy.bind (c.tidy_fetch? kind scope name) fun r => ?_
    rcases r with f | _ | a
    · exact tidy_done
    · exact Tidy.bind (c.tidy_createShared kind scope name spec) fun _ => tidy_done
    · exact tidy_done
  exact hnoting.bind fun _ => tidy_done

/-! ### Nodes -/

private theorem tidy_setTagsOnce (zone : Scope) (name : String) (wanted : List String) :
    (c.setTagsOnce zone name wanted).run.Tidy c.poll := by
  have hupdate (tags : Tags) : (c.update .instance zone name tags).run.Tidy c.poll :=
    c.tidy_change (by simp) fun h t => ⟨h, rfl, c.clears_awaitDone h t⟩
  unfold setTagsOnce
  refine tidy_bind (c.tidy_fetch .instance zone name) fun i => ?_
  split
  · exact tidy_pure
  refine tidy_bind (tidy_outcome (hupdate _)) fun r => ?_
  cases r with
  | ok v => exact tidy_bind (c.tidy_fetch .instance zone name) fun i' => tidy_pure
  | error f =>
    show (if f.isConflict = true then pure (Sum.inr f) else throw f : Action (Instance ⊕ Failure)).run.Tidy c.poll
    split
    · exact tidy_pure
    · exact tidy_throw

private theorem tidy_setTags (zone : Scope) (name : String) (wanted : List String) :
    (c.setTags zone name wanted).run.Tidy c.poll := by
  unfold setTags
  refine tidy_bind (c.tidy_setTagsOnce zone name wanted) fun r => ?_
  rcases r with i | f
  · exact tidy_pure
  refine tidy_bind (c.tidy_setTagsOnce zone name wanted) fun r => ?_
  rcases r with i | f
  · exact tidy_pure
  · exact tidy_throw

private theorem tidy_createNode (s : NodeSpec) : (c.createNode s).run.Tidy c.poll := by
  unfold createNode
  refine tidy_bind (c.tidy_ensure .network .global s.network _) fun n => ?_
  refine tidy_bind (c.tidy_ensure .firewall .global s.firewallName _) fun _ => ?_
  refine tidy_bind (c.tidy_create .disk (.zone s.zone) _) fun d => ?_
  refine tidy_bind (c.tidy_create .instance (.zone s.zone) _) fun i => ?_
  exact c.tidy_setTags (.zone s.zone) i.name s.desiredTags

private theorem tidy_destroy (i : Instance) : (c.destroy i).run.Tidy c.poll := by
  unfold destroy
  refine tidy_bind (c.tidy_deleteIfExists .instance (.zone i.zone) i.name) fun _ => ?_
  split
  · exact tidy_pure
  · exact tidy_bind (c.tidy_deleteIfExists .disk (.zone i.zone) i.bootDiskName) fun _ => tidy_pure

/-! ### Networks -/

private theorem tidy_deleteFirewalls (fs : List Firewall) : (c.deleteFirewalls fs).run.Tidy c.poll := by
  induction fs with
  | nil => exact tidy_pure
  | cons f fs ih =>
    exact tidy_bind (c.tidy_deleteIfExists .firewall .global f.name) fun _ => tidy_bind ih fun _ => tidy_pure

private theorem tidy_reclaimShared (link : String) (excluding : List String) :
    (c.reclaimShared link excluding).run.Tidy c.poll := by
  have hcount : (c.remainingInstances link excluding).run.Tidy c.poll :=
    tidy_bind (c.tidy_list .instance (.onNetwork link)) fun _ => tidy_pure
  unfold reclaimShared
  dsimp only
  split
  · exact tidy_pure
  refine tidy_bind hcount fun n => ?_
  split
  · exact tidy_pure
  refine tidy_bind (c.tidy_list .firewall (.onNetwork link)) fun fs => ?_
  refine tidy_bind (c.tidy_deleteFirewalls fs) fun deleted => ?_
  refine tidy_bind (tidy_outcome (c.tidy_deleteIfExists .network .global (Link.name link))) fun r => ?_
  cases r with
  | ok found => exact tidy_pure
  | error f =>
    show (if f.isInUse = true then _ else throw f : Action NetworkOutcome).run.Tidy c.poll
    split
    · exact tidy_bind hcount fun m => tidy_pure
    · exact tidy_throw

theorem tidy_reclaimNetwork (name : String) : (c.reclaimNetwork name).run.Tidy c.poll := by
  refine tidy_bind (c.tidy_fetch? .network .global name) fun n => ?_
  cases n with
  | none => exact tidy_pure
  | some n => exact c.tidy_reclaimShared n.selfLink []

private theorem tidy_reclaimRecorded (link : String) (excluding : List String) :
    (c.reclaimRecorded link excluding).run.Tidy c.poll := by
  refine tidy_bind (tidy_outcome (c.tidy_reclaimShared link excluding)) fun r => ?_
  cases r with
  | ok o => exact tidy_pure
  | error f => exact tidy_pure

end Client

/-! ### What a manager does -/

namespace Manager

open Action

variable (mgr : Manager)

theorem tidy_chooseNames (group : String) (count : Nat) :
    (mgr.chooseNames group count).run.Tidy mgr.client.poll :=
  tidy_bind (mgr.client.tidy_list .instance _) fun _ => tidy_pure

/-- A node is launched with one operation at a time, also when it fails and what it has left is discarded. -/
theorem tidy_launchNode (s : NodeSpec) : (mgr.launchNode s).Tidy mgr.client.poll := by
  have hdiscard : (mgr.discardPartial s).run.Tidy mgr.client.poll := by
    unfold discardPartial
    refine tidy_bind (tidy_outcome (mgr.client.tidy_deleteIfExists .instance (.zone s.zone) s.name)) fun _ => ?_
    refine tidy_bind (tidy_outcome (mgr.client.tidy_deleteIfExists .disk (.zone s.zone) s.bootDiskName)) fun _ => ?_
    exact tidy_pure
  refine fun t => tends_cancelled.2 fun stop => ?_
  cases stop with
  | true => exact tidy_done t
  | false =>
    refine Tidy.bind (mgr.client.tidy_createNode s) (fun r => ?_) t
    cases r with
    | ok i => exact tidy_done
    | error f => exact hdiscard.bind fun _ => tidy_done

theorem tidy_reclaimAfterLaunch (network : String) (report : LaunchReport) :
    (mgr.reclaimAfterLaunch network report).Tidy mgr.client.poll := by
  unfold reclaimAfterLaunch
  split
  · refine Tidy.bind (mgr.client.tidy_reclaimNetwork network) fun r => ?_
    cases r with
    | ok o => exact tidy_done
    | error f => exact tidy_done
  · exact tidy_done

private theorem tidy_reclaimAll (excluding links : List String) :
    (mgr.reclaimAll excluding links).run.Tidy mgr.client.poll := by
  induction links with
  | nil => exact tidy_pure
  | cons link links ih =>
    exact tidy_bind (mgr.client.tidy_reclaimRecorded link excluding) fun o => tidy_bind ih fun os => tidy_pure

theorem tidy_destroyNode (id : NodeId) : (mgr.destroyNode id).run.Tidy mgr.client.poll := by
  unfold destroyNode
  refine tidy_bind (mgr.client.tidy_fetch? .instance (.zone id.zone) id.name) fun i => ?_
  cases i with
  | none => exact tidy_pure
  | some i =>
    refine tidy_bind (tidy_outcome (mgr.client.tidy_destroy i)) fun r => ?_
    cases r with
    | ok u => exact tidy_bind (mgr.tidy_reclaimAll _ _) fun os => tidy_pure
    | error f => exact tidy_bind (mgr.tidy_reclaimAll _ _) fun os => tidy_throw

theorem tidy_destroyMember (i : Instance) : (mgr.destroyMember i).Tidy mgr.client.poll :=
  Tidy.bind (mgr.client.tidy_destroy i) fun _ => tidy_done

theorem tidy_reclaimGroup (group : String) (members : List Instance) (rs : List (Instance × Except Failure Unit)) :
    (mgr.reclaimGroup group members rs).run.Tidy mgr.client.poll := by
  have hnetworks : (mgr.groupNetworks group members).run.Tidy mgr.client.poll := by
    unfold groupNetworks
    refine tidy_bind (mgr.client.tidy_fetch? .network .global _) fun n => ?_
    cases n with
    | none => exact tidy_pure
    | some n =>
      dsimp only
      split <;> exact tidy_pure
  exact tidy_bind hnetworks fun networks => tidy_bind (mgr.tidy_reclaimAll _ networks) fun os => tidy_pure

end Manager

end Fleet
