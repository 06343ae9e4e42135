import Fleet.Proofs.Record.Asked
import Mathlib.Data.List.Duplicate

/-!
# Requests one after the other

What an action of a client leaves in the record is one request after the other (`Course`). Each of them is sent again
only while the platform cannot be reached. Once it has been answered, the same call is not made next, and a change is
not asked for another time until something has been read, except where the answers ask for it (`Repeatable`); and when a
request is given up, the action is over and fails with the number of attempts and the last message. `Action.Persists`
says so of an action that comes after others, and there is a rule for each way in which actions are put together.
-/

namespace Fleet

variable {α β γ δ : Type} {limit : Nat} {call : Call} {past now es es' : List (Exchange Cloud)}

/-! ### Courses -/

/-- Whether a call reads resources. -/
def Call.isRead : Call → Bool
  | get _ _ _ => true
  | list _ _ => true
  | _ => false

/-- The exchanges since resources have been read. The latest exchange comes first. -/
def unread (past : List (Exchange Cloud)) : List (Exchange Cloud) := past.takeWhile fun e => !e.query.isRead

/-- What has been asked since the latest exchange that reads resources. -/
theorem unread_append {since : List (Exchange Cloud)} (hsince : ∀ e ∈ since, e.query.isRead = false)
    {e : Exchange Cloud} (he : e.query.isRead = true) : unread (since ++ e :: past) = since := by
  rw [unread, List.takeWhile_append_of_pos (by simpa using hsince), List.takeWhile_cons, he]
  exact List.append_nil since

/-- The call may be made once more, as another request. The latest exchange comes first. -/
inductive Repeatable : List (Exchange Cloud) → Call → Prop
  /-- The operation was not done yet. -/
  | running {t : Nat} {h : OperationHandle} {o : Operation} {past : List (Exchange Cloud)} (ho : o.isDone = false) :
      Repeatable (⟨t, .operation h, .ok o⟩ :: past) (.operation h)
  /-- The instance was there, and its tags are looked at next. -/
  | present {t : Nat} {scope : Scope} {name : String} {r : Resource} {past : List (Exchange Cloud)} :
      Repeatable (⟨t, .get .instance scope name, .ok (some r)⟩ :: past) (.get .instance scope name)
  /-- Since the firewalls on a network have been listed, nothing else has been read, and the platform has listed this
  one twice. -/
  | listedTwice {s : Nat} {link name : String} {rs : List Resource} {since past : List (Exchange Cloud)}
      (hsince : ∀ e ∈ since, e.query.isRead = false) (htwice : List.Duplicate name (rs.map Resource.name)) :
      Repeatable (since ++ ⟨s, .list .firewall (.onNetwork link), .ok rs⟩ :: past) (.delete .firewall .global name)

/-- A new request for the call repeats none without need: a change is compared with all that has been asked since
something was read, and another call with the latest one. -/
def Warranted (past : List (Exchange Cloud)) (call : Call) : Prop :=
  ∀ e ∈ if call.isMutation then unread past else past.take 1, e.query = call → Repeatable past call

/-- The failure is not that to reach the platform once. When it tells of attempts, it is the answer of the platform. -/
def Failure.Backed (past : List (Exchange Cloud)) : Failure → Prop
  | transport _ => False
  | transportExhausted n m => ∃ t call rest, past = ⟨t, call, .error (.transportExhausted n m)⟩ :: rest
  | _ => True

/-- Requests that were answered, one after the other, when `past` was asked before them. -/
inductive Requests (limit : Nat) (past : List (Exchange Cloud)) : List (Exchange Cloud) → Prop
  | nil : Requests limit past []
  /-- The last attempt was answered, and the others could not reach the platform. -/
  | answered {call : Call} {t : Nat} {a : Except Failure call.Value} {lost es : List (Exchange Cloud)}
      (hs : Requests limit past es) (hcall : Warranted (es ++ past) call) (ha : ∀ m, a ≠ .error (.transport m))
      (hlost : AllLost call lost) (hlimit : lost.length + 1 ≤ limit) :
      Requests limit past (⟨t, call, a⟩ :: (lost ++ es))

/-- The exchanges of an action with the outcome `r`, when `past` was asked before it. The latest exchange comes
first. -/
inductive Course (limit : Nat) (past : List (Exchange Cloud)) : Except Failure α → List (Exchange Cloud) → Prop
  /-- All requests were answered. -/
  | answered {r : Except Failure α} {es : List (Exchange Cloud)} (hs : Requests limit past es)
      (hbacked : ∀ f, r = .error f → f.Backed (es ++ past)) : Course limit past r es
  /-- None of the attempts of the last request could reach the platform, and the outcome tells their number and the
  last message. -/
  | givenUp {call : Call} {t : Nat} {m : String} {lost es : List (Exchange Cloud)} (hs : Requests limit past es)
      (hcall : Warranted (es ++ past) call) (hlost : AllLost call lost) (hlimit : lost.length + 1 = limit) :
      Course limit past (.error (.transportExhausted limit m)) (⟨t, call, .error (.transport m)⟩ :: (lost ++ es))

/-- The failure tells of attempts that could not reach the platform. -/
def Failure.TellsAttempts (f : Failure) : Prop := ∃ n m, f = .transportExhausted n m

theorem backed_ok {v : α} : ∀ f, (.ok v : Except Failure α) = .error f → f.Backed past := by
  intro f hf
  cases hf

theorem not_tellsAttempts_ok {v : α} : ∀ f, (.ok v : Except Failure α) = .error f → ¬ f.TellsAttempts := by
  intro f hf
  cases hf

/-- A failure is not one that tells of attempts when it is recognised by something that does not hold of these. -/
theorem Failure.not_tellsAttempts (p : Failure → Bool) (hp : ∀ n m, p (.transportExhausted n m) = false) {f : Failure}
    (hf : p f = true) : ¬ f.TellsAttempts := by
  rintro ⟨n, m, rfl⟩
  exact Bool.false_ne_true ((hp n m).symm.trans hf)

theorem Requests.append (h : Requests limit past es) (h' : Requests limit (es ++ past) es') :
    Requests limit past (es' ++ es) := by
  induction h' with
  | nil => exact h
  | @answered call t a lost es' _ hcall ha hlost hlimit ih =>
    rw [← List.append_assoc] at hcall
    rw [List.cons_append, List.append_assoc]
    exact ih.answered hcall ha hlost hlimit

namespace Course

variable {r : Except Failure α} {f : Failure}

theorem after (h : Requests limit past es) (h' : Course limit (es ++ past) r es') :
    Course limit past r (es' ++ es) := by
  cases h' with
  | answered hs hbacked =>
    refine .answered (h.append hs) fun f hf => ?_
    rw [List.append_assoc]
    exact hbacked f hf
  | givenUp hs hcall hlost hlimit =>
    rw [← List.append_assoc] at hcall
    rw [List.cons_append, List.append_assoc]
    exact .givenUp (h.append hs) hcall hlost hlimit

/-- An action that goes on after a request has had an answer to it. -/
theorem requests (h : Course limit past r es) (hr : ∀ f, r = .error f → ¬ f.TellsAttempts) :
    Requests limit past es := by
  cases h with
  | answered hs _ => exact hs
  | @givenUp _ _ m _ _ _ _ _ _ => exact absurd ⟨limit, m, rfl⟩ (hr _ rfl)

/-- What an action would have returned does not matter when it fails. -/
theorem error (h : Course limit past (.error f : Except Failure α) es) :
    Course limit past (.error f : Except Failure β) es := by
  cases h with
  | answered hs hbacked =>
    refine .answered hs fun g hg => ?_
    cases hg
    exact hbacked f rfl
  | givenUp hs hcall hlost hlimit => exact .givenUp hs hcall hlost hlimit

theorem isTransient_eq_false (h : Course limit past (.error f : Except Failure α) es) : f.isTransient = false := by
  cases h with
  | answered _ hbacked =>
    refine Bool.eq_false_iff.2 fun hf => ?_
    obtain ⟨m, rfl⟩ := Failure.isTransient_iff.1 hf
    exact hbacked _ rfl
  | givenUp _ _ _ _ => rfl

end Course

/-! ### The latest exchange -/

/-- The latest exchange, if there is one, is about a call of which `C` holds. -/
def LastAsked (C : Call → Prop) (es : List (Exchange Cloud)) : Prop := ∀ e ∈ es.head?, C e.query

/-- The latest exchange is the last one of a request with the outcome `r`. -/
inductive Closes (call : Call) : Except Failure call.Value → List (Exchange Cloud) → Prop
  | answered {t : Nat} {r : Except Failure call.Value} {rest : List (Exchange Cloud)} :
      Closes call r (⟨t, call, r⟩ :: rest)
  | givenUp {t n : Nat} {m : String} {rest : List (Exchange Cloud)} :
      Closes call (.error (.transportExhausted n m)) (⟨t, call, .error (.transport m)⟩ :: rest)

theorem LastAsked.mono {C D : Call → Prop} (h : LastAsked C now) (hCD : ∀ q, C q → D q) : LastAsked D now :=
  fun e he => hCD _ (h e he)

/-- What has not been asked before may be asked. -/
theorem warranted_of_unasked (h : ∀ e ∈ past, e.query ≠ call) : Warranted past call := by
  intro e he hquery
  have hmem : e ∈ past := by
    split at he
    · exact List.takeWhile_subset _ he
    · exact List.take_subset 1 past he
  exact absurd hquery (h e hmem)

theorem warranted_nil : Warranted [] call := warranted_of_unasked (List.forall_mem_nil _)

/-- A call that is no change is compared with the latest one. -/
theorem LastAsked.warranted {C : Call → Prop} (h : LastAsked C now) (hcall : ¬ C call)
    (hread : call.isMutation = false) : Warranted now call := by
  intro e he hquery
  rw [hread, if_neg Bool.false_ne_true] at he
  have hhead : e ∈ now.head? := by
    cases now with
    | nil => cases he
    | cons e' rest =>
      rw [List.mem_singleton.1 he]
      rfl
  exact absurd (hquery ▸ h e hhead) hcall

/-- A change is compared with all that has been asked since something was read. -/
theorem warranted_of_unread (hcall : call.isMutation = true)
    (h : ∀ e ∈ unread past, e.query = call → Repeatable past call) : Warranted past call := by
  intro e he
  rw [hcall, if_pos rfl] at he
  exact h e he

/-- When something has been read last, any other call may be made. -/
theorem LastAsked.warranted_of_read {C : Call → Prop} (h : LastAsked C now) (hC : ∀ q, C q → q.isRead = true)
    (hcall : ¬ C call) : Warranted now call := by
  cases hmutation : call.isMutation with
  | false => exact h.warranted hcall hmutation
  | true =>
    refine warranted_of_unread hmutation fun e he => ?_
    cases now with
    | nil => cases he
    | cons e' rest =>
      have hread : e'.query.isRead = true := hC _ (h e' rfl)
      rw [unread, List.takeWhile_cons, hread] at he
      cases he

section Closes

variable {r : Except Failure call.Value}

theorem Closes.lastAsked (h : Closes call r now) : LastAsked (· = call) now := by
  intro e he
  cases h <;> (cases he; rfl)

theorem Closes.eq_cons_of_ok {v : call.Value} (h : Closes call (.ok v) now) :
    ∃ t rest, now = ⟨t, call, .ok v⟩ :: rest := by
  cases h
  exact ⟨_, _, rfl⟩

/-- A call that is not made without need is a request like any other. -/
theorem Request.course (h : Request limit call r es) (hcall : Warranted past call) : Course limit past r es := by
  cases h with
  | @answered t a lost ha hlost hlimit =>
    have hs : Requests limit past (⟨t, call, r⟩ :: (lost ++ [])) := .answered .nil hcall ha hlost hlimit
    rw [List.append_nil] at hs
    refine .answered hs fun f hf => ?_
    subst hf
    cases f with
    | transport m => exact ha m rfl
    | transportExhausted n m => exact ⟨t, call, lost ++ past, rfl⟩
    | _ => trivial
  | @givenUp t m lost hlost hlimit =>
    have hc : Course limit past (.error (.transportExhausted limit m) : Except Failure call.Value)
        (⟨t, call, .error (.transport m)⟩ :: (lost ++ [])) := .givenUp .nil hcall hlost hlimit
    rwa [List.append_nil] at hc

theorem Request.closes (h : Request limit call r es) : Closes call r (es ++ past) := by
  cases h with
  | answered _ _ _ => exact .answered
  | givenUp _ _ => exact .givenUp

end Closes

/-! ### Programs and actions -/

/-- Whatever is answered, the exchanges of the program are one request after the other, with the outcome that its result
stands for, and `Q` holds of the result and of all that has been asked by then. -/
def Program.Persists (limit : Nat) (past : List (Exchange Cloud)) (out : γ → Except Failure α)
    (Q : γ → List (Exchange Cloud) → Prop) (p : Program Cloud γ) : Prop :=
  p.Always fun x es => Course limit past (out x) es ∧ Q x (es ++ past)

/-- What is known after an action, when it has succeeded and when it has failed. -/
def ByOutcome (Q : α → List (Exchange Cloud) → Prop) (E : Failure → List (Exchange Cloud) → Prop) :
    Except Failure α → List (Exchange Cloud) → Prop
  | .ok v, now => Q v now
  | .error f, now => E f now

/-- What has been asked since then is permitted. -/
def AskedSince (P : Call → Prop) (past now : List (Exchange Cloud)) : Prop :=
  ∃ es, now = es ++ past ∧ ∀ e ∈ es, P e.query

theorem AskedSince.forall {P : Call → Prop} (h : AskedSince P past now) (hpast : ∀ e ∈ past, P e.query) :
    ∀ e ∈ now, P e.query := by
  obtain ⟨es, rfl, hes⟩ := h
  exact fun e he => (List.mem_append.1 he).elim (hes e) (hpast e)

/-- Whatever is answered, the exchanges of the action are one request after the other; `Q` holds of its result or `E` of
its failure, and of all that has been asked by then. -/
abbrev Action.Persists (limit : Nat) (past : List (Exchange Cloud)) (Q : α → List (Exchange Cloud) → Prop)
    (E : Failure → List (Exchange Cloud) → Prop) (a : Action α) : Prop :=
  Program.Persists limit past id (ByOutcome Q E) a.run

namespace Program.Persists

variable {out : γ → Except Failure α} {Q : γ → List (Exchange Cloud) → Prop} {out' : δ → Except Failure β}
  {R : δ → List (Exchange Cloud) → Prop}

theorem done {x : γ} (hout : ∀ f, out x = .error f → f.Backed past) (hQ : Q x past) :
    (Program.done x).Persists limit past out Q := Program.always_done.2 ⟨.answered .nil hout, hQ⟩

theorem sleep {ms : Nat} {p : Program Cloud γ} (h : p.Persists limit past out Q) :
    (Program.sleep ms p).Persists limit past out Q := Program.always_sleep.2 h

theorem clock {k : Nat → Program Cloud γ} (h : ∀ t, (k t).Persists limit past out Q) :
    (Program.clock k).Persists limit past out Q := Program.always_clock.2 h

/-- What comes after a program goes on from its exchanges, or there is nothing but the failure of the program. -/
theorem bind {p : Program Cloud γ} (h : p.Persists limit past out Q) {k : γ → Program Cloud δ}
    (hk : ∀ x now, Q x now →
      (∀ f, out x = .error f → ¬ f.TellsAttempts) ∧ (k x).Persists limit now out' R ∨
        ∃ f y, out x = .error f ∧ k x = .done y ∧ out' y = .error f ∧ R y now) :
    (p.bind k).Persists limit past out' R := by
  refine Program.always_bind.2 (h.mono fun x es hx => ?_)
  obtain ⟨hcourse, hQ⟩ := hx
  rcases hk x (es ++ past) hQ with ⟨hgoes, hrest⟩ | ⟨f, y, hf, hky, hy, hR⟩
  · have hs : Requests limit past es := hcourse.requests hgoes
    refine hrest.mono fun y es' hy => ⟨.after hs hy.1, ?_⟩
    rw [List.append_assoc]
    exact hy.2
  · rw [hf] at hcourse
    rw [hky]
    refine Program.always_done.2 ⟨?_, hR⟩
    rw [hy]
    exact hcourse.error

end Program.Persists

namespace Action

variable {Q : α → List (Exchange Cloud) → Prop} {R : β → List (Exchange Cloud) → Prop}
  {E E' : Failure → List (Exchange Cloud) → Prop}

theorem persists_pure {v : α} (h : Q v past) : (pure v : Action α).Persists limit past Q E :=
  .done backed_ok h

theorem persists_throw {f : Failure} (hf : f.Backed past) (h : E f past) :
    (throw f : Action α).Persists limit past Q E := by
  refine .done (fun g hg => ?_) h
  cases hg
  exact hf

theorem persists_result {r : Except Failure α} (hr : ∀ f, r = .error f → f.Backed past) (h : ByOutcome Q E r past) :
    Action.Persists limit past Q E (ExceptT.mk (.done r)) := .done hr h

theorem Persists.mono {a : Action α} {Q' : α → List (Exchange Cloud) → Prop} (h : a.Persists limit past Q E)
    (hQ : ∀ v now, Q v now → Q' v now) (hE : ∀ f now, E f now → E' f now) : a.Persists limit past Q' E' := by
  refine Program.Always.mono h fun r es hr => ⟨hr.1, ?_⟩
  cases r with
  | ok v => exact hQ v _ hr.2
  | error f => exact hE f _ hr.2

theorem Persists.always {a : Action α} (h : a.Persists limit past Q E)
    {P : Except Failure α → List (Exchange Cloud) → Prop}
    (hP : ∀ r es, Course limit past r es → ByOutcome Q E r (es ++ past) → P r es) : a.run.Always P :=
  Program.Always.mono h fun r es hr => hP r es hr.1 hr.2

/-- What an action asks for is known besides. -/
theorem Persists.asked {a : Action α} (h : a.Persists limit past Q E) {P : Call → Prop} (ha : a.run.Asks P) :
    a.Persists limit past (fun v now => Q v now ∧ AskedSince P past now)
      fun f now => E f now ∧ AskedSince P past now := by
  refine (Program.Always.and h ha).mono fun r es hr => ⟨hr.1.1, ?_⟩
  cases r with
  | ok v => exact ⟨hr.1.2, es, rfl, hr.2⟩
  | error f => exact ⟨hr.1.2, es, rfl, hr.2⟩

theorem Persists.bind {a : Action α} (h : a.Persists limit past Q E) {k : α → Action β}
    (hk : ∀ v now, Q v now → (k v).Persists limit now R E) : (a >>= k).Persists limit past R E := by
  refine Program.Persists.bind h fun r now hr => ?_
  cases r with
  | ok v => exact .inl ⟨not_tellsAttempts_ok, hk v now hr⟩
  | error f => exact .inr ⟨f, .error f, rfl, rfl, rfl, hr⟩

/-- An action that is followed by another one whatever its outcome is, but for a failure that is passed on. -/
theorem Persists.rescue {a : Action α} (h : a.Persists limit past Q E) {k : Except Failure α → Action β}
    (hok : ∀ v now, Q v now → (k (.ok v)).Persists limit now R E')
    (herror : ∀ f now, E f now →
      ¬ f.TellsAttempts ∧ (k (.error f)).Persists limit now R E' ∨ k (.error f) = throw f ∧ E' f now) :
    (a.outcome >>= k).Persists limit past R E' := by
  have hrun : (a.outcome >>= k).run = a.run.bind fun r => (k r).run := Program.bind_assoc ..
  rw [Action.Persists, hrun]
  refine Program.Persists.bind h fun r now hr => ?_
  cases r with
  | ok v => exact .inl ⟨not_tellsAttempts_ok, hok v now hr⟩
  | error f =>
    rcases herror f now hr with ⟨hf, hrest⟩ | ⟨hthrow, hE⟩
    · exact .inl ⟨fun g hg => (by cases hg; exact hf), hrest⟩
    · exact .inr ⟨f, .error f, rfl, by rw [hthrow]; rfl, rfl, hE⟩

/-- The usual way to deal with a failure: the action goes on after some failures and passes on the others. -/
theorem rescue_ite {p : Prop} [Decidable p] {f : Failure} {a : Action β} (hp : p → ¬ f.TellsAttempts)
    (ha : p → a.Persists limit now R E') (hE : E' f now) :
    ¬ f.TellsAttempts ∧ (if p then a else throw f).Persists limit now R E' ∨
      (if p then a else throw f : Action β) = throw f ∧ E' f now := by
  by_cases h : p
  · rw [if_pos h]
    exact .inl ⟨hp h, ha h⟩
  · rw [if_neg h]
    exact .inr ⟨rfl, hE⟩

theorem persists_now {k : Nat → Action α} (h : ∀ t, (k t).Persists limit past Q E) :
    Action.Persists limit past Q E (ExceptT.lift Program.now >>= k) := .clock h

/-- The number of attempts is no more than what the action makes of it. -/
theorem persists_counted {p : RetryPolicy} (hcall : Warranted past call)
    {k : Except Failure call.Value × Nat → Action β}
    (hok : ∀ v n now, Closes call (.ok v) now → (k (.ok v, n)).Persists p.limit now R E)
    (herror : ∀ f n now, Closes call (.error f) now →
      ¬ f.TellsAttempts ∧ (k (.error f, n)).Persists p.limit now R E ∨ k (.error f, n) = throw f ∧ E f now) :
    Action.Persists p.limit past R E (ExceptT.lift (p.retryCounted (Action.call call).run) >>= k) := by
  have hrequest : (p.retryCounted (Action.call call).run).Persists p.limit past (·.1)
      fun r now => Closes call r.1 now :=
    (always_retryCounted_request p call).mono fun r es h => ⟨h.1.course hcall, h.1.closes⟩
  have hrun : (ExceptT.lift (p.retryCounted (Action.call call).run) >>= k).run =
      (p.retryCounted (Action.call call).run).bind fun r => (k r).run := Program.bind_assoc ..
  rw [Action.Persists, hrun]
  refine Program.Persists.bind hrequest fun r now hr => ?_
  obtain ⟨r, n⟩ := r
  cases r with
  | ok v => exact .inl ⟨not_tellsAttempts_ok, hok v n now hr⟩
  | error f =>
    rcases herror f n now hr with ⟨hf, hrest⟩ | ⟨hthrow, hE⟩
    · exact .inl ⟨fun g hg => (by cases hg; exact hf), hrest⟩
    · exact .inr ⟨f, .error f, rfl, by rw [hthrow]; rfl, rfl, hE⟩

end Action

end Fleet
