import Fleet.Client
import Fleet.Proofs.Record.Trace

/-!
# Requests that are sent again

A request is sent up to a number of times, and again only when the platform could not be reached (`Request`). Whatever
the platform answers, a call that is made with retries is one request (`always_retryCounted_request`).
-/

namespace Fleet

/-- Attempts of a call that could not reach the platform. -/
def AllLost (call : Call) (es : List (Exchange Cloud)) : Prop :=
  ∀ e ∈ es, ∃ s m, e = ⟨s, call, .error (.transport m)⟩

/-- A request that is sent at most `limit` times, with the outcome `r`. The latest exchange comes first. -/
inductive Request (limit : Nat) (call : Call) : Except Failure call.Value → List (Exchange Cloud) → Prop
  /-- The last attempt was answered, and the others could not reach the platform. -/
  | answered {t : Nat} {a : Except Failure call.Value} {lost : List (Exchange Cloud)}
      (ha : ∀ m, a ≠ .error (.transport m)) (hlost : ∀ e ∈ lost, ∃ s m, e = ⟨s, call, .error (.transport m)⟩)
      (hlimit : lost.length + 1 ≤ limit) : Request limit call a (⟨t, call, a⟩ :: lost)
  /-- None of the attempts could reach the platform, and the outcome tells their number and the last message. -/
  | givenUp {t : Nat} {m : String} {lost : List (Exchange Cloud)}
      (hlost : ∀ e ∈ lost, ∃ s m, e = ⟨s, call, .error (.transport m)⟩) (hlimit : lost.length + 1 = limit) :
      Request limit call (.error (.transportExhausted limit m)) (⟨t, call, .error (.transport m)⟩ :: lost)

variable {n : Nat} {call : Call}

theorem Request.query_eq {r : Except Failure call.Value} {es : List (Exchange Cloud)} (h : Request n call r es) :
    ∀ e ∈ es, e.query = call := by
  have hcall {lost : List (Exchange Cloud)} (hlost : ∀ e ∈ lost, ∃ s m, e = ⟨s, call, .error (.transport m)⟩) :
      ∀ e ∈ lost, e.query = call := by
    intro e he
    obtain ⟨s, m, rfl⟩ := hlost e he
    rfl
  cases h with
  | answered _ hlost _ => exact List.forall_mem_cons.2 ⟨rfl, hcall hlost⟩
  | givenUp hlost _ => exact List.forall_mem_cons.2 ⟨rfl, hcall hlost⟩

theorem Request.length_le {r : Except Failure call.Value} {es : List (Exchange Cloud)} (h : Request n call r es) :
    es.length ≤ n := by
  cases h with
  | answered _ _ hlimit => exact hlimit
  | givenUp _ hlimit => exact Nat.le_of_eq hlimit

/-- A request is sent once when the platform is reached each time. -/
theorem Request.once {r : Except Failure call.Value} {es : List (Exchange Cloud)} (h : Request n call r es)
    (hreached : ∀ e ∈ es, ∀ m, e.answer ≠ .error (.transport m)) : ∃ t, es = [⟨t, call, r⟩] := by
  cases h with
  | @answered t _ lost _ hlost _ =>
    have hnone : lost = [] := List.eq_nil_iff_forall_not_mem.2 fun e he => by
      obtain ⟨s, m, rfl⟩ := hlost e he
      exact hreached _ (List.mem_cons_of_mem _ he) m rfl
    rw [hnone]
    exact ⟨t, rfl⟩
  | @givenUp _ m _ _ _ => exact absurd rfl (hreached _ List.mem_cons_self m)

/-! ### One request -/

/-- The number of times that a request is sent at most. -/
def RetryPolicy.limit (p : RetryPolicy) : Nat := max p.maxAttempts 1

private theorem request_of_answer {lost : List (Exchange Cloud)} (hlost : AllLost call lost) (hlimit : lost.length < n)
    (t : Nat) {a : Except Failure call.Value} (ha : ∀ m, a ≠ .error (.transport m)) :
    Request n call a (⟨t, call, a⟩ :: lost) ∧
      lost.length + 1 = (⟨t, call, a⟩ :: lost : List (Exchange Cloud)).length :=
  ⟨.answered ha hlost hlimit, rfl⟩

/-- Attempts after others that could not reach the platform. -/
private theorem always_retryFrom_request (p : RetryPolicy) (left : Nat) (lost : List (Exchange Cloud))
    (hlost : AllLost call lost) : (p.retryFrom (Action.call call).run left lost.length).Always fun r es =>
      Request (lost.length + left + 1) call r.1 (es ++ lost) ∧ r.2 = (es ++ lost).length := by
  induction left generalizing lost with
  | zero =>
    unfold RetryPolicy.retryFrom
    refine Program.always_bind.2 (Program.always_ask.2 fun t a => Program.always_done.2 ?_)
    rcases a with f | v
    · cases f with
      | transport m => exact Program.always_done.2 ⟨.givenUp hlost rfl, by simp⟩
      | _ => exact Program.always_done.2 (request_of_answer hlost (by omega) t (by simp))
    · exact Program.always_done.2 (request_of_answer hlost (by omega) t (by simp))
  | succ left ih =>
    unfold RetryPolicy.retryFrom
    refine Program.always_bind.2 (Program.always_ask.2 fun t a => Program.always_done.2 ?_)
    rcases a with f | v
    · cases f with
      | transport m =>
        -- This attempt is one more that could not reach the platform.
        have hmore := ih (⟨t, call, .error (.transport m)⟩ :: lost) (List.forall_mem_cons.2 ⟨⟨t, m, rfl⟩, hlost⟩)
        refine Program.always_sleep.2 (hmore.mono fun r es hr => ?_)
        rw [List.length_cons] at hr
        rw [List.append_assoc, show lost.length + (left + 1) + 1 = lost.length + 1 + left + 1 by omega]
        exact hr
      | _ => exact Program.always_done.2 (request_of_answer hlost (by omega) t (by simp))
    · exact Program.always_done.2 (request_of_answer hlost (by omega) t (by simp))

/-- A call that is sent again is one request, whatever the platform answers; the count is that of its attempts. -/
theorem always_retryCounted_request (p : RetryPolicy) (call : Call) :
    (p.retryCounted (Action.call call).run).Always fun r es => Request p.limit call r.1 es ∧ r.2 = es.length := by
  have hlimit : ([] : List (Exchange Cloud)).length + (max p.maxAttempts 1 - 1) + 1 = p.limit := by
    rw [RetryPolicy.limit, List.length_nil]
    omega
  refine (always_retryFrom_request p _ [] fun e he => absurd he List.not_mem_nil).mono fun r es hr => ?_
  rwa [hlimit, List.append_nil] at hr

theorem Client.always_send_request (c : Client) (call : Call) :
    (c.send call).run.Always (Request c.retry.limit call) :=
  Program.always_bind.2 ((always_retryCounted_request c.retry call).mono fun _ _ h => Program.always_done.2 h.1)

end Fleet
