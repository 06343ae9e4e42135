import Fleet.Proofs.Client.Waiting
import Fleet.Proofs.Record.Request

/-!
# When an operation is asked for

The attempts of a request are made after the delays of the retry policy (`trace_retryCounted`), and waiting for an
operation is one such request after the other (`Client.Wait`). While every poll gets through, the polls are made at the
times of the poll policy, the last one at the deadline at the latest (`awaitDoneWithin_polls`). Attempts that are lost
are made again without a look at the deadline, so that it is only the beginning of the last poll that is bounded by it
(`awaitDoneWithin_elapsed`).
-/

namespace Fleet

variable {σ : Type}

/-! ### The times of the attempts of a request -/

/-- The delays before the attempt with the given index, counted from 0. -/
def RetryPolicy.attemptMs (p : RetryPolicy) : Nat → Nat
  | 0 => 0
  | k + 1 => p.attemptMs k + p.delayMs k

section Attempts

variable {p : RetryPolicy} {call : Call} {t t' : Nat} {es : List (Exchange Cloud)}

private theorem trace_call {r : Except Failure call.Value} (h : (Action.call call).run.Trace t r es t') :
    es.length = 1 ∧ t' = t := by
  obtain ⟨a, es', rfl, hdone⟩ := Program.trace_ask.1 h
  obtain ⟨-, rfl, rfl⟩ := Program.trace_done.1 hdone
  exact ⟨rfl, rfl⟩

/-- Further attempts after `made` earlier ones. -/
private theorem trace_retryFrom {left made : Nat} {r : Except Failure call.Value × Nat}
    (h : (p.retryFrom (Action.call call).run left made).Trace t r es t') :
    ∃ k, es.length = k + 1 ∧ t' + p.attemptMs made = t + p.attemptMs (made + k) := by
  induction left generalizing made t es with
  | zero =>
    unfold RetryPolicy.retryFrom at h
    obtain ⟨a, es₁, t₁, es₂, rfl, hask, hrest⟩ := Program.trace_bind.1 h
    obtain ⟨hone, rfl⟩ := trace_call hask
    have hlast : es₂ = [] ∧ t' = t₁ := by
      rcases a with f | v
      · cases f with
        | _ => exact (Program.trace_done.1 hrest).2
      · exact (Program.trace_done.1 hrest).2
    obtain ⟨rfl, rfl⟩ := hlast
    exact ⟨0, hone, rfl⟩
  | succ left ih =>
    unfold RetryPolicy.retryFrom at h
    obtain ⟨a, es₁, t₁, es₂, rfl, hask, hrest⟩ := Program.trace_bind.1 h
    obtain ⟨hone, rfl⟩ := trace_call hask
    have hlast (hdone : es₂ = [] ∧ t' = t₁) :
        ∃ k, (es₂ ++ es₁).length = k + 1 ∧ t' + p.attemptMs made = t₁ + p.attemptMs (made + k) := by
      obtain ⟨rfl, rfl⟩ := hdone
      exact ⟨0, hone, rfl⟩
    rcases a with f | v
    · cases f with
      | transport m =>
        -- The next attempt is made after the delay that follows this one.
        obtain ⟨k, hk, htime⟩ := ih (Program.trace_sleep.1 hrest)
        refine ⟨k + 1, by rw [List.length_append, hk, hone], ?_⟩
        rw [show made + 1 + k = made + (k + 1) by omega, RetryPolicy.attemptMs] at htime
        omega
      | _ => exact hlast (Program.trace_done.1 hrest).2
    · exact hlast (Program.trace_done.1 hrest).2

/-- A request ends with the answer to its last attempt, after the delays before it. -/
theorem trace_retryCounted {r : Except Failure call.Value × Nat}
    (h : (p.retryCounted (Action.call call).run).Trace t r es t') : t' = t + p.attemptMs (es.length - 1) := by
  obtain ⟨k, hk, htime⟩ := trace_retryFrom h
  rw [Nat.zero_add] at htime
  rw [hk, Nat.add_sub_cancel, ← htime]
  rfl

end Attempts

theorem RetryPolicy.attemptMs_le (p : RetryPolicy) {k n : Nat} (h : k ≤ n) : p.attemptMs k ≤ p.attemptMs n := by
  induction h with
  | refl => exact Nat.le_refl _
  | step _ ih => exact Nat.le_trans ih (Nat.le_add_right ..)

/-! ### Polls -/

namespace Client

/-- One poll of an operation, from the time `t` to the time `t'`: a request, which succeeds with a snapshot when the
poll does. -/
structure Polled (c : Client) (h : OperationHandle) (t : Nat) (r : Except Failure Operation)
    (es : List (Exchange Cloud)) (t' : Nat) : Prop where
  request : ∃ a, Request c.retry.limit (.operation h) a es ∧ ∀ o, r = .ok o ↔ a = .ok o
  ends : t' = t + c.retry.attemptMs (es.length - 1)
  times : ∀ e ∈ es, t ≤ e.time ∧ e.time ≤ t'

/-- A wait for an operation from the time `t` of the poll with the index `poll` on, with at most `fuel` sleeps. -/
inductive Wait (c : Client) (h : OperationHandle) (started deadline : Nat) :
    Nat → Nat → Nat → Except Failure Summary → List (Exchange Cloud) → Nat → Prop
  | failed {fuel poll t t' : Nat} {f : Failure} {es : List (Exchange Cloud)} (hpoll : c.Polled h t (.error f) es t') :
      Wait c h started deadline fuel poll t (.error f) es t'
  | settled {fuel poll t t' : Nat} {o : Operation} {es : List (Exchange Cloud)} (hpoll : c.Polled h t (.ok o) es t')
      (hdone : o.isDone = true) : Wait c h started deadline fuel poll t (settled h o) es t'
  | expired {fuel poll t t' : Nat} {o : Operation} {es : List (Exchange Cloud)} (hpoll : c.Polled h t (.ok o) es t')
      (hrunning : o.isDone = false) (hlate : deadline ≤ t' ∨ fuel = 0) :
      Wait c h started deadline fuel poll t (.error (.timeout h.name ((t' - started) * Duration.perMilli))) es t'
  | again {fuel poll t t₁ t' : Nat} {o : Operation} {r : Except Failure Summary} {es es' : List (Exchange Cloud)}
      (hpoll : c.Polled h t (.ok o) es t₁) (hrunning : o.isDone = false) (hearly : t₁ < deadline)
      (hrest : Wait c h started deadline fuel (poll + 1) (t₁ + min (c.poll.intervalMs poll) (deadline - t₁)) r es' t') :
      Wait c h started deadline (fuel + 1) poll t r (es' ++ es) t'

variable {c : Client} {h : OperationHandle} {t t' started deadline fuel poll : Nat}
  {es : List (Exchange Cloud)}

private theorem trace_snapshot {r : Except Failure Operation} (ht : (c.snapshot h).run.Trace t r es t') :
    c.Polled h t r es t' := by
  have htimes : ∀ e ∈ es, t ≤ e.time ∧ e.time ≤ t' := fun e he => ht.time_mem he
  obtain ⟨a, es₁, t₁, es₂, rfl, hsend, hread⟩ := Program.trace_bind.1 ht
  obtain ⟨b, es₃, t₂, es₄, rfl, hcounted, hfirst⟩ := Program.trace_bind.1 hsend
  obtain ⟨rfl, rfl, rfl⟩ := Program.trace_done.1 hfirst
  have hrequest := ((always_retryCounted_request c.retry (.operation h)).trace hcounted).1
  have hends := trace_retryCounted hcounted
  -- Reading the answer takes no time, and only the name of a failure is changed.
  have hlast : es₂ = [] ∧ t' = t₁ ∧ ∀ o, r = .ok o ↔ b.1 = .ok o := by
    rcases b with ⟨f | o, n⟩
    · have hfailed {g : Failure} (hg : (Program.done (.error g) : Program Cloud _).Trace t₁ r es₂ t') :
          es₂ = [] ∧ t' = t₁ ∧ ∀ o, r = .ok o ↔ (.error f : Except Failure Operation) = .ok o := by
        obtain ⟨rfl, rfl, rfl⟩ := Program.trace_done.1 hg
        exact ⟨rfl, rfl, fun o => ⟨(nomatch ·), (nomatch ·)⟩⟩
      by_cases hf : f.isNotFound = true
      · simp only [hf, if_true] at hread
        exact hfailed hread
      · simp only [hf, if_false, Bool.false_eq_true] at hread
        exact hfailed hread
    · obtain ⟨rfl, rfl, rfl⟩ := Program.trace_done.1 hread
      exact ⟨rfl, rfl, fun _ => Iff.rfl⟩
  obtain ⟨rfl, rfl, hok⟩ := hlast
  exact ⟨⟨b.1, hrequest, hok⟩, hends, htimes⟩

/-- A poll and what comes of it: it fails, the operation is done, or it goes on. -/
private theorem trace_poll {next : Nat → Action Summary} {r : Except Failure Summary}
    (ht : (do
      let o ← c.snapshot h
      if o.isDone then ExceptT.mk (.done (settled h o))
      else
        let now ← ExceptT.lift Program.now
        next now : Action Summary).run.Trace t r es t') :
    (∃ f, r = .error f ∧ c.Polled h t (.error f) es t') ∨
      (∃ o : Operation, r = settled h o ∧ o.isDone = true ∧ c.Polled h t (.ok o) es t') ∨
      ∃ (o : Operation) (es₁ es₂ : List (Exchange Cloud)) (t₁ : Nat), es = es₂ ++ es₁ ∧ o.isDone = false ∧
        c.Polled h t (.ok o) es₁ t₁ ∧ (next t₁).run.Trace t₁ r es₂ t' := by
  rcases Action.trace_bind ht with ⟨o, es₁, t₁, es₂, rfl, hpoll, hrest⟩ | ⟨f, rfl, hpoll⟩
  · by_cases hdone : o.isDone = true
    · rw [if_pos hdone] at hrest
      obtain ⟨rfl, rfl, rfl⟩ := Program.trace_done.1 hrest
      exact .inr (.inl ⟨o, rfl, hdone, trace_snapshot hpoll⟩)
    · rw [if_neg hdone] at hrest
      exact .inr (.inr ⟨o, es₁, es₂, t₁, rfl, Bool.eq_false_iff.2 hdone, trace_snapshot hpoll,
        Program.trace_clock.1 hrest⟩)
  · exact .inl ⟨f, rfl, trace_snapshot hpoll⟩

theorem trace_awaitFrom {r : Except Failure Summary}
    (ht : (c.awaitFrom h started deadline fuel poll).run.Trace t r es t') :
    c.Wait h started deadline fuel poll t r es t' := by
  have hgiveUp {fuel poll t t₁ : Nat} {o : Operation} {es₁ es₂ : List (Exchange Cloud)} (hrunning : o.isDone = false)
      (hpoll : c.Polled h t (.ok o) es₁ t₁) (hlate : deadline ≤ t₁ ∨ fuel = 0)
      (hend : (throw (.timeout h.name ((t₁ - started) * Duration.perMilli)) : Action Summary).run.Trace t₁ r
        es₂ t') :
      c.Wait h started deadline fuel poll t r (es₂ ++ es₁) t' := by
    obtain ⟨rfl, rfl, rfl⟩ := Program.trace_done.1 hend
    exact .expired hpoll hrunning hlate
  induction fuel generalizing poll t es with
  | zero =>
    unfold awaitFrom at ht
    rcases trace_poll ht with ⟨f, rfl, hpoll⟩ | ⟨o, rfl, hdone, hpoll⟩ | ⟨o, es₁, es₂, t₁, rfl, hrunning, hpoll, hnext⟩
    · exact .failed hpoll
    · exact .settled hpoll hdone
    · split at hnext <;> exact hgiveUp hrunning hpoll (.inr rfl) hnext
  | succ fuel ih =>
    unfold awaitFrom at ht
    rcases trace_poll ht with ⟨f, rfl, hpoll⟩ | ⟨o, rfl, hdone, hpoll⟩ | ⟨o, es₁, es₂, t₁, rfl, hrunning, hpoll, hnext⟩
    · exact .failed hpoll
    · exact .settled hpoll hdone
    · by_cases hlate : deadline ≤ t₁
      · rw [if_pos hlate] at hnext
        exact hgiveUp hrunning hpoll (.inl hlate) hnext
      · rw [if_neg hlate] at hnext
        exact .again hpoll hrunning (Nat.lt_of_not_le hlate) (ih (Program.trace_sleep.1 hnext))

-- The fuel is a large number that must not be computed with, so it is a variable here.
private theorem trace_clock_wait {timeoutMs : Nat} {r : Except Failure Summary} (ht : (Program.clock fun started =>
    (c.awaitFrom h started (started + timeoutMs) fuel 0).run).Trace t r es t') :
    c.Wait h t (t + timeoutMs) fuel 0 t r es t' := trace_awaitFrom (Program.trace_clock.1 ht)

/-! ### The deadline -/

/-- The last poll of a wait begins before the deadline has passed, and the wait ends with it. -/
private theorem Wait.exists_last {r : Except Failure Summary} (hw : c.Wait h started deadline fuel poll t r es t')
    (ht : t ≤ deadline) : ∃ (last earlier : List (Exchange Cloud)) (s : Nat) (a : Except Failure Operation),
      es = last ++ earlier ∧ s ≤ deadline ∧ Request c.retry.limit (.operation h) a last ∧
      t' = s + c.retry.attemptMs (last.length - 1) := by
  have hlast {t t' : Nat} {r : Except Failure Operation} {es : List (Exchange Cloud)} (ht : t ≤ deadline)
      (hpoll : c.Polled h t r es t') : ∃ (last earlier : List (Exchange Cloud)) (s : Nat)
        (a : Except Failure Operation), es = last ++ earlier ∧ s ≤ deadline ∧
        Request c.retry.limit (.operation h) a last ∧ t' = s + c.retry.attemptMs (last.length - 1) := by
    obtain ⟨a, ha, -⟩ := hpoll.request
    exact ⟨es, [], t, a, (List.append_nil es).symm, ht, ha, hpoll.ends⟩
  induction hw with
  | failed hpoll => exact hlast ht hpoll
  | settled hpoll _ => exact hlast ht hpoll
  | expired hpoll _ _ => exact hlast ht hpoll
  | again _ _ hearly _ ih =>
    obtain ⟨last, earlier, s, a, rfl, hs, ha, hend⟩ := ih (by omega)
    exact ⟨last, earlier ++ _, s, a, List.append_assoc .., hs, ha, hend⟩

/-! ### Polls that get through -/

/-- A poll whose attempts are all answered is a single one, and takes no time. -/
private theorem Polled.once {r : Except Failure Operation} (hpoll : c.Polled h t r es t')
    (hok : ∀ e ∈ es, ∃ v, e.answer = .ok v) : ∃ o, r = .ok o ∧ es = [⟨t, .operation h, .ok o⟩] ∧ t' = t := by
  obtain ⟨a, ha, hr⟩ := hpoll.request
  obtain ⟨s, rfl⟩ := ha.once fun e he m hlost => by
    obtain ⟨v, hv⟩ := hok e he
    exact nomatch hlost.symm.trans hv
  obtain ⟨o, ho⟩ := hok _ List.mem_cons_self
  obtain ⟨hstart, hend⟩ := hpoll.times _ List.mem_cons_self
  have hnow : t' = t := hpoll.ends
  have hs : s = t := Nat.le_antisymm (hnow ▸ hend) hstart
  have ha : a = .ok o := ho
  exact ⟨o, (hr o).2 ha, by rw [hs, ha], hnow⟩

end Client

namespace PollPolicy

variable (p : PollPolicy)

/-- The policy with another deadline. -/
def within (timeoutMs : Nat) : PollPolicy := { p with timeoutMs := timeoutMs }

theorem pollTime_le (k : Nat) : p.pollTime k ≤ p.timeoutMs := by
  cases k with
  | zero => exact Nat.zero_le _
  | succ k => exact Nat.min_le_right ..

/-- With intervals of at least a millisecond, the polls come to the deadline. -/
theorem min_le_pollTime (hinterval : ∀ k < p.timeoutMs, 1 ≤ p.intervalMs k) (k : Nat) :
    min k p.timeoutMs ≤ p.pollTime k := by
  induction k with
  | zero => exact Nat.min_le_left ..
  | succ k ih =>
    rw [pollTime]
    by_cases hk : k < p.timeoutMs
    · have := hinterval k hk
      omega
    · omega

/-- There are fewer polls before one that is made early than milliseconds up to the deadline. -/
theorem lt_of_pollTime_lt (hinterval : ∀ k < p.timeoutMs, 1 ≤ p.intervalMs k) {k : Nat}
    (h : p.pollTime k < p.timeoutMs) : k < p.timeoutMs := by
  have := p.min_le_pollTime hinterval k
  omega

theorem pollTime_eq_of_le (hinterval : ∀ k < p.timeoutMs, 1 ≤ p.intervalMs k) {k : Nat} (h : p.timeoutMs ≤ k) :
    p.pollTime k = p.timeoutMs := by
  have := p.min_le_pollTime hinterval k
  have := p.pollTime_le k
  omega

/-- The polls of an operation from the index `poll` on, made at the times of the policy and answered with `os`. The
latest one comes first. -/
def pollsFrom (h : OperationHandle) (started poll : Nat) (os : List Operation) : List (Exchange Cloud) :=
  (os.mapIdx fun k o => ⟨started + p.pollTime (poll + k), .operation h, .ok o⟩).reverse

theorem pollsFrom_cons (h : OperationHandle) (started poll : Nat) (o : Operation) (os : List Operation) :
    p.pollsFrom h started poll (o :: os) =
      p.pollsFrom h started (poll + 1) os ++ [⟨started + p.pollTime poll, .operation h, .ok o⟩] := by
  simp only [pollsFrom, List.mapIdx_cons, List.reverse_cons, Nat.add_zero]
  simp only [Nat.add_assoc, Nat.add_comm 1]

end PollPolicy

section Exact

variable {c : Client} {h : OperationHandle} {started fuel poll t t' timeoutMs : Nat} {r : Except Failure Summary}
  {es : List (Exchange Cloud)}

/-- The exchanges and the end of a wait from the poll with the index `poll` on, when every poll gets through. -/
private structure Client.PollsFrom (c : Client) (h : OperationHandle) (started timeoutMs poll : Nat)
    (os : List Operation) (o : Operation) (r : Except Failure Summary) (es : List (Exchange Cloud)) (t' : Nat) :
    Prop where
  count : os.length ≤ timeoutMs - poll
  exchanges : es = (c.poll.within timeoutMs).pollsFrom h started poll (os ++ [o])
  now : t' = started + (c.poll.within timeoutMs).pollTime (poll + os.length)
  running : ∀ x ∈ os, x.isDone = false
  early : ∀ k < os.length, (c.poll.within timeoutMs).pollTime (poll + k) < timeoutMs
  late : o.isDone = false → (c.poll.within timeoutMs).pollTime (poll + os.length) = timeoutMs
  result : r = if o.isDone then Client.settled h o else .error (.timeout h.name (timeoutMs * Duration.perMilli))

/-- A poll that ends the wait. -/
private theorem Client.pollsFrom_last {o : Operation}
    (hlate : o.isDone = false → (c.poll.within timeoutMs).pollTime poll = timeoutMs)
    (hr : r = if o.isDone then settled h o else .error (.timeout h.name (timeoutMs * Duration.perMilli))) :
    c.PollsFrom h started timeoutMs poll [] o r
      [⟨started + (c.poll.within timeoutMs).pollTime poll, .operation h, .ok o⟩]
      (started + (c.poll.within timeoutMs).pollTime poll) :=
  ⟨Nat.zero_le _, rfl, rfl, by simp, by simp, hlate, hr⟩

/-- An early poll, which shows the operation still running, and those that follow. -/
private theorem Client.PollsFrom.cons {os : List Operation} {o o' : Operation}
    (hrest : c.PollsFrom h started timeoutMs (poll + 1) os o' r es t') (hrunning : o.isDone = false)
    (hearly : (c.poll.within timeoutMs).pollTime poll < timeoutMs) (hpoll : poll < timeoutMs) :
    c.PollsFrom h started timeoutMs poll (o :: os) o' r
      (es ++ [⟨started + (c.poll.within timeoutMs).pollTime poll, .operation h, .ok o⟩]) t' := by
  obtain ⟨hcount, rfl, rfl, hos, hearlier, hlate, rfl⟩ := hrest
  have hshift (k : Nat) : poll + 1 + k = poll + (k + 1) := by omega
  refine ⟨?_, ?_, ?_, ?_, ?_, ?_, rfl⟩
  · rw [List.length_cons]
    omega
  · rw [List.cons_append, PollPolicy.pollsFrom_cons]
  · rw [List.length_cons, hshift]
  · exact List.forall_mem_cons.2 ⟨hrunning, hos⟩
  · intro k hk
    cases k with
    | zero => exact hearly
    | succ k => exact hshift k ▸ hearlier k (Nat.lt_of_succ_lt_succ hk)
  · rw [List.length_cons, ← hshift]
    exact hlate

private theorem Client.Wait.polls (hw : c.Wait h started (started + timeoutMs) fuel poll t r es t')
    (hinterval : ∀ k < timeoutMs, 1 ≤ c.poll.intervalMs k) (hok : ∀ e ∈ es, ∃ v, e.answer = .ok v)
    (ht : t = started + (c.poll.within timeoutMs).pollTime poll) (hfuel : timeoutMs < fuel + poll) :
    ∃ os o, c.PollsFrom h started timeoutMs poll os o r es t' := by
  induction hw with
  | failed hpoll =>
    obtain ⟨o, ho, -⟩ := hpoll.once hok
    exact nomatch ho
  | @settled _ _ _ _ o _ hpoll hdone =>
    obtain ⟨_, ho, rfl, rfl⟩ := hpoll.once hok
    cases ho
    subst ht
    exact ⟨[], o, Client.pollsFrom_last (fun hrunning => nomatch hdone.symm.trans hrunning) (by rw [if_pos hdone])⟩
  | @expired _ poll _ _ o _ hpoll hrunning hlate =>
    obtain ⟨_, ho, rfl, rfl⟩ := hpoll.once hok
    cases ho
    subst ht
    -- Either the deadline has come, or there have been more polls than milliseconds up to it.
    have hend : (c.poll.within timeoutMs).pollTime poll = timeoutMs := by
      rcases hlate with hlate | rfl
      · exact Nat.le_antisymm ((c.poll.within timeoutMs).pollTime_le poll) (Nat.le_of_add_le_add_left hlate)
      · exact (c.poll.within timeoutMs).pollTime_eq_of_le hinterval (show timeoutMs ≤ poll by omega)
    refine ⟨[], o, Client.pollsFrom_last (fun _ => hend) ?_⟩
    rw [hrunning, hend, Nat.add_sub_cancel_left]
    rfl
  | again hpoll hrunning hearly _ ih =>
    obtain ⟨_, ho, rfl, rfl⟩ := hpoll.once fun e he => hok e (List.mem_append_right _ he)
    cases ho
    subst ht
    have hbefore := Nat.lt_of_add_lt_add_left hearly
    have hpoll := (c.poll.within timeoutMs).lt_of_pollTime_lt hinterval hbefore
    have hnext (k : Nat) : (c.poll.within timeoutMs).pollTime (k + 1) =
        min ((c.poll.within timeoutMs).pollTime k + c.poll.intervalMs k) timeoutMs := rfl
    obtain ⟨os, o', hrest⟩ := ih (fun e he => hok e (List.mem_append_left _ he)) (by rw [hnext]; omega) (by omega)
    exact ⟨_ :: os, o', hrest.cons hrunning hbefore hpoll⟩

/-- The exchanges and the end of a wait, when every poll gets through: `os` are the snapshots that show the operation
still running, and `o` is the last one. -/
structure Client.Polls (c : Client) (h : OperationHandle) (timeoutMs : Nat) (w : World Cloud σ)
    (os : List Operation) (o : Operation) (r : Except Failure Summary) (w' : World Cloud σ) : Prop where
  count : os.length ≤ timeoutMs
  record : w'.record = (c.poll.within timeoutMs).pollsFrom h w.now 0 (os ++ [o]) ++ w.record
  now : w'.now = w.now + (c.poll.within timeoutMs).pollTime os.length
  running : ∀ x ∈ os, x.isDone = false
  /-- All polls but the last one come before the deadline. -/
  early : ∀ k < os.length, (c.poll.within timeoutMs).pollTime k < timeoutMs
  /-- A wait that is given up has polled at the deadline. -/
  late : o.isDone = false → (c.poll.within timeoutMs).pollTime os.length = timeoutMs
  result : r = if o.isDone then
      (match o.errors with
        | [] => .ok h.target
        | e :: _ => .error (.operationFailed h.name e.code e.message))
    else .error (.timeout h.name (timeoutMs * Duration.perMilli))

/-- With intervals of at least a millisecond, a wait whose requests are all answered polls at the times of its policy,
cut off at the deadline, and ends with the first snapshot that shows the operation done. It times out when there is no
such snapshot up to and at the deadline. -/
theorem awaitDoneWithin_polls [Service Cloud σ] (c : Client) (h : OperationHandle) (timeoutMs : Nat)
    (hinterval : ∀ k < timeoutMs, 1 ≤ c.poll.intervalMs k) (w : World Cloud σ)
    (hok : ∀ es, ((c.awaitDoneWithin h timeoutMs).run.run w).2.record = es ++ w.record →
      ∀ e ∈ es, ∃ v, e.answer = .ok v) :
    ∃ os o, c.Polls h timeoutMs w os o ((c.awaitDoneWithin h timeoutMs).run.run w).1
      ((c.awaitDoneWithin h timeoutMs).run.run w).2 := by
  obtain ⟨es, hes, -, ht⟩ := (c.awaitDoneWithin h timeoutMs).run.trace_run w
  have hanswered := hok es hes
  generalize ((c.awaitDoneWithin h timeoutMs).run.run w).1 = r, ((c.awaitDoneWithin h timeoutMs).run.run w).2 = w'
    at hes ht
  rw [c.run_awaitDoneWithin] at ht
  have hfuel : timeoutMs < Client.pollLimit timeoutMs + 0 := Nat.lt_add_of_pos_right (by decide)
  obtain ⟨os, o, hcount, rfl, hnow, hrunning, hearly, hlate, hr⟩ :=
    (Client.trace_clock_wait ht).polls hinterval hanswered rfl hfuel
  simp only [Nat.zero_add] at hnow hearly hlate
  refine ⟨os, o, hcount, hes, hnow, hrunning, hearly, hlate, ?_⟩
  rw [hr, Client.settled, Operation.primaryError?]
  cases o.errors <;> rfl

/-! ### A poll at the deadline -/

/-- A client that sleeps for 5 milliseconds after its first poll, and twice as long after each further one. -/
def Client.hasty : Client := ⟨.standard, ⟨5, 1000, 2.0, 600000⟩⟩

/-- A network is being created, and its operation already lists an error. -/
def overdrawn : Except Failure OperationHandle × Memory :=
  ((Memory.empty "project").failOperation "net" .quotaExceeded "quota").insert .global
    (.network ⟨"net", "10.0.0.0/8", none⟩)

def overdraft : OperationHandle :=
  (Memory.empty "project").nextHandle .insert
    ⟨.network, "net", (Memory.empty "project").selfLink .network .global "net", .global, none⟩

def hastyRun : Except Failure Summary × World Cloud Memory :=
  (Client.hasty.awaitDoneWithin overdraft 12).run.run (World.start overdrawn.2 100)

theorem awaitDoneWithin_polls_of_overdrawn :
    overdrawn.1 = .ok overdraft ∧ hastyRun.2.record.map (·.time) = [112, 105, 100] ∧
      ∃ os o, Client.hasty.Polls overdraft 12 (World.start overdrawn.2 100) os o hastyRun.1 hastyRun.2 ∧
        os.length = 2 := by
  have htimes : hastyRun.2.record.map (·.time) = [112, 105, 100] := by decide +kernel
  have hok : hastyRun.2.record.all (fun e => e.answer.isOk) = true := by decide +kernel
  obtain ⟨os, o, hpolls⟩ := awaitDoneWithin_polls .hasty overdraft 12 (by decide +kernel) (World.start overdrawn.2 100)
    fun es hes e he => by
      have hes : hastyRun.2.record = es := hes.trans (List.append_nil es)
      have hans : e.answer.isOk = true := List.all_eq_true.1 hok e (hes ▸ he)
      generalize e.answer = a at hans
      cases a with
      | error f => exact nomatch hans
      | ok v => exact ⟨v, rfl⟩
  refine ⟨rfl, htimes, os, o, hpolls, ?_⟩
  have hlength := congrArg List.length htimes
  rw [List.length_map, show hastyRun.2.record = _ from hpolls.record] at hlength
  simpa [PollPolicy.pollsFrom, World.start] using hlength

end Exact

/-! ### What the deadline bounds -/

/-- A wait ends with a poll that begins before its deadline has passed. The attempts of this poll are not bounded by the
deadline: the wait is late by the delays between those of them that could not reach the platform after the deadline, and
in time when the platform is reached each time. -/
theorem awaitDoneWithin_elapsed [Service Cloud σ] (c : Client) (h : OperationHandle) (timeoutMs : Nat)
    (w : World Cloud σ) :
    let w' := ((c.awaitDoneWithin h timeoutMs).run.run w).2
    ∃ (last earlier : List (Exchange Cloud)) (s : Nat) (a : Except Failure Operation),
      w'.record = last ++ earlier ++ w.record ∧ Request c.retry.limit (.operation h) a last ∧
      s ≤ w.now + timeoutMs ∧ w'.now = s + c.retry.attemptMs (last.length - 1) ∧
      w'.now ≤ w.now + timeoutMs + c.retry.attemptMs (c.retry.limit - 1) ∧
      ((∀ e ∈ last, ∀ m, e.answer ≠ .error (.transport m)) → w'.now ≤ w.now + timeoutMs) := by
  obtain ⟨es, hes, -, ht⟩ := (c.awaitDoneWithin h timeoutMs).run.trace_run w
  generalize ((c.awaitDoneWithin h timeoutMs).run.run w).1 = r, ((c.awaitDoneWithin h timeoutMs).run.run w).2 = w'
    at hes ht ⊢
  rw [c.run_awaitDoneWithin] at ht
  obtain ⟨last, earlier, s, a, rfl, hs, ha, hend⟩ := (Client.trace_clock_wait ht).exists_last (Nat.le_add_right ..)
  have hmost := c.retry.attemptMs_le (Nat.sub_le_sub_right ha.length_le 1)
  refine ⟨last, earlier, s, a, hes, ha, hs, hend, ?_, fun hreached => ?_⟩
  · omega
  · obtain ⟨t, rfl⟩ := ha.once hreached
    exact hend ▸ hs

/-- A fetch that is lost is made again after a second, however early the deadline is. -/
theorem awaitDoneWithin_late :
    ¬ ((Client.standard.awaitDoneWithin overdraft 500).run.run
      (World.start (overdrawn.2.failNextFetches 1) 100)).2.now ≤ 100 + 500 := by
  decide +kernel

end Fleet
