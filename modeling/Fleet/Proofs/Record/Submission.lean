import Fleet.Proofs.Record.Asked
import Fleet.Proofs.Record.Request
import Fleet.Proofs.Record.Undertaking

/-!
# Submitting a change

A resource is created, changed or deleted by one request, and everything that is asked after it changes nothing
(`Submits`). When the request fails, nothing more is asked, unless what it was to create is taken over as it is
(`Manager.undertake_submits`).
-/

namespace Fleet

variable {σ α : Type}

/-! ### What is submitted, and what comes of a failure -/

/-- The call by which an operation on a single resource asks for its change. -/
def Undertaking.change? : Undertaking → Option Call
  | .submitInsert scope spec => some (.insert scope spec)
  | .create kind scope spec => if spec.kind = kind then some (.insert scope spec) else none
  | .delete kind scope name => some (.delete kind scope name)
  | .deleteIfExists kind scope name => some (.delete kind scope name)
  | .update kind scope name tags => some (.setTags kind scope name tags)
  | _ => none

theorem Undertaking.isMutation_of_change? {u : Undertaking} {call : Call} (h : u.change? = some call) :
    call.isMutation = true := by
  cases u with
  | create kind scope spec =>
    simp only [change?] at h
    split at h
    · cases h
      rfl
    · exact nomatch h
  | submitInsert | delete | deleteIfExists | update =>
    cases h
    rfl
  | _ => exact nomatch h

/-- The result of an operation whose request for the change has failed after some attempts; there is none yet when the
resource is taken over that is in the way. -/
def Undertaking.afterFailure? : (u : Undertaking) → Nat → Failure → Option (Except Failure u.Value)
  | .create _ _ _, attempts, f => if f.isAlreadyExists = true ∧ 1 < attempts then none else some (.error f)
  | .deleteIfExists _ _ _, _, f => if f.isNotFound then some (.ok false) else some (.error f)
  | _, _, f => some (.error f)

/-- Other failures than that the resource exists or does not are the result of the operation. -/
theorem Undertaking.afterFailure?_eq (u : Undertaking) (attempts : Nat) {f : Failure}
    (hexists : f.isAlreadyExists = false) (hfound : f.isNotFound = false) : u.afterFailure? attempts f = some (.error f) := by
  cases u <;> simp [afterFailure?, hexists, hfound]

/-- An action with the result `r` leaves the request for a change in the record, with the outcome `o`, and after it only
what changes nothing. Nothing more is asked when the request fails and `after?` knows what comes of it. -/
structure SubmitsWith (limit : Nat) (call : Call) (after? : Nat → Failure → Option (Except Failure α))
    (o : Except Failure call.Value) (submission reads : List (Exchange Cloud)) (r : Except Failure α) : Prop where
  request : Request limit call o submission
  unchanging : ∀ e ∈ reads, e.query.isMutation = false
  failed : ∀ f x, o = .error f → after? submission.length f = some x → r = x ∧ reads = []

/-- The exchanges of an action are the request for a change, and then what changes nothing. -/
def Submits (limit : Nat) (call : Call) (after? : Nat → Failure → Option (Except Failure α)) (r : Except Failure α)
    (es : List (Exchange Cloud)) : Prop :=
  ∃ o submission reads, es = reads ++ submission ∧ SubmitsWith limit call after? o submission reads r

private theorem submits_of_failed {limit : Nat} {call : Call} {after? : Nat → Failure → Option (Except Failure α)}
    {es : List (Exchange Cloud)} {f : Failure} (h : Request limit call (.error f) es) {r : Except Failure α}
    (hr : ∀ x, after? es.length f = some x → r = x) : Submits limit call after? r es := by
  refine ⟨.error f, es, [], rfl, h, by simp, fun g x hg hx => ?_⟩
  cases hg
  exact ⟨hr x hx, rfl⟩

private theorem submits_of_ok {limit : Nat} {call : Call} {after? : Nat → Failure → Option (Except Failure α)}
    {es es' : List (Exchange Cloud)} {v : call.Value} (h : Request limit call (.ok v) es)
    (hreads : ∀ e ∈ es', e.query.isMutation = false) (r : Except Failure α) : Submits limit call after? r (es' ++ es) :=
  ⟨.ok v, es, es', rfl, h, hreads, fun _ _ hf => nomatch hf⟩

namespace Client

open Action

variable (c : Client)

private abbrev Reads (p : Program Cloud α) : Prop :=
  p.Asks fun q : Call => q.isMutation = false

private theorem reads_awaitDone (h : OperationHandle) : Reads (c.awaitDone h).run := c.asks_awaitDone rfl

/-- A request for a change and what comes after it. -/
private theorem always_send_submits {call : Call} {k : call.Value → Action α} (hk : ∀ v, Reads (k v).run) :
    (c.send call >>= k).run.Always (Submits c.retry.limit call fun _ f => some (.error f)) := by
  refine always_bind ((c.always_send_request call).mono fun r es hr => ?_)
  cases r with
  | error f => exact submits_of_failed hr fun x hx => Option.some.inj hx
  | ok v => exact (hk v).mono fun r es' hes' => submits_of_ok hr hes' r

private theorem always_submitInsert_submits (scope : Scope) (spec : ResourceSpec) :
    (c.submitInsert scope spec).run.Always (Submits c.retry.limit (.insert scope spec) fun _ f => some (.error f)) := by
  refine (c.always_send_request (.insert scope spec)).mono fun r es hr => ?_
  cases r with
  | error f => exact submits_of_failed hr fun x hx => Option.some.inj hx
  | ok h =>
    have hnothing : ∀ e ∈ ([] : List (Exchange Cloud)), e.query.isMutation = false := by simp
    exact submits_of_ok hr hnothing _

private theorem always_delete_submits (kind : Kind) (scope : Scope) (name : String) :
    (c.delete kind scope name).run.Always
      (Submits c.retry.limit (.delete kind scope name) fun _ f => some (.error f)) :=
  c.always_send_submits fun h => always_discard ((c.reads_awaitDone h).mono fun r es hes => by cases r <;> exact hes)

private theorem always_deleteIfExists_submits (kind : Kind) (scope : Scope) (name : String) :
    (c.deleteIfExists kind scope name).run.Always (Submits c.retry.limit (.delete kind scope name)
      fun _ f => if f.isNotFound then some (.ok false) else some (.error f)) := by
  refine always_bind (always_outcome ((c.always_delete_submits kind scope name).mono fun r es hr => ?_))
  -- What is made of the outcome of the deletion adds no exchanges.
  have hlast : ∀ x : Except Failure Bool, (∀ f, r = .error f → x = if f.isNotFound then .ok false else .error f) →
      Submits c.retry.limit (.delete kind scope name)
        (fun _ f => if f.isNotFound then some (.ok false) else some (.error f)) x ([] ++ es) := by
    intro x hx
    obtain ⟨o, submission, reads, rfl, hs⟩ := hr
    refine ⟨o, submission, reads, rfl, hs.request, hs.unchanging, fun f y hf hy => ?_⟩
    obtain ⟨rfl, hnone⟩ := hs.failed f (.error f) hf rfl
    refine ⟨?_, hnone⟩
    rw [hx f rfl]
    split at hy
    · next h => rw [if_pos h]; exact Option.some.inj hy
    · next h => rw [if_neg h]; exact Option.some.inj hy
  cases r with
  | ok v => exact always_pure (hlast _ fun f hf => nomatch hf)
  | error f =>
    show (if f.isNotFound = true then pure false else throw f : Action Bool).run.Always _
    split
    · next h => exact always_pure (hlast _ fun g hg => by cases hg; rw [if_pos h])
    · next h => exact always_throw (hlast _ fun g hg => by cases hg; rw [if_neg h])

private theorem always_update_submits (kind : Kind) (scope : Scope) (name : String) (tags : Tags) :
    (c.update kind scope name tags).run.Always
      (Submits c.retry.limit (.setTags kind scope name tags) fun _ f => some (.error f)) :=
  c.always_send_submits fun h => c.reads_awaitDone h

private theorem always_create_submits {kind : Kind} {scope : Scope} {spec : ResourceSpec} (hkind : spec.kind = kind) :
    (c.create kind scope spec).run.Always (Submits c.retry.limit (.insert scope spec)
      fun n f => if f.isAlreadyExists = true ∧ 1 < n then none else some (.error f)) := by
  unfold create
  rw [if_neg fun h => h hkind]
  have hcounted := always_retryCounted_request c.retry (.insert scope spec)
  refine always_lift (hcounted.mono fun (submitted, attempts) es hr => ?_)
  obtain ⟨hrequest, rfl⟩ := hr
  have hfetch : Reads (c.fetch kind scope spec.name).run := c.asks_fetch rfl
  cases submitted with
  | error f =>
    show (if f.isAlreadyExists = true ∧ 1 < es.length then c.fetch kind scope spec.name
      else throw f : Action kind.Record).run.Always _
    split
    · next h =>
      refine hfetch.mono fun r es' hes' => ⟨.error f, es, es', rfl, hrequest, hes', fun g x hg hx => ?_⟩
      cases hg
      rw [if_pos h] at hx
      exact nomatch hx
    · next h =>
      refine always_throw (submits_of_failed hrequest fun x hx => ?_)
      rw [if_neg h] at hx
      exact Option.some.inj hx
  | ok h =>
    have hjoin := Program.joinable_asked (S := Cloud) fun q : Call => q.isMutation = false
    -- Whatever the operation comes to, nothing but a look at the resource follows.
    refine Program.Always.mono (leaves_bind hjoin (leaves_outcome hjoin (c.reads_awaitDone h)) fun done => ?_)
      fun r es' hes' => submits_of_ok hrequest hes' r
    cases done with
    | ok v => exact hfetch
    | error f =>
      show Reads (if f.isAlreadyExists = true ∧ 1 < es.length then c.fetch kind scope spec.name
        else throw f : Action kind.Record).run
      split
      · exact hfetch
      · exact leaves_throw hjoin f

end Client

/-- An operation that asks for the change of a single resource is a single program. -/
theorem Manager.exists_program_of_change [Service Cloud σ] (mgr : Manager) {u : Undertaking} {call : Call}
    (hu : u.change? = some call) :
    ∃ p : Program Cloud (Except Failure u.Value), ∀ w : World Cloud σ, mgr.undertake u w = p.run w := by
  cases u with
  | submitInsert | create | delete | deleteIfExists | update => exact ⟨_, fun _ => rfl⟩
  | _ => exact nomatch hu

/-- The exchanges of an operation that asks for the change of a single resource. -/
theorem Manager.undertake_submits [Service Cloud σ] (mgr : Manager) {u : Undertaking} {call : Call}
    (hu : u.change? = some call) (w : World Cloud σ) :
    ∃ es, (mgr.undertake u w).2.record = es ++ w.record ∧
      Submits mgr.client.retry.limit call u.afterFailure? (mgr.undertake u w).1 es := by
  let c := mgr.client
  cases u with
  | submitInsert scope spec =>
    cases hu
    exact (c.always_submitInsert_submits scope spec).run w
  | create kind scope spec =>
    simp only [Undertaking.change?] at hu
    split at hu
    · next hkind =>
      cases hu
      exact (c.always_create_submits hkind).run w
    · exact nomatch hu
  | delete kind scope name =>
    cases hu
    exact (c.always_delete_submits kind scope name).run w
  | deleteIfExists kind scope name =>
    cases hu
    exact (c.always_deleteIfExists_submits kind scope name).run w
  | update kind scope name tags =>
    cases hu
    exact (c.always_update_submits kind scope name tags).run w
  | _ => exact nomatch hu

end Fleet
