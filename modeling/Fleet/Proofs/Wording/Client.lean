import Fleet.Client
import Fleet.Proofs.Wording.Basic

/-!
# Clients do not read messages

Every operation of a client makes the same calls at the same times when the answers differ in messages only, and ends
with outcomes that differ in messages only. This goes for requests that are sent again, for operations that are waited
for, for creations that take over what exists and for deletions of what is gone.
-/

namespace Fleet

open Action

variable {α : Type} {e : α → α}

theorem Action.alike_ite {p q : Prop} [Decidable p] [Decidable q] (hpq : p ↔ q) {a a' b b' : Action α}
    (ha : Action.Alike e a a') (hb : Action.Alike e b b') :
    Action.Alike e (if p then a else b) (if q then a' else b') := by
  by_cases hp : p
  · rwa [if_pos hp, if_pos (hpq.1 hp)]
  · rwa [if_neg hp, if_neg fun hq => hp (hpq.2 hq)]

namespace Client

variable (c : Client)

/-! ### Sending again -/

/-- Two outcomes of a call that differ in messages only, after the same number of attempts. -/
def AlikeCounted (call : Call) (r s : Except Failure call.Value × Nat) : Prop :=
  AlikeAnswers call r.1 s.1 ∧ r.2 = s.2

private theorem exists_transport {call : Call} {m : String} {s : Except Failure call.Value}
    (h : AlikeAnswers call (.error (.transport m)) s) : ∃ m', s = .error (.transport m') := by
  rcases silenced_eq_cases h with ⟨x, y, hx, -⟩ | ⟨f, g, hf, rfl, hfg⟩
  · cases hx
  · cases hf
    have hg : g.isTransient = true := (Failure.isTransient_congr hfg).symm
    obtain ⟨m', rfl⟩ := Failure.isTransient_iff.1 hg
    exact ⟨m', rfl⟩

/-- An attempt that could not reach the platform is followed by the same whatever the message was, and any other outcome
is returned. -/
private theorem alike_attempt {call : Call}
    {k : Except Failure call.Value → Program Cloud (Except Failure call.Value × Nat)} {n : Nat}
    (hreturn : ∀ r, (∀ m, r ≠ .error (.transport m)) → k r = .done (r, n))
    (hlost : ∀ m m', Program.Alike (S := Cloud) AlikeAnswers (AlikeCounted call) (k (.error (.transport m)))
      (k (.error (.transport m')))) :
    Program.Alike (S := Cloud) AlikeAnswers (AlikeCounted call) ((Action.call call).run.bind k)
      ((Action.call call).run.bind k) := by
  refine .ask fun r s hrs => ?_
  by_cases hr : ∃ m, r = .error (.transport m)
  · obtain ⟨m, rfl⟩ := hr
    obtain ⟨m', rfl⟩ := exists_transport hrs
    exact hlost m m'
  · have hs : ¬ ∃ m, s = .error (.transport m) := by
      rintro ⟨m, rfl⟩
      exact hr (exists_transport hrs.symm)
    show Program.Alike _ _ (k r) (k s)
    rw [hreturn r (not_exists.1 hr), hreturn s (not_exists.1 hs)]
    exact .done ⟨hrs, rfl⟩

private theorem alike_retryFrom (p : RetryPolicy) (call : Call) (left made : Nat) :
    Program.Alike (S := Cloud) AlikeAnswers (AlikeCounted call) (p.retryFrom (Action.call call).run left made)
      (p.retryFrom (Action.call call).run left made) := by
  induction left generalizing made with
  | zero =>
    unfold RetryPolicy.retryFrom
    refine alike_attempt (n := made + 1) (fun r hr => ?_) fun m m' => .done ⟨rfl, rfl⟩
    split
    · next m => exact absurd rfl (hr m)
    · rfl
  | succ left ih =>
    unfold RetryPolicy.retryFrom
    refine alike_attempt (n := made + 1) (fun r hr => ?_) fun _ _ => .sleep (ih (made + 1))
    split
    · next m => exact absurd rfl (hr m)
    · rfl

theorem alike_retryCounted (call : Call) :
    Program.Alike (S := Cloud) AlikeAnswers (AlikeCounted call) (c.retry.retryCounted (Action.call call).run)
      (c.retry.retryCounted (Action.call call).run) := alike_retryFrom c.retry call _ 0

theorem alike_send (call : Call) : Alike call.silent (c.send call) (c.send call) :=
  Program.Alike.bind (c.alike_retryCounted call) fun _ _ hrs => .done hrs.1

/-! ### Waiting for operations -/

private theorem alike_snapshot (h : OperationHandle) : Alike Operation.silent (c.snapshot h) (c.snapshot h) := by
  refine Program.Alike.bind (c.alike_send (.operation h)) fun r s hrs => ?_
  rcases silenced_eq_cases hrs with ⟨x, y, rfl, rfl, hxy⟩ | ⟨f, g, rfl, rfl, hfg⟩
  · exact .done hrs
  · show Program.Alike _ _ (if f.isNotFound = true then _ else _) (if g.isNotFound = true then _ else _)
    rw [Failure.isNotFound_congr hfg]
    split
    · exact .done rfl
    · exact .done (congrArg Except.error hfg)

private theorem isDone_congr {x y : Operation} (hxy : x.silent = y.silent) : x.isDone = y.isDone := by
  have hdone : x.silent.isDone = y.silent.isDone := congrArg Operation.isDone hxy
  exact hdone

/-- What an operation says about its resource depends on the code of its first error. -/
private theorem silenced_settled {h : OperationHandle} {x y : Operation} (hxy : x.silent = y.silent) :
    silenced id (settled h x) = silenced id (settled h y) := by
  have herrors : x.errors.map OperationError.silent = y.errors.map OperationError.silent :=
    congrArg Operation.errors hxy
  have hfirst : x.primaryError?.map OperationError.silent = y.primaryError?.map OperationError.silent := by
    rw [Operation.primaryError?, Operation.primaryError?, ← List.head?_map, ← List.head?_map, herrors]
  unfold settled
  cases hx : x.primaryError? with
  | none =>
    cases hy : y.primaryError? with
    | none => rfl
    | some b =>
      rw [hx, hy] at hfirst
      cases hfirst
  | some a =>
    cases hy : y.primaryError? with
    | none =>
      rw [hx, hy] at hfirst
      cases hfirst
    | some b =>
      rw [hx, hy] at hfirst
      have hsilent : a.silent = b.silent := Option.some.inj hfirst
      have hcode : a.silent.code = b.silent.code := congrArg OperationError.code hsilent
      have hcode : a.code = b.code := hcode
      simp only [silenced, Failure.silent, hcode]

private theorem alike_awaitFrom (h : OperationHandle) (started deadline fuel poll : Nat) :
    Alike id (c.awaitFrom h started deadline fuel poll) (c.awaitFrom h started deadline fuel poll) := by
  -- One poll is followed by the same as the other one.
  have polled {next : Nat → Action Summary} (hnext : ∀ now, Alike id (next now) (next now)) :
      Alike id
        (do
          let o ← c.snapshot h
          if o.isDone then ExceptT.mk (.done (settled h o))
          else
            let now ← ExceptT.lift Program.now
            next now)
        (do
          let o ← c.snapshot h
          if o.isDone then ExceptT.mk (.done (settled h o))
          else
            let now ← ExceptT.lift Program.now
            next now) := by
    refine (c.alike_snapshot h).bind fun x y hxy => ?_
    exact alike_ite (by rw [isDone_congr hxy]) (alike_result (silenced_settled hxy)) (alike_now hnext)
  induction fuel generalizing poll with
  | zero =>
    unfold awaitFrom
    exact polled fun now => alike_ite Iff.rfl (alike_throw rfl) (alike_throw rfl)
  | succ fuel ih =>
    unfold awaitFrom
    exact polled fun now => alike_ite Iff.rfl (alike_throw rfl) (Program.Alike.sleep (ih (poll + 1)))

-- The fuel is a large number that must not be computed with, so it is a variable here.
private theorem alike_clock (h : OperationHandle) (ms fuel : Nat) :
    Program.Alike (S := Cloud) AlikeAnswers (fun r s => silenced id r = silenced id s)
      (.clock fun started => (c.awaitFrom h started (started + ms) fuel 0).run)
      (.clock fun started => (c.awaitFrom h started (started + ms) fuel 0).run) :=
  .clock fun started => c.alike_awaitFrom h started (started + ms) fuel 0

theorem alike_awaitDoneWithin (h : OperationHandle) (timeoutMs : Nat) :
    Alike id (c.awaitDoneWithin h timeoutMs) (c.awaitDoneWithin h timeoutMs) := by
  rw [Alike, run_awaitDoneWithin]
  exact c.alike_clock h _ _

theorem alike_awaitDone (h : OperationHandle) : Alike id (c.awaitDone h) (c.awaitDone h) :=
  c.alike_awaitDoneWithin h c.poll.timeoutMs

/-! ### Reading -/

theorem alike_fetch? (kind : Kind) (scope : Scope) (name : String) :
    Alike id (c.fetch? kind scope name) (c.fetch? kind scope name) := by
  refine (c.alike_send (.get kind scope name)).bind fun x y hxy => ?_
  obtain rfl : x = y := hxy
  cases x with
  | none => exact alike_pure rfl
  | some r => exact alike_result rfl

theorem alike_fetch (kind : Kind) (scope : Scope) (name : String) :
    Alike id (c.fetch kind scope name) (c.fetch kind scope name) := by
  refine (c.alike_fetch? kind scope name).bind_id fun x => ?_
  cases x with
  | none => exact alike_throw rfl
  | some a => exact alike_pure rfl

theorem alike_list (kind : Kind) (filter : Filter) : Alike id (c.list kind filter) (c.list kind filter) := by
  refine (c.alike_send (.list kind filter)).bind fun x y hxy => ?_
  obtain rfl : x = y := hxy
  exact alike_result rfl

/-! ### Changing -/

theorem alike_submitInsert (scope : Scope) (spec : ResourceSpec) :
    Alike id (c.submitInsert scope spec) (c.submitInsert scope spec) := c.alike_send (.insert scope spec)

theorem alike_create (kind : Kind) (scope : Scope) (spec : ResourceSpec) :
    Alike id (c.create kind scope spec) (c.create kind scope spec) := by
  unfold create
  by_cases hkind : spec.kind ≠ kind
  · rw [if_pos hkind]
    exact Program.Alike.done rfl
  rw [if_neg hkind]
  refine alike_lift (c.alike_retryCounted (.insert scope spec)) fun x y hxy => ?_
  obtain ⟨r, n⟩ := x
  obtain ⟨s, n'⟩ := y
  obtain ⟨hrs, rfl⟩ : AlikeAnswers (.insert scope spec) r s ∧ n = n' := hxy
  -- What exists is taken over or not, whatever the platform says in words.
  have hfailed {f g : Failure} (hfg : f.silent = g.silent) :
      Alike id (if f.isAlreadyExists = true ∧ 1 < n then c.fetch kind scope spec.name else throw f)
        (if g.isAlreadyExists = true ∧ 1 < n then c.fetch kind scope spec.name else throw g) :=
    alike_ite (by rw [Failure.isAlreadyExists_congr hfg]) (c.alike_fetch kind scope spec.name) (alike_throw hfg)
  rcases silenced_eq_cases hrs with ⟨h, h', rfl, rfl, hh⟩ | ⟨f, g, rfl, rfl, hfg⟩
  · obtain rfl : h = h' := hh
    refine (c.alike_awaitDone h).outcome.bind fun x y hxy => ?_
    rcases silenced_eq_cases hxy with ⟨a, b, rfl, rfl, -⟩ | ⟨f, g, rfl, rfl, hfg⟩
    · exact c.alike_fetch kind scope spec.name
    · exact hfailed hfg
  · exact hfailed hfg

theorem alike_delete (kind : Kind) (scope : Scope) (name : String) :
    Alike id (c.delete kind scope name) (c.delete kind scope name) := by
  refine (c.alike_send (.delete kind scope name)).bind fun x y hxy => ?_
  obtain rfl : x = y := hxy
  exact (c.alike_awaitDone x).discard

theorem alike_deleteIfExists (kind : Kind) (scope : Scope) (name : String) :
    Alike id (c.deleteIfExists kind scope name) (c.deleteIfExists kind scope name) := by
  refine (c.alike_delete kind scope name).outcome.bind fun x y hxy => ?_
  rcases silenced_eq_cases hxy with ⟨a, b, rfl, rfl, -⟩ | ⟨f, g, rfl, rfl, hfg⟩
  · exact alike_pure rfl
  · exact alike_ite (by rw [Failure.isNotFound_congr hfg]) (alike_pure rfl) (alike_throw hfg)

theorem alike_update (kind : Kind) (scope : Scope) (name : String) (tags : Tags) :
    Alike id (c.update kind scope name tags) (c.update kind scope name tags) := by
  refine (c.alike_send (.setTags kind scope name tags)).bind fun x y hxy => ?_
  obtain rfl : x = y := hxy
  exact c.alike_awaitDone x

private theorem alike_createShared (kind : Kind) (scope : Scope) (name : String) (spec : ResourceSpec) :
    Alike id (c.createShared kind scope name spec) (c.createShared kind scope name spec) := by
  have created : Alike id (c.submitInsert scope spec >>= c.awaitDone) (c.submitInsert scope spec >>= c.awaitDone) :=
    (c.alike_submitInsert scope spec).bind_id c.alike_awaitDone
  refine created.outcome.bind fun x y hxy => ?_
  rcases silenced_eq_cases hxy with ⟨a, b, rfl, rfl, -⟩ | ⟨f, g, rfl, rfl, hfg⟩
  · exact c.alike_fetch kind scope name
  · exact alike_ite (by rw [Failure.isAlreadyExists_congr hfg]) (c.alike_fetch kind scope name) (alike_throw hfg)

theorem alike_ensure (kind : Kind) (scope : Scope) (name : String) (spec : ResourceSpec) :
    Alike id (c.ensure kind scope name spec) (c.ensure kind scope name spec) := by
  have noting : Program.Alike (S := Cloud) AlikeAnswers (fun r s => silenced id r.1 = silenced id s.1)
      (c.ensureNoting kind scope name spec) (c.ensureNoting kind scope name spec) := by
    refine Program.Alike.bind (c.alike_fetch? kind scope name) fun r s hrs => ?_
    rcases silenced_eq_cases hrs with ⟨x, y, rfl, rfl, hxy⟩ | ⟨f, g, rfl, rfl, hfg⟩
    · obtain rfl : x = y := hxy
      cases x with
      | none => exact Program.Alike.bind (c.alike_createShared kind scope name spec) fun _ _ h => .done h
      | some a => exact .done rfl
    · exact .done (congrArg Except.error hfg)
  exact noting.bind fun _ _ h => .done h

end Client

end Fleet
