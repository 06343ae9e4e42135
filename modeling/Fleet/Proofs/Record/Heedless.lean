import Fleet.Group

/-!
# Programs that do not look at the signal to cancel

A program that never looks at the signal (`Program.Heedless`) comes to the same result whenever the signal is set
(`Heedless.run_signal`). Everything that is done for a node once its launch has begun is such a program: the node is
brought up (`Client.heedless_createNode`) and its remains are discarded (`Manager.heedless_discardPartial`) without
a look at the signal.
-/

namespace Fleet

variable {S : Signature} {σ α β : Type}

namespace Program

/-- Whatever is answered, the program never looks at the signal to cancel. -/
def Heedless : Program S α → Prop
  | .done _ => True
  | .ask _ k => ∀ r, (k r).Heedless
  | .sleep _ k => k.Heedless
  | .clock k => ∀ t, (k t).Heedless
  | .cancelled _ => False

theorem heedless_done (a : α) : (Program.done a : Program S α).Heedless := trivial

theorem heedless_now : (Program.now : Program S Nat).Heedless := fun _ => heedless_done _

theorem Heedless.bind {p : Program S α} (hp : p.Heedless) {f : α → Program S β} (hf : ∀ a, (f a).Heedless) :
    (p.bind f).Heedless := by
  induction p with
  | done a => exact hf a
  | ask q k ih => exact fun r => ih r (hp r)
  | sleep ms k ih => exact ih hp
  | clock k ih => exact fun t => ih t (hp t)
  | cancelled k => exact hp.elim

/-- The run of a program that never looks at the signal does not depend on it. -/
theorem Heedless.run_signal [Service S σ] {p : Program S α} (hp : p.Heedless) (w : World S σ)
    (time number : Option Nat) :
    p.run { w with cancelAt := time, cancelAfter := number } =
      ((p.run w).1, { (p.run w).2 with cancelAt := time, cancelAfter := number }) := by
  induction p generalizing w with
  | done a => rfl
  | ask q k ih => exact ih _ (hp _) (w.ask q).2
  | sleep ms k ih => exact ih hp (w.advanceTo (w.now + ms))
  | clock k ih => exact ih w.now (hp w.now) w
  | cancelled k => exact hp.elim

end Program

open Program

namespace Action

theorem heedless_call (call : Call) : (Action.call call).run.Heedless := fun _ => heedless_done _

theorem heedless_pure (v : α) : (pure v : Action α).run.Heedless := trivial

theorem heedless_throw (f : Failure) : (throw f : Action α).run.Heedless := trivial

theorem heedless_bind {a : Action α} (ha : a.run.Heedless) {k : α → Action β} (hk : ∀ v, (k v).run.Heedless) :
    (a >>= k).run.Heedless := by
  refine Heedless.bind ha fun r => ?_
  cases r with
  | ok v => exact hk v
  | error f => exact heedless_done _

theorem heedless_discard {a : Action α} (ha : a.run.Heedless) : (discard a : Action PUnit).run.Heedless := by
  refine Heedless.bind ha fun r => ?_
  cases r <;> exact heedless_done _

theorem heedless_outcome {a : Action α} (ha : a.run.Heedless) : a.outcome.run.Heedless :=
  Heedless.bind ha fun _ => heedless_done _

theorem heedless_lift {p : Program Cloud α} (hp : p.Heedless) {k : α → Action β} (hk : ∀ v, (k v).run.Heedless) :
    (ExceptT.lift p >>= k).run.Heedless :=
  heedless_bind (Heedless.bind hp fun _ => heedless_done _) hk

end Action

open Action

/-! ### Requests -/

private theorem heedless_retryFrom (p : RetryPolicy) {attempt : Program S (Except Failure α)}
    (ha : attempt.Heedless) (left made : Nat) : (p.retryFrom attempt left made).Heedless := by
  induction left generalizing made with
  | zero =>
    unfold RetryPolicy.retryFrom
    refine ha.bind fun r => ?_
    split <;> exact heedless_done _
  | succ left ih =>
    unfold RetryPolicy.retryFrom
    refine ha.bind fun r => ?_
    split
    · exact ih (made + 1)
    · exact heedless_done _

namespace Client

variable (c : Client)

private theorem heedless_retryCounted (call : Call) :
    (c.retry.retryCounted (Action.call call).run).Heedless :=
  heedless_retryFrom c.retry (heedless_call call) _ 0

private theorem heedless_send (call : Call) : (c.send call).run.Heedless :=
  (c.heedless_retryCounted call).bind fun _ => heedless_done _

/-! ### Operations and resources -/

private theorem heedless_snapshot (h : OperationHandle) : (c.snapshot h).run.Heedless := by
  refine (c.heedless_send (.operation h)).bind fun r => ?_
  split
  · split <;> exact heedless_done _
  · exact heedless_done _

private theorem heedless_awaitFrom (h : OperationHandle) (started deadline fuel poll : Nat) :
    (c.awaitFrom h started deadline fuel poll).run.Heedless := by
  induction fuel generalizing poll with
  | zero =>
    unfold awaitFrom
    refine heedless_bind (c.heedless_snapshot h) fun o => ?_
    split
    · exact heedless_done _
    · refine heedless_lift heedless_now fun now => ?_
      split <;> exact heedless_throw _
  | succ fuel ih =>
    unfold awaitFrom
    refine heedless_bind (c.heedless_snapshot h) fun o => ?_
    split
    · exact heedless_done _
    · refine heedless_lift heedless_now fun now => ?_
      split
      · exact heedless_throw _
      · exact ih (poll + 1)

-- The fuel is a large number that must not be computed with, so it is a variable here.
private theorem heedless_clock (h : OperationHandle) (ms fuel : Nat) :
    (Program.clock fun started => (c.awaitFrom h started (started + ms) fuel 0).run).Heedless :=
  fun started => c.heedless_awaitFrom h started (started + ms) fuel 0

private theorem heedless_awaitDone (h : OperationHandle) : (c.awaitDone h).run.Heedless := by
  rw [run_awaitDone]
  exact c.heedless_clock h _ _

private theorem heedless_fetch? (kind : Kind) (scope : Scope) (name : String) :
    (c.fetch? kind scope name).run.Heedless := by
  refine heedless_bind (c.heedless_send (.get kind scope name)) fun r => ?_
  split
  · exact heedless_pure _
  · exact heedless_done _

private theorem heedless_fetch (kind : Kind) (scope : Scope) (name : String) :
    (c.fetch kind scope name).run.Heedless := by
  refine heedless_bind (c.heedless_fetch? kind scope name) fun r => ?_
  split
  · exact heedless_throw _
  · exact heedless_pure _

/-- A request for a change that is waited for. -/
private theorem heedless_change (call : Call) (handle : call.Value → OperationHandle) :
    (c.send call >>= fun v => c.awaitDone (handle v)).run.Heedless :=
  heedless_bind (c.heedless_send call) fun v => c.heedless_awaitDone (handle v)

/-- What is read when something else has made the resource. -/
private theorem heedless_fetch_or_throw (kind : Kind) (scope : Scope) (name : String) (f : Failure) (p : Prop)
    [Decidable p] : (if p then c.fetch kind scope name else throw f).run.Heedless := by
  split
  · exact c.heedless_fetch kind scope name
  · exact heedless_throw f

private theorem heedless_create (kind : Kind) (scope : Scope) (spec : ResourceSpec) :
    (c.create kind scope spec).run.Heedless := by
  unfold create
  by_cases hkind : spec.kind ≠ kind
  · rw [if_pos hkind]
    exact heedless_done _
  rw [if_neg hkind]
  refine heedless_lift (c.heedless_retryCounted (.insert scope spec)) fun (submitted, attempts) => ?_
  cases submitted with
  | error f => exact c.heedless_fetch_or_throw kind scope spec.name f _
  | ok h =>
    refine heedless_bind (heedless_outcome (c.heedless_awaitDone h)) fun r => ?_
    cases r with
    | ok v => exact c.heedless_fetch kind scope spec.name
    | error f => exact c.heedless_fetch_or_throw kind scope spec.name f _

private theorem heedless_ensure (kind : Kind) (scope : Scope) (name : String) (spec : ResourceSpec) :
    (c.ensure kind scope name spec).run.Heedless := by
  have hcreated : (c.createShared kind scope name spec).run.Heedless := by
    refine heedless_bind (heedless_outcome (c.heedless_change (.insert scope spec) id)) fun r => ?_
    cases r with
    | ok v => exact c.heedless_fetch kind scope name
    | error f => exact c.heedless_fetch_or_throw kind scope name f _
  have hnoting : (c.ensureNoting kind scope name spec).Heedless := by
    refine Heedless.bind (c.heedless_fetch? kind scope name) fun r => ?_
    rcases r with f | _ | a
    · exact heedless_done _
    · exact Heedless.bind hcreated fun _ => heedless_done _
    · exact heedless_done _
  exact Heedless.bind hnoting fun _ => heedless_done _

private theorem heedless_setTagsOnce (zone : Scope) (name : String) (wanted : List String) :
    (c.setTagsOnce zone name wanted).run.Heedless := by
  unfold setTagsOnce
  refine heedless_bind (c.heedless_fetch .instance zone name) fun i => ?_
  split
  · exact heedless_pure _
  · refine heedless_bind (heedless_outcome (c.heedless_change (.setTags .instance zone name _) id)) fun r => ?_
    cases r with
    | ok v => exact heedless_bind (c.heedless_fetch .instance zone name) fun i' => heedless_pure _
    | error f =>
      show (if f.isConflict = true then pure (.inr f) else throw f : Action (Instance ⊕ Failure)).run.Heedless
      split
      · exact heedless_pure _
      · exact heedless_throw f

private theorem heedless_setTags (zone : Scope) (name : String) (wanted : List String) :
    (c.setTags zone name wanted).run.Heedless := by
  unfold setTags
  refine heedless_bind (c.heedless_setTagsOnce zone name wanted) fun r => ?_
  rcases r with i | f
  · exact heedless_pure i
  refine heedless_bind (c.heedless_setTagsOnce zone name wanted) fun r => ?_
  rcases r with i | f
  · exact heedless_pure i
  · exact heedless_throw _

private theorem heedless_deleteIfExists (kind : Kind) (scope : Scope) (name : String) :
    (c.deleteIfExists kind scope name).run.Heedless := by
  have hdelete : (c.delete kind scope name).run.Heedless :=
    heedless_bind (c.heedless_send (.delete kind scope name)) fun h => heedless_discard (c.heedless_awaitDone h)
  refine heedless_bind (heedless_outcome hdelete) fun r => ?_
  cases r with
  | ok v => exact heedless_pure _
  | error f =>
    show (if f.isNotFound = true then pure false else throw f : Action Bool).run.Heedless
    split
    · exact heedless_pure _
    · exact heedless_throw f

/-! ### Nodes -/

theorem heedless_createNode (s : NodeSpec) : (c.createNode s).run.Heedless := by
  unfold createNode
  refine heedless_bind (c.heedless_ensure .network .global s.network _) fun n => ?_
  refine heedless_bind (c.heedless_ensure .firewall .global s.firewallName _) fun _ => ?_
  refine heedless_bind (c.heedless_create .disk (.zone s.zone) _) fun d => ?_
  refine heedless_bind (c.heedless_create .instance (.zone s.zone) _) fun i => ?_
  exact c.heedless_setTags (.zone s.zone) i.name s.desiredTags

end Client

theorem Manager.heedless_discardPartial (mgr : Manager) (s : NodeSpec) : (mgr.discardPartial s).run.Heedless := by
  unfold discardPartial
  refine heedless_bind (heedless_outcome (mgr.client.heedless_deleteIfExists .instance (.zone s.zone) s.name))
    fun _ => ?_
  refine heedless_bind (heedless_outcome (mgr.client.heedless_deleteIfExists .disk (.zone s.zone) s.bootDiskName))
    fun _ => ?_
  exact heedless_pure _

-- As with what always holds, a statement about a program is not to be computed whenever it is looked at.
attribute [irreducible] Program.Heedless

end Fleet
