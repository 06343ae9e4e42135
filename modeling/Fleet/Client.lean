import Fleet.Backoff
import Fleet.Platform.Basic

/-!
# A client of a platform

Reading, creating, changing and deleting resources, each as a request that is sent again while the
platform cannot be reached, followed by waiting until the operation that it started is done.
-/

namespace Fleet

namespace RetryPolicy

variable {S : Signature} {α : Type}

/-- Runs `attempt` until it does something else than fail to reach the service, with `left` further
attempts after the first one; `made` attempts have been made before. Returns with the outcome the number of
attempts that were made. -/
def retryFrom (p : RetryPolicy) (attempt : Program S (Except Failure α)) :
    Nat → Nat → Program S (Except Failure α × Nat)
  | left, made => attempt.bind fun r =>
    match r with
    -- The request may have come through all the same, so that its repetition meets its own effect.
    | .error (.transport message) =>
      match left with
      | 0 => .done (.error (.transportExhausted (made + 1) message), made + 1)
      | left + 1 => .sleep (p.delayMs made) (p.retryFrom attempt left (made + 1))
    | r => .done (r, made + 1)

/-- Runs an attempt until it does something else than fail to reach the service, at most `maxAttempts`
times and at least once, and returns with the outcome the number of attempts. -/
def retryCounted (p : RetryPolicy) (attempt : Program S (Except Failure α)) :
    Program S (Except Failure α × Nat) :=
  p.retryFrom attempt (max p.maxAttempts 1 - 1) 0

/-- Runs an attempt until it does something else than fail to reach the service. -/
def retry (p : RetryPolicy) (attempt : Program S (Except Failure α)) : Program S (Except Failure α) :=
  (p.retryCounted attempt).bind fun r => .done r.1

end RetryPolicy

/-- How a client deals with a platform. -/
structure Client where
  retry : RetryPolicy
  poll : PollPolicy

namespace Client

/-- The client with the standard policies. -/
def standard : Client := ⟨.standard, .standard⟩

/-- A call that is made again while the platform cannot be reached. -/
def send (c : Client) (call : Call) : Action call.Value := ExceptT.mk (c.retry.retry (Action.call call).run)

/-! ### Waiting for operations -/

/-- A snapshot of an operation. That the platform does not find the record of it tells nothing about the
resource, so this is a failure of its own. -/
def snapshot (c : Client) (h : OperationHandle) : Action Operation := ExceptT.mk <|
  (c.send (.operation h)).run.bind fun r =>
    match r with
    | .error f => if f.isNotFound then .done (.error (.lost h.name)) else .done (.error f)
    | .ok o => .done (.ok o)

/-- What an operation that is done says about its resource. -/
def settled (h : OperationHandle) (o : Operation) : Except Failure Summary :=
  match o.primaryError? with
  | some e => .error (.operationFailed h.name e.code e.message)
  | none => .ok h.target

/-- Asks for an operation until it is done or the time `deadline` is reached, sleeping in between; the
`poll`-th sleep is cut off at the deadline. At most `fuel` more sleeps are made. -/
def awaitFrom (c : Client) (h : OperationHandle) (started deadline : Nat) :
    Nat → Nat → Action Summary
  | fuel, poll => do
    let o ← c.snapshot h
    if o.isDone then ExceptT.mk (.done (settled h o))
    else
      let now ← ExceptT.lift Program.now
      let giveUp : Action Summary := throw (.timeout h.name ((now - started) * Duration.perMilli))
      -- An operation that is done counts however late the answer is: the clock is read after it.
      if deadline ≤ now then giveUp
      else
        match fuel with
        | 0 => giveUp
        | fuel + 1 => ExceptT.mk (.sleep (min (c.poll.intervalMs poll) (deadline - now))
            (c.awaitFrom h started deadline fuel (poll + 1)).run)

/-- A number of polls that is only exceeded when the intervals are zero: with intervals of at least a
millisecond the deadline comes first. -/
def pollLimit (timeoutMs : Nat) : Nat := timeoutMs + UInt32.size

/-- Waits until an operation is done, for `timeoutMs` milliseconds at most. -/
def awaitDoneWithin (c : Client) (h : OperationHandle) (timeoutMs : Nat) : Action Summary := do
  let started ← ExceptT.lift Program.now
  c.awaitFrom h started (started + timeoutMs) (pollLimit timeoutMs) 0

/-- Waits until an operation is done, for as long as the policy allows. -/
def awaitDone (c : Client) (h : OperationHandle) : Action Summary := c.awaitDoneWithin h c.poll.timeoutMs

theorem run_awaitDoneWithin (c : Client) (h : OperationHandle) (timeoutMs : Nat) : (c.awaitDoneWithin h timeoutMs).run =
    .clock fun started => (c.awaitFrom h started (started + timeoutMs) (pollLimit timeoutMs) 0).run := rfl

theorem run_awaitDone (c : Client) (h : OperationHandle) : (c.awaitDone h).run = .clock fun started =>
    (c.awaitFrom h started (started + c.poll.timeoutMs) (pollLimit c.poll.timeoutMs) 0).run := rfl

/-! ### Reading -/

/-- The resource of a kind with a name, if there is one. -/
def fetch? (c : Client) (kind : Kind) (scope : Scope) (name : String) : Action (Option kind.Record) := do
  match ← c.send (.get kind scope name) with
  | none => pure none
  | some r => ExceptT.mk (.done ((Resource.ofKind? kind r).map some))

/-- The resource of a kind with a name, which has to be there. -/
def fetch (c : Client) (kind : Kind) (scope : Scope) (name : String) : Action kind.Record := do
  match ← c.fetch? kind scope name with
  | none => throw (.missing (kind.text ++ " " ++ name))
  | some a => pure a

/-- The resources of a kind that pass a filter. -/
def list (c : Client) (kind : Kind) (filter : Filter) : Action (List kind.Record) := do
  let rs ← c.send (.list kind filter)
  ExceptT.mk (.done (rs.mapM (Resource.ofKind? kind)))

/-! ### Changing -/

/-- Sends a request to create a resource, without waiting. -/
def submitInsert (c : Client) (scope : Scope) (spec : ResourceSpec) : Action OperationHandle :=
  c.send (.insert scope spec)

/-- Creates a resource and reads it back. When the request had to be sent more than once, the resource may
exist because an earlier attempt has reached the platform, and is taken over. -/
def create (c : Client) (kind : Kind) (scope : Scope) (spec : ResourceSpec) : Action kind.Record := do
  if spec.kind ≠ kind then throw (.wrongKind kind spec.kind)
  let (submitted, attempts) ← ExceptT.lift (c.retry.retryCounted (Action.call (.insert scope spec)).run)
  let done ← match submitted with
    | .ok h => (c.awaitDone h).outcome
    | .error f => pure (.error f)
  match done with
  | .ok _ => c.fetch kind scope spec.name
  | .error f =>
    -- After a single attempt, what exists was made by somebody else.
    if f.isAlreadyExists ∧ 1 < attempts then c.fetch kind scope spec.name else throw f

/-- Deletes a resource and waits until it is gone. -/
def delete (c : Client) (kind : Kind) (scope : Scope) (name : String) : Action Unit := do
  let h ← c.send (.delete kind scope name)
  discard (c.awaitDone h)

/-- Deletes a resource and tells whether there was one. -/
def deleteIfExists (c : Client) (kind : Kind) (scope : Scope) (name : String) : Action Bool := do
  match ← (c.delete kind scope name).outcome with
  | .ok _ => pure true
  | .error f => if f.isNotFound then pure false else throw f

/-- Replaces the tags of an instance and waits until that is done. -/
def update (c : Client) (kind : Kind) (scope : Scope) (name : String) (tags : Tags) : Action Summary := do
  let h ← c.send (.setTags kind scope name tags)
  c.awaitDone h

/-- Creates a resource that another client may create meanwhile; then that one is taken. -/
def createShared (c : Client) (kind : Kind) (scope : Scope) (name : String) (spec : ResourceSpec) :
    Action kind.Record := do
  let created : Action Summary := do
    let h ← c.submitInsert scope spec
    c.awaitDone h
  match ← created.outcome with
  | .ok _ => c.fetch kind scope name
  | .error f => if f.isAlreadyExists then c.fetch kind scope name else throw f

/-- The existing resource, or a new one where there is none. Returns with the outcome whether the resource
was found missing, so that a request had to be made out. -/
def ensureNoting (c : Client) (kind : Kind) (scope : Scope) (name : String) (spec : ResourceSpec) :
    Program Cloud (Except Failure kind.Record × Bool) :=
  (c.fetch? kind scope name).run.bind fun r =>
    match r with
    | .error f => .done (.error f, false)
    | .ok (some a) => .done (.ok a, false)
    | .ok none => (c.createShared kind scope name spec).run.bind fun r => .done (r, true)

/-- The existing resource, or a new one where there is none. -/
def ensure (c : Client) (kind : Kind) (scope : Scope) (name : String) (spec : ResourceSpec) :
    Action kind.Record :=
  ExceptT.mk ((c.ensureNoting kind scope name spec).bind fun r => .done r.1)

end Client

end Fleet
