import Fleet.Memory.Apply

/-!
# The calls of the platform in memory

Reading and listing look at the store. A change is submitted: it gets a record, and takes effect at the
poll at which the operation is done.
-/

namespace Fleet

namespace Memory

def journal (m : Memory) (e : JournalEntry) : Memory := { m with calls := m.calls ++ [e] }

/-- The platform keeps no calendar and dates its operations at the beginning of time. -/
def epoch : Instant := ⟨0, 0⟩

def operationName (n : Nat) : String := "operation-" ++ fourDigits n

/-- The operations on zonal resources live in the zone, all others are global. -/
def operationScope : Scope → Scope
  | .zone z => .zone z
  | _ => .global

/-- The handle of the next operation. -/
def nextHandle (m : Memory) (kind : OperationKind) (target : Summary) : OperationHandle :=
  let name := operationName (m.operationCount + 1)
  let scope := operationScope target.scope
  ⟨name, apiBase ++ "/projects/" ++ m.project ++ "/" ++ scope.path ++ "/operations/" ++ name, kind, scope,
    target⟩

/-- Starts an operation. When its failure has been ordered, it will fail without an effect. -/
def submit (m : Memory) (kind : OperationKind) (target : Summary) (effect : Effect) : OperationHandle × Memory :=
  let handle := m.nextHandle kind target
  let pending (errors : List OperationError) : Operation :=
    ⟨handle, .pending, errors, some 0, some epoch, none⟩
  let record : OperationRecord := match m.scriptedFailures.find? target.name with
    | some e => ⟨pending [e], 0, none⟩
    | none => ⟨pending [], 0, some effect⟩
  (handle, { m with
    operationCount := m.operationCount + 1
    scriptedFailures := m.scriptedFailures.erase target.name
    operations := m.operations.insert handle.name record })

/-- The zone of a scope; other scopes have none. -/
def zoneOf : Scope → String
  | .zone z => z
  | _ => ""

/-- The resource that a request asks for. A new instance takes an address and a fingerprint. -/
def materialize (m : Memory) (scope : Scope) : ResourceSpec → Resource × Memory
  | .network n =>
    (.network ⟨n.name, m.selfLink .network scope n.name, some n.ipv4Range, none, n.description⟩, m)
  | .firewall f =>
    (.firewall ⟨f.name, m.selfLink .firewall scope f.name, f.network, f.sourceRanges, f.sourceTags,
      f.targetTags, f.allowed⟩, m)
  | .disk d =>
    (.disk ⟨d.name, m.selfLink .disk scope d.name, zoneOf scope, d.sizeGb, some d.sourceImage, some "READY"⟩, m)
  | .instance i =>
    let address := m.addressCount + 1
    let (fingerprint, m) := { m with addressCount := address }.newFingerprint
    let nic : NetworkInterface := ⟨i.network, some ("10.0.0." ++ toString (address + 1)),
      if i.externalIp then some ("203.0.113." ++ toString address) else none⟩
    (.instance ⟨i.name, m.selfLink .instance scope i.name, zoneOf scope, i.machineType, .running,
      ⟨[], some fingerprint⟩, [nic], [⟨i.bootDisk, true, true⟩], i.metadata⟩, m)

/-- A refused effect as the refusal of a request. -/
def rejection (e : OperationError) : Failure := .rejected e.code e.message

def insert (m : Memory) (scope : Scope) (spec : ResourceSpec) : Except Failure OperationHandle × Memory :=
  let (r, m) := (m.journal (.insert spec.kind spec.name)).materialize scope spec
  if m.lostInserts.contains spec.name then
    -- The effect does not wait for an operation, since nobody learns of one.
    match { m with lostInserts := m.lostInserts.erase spec.name }.apply (.create r) with
    | (.error e, m) => (.error (rejection e), m)
    | (.ok _, m) => (.error (.transport "connection reset after request was sent"), m)
  else
    let (h, m) := m.submit .insert r.summary (.create r)
    (.ok h, m)

def delete (m : Memory) (kind : Kind) (scope : Scope) (name : String) : Except Failure OperationHandle × Memory :=
  let m := m.journal (.delete kind name)
  let k := resourceKey kind scope name
  match m.resources.find? k with
  | none => (.error (rejection (notFound k)), m)
  | some r =>
    let (h, m) := m.submit .delete r.summary (.delete k)
    (.ok h, m)

def staleFingerprint : Failure :=
  .rejected .conditionNotMet "Supplied fingerprint does not match current metadata fingerprint."

/-- The store with a fingerprint given to an instance, as by a change of another client. -/
def refingerprint (m : Memory) (k : ResourceKey) (i : Instance) : Memory :=
  let (fingerprint, m) := m.newFingerprint
  { m with resources := m.resources.insert k (.instance { i with tags := ⟨i.tags.items, some fingerprint⟩ }) }

def setTags (m : Memory) (kind : Kind) (scope : Scope) (name : String) (tags : Tags) :
    Except Failure OperationHandle × Memory :=
  let m := m.journal (.setTags name tags.items tags.fingerprint)
  let k := resourceKey kind scope name
  match m.resources.find? k with
  | some (.instance i) =>
    -- An ordered conflict looks like a change by another client, which leaves a new fingerprint.
    if 0 < m.tagConflicts then
      (.error staleFingerprint, { m with tagConflicts := m.tagConflicts - 1 }.refingerprint k i)
    else if tags.fingerprint ≠ i.tags.fingerprint then (.error staleFingerprint, m)
    else
      let (h, m) := m.submit .update (Resource.instance i).summary (.setTags k tags.items)
      (.ok h, m)
  | _ => (.error (rejection (notFound k)), m)

/-- The snapshot of an operation after a poll at which it is done or not yet. -/
def polled (r : OperationRecord) (done : Bool) : Operation :=
  if done then { r.operation with status := .done, progress := some 100, endedAt := some epoch }
  else { r.operation with status := if r.polls = 0 then .pending else .running }

/-- Asks for an operation. At the poll at which it is done, its effect is carried out, and what keeps it
from taking effect becomes its error. -/
def pollOperation (m : Memory) (h : OperationHandle) : Except Failure Operation × Memory :=
  if 0 < m.failingFetches then
    (.error (.transport "connection reset by peer"), { m with failingFetches := m.failingFetches - 1 })
  else
    match m.operations.find? h.name with
    | none => (.error (.rejected .notFound ("The resource '" ++ h.selfLink ++ "' was not found")), m)
    | some r =>
      -- Every poll counts, also one of an operation that is done.
      let keep (m : Memory) (o : Operation) (effect : Option Effect) : Memory :=
        { m with operations := m.operations.insert h.name ⟨o, r.polls + 1, effect⟩ }
      if r.operation.isDone then (.ok r.operation, keep m r.operation r.effect)
      else if r.polls + 1 < m.pollsUntilDone then
        let o := polled r false
        (.ok o, keep m o r.effect)
      else
        let o := polled r true
        match r.effect with
        | none => (.ok o, keep m o none)
        | some e =>
          match m.apply e with
          | (.ok _, m) => (.ok o, keep m o none)
          | (.error x, m) =>
            let o := { o with errors := o.errors ++ [x] }
            (.ok o, keep m o none)

/-- The answer to a call and the state after it. -/
def answer : (c : Call) → Memory → Except Failure c.Value × Memory
  | .get kind scope name, m =>
    let m := m.journal (.get kind name)
    (.ok (m.find? kind scope name), m)
  | .list kind filter, m =>
    let m := m.journal (.list kind)
    (.ok ((m.resources.entries.filter fun e => e.1.1 == kind && filter.admits e.2).map (·.2)), m)
  | .insert scope spec, m => m.insert scope spec
  | .delete kind scope name, m => m.delete kind scope name
  | .setTags kind scope name tags, m => m.setTags kind scope name tags
  | .operation h, m => m.pollOperation h

end Memory

instance : Platform Memory where
  answer := Memory.answer
  name := "memory"

end Fleet
