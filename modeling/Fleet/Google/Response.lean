import Fleet.Json.Parser
import Fleet.Json.Record
import Fleet.Operation

/-!
# What the API returns

Reading resources, listings, operations and errors from their JSON forms.
-/

namespace Fleet

namespace Google

open Json (asText asBool asNatBelow asList asMembers record?)

/-! ### Resources -/

def network? (j : Json) : Option Network := do
  let r ← record? ["name", "selfLink", "IPv4Range", "gatewayIPv4", "description"] j
  return ⟨← r.required "name" asText, ← r.required "selfLink" asText, ← r.optional "IPv4Range" asText,
    ← r.optional "gatewayIPv4" asText, ← r.optional "description" asText⟩

def rule? (j : Json) : Option FirewallRule := do
  let r ← record? ["IPProtocol", "ports"] j
  return ⟨← r.required "IPProtocol" asText, ← r.defaulted "ports" [] (asList asText)⟩

def firewall? (j : Json) : Option Firewall := do
  let r ← record? ["name", "selfLink", "network", "sourceRanges", "sourceTags", "targetTags", "allowed"] j
  return ⟨← r.required "name" asText, ← r.required "selfLink" asText, ← r.required "network" asText,
    ← r.defaulted "sourceRanges" [] (asList asText), ← r.defaulted "sourceTags" [] (asList asText),
    ← r.defaulted "targetTags" [] (asList asText), ← r.defaulted "allowed" [] (asList rule?)⟩

/-- A size is a number or its decimal text. -/
def size? : Json → Option Nat
  | .str s => Text.unsignedBelow? Text.limit32 s.toList
  | j => asNatBelow Text.limit32 j

def disk? (j : Json) : Option Disk := do
  let r ← record? ["name", "selfLink", "zone", "sizeGb", "sourceImage", "status"] j
  return ⟨← r.required "name" asText, ← r.required "selfLink" asText, Link.name (← r.required "zone" asText),
    ← r.required "sizeGb" size?, ← r.optional "sourceImage" asText, ← r.optional "status" asText⟩

def tags? (j : Json) : Option Tags := do
  let r ← record? ["items", "fingerprint"] j
  return ⟨← r.defaulted "items" [] (asList asText), ← r.optional "fingerprint" asText⟩

/-- An entry of the metadata; a missing value is the empty text. -/
def metadataItem? (j : Json) : Option (String × String) := do
  let r ← record? ["key", "value"] j
  return (← r.required "key" asText, ← r.defaulted "value" "" asText)

/-- Of entries under the same key the last one counts. -/
def metadata? (j : Json) : Option Metadata := do
  let r ← record? ["items"] j
  return .ofList (← r.defaulted "items" [] (asList metadataItem?))

/-- The external address in a way of access. -/
def accessConfig? (j : Json) : Option (Option String) := do
  let r ← record? ["type", "natIP"] j
  let _ ← r.required "type" asText
  r.optional "natIP" asText

def networkInterface? (j : Json) : Option NetworkInterface := do
  let r ← record? ["network", "networkIP", "accessConfigs"] j
  let addresses ← r.defaulted "accessConfigs" [] (asList accessConfig?)
  return ⟨← r.required "network" asText, ← r.optional "networkIP" asText, addresses.findSome? id⟩

def attachedDisk? (j : Json) : Option AttachedDisk := do
  let r ← record? ["source", "boot", "autoDelete"] j
  return ⟨← r.required "source" asText, ← r.defaulted "boot" false asBool, ← r.defaulted "autoDelete" false asBool⟩

def instance? (j : Json) : Option Instance := do
  let r ← record? ["name", "selfLink", "zone", "machineType", "status", "tags", "networkInterfaces", "disks",
    "metadata"] j
  return {
    name := ← r.required "name" asText
    selfLink := ← r.required "selfLink" asText
    zone := Link.name (← r.required "zone" asText)
    machineType := ← r.required "machineType" asText
    status := .ofText (← r.required "status" asText)
    tags := ← r.defaulted "tags" ⟨[], none⟩ tags?
    networkInterfaces := ← r.defaulted "networkInterfaces" [] (asList networkInterface?)
    disks := ← r.defaulted "disks" [] (asList attachedDisk?)
    metadata := ← r.defaulted "metadata" .empty metadata? }

/-- Reads a sound value as a resource of a kind. -/
def resource? (kind : Kind) (j : Json) : Option Resource :=
  match kind with
  | .network => (network? j).map .network
  | .firewall => (firewall? j).map .firewall
  | .disk => (disk? j).map .disk
  | .instance => (instance? j).map .instance

/-! ### Listings -/

/-- One page of a listing, and the token that asks for the next one. -/
structure Page where
  items : List Json
  next : Option String

def pageFields : List String := ["items", "nextPageToken"]

/-- The items of a page are two levels down. -/
def itemDepth : Nat := Json.depthLimit - 2

def page? (j : Json) : Option Page := do
  let r ← record? pageFields j
  return ⟨← r.defaulted "items" [] (asList (Json.asSound itemDepth)), ← r.optional "nextPageToken" asText⟩

/-- The items under the name of a collection in one scope. -/
def scopedItems (collection : String) (j : Json) : List Json :=
  match j.get? collection with
  | some (.arr items) => items
  | _ => []

/-- A page whose items are listed by scope; the scopes are taken in the order of their names. -/
def aggregatedPage? (collection : String) (j : Json) : Option Page := do
  let r ← record? pageFields j
  let scopes ← r.defaulted "items" [] (asMembers (Json.asSound itemDepth))
  return ⟨(OrderedMap.ofList scopes).values.flatMap (scopedItems collection), ← r.optional "nextPageToken" asText⟩

/-! ### Operations -/

/-- An operation as the API reports it. -/
structure OperationReport where
  name : String
  selfLink : String
  targetLink : Option String
  operationType : Option String
  status : String
  progress : Option Nat
  insertTime : Option Instant
  endTime : Option Instant
  zone : Option String
  region : Option String
  errors : List OperationError

def operationError? (j : Json) : Option OperationError := do
  let r ← record? ["code", "location", "message"] j
  let code ← r.required "code" asText
  let location ← r.optional "location" asText
  return ⟨.ofText code, ← r.defaulted "message" "" asText, location⟩

def operationErrors? (j : Json) : Option (List OperationError) := do
  let r ← record? ["errors"] j
  r.defaulted "errors" [] (asList operationError?)

def instant? (j : Json) : Option Instant := (asText j).bind Instant.ofText?

def operationReport? (j : Json) : Option OperationReport := do
  let r ← record? ["name", "selfLink", "targetLink", "operationType", "status", "progress", "insertTime",
    "endTime", "zone", "region", "error"] j
  return {
    name := ← r.required "name" asText
    selfLink := ← r.required "selfLink" asText
    targetLink := ← r.optional "targetLink" asText
    operationType := ← r.optional "operationType" asText
    status := ← r.required "status" asText
    progress := ← r.optional "progress" (asNatBelow Text.limit8)
    insertTime := ← r.optional "insertTime" instant?
    endTime := ← r.optional "endTime" instant?
    zone := ← r.optional "zone" asText
    region := ← r.optional "region" asText
    errors := (← r.optional "error" operationErrors?).getD [] }

namespace OperationReport

/-- The scope of an operation: its zone, or its region, or everywhere. -/
def scope (o : OperationReport) : Scope :=
  match o.zone, o.region with
  | some z, _ => .zone (Link.name z)
  | none, some r => .region (Link.name r)
  | none, none => .global

/-- The handle of an operation on the resource of a kind with a name in a scope. -/
def handle (o : OperationReport) (kind : Kind) (name : String) (scope : Scope) : OperationHandle where
  name := o.name
  selfLink := o.selfLink
  kind := (o.operationType.map OperationKind.ofText).getD .update
  scope := o.scope
  target := ⟨kind, name, o.targetLink.getD "", scope, none⟩

/-- The snapshot of the operation with a handle. A status without a name of its own means that the operation
is running. -/
def snapshot (o : OperationReport) (h : OperationHandle) : Operation where
  handle := h
  status := (OperationStatus.ofText? o.status).getD .running
  errors := o.errors
  progress := o.progress
  insertedAt := o.insertTime
  endedAt := o.endTime

end OperationReport

/-! ### Errors -/

/-- The body of a refusal. -/
structure ErrorBody where
  code : Nat
  message : String
  /-- The reasons and messages of the single errors. -/
  errors : List (String × String)

def errorReason? (j : Json) : Option (String × String) := do
  let r ← record? ["reason", "message"] j
  return (← r.defaulted "reason" "" asText, ← r.defaulted "message" "" asText)

def errorBody? (j : Json) : Option ErrorBody := do
  let r ← record? ["code", "message", "errors"] j
  return ⟨← r.required "code" (asNatBelow Text.limit16), ← r.defaulted "message" "" asText,
    ← r.defaulted "errors" [] (asList errorReason?)⟩

def errorEnvelope? (j : Json) : Option ErrorBody := do
  let r ← record? ["error"] j
  r.required "error" errorBody?

end Google

end Fleet
