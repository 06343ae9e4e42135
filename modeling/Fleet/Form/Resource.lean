import Fleet.Json.Record
import Fleet.Operation

/-!
# JSON forms of resources

The forms in which resources, the requests for them and operations are exchanged between tools. A resource
is an object with its fields; where the kind is not known from elsewhere, the object has a member for it.
-/

namespace Fleet

open Json (asText asBool asNatBelow asList asMembers record? opt)

namespace Form

/-- An object with a further member for the kind. -/
def withKind (kind : Kind) (j : Json) : Json := j.append (.object [("kind", .str kind.text)])

def metadataJson (m : Metadata) : Json := .object (m.entries.map fun e => (e.1, .str e.2))

def metadata? (j : Json) : Option Metadata := (asMembers asText j).map .ofList

def optText (s : Option String) : Json := opt .str s

end Form

open Form (withKind metadataJson metadata? optText)

def Kind.ofText? (s : String) : Option Kind :=
  [Kind.network, .firewall, .disk, .instance].find? fun k => k.text == s

def Kind.ofJson? (j : Json) : Option Kind := (asText j).bind Kind.ofText?

def Kind.toJson (k : Kind) : Json := .str k.text

def Scope.toJson : Scope → Json
  | .global => .object [("type", .str "global")]
  | .region r => .object [("type", .str "region"), ("name", .str r)]
  | .zone z => .object [("type", .str "zone"), ("name", .str z)]

def Scope.ofJson? (j : Json) : Option Scope := do
  let r ← record? ["type", "name"] j
  match ← r.required "type" asText with
  | "global" => some .global
  | "region" => (r.required "name" asText).map .region
  | "zone" => (r.required "name" asText).map .zone
  | _ => none

def Tags.toJson (t : Tags) : Json :=
  .object [("items", .texts t.items), ("fingerprint", optText t.fingerprint)]

def Tags.ofJson? (j : Json) : Option Tags := do
  let r ← record? ["items", "fingerprint"] j
  return ⟨← r.defaulted "items" [] (asList asText), ← r.optional "fingerprint" asText⟩

def FirewallRule.toJson (r : FirewallRule) : Json :=
  .object [("protocol", .str r.protocol), ("ports", .texts r.ports)]

def FirewallRule.ofJson? (j : Json) : Option FirewallRule := do
  let r ← record? ["protocol", "ports"] j
  return ⟨← r.required "protocol" asText, ← r.required "ports" (asList asText)⟩

def NetworkInterface.toJson (n : NetworkInterface) : Json :=
  .object [("network", .str n.network), ("network_ip", optText n.networkIp), ("nat_ip", optText n.natIp)]

def NetworkInterface.ofJson? (j : Json) : Option NetworkInterface := do
  let r ← record? ["network", "network_ip", "nat_ip"] j
  return ⟨← r.required "network" asText, ← r.optional "network_ip" asText, ← r.optional "nat_ip" asText⟩

def AttachedDisk.toJson (d : AttachedDisk) : Json :=
  .object [("source", .str d.source), ("boot", .bool d.boot), ("auto_delete", .bool d.autoDelete)]

def AttachedDisk.ofJson? (j : Json) : Option AttachedDisk := do
  let r ← record? ["source", "boot", "auto_delete"] j
  return ⟨← r.required "source" asText, ← r.required "boot" asBool, ← r.required "auto_delete" asBool⟩

/-! ### Resources -/

def Network.toJson (n : Network) : Json :=
  .object [("name", .str n.name), ("self_link", .str n.selfLink), ("ipv4_range", optText n.ipv4Range),
    ("gateway_ipv4", optText n.gatewayIpv4), ("description", optText n.description)]

def Network.ofJson? (j : Json) : Option Network := do
  let r ← record? ["name", "self_link", "ipv4_range", "gateway_ipv4", "description"] j
  return ⟨← r.required "name" asText, ← r.required "self_link" asText, ← r.optional "ipv4_range" asText,
    ← r.optional "gateway_ipv4" asText, ← r.optional "description" asText⟩

def Firewall.toJson (f : Firewall) : Json :=
  .object [("name", .str f.name), ("self_link", .str f.selfLink), ("network", .str f.network),
    ("source_ranges", .texts f.sourceRanges), ("source_tags", .texts f.sourceTags),
    ("target_tags", .texts f.targetTags), ("allowed", .array FirewallRule.toJson f.allowed)]

def Firewall.ofJson? (j : Json) : Option Firewall := do
  let r ← record? ["name", "self_link", "network", "source_ranges", "source_tags", "target_tags", "allowed"] j
  return ⟨← r.required "name" asText, ← r.required "self_link" asText, ← r.required "network" asText,
    ← r.required "source_ranges" (asList asText), ← r.required "source_tags" (asList asText),
    ← r.required "target_tags" (asList asText), ← r.required "allowed" (asList FirewallRule.ofJson?)⟩

def Disk.toJson (d : Disk) : Json :=
  .object [("name", .str d.name), ("self_link", .str d.selfLink), ("zone", .str d.zone), ("size_gb", .nat d.sizeGb),
    ("source_image", optText d.sourceImage), ("status", optText d.status)]

def Disk.ofJson? (j : Json) : Option Disk := do
  let r ← record? ["name", "self_link", "zone", "size_gb", "source_image", "status"] j
  return ⟨← r.required "name" asText, ← r.required "self_link" asText, ← r.required "zone" asText,
    ← r.required "size_gb" (asNatBelow Text.limit32), ← r.optional "source_image" asText,
    ← r.optional "status" asText⟩

def Instance.toJson (i : Instance) : Json :=
  .object [("name", .str i.name), ("self_link", .str i.selfLink), ("zone", .str i.zone),
    ("machine_type", .str i.machineType), ("status", .str i.status.text), ("tags", i.tags.toJson),
    ("network_interfaces", .array NetworkInterface.toJson i.networkInterfaces),
    ("disks", .array AttachedDisk.toJson i.disks), ("metadata", metadataJson i.metadata)]

def Instance.ofJson? (j : Json) : Option Instance := do
  let r ← record? ["name", "self_link", "zone", "machine_type", "status", "tags", "network_interfaces", "disks",
    "metadata"] j
  return {
    name := ← r.required "name" asText
    selfLink := ← r.required "self_link" asText
    zone := ← r.required "zone" asText
    machineType := ← r.required "machine_type" asText
    status := .ofText (← r.required "status" asText)
    tags := ← r.required "tags" Tags.ofJson?
    networkInterfaces := ← r.required "network_interfaces" (asList NetworkInterface.ofJson?)
    disks := ← r.required "disks" (asList AttachedDisk.ofJson?)
    metadata := ← r.required "metadata" metadata? }

/-- The form of a resource whose kind is known. -/
def Kind.recordJson : (k : Kind) → k.Record → Json
  | .network, n => Network.toJson n
  | .firewall, f => Firewall.toJson f
  | .disk, d => Disk.toJson d
  | .instance, i => Instance.toJson i

def Resource.toJson : Resource → Json
  | .network n => withKind .network n.toJson
  | .firewall f => withKind .firewall f.toJson
  | .disk d => withKind .disk d.toJson
  | .instance i => withKind .instance i.toJson

def Resource.ofJson? (j : Json) : Option Resource := do
  match ← (← j.get? "kind") |> Kind.ofJson? with
  | .network => (Network.ofJson? j).map .network
  | .firewall => (Firewall.ofJson? j).map .firewall
  | .disk => (Disk.ofJson? j).map .disk
  | .instance => (Instance.ofJson? j).map .instance

/-! ### Requests -/

def ResourceSpec.toJson : ResourceSpec → Json
  | .network n => withKind .network <| .object [("name", .str n.name), ("ipv4_range", .str n.ipv4Range),
      ("description", optText n.description)]
  | .firewall f => withKind .firewall <| .object [("name", .str f.name), ("network", .str f.network),
      ("source_ranges", .texts f.sourceRanges), ("source_tags", .texts f.sourceTags),
      ("target_tags", .texts f.targetTags), ("allowed", .array FirewallRule.toJson f.allowed)]
  | .disk d => withKind .disk <| .object [("name", .str d.name), ("size_gb", .nat d.sizeGb),
      ("source_image", .str d.sourceImage)]
  | .instance i => withKind .instance <| .object [("name", .str i.name), ("machine_type", .str i.machineType),
      ("boot_disk", .str i.bootDisk), ("network", .str i.network), ("external_ip", .bool i.externalIp),
      ("metadata", metadataJson i.metadata)]

def ResourceSpec.ofJson? (j : Json) : Option ResourceSpec := do
  match ← (← j.get? "kind") |> Kind.ofJson? with
  | .network =>
    let r ← record? ["name", "ipv4_range", "description"] j
    return .network ⟨← r.required "name" asText, ← r.required "ipv4_range" asText, ← r.optional "description" asText⟩
  | .firewall =>
    let r ← record? ["name", "network", "source_ranges", "source_tags", "target_tags", "allowed"] j
    return .firewall ⟨← r.required "name" asText, ← r.required "network" asText,
      ← r.required "source_ranges" (asList asText), ← r.required "source_tags" (asList asText),
      ← r.required "target_tags" (asList asText), ← r.required "allowed" (asList FirewallRule.ofJson?)⟩
  | .disk =>
    let r ← record? ["name", "size_gb", "source_image"] j
    return .disk ⟨← r.required "name" asText, ← r.required "size_gb" (asNatBelow Text.limit32),
      ← r.required "source_image" asText⟩
  | .instance =>
    let r ← record? ["name", "machine_type", "boot_disk", "network", "external_ip", "metadata"] j
    return .instance ⟨← r.required "name" asText, ← r.required "machine_type" asText, ← r.required "boot_disk" asText,
      ← r.required "network" asText, ← r.required "external_ip" asBool, ← r.required "metadata" metadata?⟩

/-! ### Operations -/

def Summary.toJson (s : Summary) : Json :=
  .object [("kind", s.kind.toJson), ("name", .str s.name), ("self_link", .str s.selfLink),
    ("scope", s.scope.toJson), ("status", optText s.status)]

def Summary.ofJson? (j : Json) : Option Summary := do
  let r ← record? ["kind", "name", "self_link", "scope", "status"] j
  return ⟨← r.required "kind" Kind.ofJson?, ← r.required "name" asText, ← r.required "self_link" asText,
    ← r.required "scope" Scope.ofJson?, ← r.optional "status" asText⟩

def OperationHandle.toJson (h : OperationHandle) : Json :=
  .object [("name", .str h.name), ("self_link", .str h.selfLink), ("kind", .str h.kind.text),
    ("scope", h.scope.toJson), ("target", h.target.toJson)]

def OperationHandle.ofJson? (j : Json) : Option OperationHandle := do
  let r ← record? ["name", "self_link", "kind", "scope", "target"] j
  return ⟨← r.required "name" asText, ← r.required "self_link" asText, .ofText (← r.required "kind" asText),
    ← r.required "scope" Scope.ofJson?, ← r.required "target" Summary.ofJson?⟩

end Fleet
