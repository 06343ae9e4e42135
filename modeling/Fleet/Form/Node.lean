import Fleet.Form.Resource
import Fleet.Report

/-!
# JSON forms of nodes and reports

What is shown of nodes, and the templates from which they are made. A template names its zone, its machine
type and its image; the rest has the usual values where nothing else is said.
-/

namespace Fleet

open Json (asText asBool asNatBelow asList record? opt)
open Form (metadataJson metadata? optText)

def Login.toJson (l : Login) : Json := .object [("user", .str l.user), ("public_key", .str l.publicKey)]

def Login.ofJson? (j : Json) : Option Login := do
  let r ← record? ["user", "public_key"] j
  return ⟨← r.required "user" asText, ← r.required "public_key" asText⟩

def NodeTemplate.toJson (t : NodeTemplate) : Json :=
  .object [("zone", .str t.zone), ("machine_type", .str t.machineType), ("image", .str t.image),
    ("disk_size_gb", .nat t.diskSizeGb), ("network", optText t.network), ("network_range", .str t.networkRange),
    ("inbound_ports", .array .nat t.inboundPorts), ("tags", .texts t.tags), ("login", opt Login.toJson t.login),
    ("metadata", metadataJson t.metadata), ("external_ip", .bool t.externalIp),
    ("delete_boot_disk", .bool t.deleteBootDisk)]

/-- A value that stands for the usual one when it is null. -/
private def orUsual {α : Type} (r : Json.Record) (name : String) (usual : α) (read : Json → Option α) : Option α :=
  (r.optional name read).map fun v => v.getD usual

def NodeTemplate.ofJson? (j : Json) : Option NodeTemplate := do
  let r ← record? ["zone", "machine_type", "image", "disk_size_gb", "network", "network_range", "inbound_ports",
    "tags", "login", "metadata", "external_ip", "delete_boot_disk"] j
  let t := plain (← r.required "zone" asText) (← r.required "machine_type" asText) (← r.required "image" asText)
  return { t with
    diskSizeGb := ← orUsual r "disk_size_gb" t.diskSizeGb (asNatBelow Text.limit32)
    network := ← r.optional "network" asText
    networkRange := ← orUsual r "network_range" t.networkRange asText
    inboundPorts := ← orUsual r "inbound_ports" t.inboundPorts (asList (asNatBelow Text.limit16))
    tags := ← orUsual r "tags" t.tags (asList asText)
    login := ← r.optional "login" Login.ofJson?
    metadata := ← orUsual r "metadata" t.metadata metadata?
    externalIp := ← orUsual r "external_ip" t.externalIp asBool
    deleteBootDisk := ← orUsual r "delete_boot_disk" t.deleteBootDisk asBool }

def NodeSpec.toJson (s : NodeSpec) : Json :=
  .object [("name", .str s.name), ("group", .str s.group), ("zone", .str s.zone), ("machine_type", .str s.machineType),
    ("image", .str s.image), ("disk_size_gb", .nat s.diskSizeGb), ("network", .str s.network),
    ("network_range", .str s.networkRange), ("inbound_ports", .array .nat s.inboundPorts), ("tags", .texts s.tags),
    ("metadata", metadataJson s.metadata), ("external_ip", .bool s.externalIp)]

def ImageInfo.toJson (i : ImageInfo) : Json :=
  .object [("id", .str i.id), ("link", .str i.link), ("build", optText i.build),
    ("os", .object [("family", .str i.os.family), ("version", optText i.os.version), ("is_64bit", .bool i.os.is64bit),
      ("description", .str i.os.description)])]

def Node.toJson (n : Node) : Json :=
  .object [("id", .str n.id.text), ("zone", .str n.id.zone), ("name", .str n.id.name), ("group", optText n.group),
    ("image", opt ImageInfo.toJson n.image), ("image_id", optText (n.image.map (·.id))),
    ("status", .str n.status.text), ("tags", .texts n.tags), ("network", optText n.network),
    ("private_ips", .texts n.privateIps), ("public_ips", .texts n.publicIps)]

end Fleet
