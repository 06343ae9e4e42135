import Fleet.Json.Basic
import Fleet.Resource.Basic

/-!
# What is sent to the API

The JSON forms of requests, with their members in the order in which they are written. What has no value is
left out.
-/

namespace Fleet

namespace Google

/-- The member with a value, if there is one. -/
def present (name : String) (v : Option String) : List (String × Json) :=
  match v with
  | some s => [(name, .str s)]
  | none => []

def networkPayload (n : NetworkSpec) : Json :=
  .object ([("name", .str n.name), ("IPv4Range", .str n.ipv4Range)] ++ present "description" n.description)

/-- A rule without ports is written without them. -/
def rulePayload (r : FirewallRule) : Json :=
  .object ([("IPProtocol", .str r.protocol)] ++ if r.ports = [] then [] else [("ports", .texts r.ports)])

def firewallPayload (f : FirewallSpec) : Json :=
  .object [("name", .str f.name), ("network", .str f.network), ("sourceRanges", .texts f.sourceRanges),
    ("sourceTags", .texts f.sourceTags), ("targetTags", .texts f.targetTags),
    ("allowed", .array rulePayload f.allowed)]

def diskPayload (d : DiskSpec) : Json :=
  .object [("name", .str d.name), ("sizeGb", .nat d.sizeGb), ("sourceImage", .str d.sourceImage)]

/-- A boot disk that goes with its instance. -/
def bootDiskPayload (source : String) : Json :=
  .object [("type", .str "PERSISTENT"), ("mode", .str "READ_WRITE"), ("source", .str source),
    ("autoDelete", .bool true), ("boot", .bool true)]

def interfacePayload (network : String) (externalIp : Bool) : Json :=
  let access := if externalIp then [Json.object [("type", .str "ONE_TO_ONE_NAT")]] else []
  .object [("network", .str network), ("accessConfigs", .arr access)]

/-- Metadata are a list of entries in the order of their keys. -/
def metadataPayload (m : Metadata) : Json :=
  .object [("kind", .str "compute#metadata"),
    ("items", .array (fun e => .object [("key", .str e.1), ("value", .str e.2)]) m.entries)]

def instancePayload (i : InstanceSpec) : Json :=
  .object [("name", .str i.name), ("machineType", .str i.machineType), ("serviceAccounts", .arr []),
    ("disks", .arr [bootDiskPayload i.bootDisk]),
    ("networkInterfaces", .arr [interfacePayload i.network i.externalIp]),
    ("metadata", metadataPayload i.metadata)]

/-- The JSON form of a request to create a resource. -/
def payload : ResourceSpec → Json
  | .network n => networkPayload n
  | .firewall f => firewallPayload f
  | .disk d => diskPayload d
  | .instance i => instancePayload i

def tagsPayload (t : Tags) : Json := .object ([("items", .texts t.items)] ++ present "fingerprint" t.fingerprint)

end Google

end Fleet
