import Fleet.Image
import Fleet.Naming
import Fleet.Resource.Basic
import Fleet.Text.Blank

/-!
# Nodes

A template says what the nodes of a launch look like, a spec is the template made out for one node, and a
node is what an instance shows of all that.
-/

namespace Fleet

structure Login where
  user : String
  publicKey : String
  deriving DecidableEq

/-- The metadata entry that lets a user in with a key. -/
def Login.sshKeysEntry (l : Login) : String :=
  l.user ++ ":" ++ Text.trim l.publicKey ++ " " ++ l.user ++ "@localhost"

structure NodeTemplate where
  zone : String
  machineType : String
  image : String
  diskSizeGb : Nat
  /-- The network to use instead of one of the group's own. -/
  network : Option String
  networkRange : String
  inboundPorts : List Nat
  tags : List String
  login : Option Login
  metadata : Metadata
  externalIp : Bool
  deleteBootDisk : Bool
  deriving DecidableEq

namespace NodeTemplate

/-- A template with a disk of 10 GB, an external address, the port 22 open and nothing else special. -/
def plain (zone machineType image : String) : NodeTemplate where
  zone := zone
  machineType := machineType
  image := image
  diskSizeGb := 10
  network := none
  networkRange := "10.0.0.0/8"
  inboundPorts := [22]
  tags := []
  login := none
  metadata := OrderedMap.empty
  externalIp := true
  deleteBootDisk := true

end NodeTemplate

structure NodeSpec where
  name : String
  group : String
  zone : String
  machineType : String
  image : String
  diskSizeGb : Nat
  network : String
  networkRange : String
  inboundPorts : List Nat
  tags : List String
  metadata : Metadata
  externalIp : Bool
  deriving DecidableEq

namespace NodeSpec

/-- The word that the metadata use for a truth value. -/
def flagText (b : Bool) : String := if b then "true" else "false"

/-- The metadata of a node: those of the template, then the login, the group, the image and whether the
boot disk goes with the node. -/
def metadataFor (group : String) (t : NodeTemplate) : Metadata :=
  let login := match t.login with
    | some l => t.metadata.insert Naming.sshKeysKey l.sshKeysEntry
    | none => t.metadata
  ((login.insert Naming.groupKey group).insert Naming.imageKey t.image).insert
    Naming.deleteBootDiskKey (flagText t.deleteBootDisk)

/-- The template made out for the node `name` of a group on a network. -/
def ofTemplate (name group network : String) (t : NodeTemplate) : NodeSpec where
  name := name
  group := group
  zone := t.zone
  machineType := t.machineType
  image := t.image
  diskSizeGb := t.diskSizeGb
  network := network
  networkRange := t.networkRange
  inboundPorts := t.inboundPorts
  tags := t.tags
  metadata := metadataFor group t
  externalIp := t.externalIp

def bootDiskName (s : NodeSpec) : String := Naming.bootDiskName s.name

def firewallName (s : NodeSpec) : String := Naming.firewallName s.network s.inboundPorts

/-- The tags of the node and the one that the firewall targets, each once. -/
def desiredTags (s : NodeSpec) : List String := Tags.merged [] (s.tags ++ [s.firewallName])

end NodeSpec

structure Node where
  id : NodeId
  group : Option String
  image : Option ImageInfo
  status : InstanceStatus
  tags : List String
  network : Option String
  privateIps : List String
  publicIps : List String
  deriving DecidableEq

namespace Node

def ofInstance (i : Instance) : Node where
  id := ⟨i.zone, i.name⟩
  group := i.metadata.find? Naming.groupKey
  image := (i.metadata.find? Naming.imageKey).map ImageInfo.ofLink
  status := i.status
  tags := i.tags.items
  network := i.networkInterfaces.head?.map fun nic => Link.name nic.network
  privateIps := i.networkInterfaces.filterMap (·.networkIp)
  publicIps := i.networkInterfaces.filterMap (·.natIp)

end Node

end Fleet
