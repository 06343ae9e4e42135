import Fleet.Client
import Fleet.Node

/-!
# Bringing up one node

A node needs a network, a firewall that opens its ports, a boot disk, the instance itself and its tags, in
this order. The network and the firewall are shared with other nodes, so they are made only where they are
missing; the disk and the instance are the node's own.
-/

namespace Fleet

namespace NodeSpec

def networkSpec (s : NodeSpec) : NetworkSpec := ⟨s.network, s.networkRange, none⟩

/-- The firewall opens the node's ports to everyone on the network and outside. -/
def firewallSpec (s : NodeSpec) (n : Network) : FirewallSpec where
  name := s.firewallName
  network := n.selfLink
  sourceRanges := [n.ipv4Range.getD s.networkRange, "0.0.0.0/0"]
  sourceTags := s.tags
  targetTags := [s.firewallName]
  allowed := [.ofPorts "tcp" s.inboundPorts, .ofPorts "udp" s.inboundPorts]

def diskSpec (s : NodeSpec) : DiskSpec := ⟨s.bootDiskName, s.diskSizeGb, s.image⟩

def instanceSpec (s : NodeSpec) (n : Network) (d : Disk) : InstanceSpec where
  name := s.name
  machineType := s.machineType
  bootDisk := d.selfLink
  network := n.selfLink
  externalIp := s.externalIp
  metadata := s.metadata

end NodeSpec

namespace Client

/-- One attempt to give an instance the wanted tags: reads the instance and, if a tag is missing, sends the
merged tags with the fingerprint that was read. The result is `inl` of the instance that has the tags, or
`inr` of the conflict that kept it from getting them. -/
def setTagsOnce (c : Client) (zone : Scope) (name : String) (wanted : List String) :
    Action (Instance ⊕ Failure) := do
  let i ← c.fetch .instance zone name
  if i.tags.containsAll wanted then return .inl i
  -- The fingerprint lets the platform refuse tags that were merged with outdated ones.
  match ← (c.update .instance zone name ⟨Tags.merged i.tags.items wanted, i.tags.fingerprint⟩).outcome with
  | .ok _ => return .inl (← c.fetch .instance zone name)
  | .error f => if f.isConflict then return .inr f else throw f

/-- Gives an instance the wanted tags besides those that it has. A conflict with another client is followed
by one further attempt. -/
def setTags (c : Client) (zone : Scope) (name : String) (wanted : List String) : Action Instance := do
  match ← c.setTagsOnce zone name wanted with
  | .inl i => return i
  | .inr _ =>
    match ← c.setTagsOnce zone name wanted with
    | .inl i => return i
    | .inr f => throw (.conflict name f.message)

/-- Brings up a node. -/
def createNode (c : Client) (s : NodeSpec) : Action Instance := do
  let network ← c.ensure .network .global s.network (.network s.networkSpec)
  let _ ← c.ensure .firewall .global s.firewallName (.firewall (s.firewallSpec network))
  let disk ← c.create .disk (.zone s.zone) (.disk s.diskSpec)
  let inst ← c.create .instance (.zone s.zone) (.instance (s.instanceSpec network disk))
  c.setTags (.zone s.zone) inst.name s.desiredTags

end Client

end Fleet
