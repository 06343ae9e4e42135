import Fleet.Proofs.Client.Tagging
import Fleet.Proofs.Names
import Fleet.Provision

/-!
# What a launch brings into the store

The nodes of a launch share a network and a firewall, and each of them has a boot disk and an instance of its own,
under keys that are known in advance (`Launch.Own`). The requests for them have known results (`makes_network` and
its like), up to the tags and addresses of an instance.
-/

namespace Fleet

open Memory

/-- What may happen during a launch. -/
structure Circumstances where
  /-- Nobody else stores anything. -/
  closed : Prop
  /-- No failures are ordered, there is none for a name that is stored or whose insert gets lost. -/
  tame : Prop
  /-- No faults are left but fetches that fail. -/
  calm : Prop
  /-- Fetches of operations get through and records stay. -/
  steady : Prop
  /-- The launch may be cancelled. -/
  stoppable : Prop

/-- Nodes that are launched side by side on the platform `before`. -/
structure Launch extends Circumstances where
  before : Memory
  group : String
  network : String
  template : NodeTemplate
  names : List String
  keyed : before.WellKeyed
  nodup : names.Nodup
  no_slash : ∀ n ∈ names, '/' ∉ n.toList
  /-- The names are new. -/
  new : ∀ n ∈ names, before.resources.find? (resourceKey .instance (.zone template.zone) n) = none

namespace Launch

variable (l : Launch)

def zone : Scope := .zone l.template.zone

def spec (n : String) : NodeSpec := .ofTemplate n l.group l.network l.template

def firewallName : String := Naming.firewallName l.network l.template.inboundPorts

/-! ### Keys -/

def networkKey : ResourceKey := resourceKey .network .global l.network

def firewallKey : ResourceKey := resourceKey .firewall .global l.firewallName

def diskKey (n : String) : ResourceKey := resourceKey .disk l.zone (Naming.bootDiskName n)

def instanceKey (n : String) : ResourceKey := resourceKey .instance l.zone n

/-- The keys of the resources that a launch brings up. -/
def Own (k : ResourceKey) : Prop :=
  k = l.networkKey ∨ k = l.firewallKey ∨ ∃ n ∈ l.names, k = l.diskKey n ∨ k = l.instanceKey n

variable {l}

@[simp] theorem networkKey_ne_firewallKey : l.networkKey ≠ l.firewallKey := by
  simp [networkKey, firewallKey, resourceKey]

@[simp] theorem networkKey_ne_diskKey (n : String) : l.networkKey ≠ l.diskKey n := by
  simp [networkKey, diskKey, resourceKey]

@[simp] theorem networkKey_ne_instanceKey (n : String) : l.networkKey ≠ l.instanceKey n := by
  simp [networkKey, instanceKey, resourceKey]

@[simp] theorem firewallKey_ne_diskKey (n : String) : l.firewallKey ≠ l.diskKey n := by
  simp [firewallKey, diskKey, resourceKey]

@[simp] theorem firewallKey_ne_instanceKey (n : String) : l.firewallKey ≠ l.instanceKey n := by
  simp [firewallKey, instanceKey, resourceKey]

@[simp] theorem diskKey_ne_instanceKey (n n' : String) : l.diskKey n ≠ l.instanceKey n' := by
  simp [diskKey, instanceKey, resourceKey]

@[simp] theorem diskKey_inj {n n' : String} : l.diskKey n = l.diskKey n' ↔ n = n' := by
  refine ⟨fun h => Naming.bootDiskName_injective ?_, fun h => by rw [h]⟩
  simpa [diskKey, resourceKey] using h

@[simp] theorem instanceKey_inj {n n' : String} : l.instanceKey n = l.instanceKey n' ↔ n = n' := by
  simp [instanceKey, resourceKey]

theorem own_networkKey : l.Own l.networkKey := .inl rfl

theorem own_firewallKey : l.Own l.firewallKey := .inr (.inl rfl)

theorem own_diskKey {n : String} (h : n ∈ l.names) : l.Own (l.diskKey n) := .inr (.inr ⟨n, h, .inl rfl⟩)

theorem own_instanceKey {n : String} (h : n ∈ l.names) : l.Own (l.instanceKey n) := .inr (.inr ⟨n, h, .inr rfl⟩)

/-- The own keys of instances are those of the nodes. -/
theorem Own.instance {k : ResourceKey} (h : l.Own k) (hk : k.1 = .instance) : ∃ n ∈ l.names, k = l.instanceKey n := by
  rcases h with rfl | rfl | ⟨n, hn, rfl | rfl⟩
  · exact absurd hk (by simp [networkKey, resourceKey])
  · exact absurd hk (by simp [firewallKey, resourceKey])
  · exact absurd hk (by simp [diskKey, resourceKey])
  · exact ⟨n, hn, rfl⟩

/-- The own keys of disks are those of the boot disks. -/
theorem Own.disk {k : ResourceKey} (h : l.Own k) (hk : k.1 = .disk) : ∃ n ∈ l.names, k = l.diskKey n := by
  rcases h with rfl | rfl | ⟨n, hn, rfl | rfl⟩
  · exact absurd hk (by simp [networkKey, resourceKey])
  · exact absurd hk (by simp [firewallKey, resourceKey])
  · exact ⟨n, hn, rfl⟩
  · exact absurd hk (by simp [instanceKey, resourceKey])

theorem Own.network {k : ResourceKey} (h : l.Own k) (hk : k.1 = .network) : k = l.networkKey := by
  rcases h with rfl | rfl | ⟨n, -, rfl | rfl⟩
  · rfl
  · exact absurd hk (by simp [firewallKey, resourceKey])
  · exact absurd hk (by simp [diskKey, resourceKey])
  · exact absurd hk (by simp [instanceKey, resourceKey])

theorem Own.firewall {k : ResourceKey} (h : l.Own k) (hk : k.1 = .firewall) : k = l.firewallKey := by
  rcases h with rfl | rfl | ⟨n, -, rfl | rfl⟩
  · exact absurd hk (by simp [networkKey, resourceKey])
  · rfl
  · exact absurd hk (by simp [diskKey, resourceKey])
  · exact absurd hk (by simp [instanceKey, resourceKey])

/-! ### New resources -/

variable (l)

def newNetwork : Network where
  name := l.network
  selfLink := l.before.selfLink .network .global l.network
  ipv4Range := some l.template.networkRange
  gatewayIpv4 := none
  description := none

/-- The firewall that is made on a network. -/
def newFirewall (n : Network) : Firewall where
  name := l.firewallName
  selfLink := l.before.selfLink .firewall .global l.firewallName
  network := n.selfLink
  sourceRanges := [n.ipv4Range.getD l.template.networkRange, "0.0.0.0/0"]
  sourceTags := l.template.tags
  targetTags := [l.firewallName]
  allowed := [.ofPorts "tcp" l.template.inboundPorts, .ofPorts "udp" l.template.inboundPorts]

/-- The link to the boot disk of a node. -/
def diskLink (n : String) : String := l.before.selfLink .disk l.zone (Naming.bootDiskName n)

def newDisk (n : String) : Disk where
  name := Naming.bootDiskName n
  selfLink := l.diskLink n
  zone := l.template.zone
  sizeGb := l.template.diskSizeGb
  sourceImage := some l.template.image
  status := some "READY"

/-- The instance `i` is the node `n` on a network; tags and addresses may be any. -/
def IsNode (n : String) (net : Network) (i : Instance) : Prop :=
  ∃ tags ip nat, i =
    { name := n, selfLink := l.before.selfLink .instance l.zone n, zone := l.template.zone
      machineType := l.template.machineType, status := .running, tags := tags
      networkInterfaces := [⟨net.selfLink, ip, nat⟩], disks := [⟨l.diskLink n, true, true⟩]
      metadata := NodeSpec.metadataFor l.group l.template }

variable {l} {r : Resource} {n : String}

theorem makes_network (h : Makes l.before.project .global (.network (l.spec n).networkSpec) r) :
    r = .network l.newNetwork := by
  obtain ⟨m, hp, rfl⟩ := h
  have := selfLink_congr hp .network .global l.network
  simp [materialize, newNetwork, NodeSpec.networkSpec, spec, NodeSpec.ofTemplate, this]

theorem makes_firewall {net : Network}
    (h : Makes l.before.project .global (.firewall ((l.spec n).firewallSpec net)) r) :
    r = .firewall (l.newFirewall net) := by
  obtain ⟨m, hp, rfl⟩ := h
  have := selfLink_congr hp .firewall .global l.firewallName
  simp only [firewallName] at this
  simp [materialize, newFirewall, NodeSpec.firewallSpec, NodeSpec.firewallName, firewallName, spec,
    NodeSpec.ofTemplate, this]

theorem makes_disk (h : Makes l.before.project l.zone (.disk (l.spec n).diskSpec) r) : r = .disk (l.newDisk n) := by
  obtain ⟨m, hp, rfl⟩ := h
  have := selfLink_congr hp .disk l.zone (Naming.bootDiskName n)
  simp [materialize, newDisk, diskLink, NodeSpec.diskSpec, NodeSpec.bootDiskName, spec, NodeSpec.ofTemplate, this,
    zone, zoneOf] at this ⊢

theorem makes_instance {net : Network} {d : Disk} (hd : d = l.newDisk n)
    (h : Makes l.before.project l.zone (.instance ((l.spec n).instanceSpec net d)) r) :
    ∃ i, r = .instance i ∧ l.IsNode n net i := by
  obtain ⟨m, hp, rfl⟩ := h
  subst hd
  have := selfLink_congr hp .instance l.zone n
  refine ⟨_, rfl, ?_⟩
  unfold IsNode
  rw [← this]
  exact ⟨_, _, _, rfl⟩

end Launch

end Fleet
