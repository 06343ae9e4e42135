import Fleet.Client
import Fleet.Report

/-!
# Reclaiming networks

A network and the firewalls on it are shared by nodes, and are taken away when no instance is left on the
network. The platform's own network is never taken away.
-/

namespace Fleet

/-- The networks that instances are attached to, each once and in the order of their links. -/
def networksOf (is : List Instance) : OrderedMap String Unit :=
  OrderedMap.ofList ((is.flatMap fun i => i.networkInterfaces.map (·.network)).map fun n => (n, ()))

theorem mem_networksOf {is : List Instance} {link : String} :
    link ∈ (networksOf is).keys ↔ ∃ i ∈ is, ∃ nic ∈ i.networkInterfaces, nic.network = link := by
  simp only [networksOf, OrderedMap.mem_keys_ofList, List.map_map, Function.comp_def, List.map_id', List.mem_flatMap,
    List.mem_map]

/-- What a failed reclamation leaves in a report. -/
def NetworkOutcome.ofFailure (network : String) (f : Failure) : NetworkOutcome := .failed network f.message

namespace Client

/-- The number of instances on a network besides the excluded ones. -/
def remainingInstances (c : Client) (link : String) (excluding : List String) : Action Nat := do
  let is ← c.list .instance (.onNetwork link)
  return (is.filter fun i => !excluding.contains i.selfLink).length

/-- Deletes firewalls one after the other and returns the names of those that were there. -/
def deleteFirewalls (c : Client) : List Firewall → Action (List String)
  | [] => return []
  | f :: fs => do
    let deleted ← c.deleteIfExists .firewall .global f.name
    let more ← c.deleteFirewalls fs
    return if deleted then f.name :: more else more

/-- Takes away a network and its firewalls unless an instance besides the excluded ones is on it. When the
platform refuses to delete the network because it is in use, the instances are counted again. -/
def reclaimShared (c : Client) (link : String) (excluding : List String) : Action NetworkOutcome := do
  let network := Link.name link
  if network = Naming.defaultNetwork then return .retained network
  let remaining ← c.remainingInstances link excluding
  if 0 < remaining then return .inUse network remaining
  let deleted ← c.deleteFirewalls (← c.list .firewall (.onNetwork link))
  match ← (c.deleteIfExists .network .global network).outcome with
  | .ok found =>
    return if found || !deleted.isEmpty then .reclaimed network deleted else .retained network
  | .error f =>
    -- Between the count and this request, another instance may have come.
    if f.isInUse then return .inUse network (← c.remainingInstances link excluding) else throw f

/-- Takes away the network with a name, if there is one and no instance is on it. -/
def reclaimNetwork (c : Client) (name : String) : Action NetworkOutcome := do
  match ← c.fetch? .network .global name with
  | some n => c.reclaimShared n.selfLink []
  | none => return .retained name

/-- Takes away a network as far as possible; a failure becomes an outcome. -/
def reclaimRecorded (c : Client) (link : String) (excluding : List String) : Action NetworkOutcome := do
  match ← (c.reclaimShared link excluding).outcome with
  | .ok o => return o
  | .error f => return .ofFailure (Link.name link) f

end Client

end Fleet
