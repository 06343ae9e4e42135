import Fleet.Pool
import Fleet.Provision
import Fleet.Reclaim
import Fleet.Teardown

/-!
# Groups of nodes

Launching several nodes of a group side by side, destroying one node or all nodes of a group, and looking at
the nodes that there are. The nodes of a launch and of a group's teardown run in a pool of bounded width;
what comes before and after runs alone.
-/

namespace Fleet

/-- How groups are managed. -/
structure Manager where
  client : Client
  /-- The greatest number of nodes that are worked on at the same time. -/
  concurrency : Nat
  /-- What the names of the groups' own networks start with. -/
  networkStem : String

namespace Manager

variable {σ α : Type} [Service Cloud σ]

/-- The manager with the usual bounds. -/
def ofClient (c : Client) : Manager := ⟨c, 4, "gceflow"⟩

/-- What happens to a world: a computation that may fail and runs programs against it. -/
abbrev Job (σ α : Type) := World Cloud σ → Except Failure α × World Cloud σ

/-- The network of a launch: the one that the template names, or the group's own. -/
def networkFor (m : Manager) (group : String) (t : NodeTemplate) : String :=
  t.network.getD (Naming.groupNetworkName m.networkStem group)

/-! ### Launching -/

/-- Deletes what a failed launch of a node may have left: its instance and its boot disk. What cannot be
deleted is left behind. -/
def discardPartial (m : Manager) (s : NodeSpec) : Action Unit := do
  let _ ← (m.client.deleteIfExists .instance (.zone s.zone) s.name).outcome
  let _ ← (m.client.deleteIfExists .disk (.zone s.zone) s.bootDiskName).outcome

/-- The launch of one node: nothing happens when the signal to cancel is set before it starts, and a node
that fails is cleaned up. -/
def launchNode (m : Manager) (s : NodeSpec) : Program Cloud (String × Except Failure Instance) :=
  .cancelled fun stop =>
    if stop then .done (s.name, .error (.cancelled s.name))
    else (m.client.createNode s).run.bind fun r =>
      match r with
      | .ok i => .done (s.name, .ok i)
      | .error f => (m.discardPartial s).run.bind fun _ => .done (s.name, .error f)

/-- The report on nodes that have been launched. -/
def launchReport (rs : List (String × Except Failure Instance)) : LaunchReport :=
  rs.foldl (fun report r =>
    match r.2 with
    | .ok i => report.addSuccess i
    | .error f => report.addFailure r.1 f) .empty

/-- Whether a failure shows that work on the node had begun. -/
def wasStarted : Failure → Bool
  | .cancelled _ => false
  | _ => true

/-- The names of the new nodes: the lowest ones that no instance has. -/
def chooseNames (m : Manager) (group : String) (count : Nat) : Action (List String) := do
  let existing ← m.client.list .instance (.withNameStart (group ++ "-"))
  return Naming.nextNodeNames group (existing.map (·.name)) count

/-- When no node came up although at least one was begun, the network may be superfluous. -/
def reclaimAfterLaunch (m : Manager) (network : String) (report : LaunchReport) : Program Cloud LaunchReport :=
  if report.created.isEmpty && report.failed.any (fun f => wasStarted f.failure) then
    (m.client.reclaimNetwork network).run.bind fun r =>
      match r with
      | .ok o => .done (report.addShared o)
      | .error f => .done (report.addShared (.ofFailure network f))
  else .done report

/-- Launches `count` nodes of a group. The report names every one of them. -/
def launch (m : Manager) (group : String) (count : Nat) (t : NodeTemplate) : Job σ LaunchReport := fun w =>
  match Naming.validateGroup group with
  | .error f => (.error f, w)
  | .ok () =>
    if count = 0 then (.ok .empty, w)
    else
      match (m.chooseNames group count).run.run w with
      | (.error f, w') => (.error f, w')
      | (.ok names, w') =>
        let network := m.networkFor group t
        let nodes := names.map fun n => m.launchNode (.ofTemplate n group network t)
        let pooled := runPool m.concurrency nodes w'
        let final := (m.reclaimAfterLaunch network (launchReport pooled.1)).run pooled.2
        (.ok { final.1 with durationMs := final.2.now - w.now }, final.2)

/-! ### Destroying -/

/-- Takes away networks one after the other. -/
def reclaimAll (m : Manager) (excluding : List String) : List String → Action (List NetworkOutcome)
  | [] => return []
  | n :: ns => do
    let o ← m.client.reclaimRecorded n excluding
    return o :: (← m.reclaimAll excluding ns)

/-- Destroys a node and takes away its networks where it was the last node. Only a node that was taken down
completely is left out of the count. -/
def destroyNode (m : Manager) (id : NodeId) : Action (List NetworkOutcome) := do
  match ← m.client.fetch? .instance (.zone id.zone) id.name with
  | none => return []
  | some i =>
    let teardown ← (m.client.destroy i).outcome
    let excluding := match teardown with
      | .ok _ => [i.selfLink]
      | .error _ => []
    -- After a failed teardown the node itself still counts, as long as its instance is listed.
    let shared ← m.reclaimAll excluding (networksOf [i]).keys
    match teardown with
    | .ok _ => return shared
    | .error f => throw f

/-- The teardown of one member of a group. -/
def destroyMember (m : Manager) (i : Instance) : Program Cloud (Instance × Except Failure Unit) :=
  (m.client.destroy i).run.bind fun r => .done (i, r)

/-- The report on members that have been taken down. -/
def teardownReport (rs : List (Instance × Except Failure Unit)) : TeardownReport :=
  rs.foldl (fun report r =>
    match r.2 with
    | .ok _ => report.addSuccess r.1.name
    | .error f => report.addFailure r.1.name f) .empty

/-- The members that have been taken down completely. -/
def destroyedLinks (rs : List (Instance × Except Failure Unit)) : List String :=
  rs.filterMap fun r =>
    match r.2 with
    | .ok _ => some r.1.selfLink
    | .error _ => none

/-- The networks of a group: those of its members, and the group's own if it is still there. -/
def groupNetworks (m : Manager) (group : String) (members : List Instance) : Action (List String) := do
  let networks := networksOf members
  match ← m.client.fetch? .network .global (Naming.groupNetworkName m.networkStem group) with
  | some n =>
    -- The members may refer to the group's own network by another form of its link.
    if networks.keys.any fun link => Link.sameResource link n.selfLink then return networks.keys
    else return (networks.insert n.selfLink ()).keys
  | none => return networks.keys

/-- What follows the teardown of a group's members: the networks of the group are taken away. -/
def reclaimGroup (m : Manager) (group : String) (members : List Instance)
    (rs : List (Instance × Except Failure Unit)) : Action TeardownReport := do
  let networks ← m.groupNetworks group members
  let shared ← m.reclaimAll (destroyedLinks rs) networks
  return { teardownReport rs with shared := shared }

/-- Destroys all nodes of a group and takes away their networks. -/
def destroyGroup (m : Manager) (group : String) : Job σ TeardownReport := fun w =>
  match (m.client.list .instance (.withLabel Naming.groupKey group)).run.run w with
  | (.error f, w') => (.error f, w')
  | (.ok members, w') =>
    let pooled := runPool m.concurrency (members.map m.destroyMember) w'
    match (m.reclaimGroup group members pooled.1).run.run pooled.2 with
    -- What has become of the members is not told then.
    | (.error f, w'') => (.error f, w'')
    | (.ok report, w'') => (.ok { report with durationMs := w''.now - w.now }, w'')

/-! ### Looking -/

/-- The nodes of a group, or of all groups, in the order of their identifiers. -/
def nodes (m : Manager) (group : Option String) : Action (List Node) := do
  let filter := match group with
    | some g => Filter.withLabel Naming.groupKey g
    | none => Filter.any
  let is ← m.client.list .instance filter
  let ns := (is.filter fun i => i.metadata.contains Naming.groupKey).map Node.ofInstance
  return ns.mergeSort fun a b => !(decide (b.id.text < a.id.text))

/-- The node with an identifier, if there is one. -/
def node? (m : Manager) (id : NodeId) : Action (Option Node) := do
  return (← m.client.fetch? .instance (.zone id.zone) id.name).map Node.ofInstance

end Manager

end Fleet
