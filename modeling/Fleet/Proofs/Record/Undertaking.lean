import Fleet.Group

/-!
# Everything that can be undertaken

The operations of a client and of a manager in one type (`Undertaking`), each with the type of its results. What holds
of every operation is stated of `Manager.undertake`.
-/

namespace Fleet

/-- The operations of a manager and of its client, with their arguments. -/
inductive Undertaking
  | fetch? (kind : Kind) (scope : Scope) (name : String)
  | fetch (kind : Kind) (scope : Scope) (name : String)
  | list (kind : Kind) (filter : Filter)
  | submitInsert (scope : Scope) (spec : ResourceSpec)
  | awaitDone (handle : OperationHandle)
  | awaitDoneWithin (handle : OperationHandle) (timeoutMs : Nat)
  | create (kind : Kind) (scope : Scope) (spec : ResourceSpec)
  | delete (kind : Kind) (scope : Scope) (name : String)
  | deleteIfExists (kind : Kind) (scope : Scope) (name : String)
  | update (kind : Kind) (scope : Scope) (name : String) (tags : Tags)
  | ensure (kind : Kind) (scope : Scope) (name : String) (spec : ResourceSpec)
  | setTags (zone : Scope) (name : String) (wanted : List String)
  | createNode (spec : NodeSpec)
  | destroy (node : Instance)
  | reclaimShared (link : String) (excluding : List String)
  | reclaimNetwork (name : String)
  | destroyNode (id : NodeId)
  | nodes (group : Option String)
  | node? (id : NodeId)
  | launch (group : String) (count : Nat) (template : NodeTemplate)
  | destroyGroup (group : String)

/-- What an operation returns when it succeeds. -/
abbrev Undertaking.Value : Undertaking → Type
  | fetch? kind _ _ => Option kind.Record
  | fetch kind _ _ => kind.Record
  | list kind _ => List kind.Record
  | submitInsert _ _ => OperationHandle
  | awaitDone _ => Summary
  | awaitDoneWithin _ _ => Summary
  | create kind _ _ => kind.Record
  | delete _ _ _ => Unit
  | deleteIfExists _ _ _ => Bool
  | update _ _ _ _ => Summary
  | ensure kind _ _ _ => kind.Record
  | setTags _ _ _ => Instance
  | createNode _ => Instance
  | destroy _ => Unit
  | reclaimShared _ _ => NetworkOutcome
  | reclaimNetwork _ => NetworkOutcome
  | destroyNode _ => List NetworkOutcome
  | nodes _ => List Node
  | node? _ => Option Node
  | launch _ _ _ => LaunchReport
  | destroyGroup _ => TeardownReport

/-- Carries out an operation. -/
def Manager.undertake {σ : Type} [Service Cloud σ] (mgr : Manager) : (u : Undertaking) → Manager.Job σ u.Value
  | .fetch? kind scope name => (mgr.client.fetch? kind scope name).run.run
  | .fetch kind scope name => (mgr.client.fetch kind scope name).run.run
  | .list kind filter => (mgr.client.list kind filter).run.run
  | .submitInsert scope spec => (mgr.client.submitInsert scope spec).run.run
  | .awaitDone h => (mgr.client.awaitDone h).run.run
  | .awaitDoneWithin h timeoutMs => (mgr.client.awaitDoneWithin h timeoutMs).run.run
  | .create kind scope spec => (mgr.client.create kind scope spec).run.run
  | .delete kind scope name => (mgr.client.delete kind scope name).run.run
  | .deleteIfExists kind scope name => (mgr.client.deleteIfExists kind scope name).run.run
  | .update kind scope name tags => (mgr.client.update kind scope name tags).run.run
  | .ensure kind scope name spec => (mgr.client.ensure kind scope name spec).run.run
  | .setTags zone name wanted => (mgr.client.setTags zone name wanted).run.run
  | .createNode s => (mgr.client.createNode s).run.run
  | .destroy i => (mgr.client.destroy i).run.run
  | .reclaimShared link excluding => (mgr.client.reclaimShared link excluding).run.run
  | .reclaimNetwork name => (mgr.client.reclaimNetwork name).run.run
  | .destroyNode id => (mgr.destroyNode id).run.run
  | .nodes group => (mgr.nodes group).run.run
  | .node? id => (mgr.node? id).run.run
  | .launch group count t => mgr.launch group count t
  | .destroyGroup group => mgr.destroyGroup group

end Fleet
