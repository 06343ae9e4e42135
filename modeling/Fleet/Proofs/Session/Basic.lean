import Fleet.Group
import Fleet.Proofs.Conduct.Basic
import Fleet.Proofs.Memory.Faults

/-!
# Sessions

A session is a sequence of calls of managers on the platform in memory, with things made to go wrong before and during
every call. The platform is watched: it keeps what it was before and after each of its answers, so that one can tell
when a resource disappears and what is stored at that moment (`Fair`).
-/

namespace Fleet

open Memory

/-- The platform in memory together with what it was before and after every answer. -/
structure Watched where
  memory : Memory
  steps : List (Memory × Memory)

instance : Service Cloud Watched where
  answer q s :=
    let r := Service.answer q s.memory
    (r.1, ⟨r.2, s.steps ++ [(s.memory, r.2)]⟩)

namespace Watched

/-- Watching the platform does not change its answers. -/
theorem isView : IsView (S := Cloud) Watched.memory := fun _ _ => rfl

/-- Something is made to go wrong. -/
def disturb (f : Fault) (s : Watched) : Watched := { s with memory := f.apply s.memory }

end Watched

/-- What a manager is called for. -/
inductive Task where
  | createNodes (group : String) (count : Nat) (template : NodeTemplate)
  | destroyNode (id : NodeId)
  | destroyGroup (group : String)
  | reclaimNetwork (name : String)

namespace Manager

/-- The world after a task. -/
def perform {σ : Type} [Service Cloud σ] (mgr : Manager) : Task → World Cloud σ → World Cloud σ
  | .createNodes group count t, w => (mgr.launch group count t w).2
  | .destroyNode id, w => ((mgr.destroyNode id).run.run w).2
  | .destroyGroup group, w => (mgr.destroyGroup group w).2
  | .reclaimNetwork name, w => ((mgr.client.reclaimNetwork name).run.run w).2

end Manager

/-- A call of a manager, and what is made to go wrong before it and at given times while it runs. -/
structure Errand where
  manager : Manager
  task : Task
  start : Nat
  before : List Fault
  meanwhile : List (Nat × Fault)
  cancelAt : Option Nat
  cancelAfter : Option Nat

namespace Errand

variable (e : Errand)

def world (s : Watched) : World Cloud Watched where
  service := e.before.foldl (fun s f => s.disturb f) s
  now := e.start
  record := []
  interventions := e.meanwhile.map fun f => (f.1, Watched.disturb f.2)
  cancelAt := e.cancelAt
  cancelAfter := e.cancelAfter

def run (s : Watched) : Watched := (e.manager.perform e.task (e.world s)).service

/-- Names have no slashes, and no operation is made to fail as if its resource were missing. -/
structure Plain : Prop where
  network : ∀ group count t, e.task = .createNodes group count t → '/' ∉ (e.manager.networkFor group t).toList
  before : ∀ f ∈ e.before, f.code? ≠ some .notFound
  meanwhile : ∀ f ∈ e.meanwhile, f.2.code? ≠ some .notFound

end Errand

/-- The platform after a session. -/
def runSession (errands : List Errand) (m : Memory) : Watched := errands.foldl (fun s e => e.run s) ⟨m, []⟩

/-- The platforms that store nothing but nodes that have been put there, with names without slashes. -/
inductive Populated : Memory → Prop where
  | empty (project : String) (polls : Nat) : Populated ((Memory.empty project).withPollsUntilDone polls)
  | seedNode {m : Memory} (h : Populated m) (zone : String) {name network : String} (group : String)
      (hname : '/' ∉ name.toList) (hnetwork : '/' ∉ network.toList) : Populated (m.seedNode zone name network group).2

/-- From one store to the next, no network goes that an instance is on, and no firewall of such a network. -/
structure Fair (s s' : OrderedMap ResourceKey Resource) : Prop where
  network : ∀ k n, s.find? k = some (.network n) → s'.find? k ≠ some (.network n) →
    ∀ j i, s.find? j = some (.instance i) → i.isOnNetwork n.selfLink = false
  firewall : ∀ k f, s.find? k = some (.firewall f) → s'.find? k ≠ some (.firewall f) →
    ∀ j i, s.find? j = some (.instance i) → i.isOnNetwork f.network = false

theorem fair_of_kept {s s' : OrderedMap ResourceKey Resource}
    (h : ∀ k r, r.kind = .network ∨ r.kind = .firewall → s.find? k = some r → s'.find? k = some r) : Fair s s' :=
  ⟨fun k _ hn hgone => absurd (h k _ (.inl rfl) hn) hgone, fun k _ hf hgone => absurd (h k _ (.inr rfl) hf) hgone⟩

end Fleet
