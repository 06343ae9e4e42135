import Fleet.Proofs.Record.Answers
import Fleet.Proofs.Record.Asked
import Fleet.Proofs.Record.Phases
import Fleet.Proofs.Record.Reclaim
import Fleet.Proofs.Session.Basic

/-!
# The platform's own network stays

Whatever a platform answers and in whichever form it gives the links of networks, no task of a manager asks for the
deletion of a network with the name of the platform's own one. And when the platform lists only what it has been asked
for, no firewall on a network of that name is deleted: a request to delete a firewall comes after a listing that shows
the firewall, and no firewall in that listing is on such a network (`default_untouched`).
-/

namespace Fleet

variable {σ : Type}

theorem Link.name_eq_of_sameResource {a b : String} (h : Link.sameResource a b = true) : Link.name a = Link.name b := by
  unfold Link.sameResource at h
  split at h
  · rw [beq_iff_eq.1 h]
  · exact beq_iff_eq.1 h

/-- A listing shows only what passes the filter that was asked for. -/
def Exchange.isHonest : Exchange Cloud → Bool
  | ⟨_, .list _ filter, .ok rs⟩ => rs.all filter.admits
  | _ => true

/-- The latest listing of firewalls shows one with this name, and none on a network with the name of the platform's
own. -/
def ListedElsewhere (name : String) (es : List (Exchange Cloud)) : Prop :=
  ∃ later t filter rs earlier, es = later ++ ⟨t, .list .firewall filter, .ok rs⟩ :: earlier ∧
    (∀ e ∈ later, ∀ filter, e.query ≠ .list .firewall filter) ∧ (∃ f, .firewall f ∈ rs ∧ f.name = name) ∧
    ∀ f, .firewall f ∈ rs → Link.name f.network ≠ Naming.defaultNetwork

/-- Each firewall that is to be deleted has been listed before, on another network than the platform's own. -/
def DeletesListed : List (Exchange Cloud) → Prop
  | [] => True
  | e :: es => (∀ scope name, e.query = .delete .firewall scope name → ListedElsewhere name es) ∧ DeletesListed es

/-- The platform's own network is left alone, and its firewalls are as long as the platform lists what it is asked
for. -/
structure SparesDefault (es : List (Exchange Cloud)) : Prop where
  network : ∀ e ∈ es, ∀ scope, e.query ≠ .delete .network scope Naming.defaultNetwork
  firewalls : (∀ e ∈ es, e.isHonest = true) → DeletesListed es

/-- Neither a network nor a firewall is to be deleted. -/
def Call.SparesShared (call : Call) : Prop :=
  ∀ scope name, call ≠ .delete .network scope name ∧ call ≠ .delete .firewall scope name

section Parts

variable {es es' : List (Exchange Cloud)} {name : String}

private theorem ListedElsewhere.append (h : ListedElsewhere name es') : ListedElsewhere name (es' ++ es) := by
  obtain ⟨later, t, filter, rs, earlier, rfl, hlater, hmem, hrs⟩ := h
  exact ⟨later, t, filter, rs, earlier ++ es, by simp, hlater, hmem, hrs⟩

private theorem DeletesListed.append (h : DeletesListed es) (h' : DeletesListed es') : DeletesListed (es' ++ es) := by
  induction es' with
  | nil => exact h
  | cons e es' ih => exact ⟨fun scope name hq => (h'.1 scope name hq).append, ih h'.2⟩

private theorem deletesListed_of_forall (h : ∀ e ∈ es, ∀ scope name, e.query ≠ .delete .firewall scope name) :
    DeletesListed es := by
  induction es with
  | nil => trivial
  | cons e es ih =>
    exact ⟨fun scope name hq => absurd hq (h e List.mem_cons_self scope name),
      ih fun e' he' => h e' (List.mem_cons_of_mem _ he')⟩

private theorem joinable_sparesDefault : Joinable SparesDefault := by
  refine ⟨⟨fun e he => absurd he List.not_mem_nil, fun _ => trivial⟩, fun es es' h h' => ⟨?_, fun hhonest => ?_⟩⟩
  · exact fun e he => (List.mem_append.1 he).elim (h'.network e) (h.network e)
  · have hes : ∀ e ∈ es, e.isHonest = true := fun e he => hhonest e (List.mem_append_right _ he)
    have hes' : ∀ e ∈ es', e.isHonest = true := fun e he => hhonest e (List.mem_append_left _ he)
    exact (h.firewalls hes).append (h'.firewalls hes')

private theorem sparesDefault_of_forall (h : ∀ e ∈ es, e.query.SparesShared) : SparesDefault es :=
  ⟨fun e he scope => (h e he scope _).1, fun _ => deletesListed_of_forall fun e he scope name => (h e he scope name).2⟩

end Parts

namespace Client

open Action

variable (c : Client)

/-- Everything but deletions, and the deletion of anything else, spares networks and firewalls. -/
private theorem sparesShared_of_ne {call : Call} (h : ∀ kind scope name, call ≠ .delete kind scope name) :
    call.SparesShared := fun scope name => ⟨h _ scope name, h _ scope name⟩

private theorem leaves_of_asks {α : Type} {p : Program Cloud α} (h : p.Asks Call.SparesShared) :
    p.Leaves SparesDefault := h.mono fun _ _ hes => sparesDefault_of_forall hes

private theorem leaves_remainingInstances (link : String) (excluding : List String) :
    (c.remainingInstances link excluding).run.Leaves SparesDefault :=
  leaves_bind joinable_sparesDefault (leaves_of_asks (c.asks_list (fun _ => sparesShared_of_ne) .instance _))
    fun _ => leaves_pure joinable_sparesDefault _

/-! ### Firewalls -/

private theorem asks_deleteFirewalls {P : Call → Prop} {fs : List Firewall}
    (hdelete : ∀ f ∈ fs, P (.delete .firewall .global f.name)) (hoperation : ∀ h, P (.operation h)) :
    (c.deleteFirewalls fs).run.Asks P := by
  have hjoin := Program.joinable_asked (S := Cloud) P
  induction fs with
  | nil => exact leaves_pure hjoin _
  | cons f fs ih =>
    have hfs := ih fun f' hf' => hdelete f' (List.mem_cons_of_mem _ hf')
    refine leaves_bind hjoin (c.asks_deleteIfExists (hdelete f List.mem_cons_self) hoperation) fun _ => ?_
    exact leaves_bind hjoin hfs fun _ => leaves_pure hjoin _

/-- The requests by which firewalls are deleted. -/
private def Clears (fs : List Firewall) (call : Call) : Prop :=
  (∃ f ∈ fs, call = .delete .firewall .global f.name) ∨ ∃ h, call = .operation h

/-- Firewalls that have been listed on another network may be deleted. -/
private theorem sparesDefault_of_listing {link : String} (hlink : Link.name link ≠ Naming.defaultNetwork)
    {fs : List Firewall} {t : Nat} {listed deletions : List (Exchange Cloud)}
    (hlisted : ∀ e ∈ listed, e.query = .list .firewall (.onNetwork link))
    (hdeletions : ∀ e ∈ deletions, Clears fs e.query) :
    SparesDefault (deletions ++
      ⟨t, .list .firewall (.onNetwork link), .ok (fs.map (.ofRecord .firewall))⟩ :: listed) := by
  have hlistings : ∀ e ∈ ⟨t, .list .firewall (.onNetwork link), .ok (fs.map (.ofRecord .firewall))⟩ :: listed,
      e.query.SparesShared := by
    refine List.forall_mem_cons.2 ⟨sparesShared_of_ne (by simp), fun e he => ?_⟩
    exact (hlisted e he).symm ▸ sparesShared_of_ne (by simp)
  have hspared := sparesDefault_of_forall hlistings
  refine ⟨fun e he scope => ?_, fun hhonest => ?_⟩
  · rcases List.mem_append.1 he with he | he
    · rcases hdeletions e he with ⟨f, -, hq⟩ | ⟨h, hq⟩ <;> simp [hq]
    · exact hspared.network e he scope
  -- Every firewall of the listing is on the network that was asked for.
  have helsewhere : ∀ f, .firewall f ∈ fs.map (Resource.ofRecord .firewall) →
      Link.name f.network ≠ Naming.defaultNetwork := by
    intro f hf
    have hlisting : (fs.map (Resource.ofRecord .firewall)).all (Filter.onNetwork link).admits = true :=
      hhonest _ (List.mem_append_right _ List.mem_cons_self)
    have hadmits := List.all_eq_true.1 hlisting _ hf
    have hon : Link.sameResource f.network link = true := by
      simpa [Filter.admits, Filter.onNetwork, Filter.any, Filter.isOn] using hadmits
    rwa [Link.name_eq_of_sameResource hon]
  clear hhonest
  induction deletions with
  | nil => exact deletesListed_of_forall fun e he scope name => (hlistings e he scope name).2
  | cons e es ih =>
    refine ⟨fun scope name hq => ?_, ih fun e' he' => hdeletions e' (List.mem_cons_of_mem _ he')⟩
    have hes : ∀ e' ∈ es, ∀ filter, e'.query ≠ .list .firewall filter := by
      intro e' he' filter
      rcases hdeletions e' (List.mem_cons_of_mem _ he') with ⟨f, -, hq⟩ | ⟨h, hq⟩ <;> simp [hq]
    rcases hdeletions e List.mem_cons_self with ⟨f, hf, hq'⟩ | ⟨h, hq'⟩
    · rw [hq'] at hq
      cases hq
      exact ⟨es, t, _, _, listed, rfl, hes, ⟨f, List.mem_map_of_mem hf, rfl⟩, helsewhere⟩
    · rw [hq'] at hq
      cases hq

private theorem leaves_clear {link : String} (hlink : Link.name link ≠ Naming.defaultNetwork) :
    (c.list .firewall (.onNetwork link) >>= c.deleteFirewalls).run.Leaves SparesDefault := by
  refine always_bind ((c.always_list_read .firewall (.onNetwork link)).mono fun r es hr => ?_)
  obtain ⟨hquery, hread⟩ := hr
  cases r with
  | error f => exact sparesDefault_of_forall fun e he => (hquery e he).symm ▸ sparesShared_of_ne (by simp)
  | ok fs =>
    obtain ⟨t, listed, rfl⟩ := hread fs rfl
    have hclears : (c.deleteFirewalls fs).run.Asks (Clears fs) :=
      c.asks_deleteFirewalls (fun f hf => .inl ⟨f, hf, rfl⟩) fun h => .inr ⟨h, rfl⟩
    refine hclears.mono fun _ deletions hdeletions => sparesDefault_of_listing hlink (fun e he => ?_) hdeletions
    exact hquery e (List.mem_cons_of_mem _ he)

/-! ### Networks -/

private theorem leaves_deleteNetwork {name : String} (hname : name ≠ Naming.defaultNetwork) :
    (c.deleteIfExists .network .global name).run.Leaves SparesDefault := by
  refine (c.always_deleteIfExists .network .global name).mono fun _ es hr => ?_
  refine ⟨fun e he scope hq => ?_, fun _ => deletesListed_of_forall fun e he scope name => ?_⟩
  · rcases hr.query_eq e he with hq' | ⟨h, hq'⟩
    · rw [hq', Call.delete.injEq] at hq
      exact hname hq.2.2
    · rw [hq'] at hq
      cases hq
  · rcases hr.query_eq e he with hq' | ⟨h, hq'⟩ <;> simp [hq']

/-- Reclaiming starts with a look at the name of the network, which every form of a link ends in. -/
private theorem leaves_reclaimShared (link : String) (excluding : List String) :
    (c.reclaimShared link excluding).run.Leaves SparesDefault := by
  have hjoin := joinable_sparesDefault
  unfold reclaimShared
  by_cases hlink : Link.name link = Naming.defaultNetwork
  · rw [if_pos hlink]
    exact leaves_pure hjoin _
  rw [if_neg hlink]
  refine leaves_bind hjoin (c.leaves_remainingInstances link excluding) fun n => ?_
  split
  · exact leaves_pure hjoin _
  refine leaves_bind_bind hjoin (c.leaves_clear hlink) fun deleted => ?_
  refine leaves_bind hjoin (leaves_outcome hjoin (c.leaves_deleteNetwork hlink)) fun r => ?_
  cases r with
  | ok found => exact leaves_pure hjoin _
  | error f =>
    show (if f.isInUse = true then _ else throw f : Action NetworkOutcome).run.Leaves _
    split
    · exact leaves_bind hjoin (c.leaves_remainingInstances link excluding) fun m => leaves_pure hjoin _
    · exact leaves_throw hjoin f

private theorem leaves_reclaimRecorded (link : String) (excluding : List String) :
    (c.reclaimRecorded link excluding).run.Leaves SparesDefault := by
  have hjoin := joinable_sparesDefault
  refine leaves_bind hjoin (leaves_outcome hjoin (c.leaves_reclaimShared link excluding)) fun r => ?_
  cases r with
  | ok o => exact leaves_pure hjoin o
  | error f => exact leaves_pure hjoin _

private theorem leaves_fetch? (kind : Kind) (scope : Scope) (name : String) :
    (c.fetch? kind scope name).run.Leaves SparesDefault :=
  leaves_of_asks (c.asks_fetch? (sparesShared_of_ne (by simp)))

private theorem leaves_reclaimNetwork (name : String) : (c.reclaimNetwork name).run.Leaves SparesDefault := by
  refine leaves_bind joinable_sparesDefault (c.leaves_fetch? .network .global name) fun n => ?_
  cases n with
  | none => exact leaves_pure joinable_sparesDefault _
  | some n => exact c.leaves_reclaimShared n.selfLink []

/-! ### Nodes -/

private theorem asks_destroy_spares (i : Instance) : (c.destroy i).run.Asks Call.SparesShared :=
  c.asks_destroy (fun _ => sparesShared_of_ne) (fun _ _ => by simp) fun _ _ => by simp

end Client

namespace Manager

open Action

variable (mgr : Manager)

private theorem asks_launchNode (s : NodeSpec) : (mgr.launchNode s).Asks Call.SparesShared := by
  have hjoin := Program.joinable_asked (S := Cloud) Call.SparesShared
  have hoperation (h : OperationHandle) : (Call.operation h).SparesShared := Client.sparesShared_of_ne (by simp)
  have hdiscard : (mgr.discardPartial s).run.Asks Call.SparesShared := by
    unfold discardPartial
    refine leaves_bind hjoin (leaves_outcome hjoin (mgr.client.asks_deleteIfExists ?_ hoperation)) fun _ => ?_
    · exact fun _ _ => by simp
    refine leaves_bind hjoin (leaves_outcome hjoin (mgr.client.asks_deleteIfExists ?_ hoperation)) fun _ => ?_
    · exact fun _ _ => by simp
    exact leaves_pure hjoin _
  refine Program.always_cancelled.2 fun stop => ?_
  cases stop with
  | true => exact Program.leaves_done hjoin _
  | false =>
    refine Program.Leaves.bind hjoin (mgr.client.asks_createNode (fun _ => Client.sparesShared_of_ne) s) fun r => ?_
    cases r with
    | ok i => exact Program.leaves_done hjoin _
    | error f => exact Program.Leaves.bind hjoin hdiscard fun _ => Program.leaves_done hjoin _

private theorem asks_destroyMember (i : Instance) : (mgr.destroyMember i).Asks Call.SparesShared :=
  have hjoin := Program.joinable_asked (S := Cloud) Call.SparesShared
  Program.Leaves.bind hjoin (mgr.client.asks_destroy_spares i) fun _ => Program.leaves_done hjoin _

private theorem leaves_chooseNames (group : String) (count : Nat) :
    (mgr.chooseNames group count).run.Leaves SparesDefault :=
  leaves_bind joinable_sparesDefault
    (Client.leaves_of_asks (mgr.client.asks_list (fun _ => Client.sparesShared_of_ne) .instance _))
    fun _ => leaves_pure joinable_sparesDefault _

/-! ### What comes after the nodes -/

private theorem leaves_reclaimAfterLaunch (network : String) (report : LaunchReport) :
    (mgr.reclaimAfterLaunch network report).Leaves SparesDefault := by
  have hjoin := joinable_sparesDefault
  unfold reclaimAfterLaunch
  split
  · refine Program.Leaves.bind hjoin (mgr.client.leaves_reclaimNetwork network) fun r => ?_
    cases r with
    | ok o => exact Program.leaves_done hjoin _
    | error f => exact Program.leaves_done hjoin _
  · exact Program.leaves_done hjoin _

private theorem leaves_reclaimAll (excluding links : List String) :
    (mgr.reclaimAll excluding links).run.Leaves SparesDefault := by
  have hjoin := joinable_sparesDefault
  induction links with
  | nil => exact leaves_pure hjoin _
  | cons link links ih =>
    refine leaves_bind hjoin (mgr.client.leaves_reclaimRecorded link excluding) fun o => ?_
    exact leaves_bind hjoin ih fun os => leaves_pure hjoin _

private theorem leaves_destroyNode (id : NodeId) : (mgr.destroyNode id).run.Leaves SparesDefault := by
  have hjoin := joinable_sparesDefault
  unfold destroyNode
  refine leaves_bind hjoin (mgr.client.leaves_fetch? .instance (.zone id.zone) id.name) fun i => ?_
  cases i with
  | none => exact leaves_pure hjoin _
  | some i =>
    have hteardown := Client.leaves_of_asks (mgr.client.asks_destroy_spares i)
    refine leaves_bind hjoin (leaves_outcome hjoin hteardown) fun r => ?_
    cases r with
    | ok u => exact leaves_bind hjoin (mgr.leaves_reclaimAll _ _) fun os => leaves_pure hjoin os
    | error f => exact leaves_bind hjoin (mgr.leaves_reclaimAll _ _) fun os => leaves_throw hjoin f

private theorem leaves_reclaimGroup (group : String) (members : List Instance)
    (rs : List (Instance × Except Failure Unit)) :
    (mgr.reclaimGroup group members rs).run.Leaves SparesDefault := by
  have hjoin := joinable_sparesDefault
  have hnetworks : (mgr.groupNetworks group members).run.Leaves SparesDefault := by
    unfold groupNetworks
    refine leaves_bind hjoin (mgr.client.leaves_fetch? .network .global _) fun n => ?_
    cases n with
    | none => exact leaves_pure hjoin _
    | some n =>
      dsimp only
      split <;> exact leaves_pure hjoin _
  refine leaves_bind hjoin hnetworks fun networks => ?_
  exact leaves_bind hjoin (mgr.leaves_reclaimAll _ networks) fun os => leaves_pure hjoin _

/-! ### Nodes side by side -/

private theorem launch_spares [Service Cloud σ] (group : String) (count : Nat) (t : NodeTemplate) (w : World Cloud σ) :
    ∃ es, (mgr.launch group count t w).2.record = es ++ w.record ∧ SparesDefault es := by
  have hjoin := joinable_sparesDefault
  obtain ⟨before, hbefore, hspared⟩ := (mgr.leaves_chooseNames group count).run w
  have hnodes (names : List String) :
      ∀ p ∈ names.map fun n => mgr.launchNode (.ofTemplate n group (mgr.networkFor group t) t),
        p.Asks Call.SparesShared := by
    intro p hp
    obtain ⟨n, -, rfl⟩ := List.mem_map.1 hp
    exact mgr.asks_launchNode _
  refine after_launch (P := fun w' => ∃ es, w'.record = es ++ w.record ∧ SparesDefault es) ⟨[], rfl, hjoin.nil⟩
    (fun f w₁ hfailed => ?_) fun names w₁ rs w₂ _ hchosen hpool => ?_
  · rw [hfailed] at hbefore
    exact ⟨before, hbefore, hspared⟩
  · rw [hchosen] at hbefore
    obtain ⟨calls, hcalls, hquery⟩ := runPool_asks mgr.concurrency (hnodes names) w₁
    obtain ⟨after, hafter, hspared'⟩ :=
      (mgr.leaves_reclaimAfterLaunch (mgr.networkFor group t) (launchReport rs)).run w₂
    rw [hpool] at hcalls
    rw [hcalls, hbefore, ← List.append_assoc, ← List.append_assoc] at hafter
    exact ⟨_, hafter, hjoin.append _ _ hspared (hjoin.append _ _ (sparesDefault_of_forall hquery) hspared')⟩

private theorem destroyGroup_spares [Service Cloud σ] (group : String) (w : World Cloud σ) :
    ∃ es, (mgr.destroyGroup group w).2.record = es ++ w.record ∧ SparesDefault es := by
  have hjoin := joinable_sparesDefault
  obtain ⟨before, hbefore, hspared⟩ := (Client.leaves_of_asks (mgr.client.asks_list
    (fun _ => Client.sparesShared_of_ne) .instance (.withLabel Naming.groupKey group))).run w
  have hmembers (members : List Instance) : ∀ p ∈ members.map mgr.destroyMember, p.Asks Call.SparesShared := by
    intro p hp
    obtain ⟨i, -, rfl⟩ := List.mem_map.1 hp
    exact mgr.asks_destroyMember i
  refine after_destroyGroup (P := fun w' => ∃ es, w'.record = es ++ w.record ∧ SparesDefault es)
    (fun f w₁ hfailed => ?_) fun members w₁ rs w₂ hlisted hpool => ?_
  · rw [hfailed] at hbefore
    exact ⟨before, hbefore, hspared⟩
  · rw [hlisted] at hbefore
    obtain ⟨calls, hcalls, hquery⟩ := runPool_asks mgr.concurrency (hmembers members) w₁
    obtain ⟨after, hafter, hspared'⟩ := (mgr.leaves_reclaimGroup group members rs).run w₂
    rw [hpool] at hcalls
    rw [hcalls, hbefore, ← List.append_assoc, ← List.append_assoc] at hafter
    exact ⟨_, hafter, hjoin.append _ _ hspared (hjoin.append _ _ (sparesDefault_of_forall hquery) hspared')⟩

end Manager

/-- Every task of a manager spares the platform's own network and the firewalls on networks of its name. -/
theorem default_untouched [Service Cloud σ] (mgr : Manager) (task : Task) (w : World Cloud σ) :
    ∃ es, (mgr.perform task w).record = es ++ w.record ∧ SparesDefault es := by
  cases task with
  | createNodes group count t => exact mgr.launch_spares group count t w
  | destroyNode id => exact (mgr.leaves_destroyNode id).run w
  | destroyGroup group => exact mgr.destroyGroup_spares group w
  | reclaimNetwork name => exact (mgr.client.leaves_reclaimNetwork name).run w

/-- The world after a network has been reclaimed whose firewall is listed and deleted. -/
def afterPickedUp : World Cloud Script :=
  (Manager.ofClient .standard).perform (.reclaimNetwork "net") (World.start Script.pickedUp 0)

/-- A platform that lists what it is asked for, and a firewall that is deleted after it has been listed. -/
theorem default_untouched_pickedUp :
    (∀ e ∈ afterPickedUp.record, e.isHonest = true) ∧
      (∃ e ∈ afterPickedUp.record, e.query = .delete .firewall .global "net-port-22") ∧
      DeletesListed afterPickedUp.record := by
  have hhonest : ∀ e ∈ afterPickedUp.record, e.isHonest = true := by decide +kernel
  obtain ⟨es, hes, hspared⟩ := default_untouched (.ofClient .standard) (.reclaimNetwork "net")
    (World.start Script.pickedUp 0)
  obtain rfl : es = afterPickedUp.record := (List.append_nil es).symm.trans hes.symm
  exact ⟨hhonest, by decide +kernel, hspared.firewalls hhonest⟩

end Fleet
