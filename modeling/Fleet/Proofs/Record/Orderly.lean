import Fleet.Proofs.Record.Group
import Fleet.Proofs.Record.Phases
import Fleet.Proofs.Record.Trace
import Fleet.Proofs.Record.Turns

/-!
# The order of a teardown

Whatever a platform answers, nodes, firewalls and networks are taken down in order (`teardown_orderly`): the boot disk
of a node after its instance; the firewalls of a network after a listing that shows nobody on it but instances that
are gone; the network after its firewalls. Each deletion waits until the one before has finished, and when that one has
not, nothing more is deleted of the node or the network.
-/

namespace Fleet

variable {σ : Type}

/-- No change is asked for. -/
def OnlyReads (es : List (Exchange Cloud)) : Prop := ∀ e ∈ es, e.query.isMutation = false

/-- A network is taken away, or an attempt is made; instances with links in `excluded` are no obstacle. -/
inductive Reclamation (link : String) (excluded : List String) : List (Exchange Cloud) → Prop
  | spared {es : List (Exchange Cloud)} (h : OnlyReads es) : Reclamation link excluded es
  /-- Nobody else is on the network, and the firewalls that are listed then are deleted before the network. -/
  | attempted {is : List Instance} {fs : List Firewall} {all : Bool} {t t' : Nat}
      {counted listed deletions after : List (Exchange Cloud)} (hempty : ∀ i ∈ is, i.selfLink ∈ excluded)
      (hcounted : OnlyReads counted) (hlisted : OnlyReads listed)
      (hturn : InTurn (firewallTargets fs ++ [⟨.network, .global, Link.name link⟩]) all deletions)
      (hafter : OnlyReads after) :
      Reclamation link excluded (after ++ deletions ++
        ⟨t', .list .firewall (.onNetwork link), .ok (fs.map (.ofRecord .firewall))⟩ :: listed ++
        ⟨t, .list .instance (.onNetwork link), .ok (is.map (.ofRecord .instance))⟩ :: counted)

/-- Networks are reclaimed one after the other. -/
inductive Reclamations (excluded : List String) : List (Exchange Cloud) → Prop
  | nil : Reclamations excluded []
  | cons {link : String} {es es' : List (Exchange Cloud)} (h : Reclamation link excluded es)
      (hs : Reclamations excluded es') : Reclamations excluded (es' ++ es)

/-- The platform has shown an instance, alone or in a listing. -/
def Shows (i : Instance) (es : List (Exchange Cloud)) : Prop :=
  (∃ t scope name, ⟨t, .get .instance scope name, .ok (some (.instance i))⟩ ∈ es) ∨
    ∃ t filter rs, ⟨t, .list .instance filter, .ok rs⟩ ∈ es ∧ .instance i ∈ rs

/-- The exchanges of a teardown: `before` shows the nodes, which are numbered because a listing may show one twice; the
exchanges that delete them, each under its node, are `calls`; `after` reclaims the networks, where the instances that
do not count have been deleted completely. -/
inductive Orderly : List (Exchange Cloud) → Prop
  | mk {nodes : List (Instance × Nat)} {calls : List ((Instance × Nat) × Exchange Cloud)}
      {before between after : List (Exchange Cloud)} {excluded : List String}
      (hbefore : OnlyReads before) (hshown : ∀ n ∈ nodes, Shows n.1 before)
      (hlabels : ∀ c ∈ calls, c.1 ∈ nodes)
      (hturns : ∀ n ∈ nodes, ∃ all, InTurn n.1.targets all (callsOf n calls))
      (hbetween : OnlyReads between)
      (hexcluded : ∀ link ∈ excluded, ∃ n ∈ nodes, n.1.selfLink = link ∧ InTurn n.1.targets true (callsOf n calls))
      (hafter : Reclamations excluded after) :
      Orderly (after ++ between ++ calls.map (·.2) ++ before)

section OnlyReads

variable {es es' : List (Exchange Cloud)}

private theorem onlyReads_nil : OnlyReads [] := fun _ h => absurd h List.not_mem_nil

private theorem OnlyReads.append (h : OnlyReads es) (h' : OnlyReads es') : OnlyReads (es' ++ es) :=
  fun e he => (List.mem_append.1 he).elim (h' e) (h e)

private theorem onlyReads_of_query_eq {call : Call} (hcall : call.isMutation = false)
    (h : ∀ e ∈ es, e.query = call) : OnlyReads es :=
  fun e he => (congrArg Call.isMutation (h e he)).trans hcall

end OnlyReads

namespace Orderly

variable {before after es : List (Exchange Cloud)}

private theorem of_nobody (hbefore : OnlyReads before) (hafter : Reclamations [] after) : Orderly (after ++ before) := by
  have h := @Orderly.mk [] [] before [] after [] hbefore (by simp) (by simp) (by simp) onlyReads_nil (by simp) hafter
  simpa using h

private theorem of_one {i : Instance} {all : Bool} {excluded : List String} (hbefore : OnlyReads before)
    (hshown : Shows i before) (hturn : InTurn i.targets all es)
    (hexcluded : ∀ link ∈ excluded, i.selfLink = link ∧ all = true) (hafter : Reclamations excluded after) :
    Orderly (after ++ es ++ before) := by
  have hcalls : callsOf (i, 0) (es.map fun e => ((i, 0), e)) = es := callsOf_map_self (i, 0) es
  have hturns : ∀ n ∈ [(i, 0)], ∃ all, InTurn n.1.targets all (callsOf n (es.map fun e => ((i, 0), e))) := by
    intro n hn
    rw [List.mem_singleton.1 hn, hcalls]
    exact ⟨all, hturn⟩
  have h := @Orderly.mk [(i, 0)] (es.map fun e => ((i, 0), e)) before [] after excluded hbefore (by simpa using hshown)
    (by simp) hturns onlyReads_nil (fun link hlink => ?_) hafter
  · simpa [Function.comp_def] using h
  · obtain ⟨hlink, rfl⟩ := hexcluded link hlink
    exact ⟨(i, 0), List.mem_singleton_self _, hlink, hcalls.symm ▸ hturn⟩

end Orderly

namespace InTurn

variable {ts us : List Target} {all : Bool} {es es' : List (Exchange Cloud)}

private theorem append_left (h : InTurn ts false es) (us : List Target) : InTurn (ts ++ us) false es := by
  generalize hall : false = all at h
  induction h with
  | nil => cases hall
  | stopped hd hf => exact .stopped hd hf
  | next hd hf _ ih => exact hall ▸ .next hd hf (hall ▸ ih hall)

private theorem append (h : InTurn ts true es) (h' : InTurn us all es') : InTurn (ts ++ us) all (es' ++ es) := by
  generalize hall : true = b at h
  induction h with
  | nil => rwa [List.append_nil]
  | stopped hd hf => cases hall
  | next hd hf _ ih =>
    rw [← List.append_assoc]
    exact .next hd hf (ih hall)

end InTurn

namespace Client

/-! ### Networks -/

private theorem always_remainingInstances_read (c : Client) (link : String) (excluding : List String) :
    (c.remainingInstances link excluding).run.Always fun r (es : List (Exchange Cloud)) => OnlyReads es ∧
      (r = .ok 0 → ∃ t counted, ∃ is : List Instance, es = ⟨t, .list .instance (.onNetwork link), .ok (is.map (.ofRecord .instance))⟩ ::
        counted ∧ ∀ i ∈ is, i.selfLink ∈ excluding) := by
  refine Action.always_bind ((c.always_list_read .instance (.onNetwork link)).mono fun r es hr => ?_)
  obtain ⟨hquery, hread⟩ := hr
  have hreads : OnlyReads es := onlyReads_of_query_eq rfl hquery
  cases r with
  | error f => exact ⟨hreads, fun h => by cases h⟩
  | ok is =>
    refine Action.always_pure ⟨hreads, fun h => ?_⟩
    obtain ⟨t, counted, rfl⟩ := hread is rfl
    have hnone : (is.filter fun i => !excluding.contains i.selfLink) = [] :=
      List.length_eq_zero_iff.1 (Except.ok.inj h)
    refine ⟨t, counted, is, rfl, fun i hi => ?_⟩
    simpa using List.filter_eq_nil_iff.1 hnone i hi

private theorem always_reclaimShared_orderly (c : Client) (link : String) (excluding : List String) :
    (c.reclaimShared link excluding).run.Always fun _ es => Reclamation link excluding es := by
  unfold reclaimShared
  by_cases hname : Link.name link = Naming.defaultNetwork
  · rw [if_pos hname]
    exact Action.always_pure (.spared onlyReads_nil)
  rw [if_neg hname]
  refine Action.always_bind ((c.always_remainingInstances_read link excluding).mono fun r es₀ h₀ => ?_)
  obtain ⟨hreads₀, hcounted⟩ := h₀
  rcases r with f | n
  · exact .spared hreads₀
  by_cases hn : 0 < n
  · simp only [if_pos hn]
    exact Action.always_pure (.spared hreads₀)
  simp only [if_neg hn]
  obtain rfl : n = 0 := by omega
  obtain ⟨t, counted, is, rfl, hempty⟩ := hcounted rfl
  have hcount : OnlyReads counted := fun e he => hreads₀ e (List.mem_cons_of_mem _ he)
  refine Action.always_bind ((c.always_list_read .firewall (.onNetwork link)).mono fun r es₁ h₁ => ?_)
  have hreads₁ : OnlyReads es₁ := onlyReads_of_query_eq rfl h₁.1
  rcases r with f | fs
  · exact .spared (hreads₀.append hreads₁)
  obtain ⟨t', listed, rfl⟩ := h₁.2 fs rfl
  have hlist : OnlyReads listed := fun e he => hreads₁ e (List.mem_cons_of_mem _ he)
  refine Action.always_bind ((c.always_deleteFirewalls_inTurn fs).mono fun r es₂ h₂ => ?_)
  rcases r with f | deleted
  · exact .attempted hempty hcount hlist (h₂.append_left _) onlyReads_nil
  refine Action.always_bind (Action.always_outcome
    ((c.always_deleteIfExists_finished ⟨.network, .global, Link.name link⟩).mono fun r es₃ h₃ => ?_))
  obtain ⟨hdel, hiff⟩ := h₃
  -- What comes after the deletions is only read.
  have hattempt {all : Bool} {after : List (Exchange Cloud)}
      (hnet : InTurn [⟨.network, .global, Link.name link⟩] all es₃) (hafter : OnlyReads after) :
      Reclamation link excluding (after ++ es₃ ++ es₂ ++
        ⟨t', .list .firewall (.onNetwork link), .ok (fs.map (.ofRecord .firewall))⟩ :: listed ++
        ⟨t, .list .instance (.onNetwork link), .ok (is.map (.ofRecord .instance))⟩ :: counted) := by
    rw [List.append_assoc after]
    exact .attempted hempty hcount hlist (h₂.append hnet) hafter
  rcases r with f | found
  · have hnet : InTurn [⟨.network, .global, Link.name link⟩] false es₃ :=
      .stopped hdel fun h => absurd (hiff.1 h) Bool.false_ne_true
    show (if f.isInUse = true then _ else throw f : Action NetworkOutcome).run.Always _
    by_cases hf : f.isInUse = true
    · rw [if_pos hf]
      refine Action.always_bind ((c.always_remainingInstances_read link excluding).mono fun r es₄ h₄ => ?_)
      cases r with
      | error g => exact hattempt hnet h₄.1
      | ok m => exact Action.always_pure (hattempt hnet h₄.1)
    · rw [if_neg hf]
      exact Action.always_throw (hattempt hnet onlyReads_nil)
  · have hnet : InTurn [⟨.network, .global, Link.name link⟩] true es₃ := .next hdel (hiff.2 rfl) .nil
    exact Action.always_pure (hattempt hnet onlyReads_nil)

private theorem always_reclaimRecorded_orderly (c : Client) (link : String) (excluding : List String) :
    (c.reclaimRecorded link excluding).run.Always fun _ es => Reclamation link excluding es := by
  refine Action.always_bind (Action.always_outcome
    ((c.always_reclaimShared_orderly link excluding).mono fun r es hr => ?_))
  cases r with
  | error f => exact Action.always_pure hr
  | ok o => exact Action.always_pure hr

private theorem always_reclaimNetwork_orderly (c : Client) (name : String) :
    (c.reclaimNetwork name).run.Always fun _ es => Orderly es := by
  refine Action.always_bind ((c.always_fetch?_read .network .global name).mono fun r es hr => ?_)
  have hreads : OnlyReads es := onlyReads_of_query_eq rfl hr.1
  rcases r with f | _ | n
  · exact .of_nobody hreads .nil
  · exact Action.always_pure (.of_nobody hreads .nil)
  · exact (c.always_reclaimShared_orderly n.selfLink []).mono fun r es' h => .of_nobody hreads (.cons h .nil)

end Client

namespace Manager

private theorem always_reclaimAll_orderly (mgr : Manager) (excluding links : List String) :
    (mgr.reclaimAll excluding links).run.Always fun _ es => Reclamations excluding es := by
  induction links with
  | nil => exact Action.always_pure .nil
  | cons link links ih =>
    refine Action.always_bind ((mgr.client.always_reclaimRecorded_orderly link excluding).mono fun r es h => ?_)
    have hone : Reclamations excluding ([] ++ es) := .cons h .nil
    cases r with
    | error f => exact hone
    | ok o =>
      refine Action.always_bind (ih.mono fun r es' h' => ?_)
      cases r with
      | error f => exact .cons h h'
      | ok os => exact Action.always_pure (.cons h h')

/-! ### One node -/

private theorem always_destroyNode_orderly (mgr : Manager) (id : NodeId) :
    (mgr.destroyNode id).run.Always fun _ es => Orderly es := by
  unfold destroyNode
  refine Action.always_bind ((mgr.client.always_fetch?_read .instance (.zone id.zone) id.name).mono fun r es hr => ?_)
  obtain ⟨hquery, hread⟩ := hr
  have hreads : OnlyReads es := onlyReads_of_query_eq rfl hquery
  rcases r with f | _ | i
  · exact .of_nobody hreads .nil
  · exact Action.always_pure (.of_nobody hreads .nil)
  obtain ⟨t, es', rfl⟩ := hread i rfl
  have hshown : Shows i (⟨t, .get .instance (.zone id.zone) id.name, .ok (some (.instance i))⟩ :: es') :=
    .inl ⟨t, _, _, List.mem_cons_self⟩
  refine Action.always_bind (Action.always_outcome ((mgr.client.always_destroy i).mono fun r es₁ hturn => ?_))
  -- Only when the node is gone, it does not count on its networks.
  have hafter {after : List (Exchange Cloud)} {excluded : List String}
      (hexcluded : ∀ link ∈ excluded, i.selfLink = link ∧ r.isOk = true) (h : Reclamations excluded after) :=
    Orderly.of_one hreads hshown hturn hexcluded h
  cases r with
  | error f =>
    refine Action.always_bind ((mgr.always_reclaimAll_orderly [] _).mono fun r es₂ h => ?_)
    cases r with
    | error g => exact hafter (by simp) h
    | ok os => exact Action.always_throw (hafter (by simp) h)
  | ok u =>
    refine Action.always_bind ((mgr.always_reclaimAll_orderly [i.selfLink] _).mono fun r es₂ h => ?_)
    cases r with
    | error g => exact hafter (by simp [Except.isOk, Except.toBool]) h
    | ok os => exact Action.always_pure (hafter (by simp [Except.isOk, Except.toBool]) h)

/-! ### The nodes of a group -/

private theorem always_destroyMember_inTurn (mgr : Manager) (i : Instance) :
    (mgr.destroyMember i).Always fun a es => a.1 = i ∧ InTurn i.targets a.2.isOk es :=
  Program.always_bind.2 ((mgr.client.always_destroy i).mono fun _ _ h => Program.always_done.2 ⟨rfl, h⟩)

private theorem mem_destroyedLinks {rs : List (Instance × Except Failure Unit)} {link : String}
    (h : link ∈ destroyedLinks rs) : ∃ r ∈ rs, r.2.isOk = true ∧ r.1.selfLink = link := by
  obtain ⟨⟨i, f | u⟩, hr, hlink⟩ := List.mem_filterMap.1 h
  · cases hlink
  · exact ⟨(i, .ok u), hr, rfl, Option.some.inj hlink⟩

private theorem always_reclaimGroup_orderly (mgr : Manager) (group : String) (members : List Instance)
    (rs : List (Instance × Except Failure Unit)) :
    (mgr.reclaimGroup group members rs).run.Always fun _ es =>
      ∃ between after, es = after ++ between ∧ OnlyReads between ∧ Reclamations (destroyedLinks rs) after := by
  unfold reclaimGroup groupNetworks
  refine Action.always_bind (Action.always_bind
    ((mgr.client.always_fetch?_read .network .global _).mono fun r es hr => ?_))
  have hreads : OnlyReads es := onlyReads_of_query_eq rfl hr.1
  have hthen (networks : List String) :
      (do
        let shared ← mgr.reclaimAll (destroyedLinks rs) networks
        return { teardownReport rs with shared := shared } : Action TeardownReport).run.Always fun _ es' =>
      ∃ between after, es' ++ es = after ++ between ∧ OnlyReads between ∧ Reclamations (destroyedLinks rs) after := by
    refine Action.always_bind ((mgr.always_reclaimAll_orderly _ networks).mono fun r es' h => ?_)
    cases r with
    | error f => exact ⟨es, es', rfl, hreads, h⟩
    | ok os => exact Action.always_pure ⟨es, es', rfl, hreads, h⟩
  rcases r with f | _ | n
  · exact ⟨es, [], rfl, hreads, .nil⟩
  · exact Action.always_pure (hthen _)
  · dsimp only
    split <;> exact Action.always_pure (hthen _)

/-- Every member has its turn, and a member is left out of the count only after all its deletions have ended well. -/
private theorem runPool_inTurn [Service Cloud σ] (mgr : Manager) {members : List Instance}
    {rs : List (Instance × Except Failure Unit)} {w w' : World Cloud σ}
    (hpool : runPool mgr.concurrency (members.map mgr.destroyMember) w = (rs, w')) :
    ∃ calls : List ((Instance × Nat) × Exchange Cloud), w'.record = calls.map (·.2) ++ w.record ∧
      (∀ c ∈ calls, c.1 ∈ members.zipIdx) ∧
      (∀ p ∈ members.zipIdx, ∃ all, InTurn p.1.targets all (callsOf p calls)) ∧
      ∀ link ∈ destroyedLinks rs, ∃ p ∈ members.zipIdx, p.1.selfLink = link ∧
        InTurn p.1.targets true (callsOf p calls) := by
  obtain ⟨rs', calls, hrs, hperm, hcalls, hlabels, htraces⟩ := runPool_traces mgr.concurrency (nodup_zipIdx members)
    (fun p => mgr.destroyMember p.1) w
  rw [← map_eq_map_zipIdx members, hpool] at hrs hcalls
  obtain rfl : rs = rs'.map (·.2) := hrs
  have hturns : ∀ e ∈ rs', e.2.1 = e.1.1 ∧ InTurn e.1.1.targets e.2.2.isOk (callsOf e.1 calls) := by
    intro e he
    obtain ⟨t, t', _, _, -, -, -, htrace⟩ := htraces e he
    exact (mgr.always_destroyMember_inTurn e.1.1).trace htrace.of_told
  refine ⟨calls, hcalls, hlabels, fun p hp => ?_, fun link hlink => ?_⟩
  · obtain ⟨e, he, rfl⟩ := List.mem_map.1 (hperm.mem_iff.2 hp)
    exact ⟨_, (hturns e he).2⟩
  · obtain ⟨r, hr, hok, rfl⟩ := mem_destroyedLinks hlink
    obtain ⟨e, he, rfl⟩ := List.mem_map.1 hr
    obtain ⟨hsame, hturn⟩ := hturns e he
    rw [hok] at hturn
    exact ⟨e.1, hperm.mem_iff.1 (List.mem_map_of_mem he), by rw [hsame], hturn⟩

private theorem destroyGroup_orderly [Service Cloud σ] (mgr : Manager) (group : String) (w : World Cloud σ) :
    ∃ es, (mgr.destroyGroup group w).2.record = es ++ w.record ∧ Orderly es := by
  obtain ⟨before, hbefore, hquery, hread⟩ :=
    (mgr.client.always_list_read .instance (.withLabel Naming.groupKey group)).run w
  have hreads : OnlyReads before := onlyReads_of_query_eq rfl hquery
  refine after_destroyGroup (P := fun w' => ∃ es, w'.record = es ++ w.record ∧ Orderly es)
    (fun f w₁ hfailed => ?_) fun members w₁ rs w₂ hlisted hpool => ?_
  · rw [hfailed] at hbefore
    have hnobody : Orderly ([] ++ before) := .of_nobody hreads .nil
    exact ⟨before, hbefore, hnobody⟩
  · rw [hlisted] at hbefore hread
    obtain ⟨t, listed, rfl⟩ := hread members rfl
    have hshown : ∀ p ∈ members.zipIdx, Shows p.1 (⟨t, .list .instance (.withLabel Naming.groupKey group),
        .ok (members.map (.ofRecord .instance))⟩ :: listed) := fun p hp =>
      .inr ⟨t, _, _, List.mem_cons_self, List.mem_map_of_mem (List.fst_mem_of_mem_zipIdx hp)⟩
    obtain ⟨calls, hcalls, hlabels, hall, hexcluded⟩ := mgr.runPool_inTurn hpool
    obtain ⟨last, hlast, between, after, rfl, hbetween, hafter⟩ :=
      (mgr.always_reclaimGroup_orderly group members rs).run w₂
    rw [hcalls, hbefore, ← List.append_assoc, ← List.append_assoc] at hlast
    exact ⟨_, hlast, .mk hreads hshown hlabels hall hbetween hexcluded hafter⟩

end Manager

/-- Every teardown is orderly, be it of a node, of a group or of a network. -/
theorem teardown_orderly [Service Cloud σ] (mgr : Manager) (w : World Cloud σ) :
    (∀ id, ∃ es, ((mgr.destroyNode id).run.run w).2.record = es ++ w.record ∧ Orderly es) ∧
    (∀ group, ∃ es, (mgr.destroyGroup group w).2.record = es ++ w.record ∧ Orderly es) ∧
    ∀ name, ∃ es, ((mgr.client.reclaimNetwork name).run.run w).2.record = es ++ w.record ∧ Orderly es :=
  ⟨fun id => (mgr.always_destroyNode_orderly id).run w, fun group => mgr.destroyGroup_orderly group w,
    fun name => (mgr.client.always_reclaimNetwork_orderly name).run w⟩

end Fleet
