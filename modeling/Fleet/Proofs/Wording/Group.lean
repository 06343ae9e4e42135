import Fleet.Platform.Script
import Fleet.Proofs.Record.Reclaim
import Fleet.Proofs.Record.Undertaking
import Fleet.Proofs.Wording.Node

/-!
# Decisions do not depend on the wording

Whatever two platforms answer, as long as they answer alike but for the messages of failures and of operations, every
operation of a client and of a manager makes the same calls with the same arguments at the same times on both of them,
and its results are the same but for messages (`undertake_alike`). Scripts that differ in messages only answer alike
(`Script.answerAlike`).
-/

namespace Fleet

open Action

variable {σ τ : Type}

/-- What an operation returns, without messages. -/
def Undertaking.silent : (u : Undertaking) → u.Value → u.Value
  | .reclaimShared _ _, o => NetworkOutcome.silent o
  | .reclaimNetwork _, o => NetworkOutcome.silent o
  | .destroyNode _, os => os.map NetworkOutcome.silent
  | .launch _ _ _, report => LaunchReport.silent report
  | .destroyGroup _, report => TeardownReport.silent report
  | .fetch? _ _ _, a => a
  | .fetch _ _ _, a => a
  | .list _ _, as => as
  | .submitInsert _ _, h => h
  | .awaitDone _, s => s
  | .awaitDoneWithin _ _, s => s
  | .create _ _ _, a => a
  | .delete _ _ _, u => u
  | .deleteIfExists _ _ _, b => b
  | .update _ _ _ _, s => s
  | .ensure _ _ _ _, a => a
  | .setTags _ _ _, i => i
  | .createNode _, i => i
  | .destroy _, u => u
  | .nodes _, ns => ns
  | .node? _, n => n

namespace Manager

variable (mgr : Manager)

/-! ### Launching -/

/-- What came of a node, without messages. -/
private def silentEntry (a : String × Except Failure Instance) : String × Except Failure Instance :=
  (a.1, silenced id a.2)

private theorem alike_discardPartial (s : NodeSpec) : Alike id (mgr.discardPartial s) (mgr.discardPartial s) := by
  unfold discardPartial
  refine (mgr.client.alike_deleteIfExists .instance (.zone s.zone) s.name).outcome.bind fun _ _ _ => ?_
  exact (mgr.client.alike_deleteIfExists .disk (.zone s.zone) s.bootDiskName).outcome.bind fun _ _ _ => alike_pure rfl

private theorem alike_launchNode (s : NodeSpec) :
    Program.Alike (S := Cloud) AlikeAnswers (fun a b => silentEntry a = silentEntry b) (mgr.launchNode s)
      (mgr.launchNode s) := by
  refine .cancelled fun stop => ?_
  cases stop with
  | true => exact .done rfl
  | false =>
    refine Program.Alike.bind (mgr.client.alike_createNode s) fun r r' hr => ?_
    rcases silenced_eq_cases hr with ⟨i, j, rfl, rfl, hij⟩ | ⟨f, g, rfl, rfl, hfg⟩
    · obtain rfl : i = j := hij
      exact .done rfl
    · refine Program.Alike.bind (mgr.alike_discardPartial s) fun _ _ _ => .done ?_
      rw [silentEntry, silentEntry, silenced, silenced, hfg]

private theorem silent_launchReport (rs : List (String × Except Failure Instance)) :
    (launchReport rs).silent = launchReport (rs.map silentEntry) := by
  unfold launchReport
  rw [List.foldl_map]
  refine (List.foldl_hom LaunchReport.silent fun report a => ?_).symm
  obtain ⟨n, f | i⟩ := a
  · simp [silentEntry, silenced, LaunchReport.silent, LaunchReport.addFailure, FailedNode.silent]
  · rfl

private theorem wasStarted_silent (f : Failure) : wasStarted f.silent = wasStarted f := by
  cases f <;> rfl

private theorem alike_reclaimAfterLaunch (network : String) {report report' : LaunchReport}
    (h : report.silent = report'.silent) :
    Program.Alike (S := Cloud) AlikeAnswers (fun a b : LaunchReport => a.silent = b.silent)
      (mgr.reclaimAfterLaunch network report) (mgr.reclaimAfterLaunch network report') := by
  have hcreated : report.silent.created = report'.silent.created := congrArg LaunchReport.created h
  have hcreated : report.created = report'.created := hcreated
  have hany (r : LaunchReport) : (r.failed.map FailedNode.silent).any (fun x => wasStarted x.failure) =
      r.failed.any fun x => wasStarted x.failure := by
    simp [List.any_map, Function.comp_def, FailedNode.silent, wasStarted_silent]
  have hfailed : report.failed.map FailedNode.silent = report'.failed.map FailedNode.silent :=
    congrArg LaunchReport.failed h
  have hdecision : (report.created.isEmpty && report.failed.any fun x => wasStarted x.failure) =
      (report'.created.isEmpty && report'.failed.any fun x => wasStarted x.failure) := by
    rw [← hany report, ← hany report', hcreated, hfailed]
  have hshared {o o' : NetworkOutcome} (ho : o.silent = o'.silent) :
      (report.addShared o).silent = (report'.addShared o').silent := by
    simp only [LaunchReport.silent, LaunchReport.mk.injEq] at h
    simp [LaunchReport.silent, LaunchReport.addShared, h, ho]
  unfold reclaimAfterLaunch
  rw [hdecision]
  split
  · refine Program.Alike.bind (mgr.client.alike_reclaimNetwork network) fun r s hrs => ?_
    rcases silenced_eq_cases hrs with ⟨o, o', rfl, rfl, ho⟩ | ⟨f, g, rfl, rfl, -⟩
    · exact .done (hshared ho)
    · exact .done (hshared rfl)
  · exact .done h

private theorem silent_lasting {report report' : LaunchReport} (h : report.silent = report'.silent) {m n : Nat}
    (hmn : m = n) : LaunchReport.silent { report with durationMs := m } =
      LaunchReport.silent { report' with durationMs := n } := by
  subst hmn
  exact congrArg (fun r : LaunchReport => { r with durationMs := m }) h

private theorem alike_chooseNames (group : String) (count : Nat) :
    Alike id (mgr.chooseNames group count) (mgr.chooseNames group count) :=
  (mgr.client.alike_list .instance _).bind_id fun _ => alike_pure rfl

private theorem map_eq_map_of_forall₂ {α β : Type} {f : α → β} {as bs : List α}
    (h : List.Forall₂ (fun a b => f a = f b) as bs) : as.map f = bs.map f := by
  induction h with
  | nil => rfl
  | cons hab _ ih => rw [List.map_cons, List.map_cons, hab, ih]

/-! ### Destroying -/

private theorem alike_reclaimAll (excluding links : List String) :
    Alike (List.map NetworkOutcome.silent) (mgr.reclaimAll excluding links) (mgr.reclaimAll excluding links) := by
  induction links with
  | nil => exact alike_pure rfl
  | cons link links ih =>
    refine (mgr.client.alike_reclaimRecorded link excluding).bind fun o o' ho => ih.bind fun os os' hos => ?_
    exact alike_pure (by rw [List.map_cons, List.map_cons, ho, hos])

private theorem alike_destroyNode (id : NodeId) :
    Alike (List.map NetworkOutcome.silent) (mgr.destroyNode id) (mgr.destroyNode id) := by
  unfold destroyNode
  refine (mgr.client.alike_fetch? .instance (.zone id.zone) id.name).bind_id fun i => ?_
  cases i with
  | none => exact alike_pure rfl
  | some i =>
    refine (mgr.client.alike_destroy i).outcome.bind fun r s hrs => ?_
    rcases silenced_eq_cases hrs with ⟨x, y, rfl, rfl, -⟩ | ⟨f, g, rfl, rfl, hfg⟩
    · exact (mgr.alike_reclaimAll _ _).bind fun _ _ hos => alike_pure hos
    · exact (mgr.alike_reclaimAll _ _).bind fun _ _ _ => alike_throw hfg

/-- What came of a member, without messages. -/
private def silentMember (a : Instance × Except Failure Unit) : Instance × Except Failure Unit := (a.1, silenced id a.2)

private theorem alike_destroyMember (i : Instance) :
    Program.Alike (S := Cloud) AlikeAnswers (fun a b => silentMember a = silentMember b) (mgr.destroyMember i)
      (mgr.destroyMember i) :=
  Program.Alike.bind (mgr.client.alike_destroy i) fun _ _ hrs => .done (congrArg (Prod.mk i) hrs)

private theorem silent_teardownReport (rs : List (Instance × Except Failure Unit)) :
    (teardownReport rs).silent = teardownReport (rs.map silentMember) := by
  unfold teardownReport
  rw [List.foldl_map]
  refine (List.foldl_hom TeardownReport.silent fun report a => ?_).symm
  obtain ⟨i, f | u⟩ := a
  · simp [silentMember, silenced, TeardownReport.silent, TeardownReport.addFailure, FailedNode.silent]
  · rfl

private theorem destroyedLinks_map_silentMember (rs : List (Instance × Except Failure Unit)) :
    destroyedLinks (rs.map silentMember) = destroyedLinks rs := by
  unfold destroyedLinks
  rw [List.filterMap_map]
  refine List.filterMap_congr fun a _ => ?_
  obtain ⟨i, f | u⟩ := a <;> rfl

private theorem alike_groupNetworks (group : String) (members : List Instance) :
    Alike id (mgr.groupNetworks group members) (mgr.groupNetworks group members) := by
  unfold groupNetworks
  refine (mgr.client.alike_fetch? .network .global _).bind_id fun n => ?_
  cases n with
  | none => exact alike_pure rfl
  | some n => exact alike_ite Iff.rfl (alike_pure rfl) (alike_pure rfl)

private theorem alike_reclaimGroup (group : String) (members : List Instance)
    {rs rs' : List (Instance × Except Failure Unit)} (h : rs.map silentMember = rs'.map silentMember) :
    Alike TeardownReport.silent (mgr.reclaimGroup group members rs) (mgr.reclaimGroup group members rs') := by
  have hlinks : destroyedLinks rs = destroyedLinks rs' := by
    rw [← destroyedLinks_map_silentMember rs, h, destroyedLinks_map_silentMember]
  have hreport : (teardownReport rs).silent = (teardownReport rs').silent := by
    rw [silent_teardownReport, h, silent_teardownReport]
  unfold reclaimGroup
  rw [hlinks]
  refine (mgr.alike_groupNetworks group members).bind_id fun networks => ?_
  refine (mgr.alike_reclaimAll _ networks).bind fun os os' hos => alike_pure ?_
  simp only [TeardownReport.silent, TeardownReport.mk.injEq] at hreport ⊢
  exact ⟨hreport.1, hreport.2.1, hos, hreport.2.2.2⟩

/-! ### Looking -/

private theorem alike_nodes (group : Option String) : Alike id (mgr.nodes group) (mgr.nodes group) :=
  (mgr.client.alike_list .instance _).bind_id fun _ => alike_pure rfl

private theorem alike_node? (i : NodeId) : Alike id (mgr.node? i) (mgr.node? i) :=
  (mgr.client.alike_fetch? .instance (.zone i.zone) i.name).bind_id fun _ => alike_pure rfl

/-! ### Runs -/

section Runs

variable [Service Cloud σ] [Service Cloud τ] {R : σ → τ → Prop} {w : World Cloud σ} {v : World Cloud τ}

private theorem launch_alike (hR : AnswerAlike AlikeAnswers R) (group : String) (count : Nat) (t : NodeTemplate)
    (hw : w.Alike AlikeAnswers R v) :
    silenced LaunchReport.silent (mgr.launch group count t w).1 =
        silenced LaunchReport.silent (mgr.launch group count t v).1 ∧
      (mgr.launch group count t w).2.Alike AlikeAnswers R (mgr.launch group count t v).2 := by
  unfold launch
  cases Naming.validateGroup group with
  | error f => exact ⟨rfl, hw⟩
  | ok _ =>
    by_cases hcount : count = 0
    · simp only [if_pos hcount]
      exact ⟨trivial, hw⟩
    simp only [if_neg hcount]
    obtain ⟨hchosen, hw₁⟩ := Program.Alike.run hR (mgr.alike_chooseNames group count) hw
    rcases hrun : (mgr.chooseNames group count).run.run w with ⟨r, w₁⟩
    rcases hrun' : (mgr.chooseNames group count).run.run v with ⟨s, v₁⟩
    rw [hrun, hrun'] at hchosen hw₁
    rcases silenced_eq_cases hchosen with ⟨names, names', rfl, rfl, hnames⟩ | ⟨f, g, rfl, rfl, hfg⟩
    · obtain rfl : names = names' := hnames
      -- The nodes end in the same order, each of them alike.
      let spec : String → NodeSpec := fun n => .ofTemplate n group (mgr.networkFor group t) t
      have hprograms : List.Forall₂ (Program.Alike (S := Cloud) AlikeAnswers fun a b => silentEntry a = silentEntry b)
          (names.map fun n => mgr.launchNode (spec n)) (names.map fun n => mgr.launchNode (spec n)) := by
        refine List.forall₂_same.2 fun p hp => ?_
        obtain ⟨n, -, rfl⟩ := List.mem_map.1 hp
        exact mgr.alike_launchNode (spec n)
      obtain ⟨hentries, hw₂⟩ := runPool_alike hR mgr.concurrency hprograms hw₁
      have hreport := congrArg launchReport (map_eq_map_of_forall₂ hentries)
      rw [← silent_launchReport, ← silent_launchReport] at hreport
      obtain ⟨hlast, hw₃⟩ := Program.Alike.run hR (mgr.alike_reclaimAfterLaunch (mgr.networkFor group t) hreport) hw₂
      exact ⟨congrArg Except.ok (silent_lasting hlast (by rw [hw₃.now, hw.now])), hw₃⟩
    · exact ⟨congrArg Except.error hfg, hw₁⟩

private theorem destroyGroup_alike (hR : AnswerAlike AlikeAnswers R) (group : String) (hw : w.Alike AlikeAnswers R v) :
    silenced TeardownReport.silent (mgr.destroyGroup group w).1 =
        silenced TeardownReport.silent (mgr.destroyGroup group v).1 ∧
      (mgr.destroyGroup group w).2.Alike AlikeAnswers R (mgr.destroyGroup group v).2 := by
  unfold destroyGroup
  obtain ⟨hlisted, hw₁⟩ :=
    Program.Alike.run hR (mgr.client.alike_list .instance (.withLabel Naming.groupKey group)) hw
  rcases hrun : (mgr.client.list .instance (.withLabel Naming.groupKey group)).run.run w with ⟨r, w₁⟩
  rcases hrun' : (mgr.client.list .instance (.withLabel Naming.groupKey group)).run.run v with ⟨s, v₁⟩
  rw [hrun, hrun'] at hlisted hw₁
  rcases silenced_eq_cases hlisted with ⟨members, members', rfl, rfl, hmembers⟩ | ⟨f, g, rfl, rfl, hfg⟩
  · obtain rfl : members = members' := hmembers
    have hprograms : List.Forall₂ (Program.Alike (S := Cloud) AlikeAnswers fun a b => silentMember a = silentMember b)
        (members.map mgr.destroyMember) (members.map mgr.destroyMember) := by
      refine List.forall₂_same.2 fun p hp => ?_
      obtain ⟨i, -, rfl⟩ := List.mem_map.1 hp
      exact mgr.alike_destroyMember i
    obtain ⟨hentries, hw₂⟩ := runPool_alike hR mgr.concurrency hprograms hw₁
    obtain ⟨hlast, hw₃⟩ := Program.Alike.run hR
      (mgr.alike_reclaimGroup group members (map_eq_map_of_forall₂ hentries)) hw₂
    simp only
    rcases hend : (mgr.reclaimGroup group members _).run.run
      (runPool mgr.concurrency (members.map mgr.destroyMember) w₁).2 with ⟨r, w₃⟩
    rcases hend' : (mgr.reclaimGroup group members _).run.run
      (runPool mgr.concurrency (members.map mgr.destroyMember) v₁).2 with ⟨s, v₃⟩
    rw [hend, hend'] at hlast hw₃
    rcases silenced_eq_cases hlast with ⟨report, report', rfl, rfl, hreport⟩ | ⟨f, g, rfl, rfl, hfg⟩
    · refine ⟨congrArg Except.ok ?_, hw₃⟩
      have hlasting : w₃.now - w.now = v₃.now - v.now := by rw [hw₃.now, hw.now]
      rw [hlasting]
      exact congrArg (fun r : TeardownReport => { r with durationMs := v₃.now - v.now }) hreport
    · exact ⟨congrArg Except.error hfg, hw₃⟩
  · exact ⟨congrArg Except.error hfg, hw₁⟩

end Runs

end Manager

/-! ### Scripts -/

/-- The reply without messages. -/
def ScriptReply.silent : ScriptReply → ScriptReply
  | failure f => failure f.silent
  | resource r => resource r
  | resources rs => resources rs
  | accept => accept
  | progress status errors => progress status (errors.map OperationError.silent)

namespace Script

/-- Two scripts whose replies are the same but for messages. -/
def Alike (s t : Script) : Prop :=
  s.replies.map ScriptReply.silent = t.replies.map ScriptReply.silent ∧ s.accepted = t.accepted

private theorem silent_silent (f : Failure) : f.silent.silent = f.silent := by
  cases f <;> rfl

private theorem silenced_read (n : Nat) (c : Call) (r : ScriptReply) :
    silenced c.silent ((read n c r.silent).getD (.error (refusal "SCRIPT_BAD"))) =
      silenced c.silent ((read n c r).getD (.error (refusal "SCRIPT_BAD"))) := by
  have herrors (errors : List OperationError) :
      (errors.map OperationError.silent).map OperationError.silent = errors.map OperationError.silent := by
    rw [List.map_map]
    rfl
  cases c <;> cases r <;>
    simp [ScriptReply.silent, read, silenced, silent_silent, Call.silent, Operation.silent, herrors]

private theorem next_alike {s t : Script} (h : s.Alike t) (c : Call) {r r' : ScriptReply}
    (hr : r.silent = r'.silent) : (s.next c r).Alike (t.next c r') := by
  refine ⟨?_, ?_⟩
  · show s.replies.tail.map ScriptReply.silent = t.replies.tail.map ScriptReply.silent
    rw [List.map_tail, List.map_tail, h.1]
  · unfold next
    cases r <;> cases r' <;> simp_all [ScriptReply.silent, Alike]

/-- The calls of two scripts that are alike are answered alike. -/
theorem answerAlike : AnswerAlike AlikeAnswers Script.Alike := by
  intro c s t h
  show AlikeAnswers c (answer c s).1 (answer c t).1 ∧ (answer c s).2.Alike (answer c t).2
  obtain ⟨replies, accepted⟩ := s
  obtain ⟨replies', accepted'⟩ := t
  have hreplies : replies.map ScriptReply.silent = replies'.map ScriptReply.silent := h.1
  obtain rfl : accepted = accepted' := h.2
  rcases replies with _ | ⟨r, rs⟩ <;> rcases replies' with _ | ⟨r', rs'⟩
  · exact ⟨rfl, h⟩
  · cases hreplies
  · cases hreplies
  · have hr : r.silent = r'.silent := (List.cons.inj hreplies).1
    refine ⟨?_, next_alike h c hr⟩
    have hread := silenced_read (accepted + 1) c r
    rw [hr, silenced_read (accepted + 1) c r'] at hread
    exact hread.symm

end Script

/-- An operation on two platforms that answer alike but for messages: its results are the same but for messages, and so
are the worlds, with the same calls at the same times. -/
theorem undertake_alike [Service Cloud σ] [Service Cloud τ] {R : σ → τ → Prop} (hR : AnswerAlike AlikeAnswers R)
    (mgr : Manager) (u : Undertaking) {w : World Cloud σ} {v : World Cloud τ} (hw : w.Alike AlikeAnswers R v) :
    silenced u.silent (mgr.undertake u w).1 = silenced u.silent (mgr.undertake u v).1 ∧
      (mgr.undertake u w).2.Alike AlikeAnswers R (mgr.undertake u v).2 := by
  have run {α : Type} {e : α → α} {a : Action α} (h : Alike e a a) :
      silenced e (a.run.run w).1 = silenced e (a.run.run v).1 ∧
        (a.run.run w).2.Alike AlikeAnswers R (a.run.run v).2 := Program.Alike.run hR h hw
  let c := mgr.client
  cases u with
  | fetch? kind scope name => exact run (c.alike_fetch? kind scope name)
  | fetch kind scope name => exact run (c.alike_fetch kind scope name)
  | list kind filter => exact run (c.alike_list kind filter)
  | submitInsert scope spec => exact run (c.alike_submitInsert scope spec)
  | awaitDone h => exact run (c.alike_awaitDone h)
  | awaitDoneWithin h timeoutMs => exact run (c.alike_awaitDoneWithin h timeoutMs)
  | create kind scope spec => exact run (c.alike_create kind scope spec)
  | delete kind scope name => exact run (c.alike_delete kind scope name)
  | deleteIfExists kind scope name => exact run (c.alike_deleteIfExists kind scope name)
  | update kind scope name tags => exact run (c.alike_update kind scope name tags)
  | ensure kind scope name spec => exact run (c.alike_ensure kind scope name spec)
  | setTags zone name wanted => exact run (c.alike_setTags zone name wanted)
  | createNode s => exact run (c.alike_createNode s)
  | destroy i => exact run (c.alike_destroy i)
  | reclaimShared link excluding => exact run (c.alike_reclaimShared link excluding)
  | reclaimNetwork name => exact run (c.alike_reclaimNetwork name)
  | destroyNode i => exact run (mgr.alike_destroyNode i)
  | nodes group => exact run (mgr.alike_nodes group)
  | node? i => exact run (mgr.alike_node? i)
  | launch group count t => exact mgr.launch_alike hR group count t hw
  | destroyGroup group => exact mgr.destroyGroup_alike hR group hw

/-- A node is found, the request to delete it is lost on the way at first, and the operation fails. -/
def Script.refusing (lost failed : String) : Script := .ofReplies
  [.resource (some (.instance (Script.node "zone-a" "web-1" "default" "web-1-boot"))), .failure (.transport lost),
    .accept, .progress .done [⟨.quotaExceeded, failed, none⟩]]

/-- What comes of taking down that node. -/
def Script.refused (lost failed : String) : Except Failure (List NetworkOutcome) × World Cloud Script :=
  (Manager.ofClient .standard).undertake (.destroyNode ⟨"zone-a", "web-1"⟩) (World.start (.refusing lost failed) 0)

/-- Whatever the platform says in words, even that something was not found, the same four calls are made. -/
theorem undertake_alike_refusing :
    Script.Alike (.refusing "reset" "no quota") (.refusing "timed out" "NOT_FOUND") ∧
      (Script.refused "reset" "no quota").2.record.length = 4 ∧
      silenced (List.map NetworkOutcome.silent) (Script.refused "reset" "no quota").1 =
        silenced (List.map NetworkOutcome.silent) (Script.refused "timed out" "NOT_FOUND").1 ∧
      (Script.refused "reset" "no quota").2.Alike AlikeAnswers Script.Alike (Script.refused "timed out" "NOT_FOUND").2 := by
  have h : Script.Alike (.refusing "reset" "no quota") (.refusing "timed out" "NOT_FOUND") := ⟨rfl, rfl⟩
  have hstart : (World.start (.refusing "reset" "no quota") 0 : World Cloud Script).Alike AlikeAnswers Script.Alike
      (World.start (.refusing "timed out" "NOT_FOUND") 0) := ⟨h, rfl, .nil, .nil, rfl, rfl⟩
  exact ⟨h, by decide +kernel,
    undertake_alike Script.answerAlike (.ofClient .standard) (.destroyNode ⟨"zone-a", "web-1"⟩) hstart⟩

end Fleet
