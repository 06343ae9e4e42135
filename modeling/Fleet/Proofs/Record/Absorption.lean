import Fleet.Proofs.Launch.Report
import Fleet.Proofs.Record.Asked
import Fleet.Proofs.Record.Group
import Fleet.Proofs.Record.Persistence
import Fleet.Proofs.Record.Phases
import Fleet.Proofs.Record.Undertaking
import Mathlib.Data.List.FinRange

/-!
# Lost requests are sent again everywhere

Every call of a client and of a manager is made as a request that is sent again while the platform cannot be reached, a
limited number of times, and no outcome and no report tells of anything but the end of all attempts
(`undertake_persists`). What an operation returns or reports is tied to the courses of the actions that it is made of:
one course for most operations (`Manager.Sends`), several where failures are recorded instead of ending the operation,
and one for each node where nodes are worked on side by side.
-/

namespace Fleet

variable {σ α β ι : Type} {limit : Nat} {past es : List (Exchange Cloud)}

/-! ### What is returned and reported -/

/-- An outcome that is not the failure to reach the platform once. -/
def Absorbed (Q : α → Prop) : Except Failure α → Prop
  | .ok a => Q a
  | .error f => f.isTransient = false

/-- When an outcome tells of a failure, it is another one than that to reach the platform once. -/
def NetworkOutcome.Absorbed (o : NetworkOutcome) : Prop :=
  ∀ network text, o = .failed network text → ∃ f : Failure, f.isTransient = false ∧ text = f.message

/-- Nothing that a report tells of is the failure to reach the platform once. -/
structure LaunchReport.Absorbed (r : LaunchReport) : Prop where
  failed : ∀ x ∈ r.failed, x.failure.isTransient = false
  shared : ∀ o ∈ r.shared, o.Absorbed

/-- Nothing that a report tells of is the failure to reach the platform once. -/
structure TeardownReport.Absorbed (r : TeardownReport) : Prop where
  failed : ∀ x ∈ r.failed, x.failure.isTransient = false
  shared : ∀ o ∈ r.shared, o.Absorbed

/-- What an operation returns does not tell of the failure to reach the platform once. -/
def Undertaking.Absorbed : (u : Undertaking) → u.Value → Prop
  | .reclaimShared _ _, o => NetworkOutcome.Absorbed o
  | .reclaimNetwork _, o => NetworkOutcome.Absorbed o
  | .destroyNode _, os => ∀ o ∈ os, NetworkOutcome.Absorbed o
  | .launch _ _ _, report => LaunchReport.Absorbed report
  | .destroyGroup _, report => TeardownReport.Absorbed report
  | _, _ => True

theorem Course.absorbed {r : Except Failure α} {Q : α → Prop} (h : Course limit past r es) (hQ : ∀ v, r = .ok v → Q v) :
    Absorbed Q r := by
  cases r with
  | ok v => exact hQ v rfl
  | error f => exact h.isTransient_eq_false

theorem NetworkOutcome.absorbed_of_isFailed {o : NetworkOutcome} (h : o.isFailed = false) : o.Absorbed := by
  intro network text ho
  rw [ho] at h
  cases h

/-! ### What is sent -/

/-- An attempt to take away a network, of which `o` is recorded: what was found out, or the failure that ended it. -/
inductive Recorded (limit : Nat) (past : List (Exchange Cloud)) (network : String) :
    NetworkOutcome → List (Exchange Cloud) → Prop
  | found {o : NetworkOutcome} {es : List (Exchange Cloud)}
      (h : Course limit past (.ok o : Except Failure NetworkOutcome) es) (ho : o.isFailed = false) :
      Recorded limit past network o es
  | failed {f : Failure} {es : List (Exchange Cloud)}
      (h : Course limit past (.error f : Except Failure NetworkOutcome) es) :
      Recorded limit past network (.failed network f.message) es

/-- Attempts to take away networks, one after the other. -/
inductive RecordedAll (limit : Nat) :
    List (Exchange Cloud) → List String → List NetworkOutcome → List (Exchange Cloud) → Prop
  | nil {past : List (Exchange Cloud)} : RecordedAll limit past [] [] []
  | cons {past es es' : List (Exchange Cloud)} {link : String} {links : List String} {o : NetworkOutcome}
      {os : List NetworkOutcome} (h : Recorded limit past (Link.name link) o es)
      (hs : RecordedAll limit (es ++ past) links os es') : RecordedAll limit past (link :: links) (o :: os) (es' ++ es)

/-- The launch of one node: a failure is followed by the deletions of the instance and of the disk, whatever becomes of
them. -/
inductive NodeLaunched (limit : Nat) (name : String) : Except Failure Instance → List (Exchange Cloud) → Prop
  | withheld : NodeLaunched limit name (.error (.cancelled name)) []
  | up {i : Instance} {es : List (Exchange Cloud)} (h : Course limit [] (.ok i : Except Failure Instance) es) :
      NodeLaunched limit name (.ok i) es
  | failed {f : Failure} {r₁ r₂ : Except Failure Bool} {es es₁ es₂ : List (Exchange Cloud)}
      (h : Course limit [] (.error f : Except Failure Instance) es) (hinstance : Course limit es r₁ es₁)
      (hdisk : Course limit (es₁ ++ es) r₂ es₂) : NodeLaunched limit name (.error f) (es₂ ++ (es₁ ++ es))

/-- The teardown of one node: its networks are attended to whether it could be taken down or not. -/
inductive NodeDestroyed (limit : Nat) : Except Failure (List NetworkOutcome) → List (Exchange Cloud) → Prop
  | unread {f : Failure} {es : List (Exchange Cloud)}
      (h : Course limit [] (.error f : Except Failure (Option Instance)) es) : NodeDestroyed limit (.error f) es
  | absent {es : List (Exchange Cloud)} (h : Course limit [] (.ok none : Except Failure (Option Instance)) es) :
      NodeDestroyed limit (.ok []) es
  | destroyed {i : Instance} {os : List NetworkOutcome} {es es₁ es₂ : List (Exchange Cloud)}
      (h : Course limit [] (.ok (some i) : Except Failure (Option Instance)) es)
      (hdestroy : Course limit es (.ok () : Except Failure Unit) es₁)
      (hnetworks : RecordedAll limit (es₁ ++ es) (networksOf [i]).keys os es₂) :
      NodeDestroyed limit (.ok os) (es₂ ++ (es₁ ++ es))
  | failed {f : Failure} {i : Instance} {os : List NetworkOutcome} {es es₁ es₂ : List (Exchange Cloud)}
      (h : Course limit [] (.ok (some i) : Except Failure (Option Instance)) es)
      (hdestroy : Course limit es (.error f : Except Failure Unit) es₁)
      (hnetworks : RecordedAll limit (es₁ ++ es) (networksOf [i]).keys os es₂) :
      NodeDestroyed limit (.error f) (es₂ ++ (es₁ ++ es))

namespace Manager

/-- The program of a node of a launch. -/
abbrev nodeOf (mgr : Manager) (group : String) (t : NodeTemplate) (name : String) :
    Program Cloud (String × Except Failure Instance) :=
  mgr.launchNode (.ofTemplate name group (mgr.networkFor group t) t)

/-- The exchanges of a launch with the outcome `r`. The nodes are launched side by side, and the calls of each of them
are a trace of its program. -/
inductive LaunchSends (mgr : Manager) (group : String) (t : NodeTemplate) :
    Except Failure LaunchReport → List (Exchange Cloud) → Prop
  | ended {f : Failure} {es : List (Exchange Cloud)}
      (h : Course mgr.client.retry.limit [] (.error f : Except Failure (List String)) es) :
      LaunchSends mgr group t (.error f) es
  | nothing : LaunchSends mgr group t (.ok .empty) []
  | reported {names : List String} {report : LaunchReport} {before after : List (Exchange Cloud)}
      (results : Fin names.length → Except Failure Instance) {calls : List (Fin names.length × Exchange Cloud)}
      (hbefore : Course mgr.client.retry.limit [] (.ok names : Except Failure (List String)) before)
      (hnodes : ∀ i, NodeLaunched mgr.client.retry.limit (names.get i) (results i) (callsOf i calls) ∧
        ∃ s s', (mgr.nodeOf group t (names.get i)).Trace s (names.get i, results i) (callsOf i calls) s')
      (hcreated : ∀ a, a ∈ report.created ↔ ∃ i, results i = .ok a)
      (hfailed : ∀ x, x ∈ report.failed ↔ ∃ i, x.name = names.get i ∧ results i = .error x.failure)
      (hafter : report.shared = [] ∧ after = [] ∨
        ∃ o, report.shared = [o] ∧ Recorded mgr.client.retry.limit [] (mgr.networkFor group t) o after) :
      LaunchSends mgr group t (.ok report) (after ++ (calls.map (·.2) ++ before))

/-- The exchanges of the teardown of members, which are taken down side by side. -/
structure MembersSend (mgr : Manager) (members : List Instance) (results : Fin members.length → Except Failure Unit)
    (before : List (Exchange Cloud)) (calls : List (Fin members.length × Exchange Cloud)) : Prop where
  listed : Course mgr.client.retry.limit [] (.ok members : Except Failure (List Instance)) before
  courses : ∀ i, Course mgr.client.retry.limit [] (results i) (callsOf i calls)
  traces : ∀ i, ∃ t t', (mgr.destroyMember (members.get i)).Trace t (members.get i, results i)
    (callsOf i calls) t'

/-- The exchanges of the teardown of a group with the outcome `r`. -/
inductive TeardownSends (mgr : Manager) : Except Failure TeardownReport → List (Exchange Cloud) → Prop
  | unlisted {f : Failure} {es : List (Exchange Cloud)}
      (h : Course mgr.client.retry.limit [] (.error f : Except Failure (List Instance)) es) :
      TeardownSends mgr (.error f) es
  | unreported {members : List Instance} {f : Failure} {before after : List (Exchange Cloud)}
      {results : Fin members.length → Except Failure Unit} {calls : List (Fin members.length × Exchange Cloud)}
      (hmembers : mgr.MembersSend members results before calls)
      (hlookup : Course mgr.client.retry.limit [] (.error f : Except Failure (Option Network)) after) :
      TeardownSends mgr (.error f) (after ++ (calls.map (·.2) ++ before))
  | reported {members : List Instance} {own : Option Network} {links : List String} {report : TeardownReport}
      {before lookup after : List (Exchange Cloud)} {results : Fin members.length → Except Failure Unit}
      {calls : List (Fin members.length × Exchange Cloud)} (hmembers : mgr.MembersSend members results before calls)
      (hlookup : Course mgr.client.retry.limit [] (.ok own : Except Failure (Option Network)) lookup)
      (hnetworks : RecordedAll mgr.client.retry.limit lookup links report.shared after)
      (hdestroyed : ∀ n, n ∈ report.destroyed ↔ ∃ i, n = (members.get i).name ∧ results i = .ok ())
      (hfailed : ∀ x, x ∈ report.failed ↔ ∃ i, x.name = (members.get i).name ∧ results i = .error x.failure) :
      TeardownSends mgr (.ok report) (after ++ lookup ++ (calls.map (·.2) ++ before))

/-- The exchanges of an operation with the outcome `r`: most operations are one action. -/
def Sends (mgr : Manager) : (u : Undertaking) → Except Failure u.Value → List (Exchange Cloud) → Prop
  | .destroyNode _, r, es => NodeDestroyed mgr.client.retry.limit r es
  | .launch group _ t, r, es => mgr.LaunchSends group t r es
  | .destroyGroup _, r, es => mgr.TeardownSends r es
  | _, r, es => Course mgr.client.retry.limit [] r es

end Manager

/-! ### Reports tell of the ends of all attempts -/

theorem Recorded.absorbed {network : String} {o : NetworkOutcome} (h : Recorded limit past network o es) :
    o.Absorbed := by
  cases h with
  | found _ ho => exact NetworkOutcome.absorbed_of_isFailed ho
  | @failed f _ h =>
    intro n text ho
    cases ho
    exact ⟨f, h.isTransient_eq_false, rfl⟩

theorem RecordedAll.absorbed {links : List String} {os : List NetworkOutcome} (h : RecordedAll limit past links os es) :
    ∀ o ∈ os, o.Absorbed := by
  induction h with
  | nil => exact fun o ho => absurd ho List.not_mem_nil
  | cons h _ ih => exact List.forall_mem_cons.2 ⟨h.absorbed, ih⟩

theorem NodeDestroyed.absorbed {r : Except Failure (List NetworkOutcome)} (h : NodeDestroyed limit r es) :
    Absorbed (fun os => ∀ o ∈ os, o.Absorbed) r := by
  cases h with
  | unread h => exact h.isTransient_eq_false
  | absent _ => exact fun o ho => absurd ho List.not_mem_nil
  | destroyed _ _ hnetworks => exact hnetworks.absorbed
  | failed _ hdestroy _ => exact hdestroy.isTransient_eq_false

theorem NodeLaunched.isTransient_eq_false {name : String} {f : Failure}
    (h : NodeLaunched limit name (.error f) es) : f.isTransient = false := by
  cases h with
  | withheld => rfl
  | failed h _ _ => exact h.isTransient_eq_false

namespace Manager

variable {mgr : Manager}

theorem LaunchSends.absorbed {group : String} {t : NodeTemplate} {r : Except Failure LaunchReport}
    (h : mgr.LaunchSends group t r es) : Absorbed LaunchReport.Absorbed r := by
  cases h with
  | ended h => exact h.isTransient_eq_false
  | nothing => exact ⟨by simp [LaunchReport.empty], by simp [LaunchReport.empty]⟩
  | @reported names report _ _ results _ _ hnodes _ hfailed hafter =>
    refine ⟨fun x hx => ?_, fun o ho => ?_⟩
    · obtain ⟨i, -, hi⟩ := (hfailed x).1 hx
      have hnode := (hnodes i).1
      rw [hi] at hnode
      exact hnode.isTransient_eq_false
    · rcases hafter with ⟨hshared, -⟩ | ⟨o', hshared, hrecorded⟩
      · rw [hshared] at ho
        exact absurd ho List.not_mem_nil
      · rw [hshared] at ho
        exact List.mem_singleton.1 ho ▸ hrecorded.absorbed

theorem TeardownSends.absorbed {r : Except Failure TeardownReport} (h : mgr.TeardownSends r es) :
    Absorbed TeardownReport.Absorbed r := by
  cases h with
  | unlisted h => exact h.isTransient_eq_false
  | unreported _ hlookup => exact hlookup.isTransient_eq_false
  | reported hmembers _ hnetworks _ hfailed =>
    refine ⟨fun x hx => ?_, hnetworks.absorbed⟩
    obtain ⟨i, -, hi⟩ := (hfailed x).1 hx
    have hcourse := hmembers.courses i
    rw [hi] at hcourse
    exact hcourse.isTransient_eq_false

end Manager

/-! ### Nodes and networks -/

namespace Manager

open Action

variable (mgr : Manager)

/-- The remains of a node are deleted after anything but a deletion. -/
private theorem always_discardPartial (s : NodeSpec)
    (hpast : ∀ e ∈ past, ∀ kind scope name, e.query ≠ .delete kind scope name) :
    (mgr.discardPartial s).run.Always fun _ es => ∃ (r₁ r₂ : Except Failure Bool) (es₁ es₂ : List (Exchange Cloud)),
      es = es₂ ++ es₁ ∧ Course mgr.client.retry.limit past r₁ es₁ ∧
        Course mgr.client.retry.limit (es₁ ++ past) r₂ es₂ := by
  have hinstance : Warranted past (.delete .instance (.zone s.zone) s.name) :=
    warranted_of_unasked fun e he => hpast e he .instance (.zone s.zone) s.name
  have hother : (mgr.client.deleteIfExists .instance (.zone s.zone) s.name).run.Asks
      (· ≠ Call.delete .disk (.zone s.zone) s.bootDiskName) := mgr.client.asks_deleteIfExists (by simp) (by simp)
  unfold discardPartial
  refine always_bind (always_outcome (((mgr.client.persists_deleteIfExists hinstance).asked hother).always
    fun r₁ es₁ h₁ hnow => ?_))
  have hsince : AskedSince (· ≠ .delete .disk (.zone s.zone) s.bootDiskName) past (es₁ ++ past) := by
    cases r₁ <;> exact hnow.2
  have hdisk : Warranted (es₁ ++ past) (.delete .disk (.zone s.zone) s.bootDiskName) :=
    warranted_of_unasked (hsince.forall fun e he => hpast e he .disk (.zone s.zone) s.bootDiskName)
  refine always_bind (always_outcome ((mgr.client.persists_deleteIfExists hdisk).always fun r₂ es₂ h₂ _ => ?_))
  exact always_pure ⟨r₁, r₂, es₁, es₂, by simp, h₁, h₂⟩

private theorem nodeLaunched_of_trace {s : NodeSpec} {t t' : Nat} {a : String × Except Failure Instance}
    (h : (mgr.launchNode s).Trace t a es t') :
    a.1 = s.name ∧ NodeLaunched mgr.client.retry.limit s.name a.2 es := by
  obtain ⟨withheld, h⟩ := Program.trace_cancelled.1 h
  cases withheld with
  | true =>
    obtain ⟨rfl, rfl, -⟩ := Program.trace_done.1 h
    exact ⟨rfl, .withheld⟩
  | false =>
    obtain ⟨r, es₁, t₁, es₂, rfl, hnode, h⟩ := Program.trace_bind.1 h
    have hcourse : Course mgr.client.retry.limit [] r es₁ := ((mgr.client.persists_createNode s).trace hnode).1
    cases r with
    | ok i =>
      obtain ⟨rfl, rfl, -⟩ := Program.trace_done.1 h
      exact ⟨rfl, .up hcourse⟩
    | error f =>
      obtain ⟨r, es₃, t₂, es₄, rfl, hdiscard, h⟩ := Program.trace_bind.1 h
      obtain ⟨rfl, rfl, -⟩ := Program.trace_done.1 h
      -- To bring up a node, nothing is deleted.
      have hasked : ∀ e ∈ es₁, ∀ kind scope name, e.query ≠ .delete kind scope name :=
        (mgr.client.asks_createNode (fun _ hq => hq) s).trace hnode
      obtain ⟨r₁, r₂, es₅, es₆, rfl, h₁, h₂⟩ := (mgr.always_discardPartial s hasked).trace hdiscard
      refine ⟨rfl, ?_⟩
      rw [List.nil_append, List.append_assoc]
      exact .failed hcourse h₁ h₂

private theorem always_reclaimAll_recorded (excluding : List String) {links : List String} (hnodup : links.Nodup)
    (hpast : ∀ l ∈ links, Warranted past (.list .instance (.onNetwork l))) :
    (mgr.reclaimAll excluding links).run.Always fun r es =>
      ∃ os, r = .ok os ∧ RecordedAll mgr.client.retry.limit past links os es := by
  induction links generalizing past with
  | nil => exact always_pure ⟨[], rfl, .nil⟩
  | cons link links ih =>
    obtain ⟨hlink, hnodup⟩ := List.nodup_cons.1 hnodup
    have hshared := mgr.client.persists_reclaimShared excluding (hpast link List.mem_cons_self)
    have hrest {now : List (Exchange Cloud)} (hnow : Elsewhere link past now) :
        ∀ l ∈ links, Warranted now (.list .instance (.onNetwork l)) := fun l hl =>
      hnow l (fun heq => hlink (heq ▸ hl)) (hpast l (List.mem_cons_of_mem _ hl))
    refine always_bind (always_bind (always_outcome (hshared.always fun r es hcourse hnow => ?_)))
    cases r with
    | ok o =>
      refine always_pure (always_bind ((ih hnodup (hrest hnow.2)).mono fun r es' hr => ?_))
      obtain ⟨os, rfl, hos⟩ := hr
      exact always_pure ⟨o :: os, rfl, .cons (.found hcourse hnow.1) hos⟩
    | error f =>
      refine always_pure (always_bind ((ih hnodup (hrest hnow)).mono fun r es' hr => ?_))
      obtain ⟨os, rfl, hos⟩ := hr
      exact always_pure ⟨.failed (Link.name link) f.message :: os, rfl, .cons (.failed hcourse) hos⟩

private theorem always_destroyNode (id : NodeId) :
    (mgr.destroyNode id).run.Always (NodeDestroyed mgr.client.retry.limit) := by
  unfold destroyNode
  have hcall : Warranted [] (.get .instance (.zone id.zone) id.name) := warranted_nil
  have hasks : (mgr.client.fetch? .instance (.zone id.zone) id.name).run.Asks fun q : Call => q.isMutation = false :=
    mgr.client.asks_fetch? rfl
  refine always_bind (((mgr.client.persists_fetch? hcall).asked hasks).always fun r es hread hsince => ?_)
  rw [List.append_nil] at hsince
  rcases r with f | _ | i
  · exact .unread hread
  · exact always_pure (.absent hread)
  have hreads : ∀ e ∈ es, e.query.isMutation = false := hsince.2.forall (List.forall_mem_nil _)
  refine always_bind (always_outcome ((mgr.client.persists_destroy hreads).always fun r es₁ hdestroy hlast => ?_))
  have hlists : ∀ l ∈ (networksOf [i]).keys, Warranted (es₁ ++ es) (.list .instance (.onNetwork l)) := by
    have hdown : LastTakingDown (es₁ ++ es) := by cases r <;> exact hlast
    exact fun l _ => hdown.warranted (by simp) rfl
  have hnetworks (excluding : List String) :=
    mgr.always_reclaimAll_recorded excluding (OrderedMap.nodup_keys (networksOf [i])) hlists
  cases r with
  | ok u =>
    refine always_bind ((hnetworks [i.selfLink]).mono fun r es₂ hr => ?_)
    obtain ⟨os, rfl, hos⟩ := hr
    exact always_pure (by simpa using NodeDestroyed.destroyed hread hdestroy hos)
  | error f =>
    refine always_bind ((hnetworks []).mono fun r es₂ hr => ?_)
    obtain ⟨os, rfl, hos⟩ := hr
    exact always_throw (by simpa using NodeDestroyed.failed hread hdestroy hos)

end Manager

/-! ### Programs side by side -/

/-- Programs that are run side by side, known by their places: the calls of each of them are a trace of it that ends
with its result. -/
private theorem runPool_results [Service Cloud σ] (width : Nat) (xs : List ι) (program : ι → Program Cloud α)
    (w : World Cloud σ) :
    ∃ (results : Fin xs.length → α) (calls : List (Fin xs.length × Exchange Cloud)),
      (∀ a, a ∈ (runPool width (xs.map program) w).1 ↔ ∃ i, results i = a) ∧
      (runPool width (xs.map program) w).2.record = calls.map (·.2) ++ w.record ∧
      ∀ i, ∃ t t', (program (xs.get i)).Trace t (results i) (callsOf i calls) t' := by
  obtain ⟨rs, calls, hrs, hperm, hcalls, -, htraces⟩ :=
    runPool_traces width (List.nodup_finRange xs.length) (fun i => program (xs.get i)) w
  have hprograms : (List.finRange xs.length).map (fun i => program (xs.get i)) = xs.map program := by
    have hplaces : xs.map program = ((List.finRange xs.length).map xs.get).map program := by rw [List.map_get_finRange]
    rw [hplaces, List.map_map]
    rfl
  rw [hprograms] at hrs hcalls
  have hsome (i : Fin xs.length) : ∃ a, (i, a) ∈ rs := by
    obtain ⟨r, hr, rfl⟩ := List.mem_map.1 (hperm.mem_iff.2 (List.mem_finRange i))
    exact ⟨r.2, hr⟩
  choose results hresults using hsome
  have hnodup : (rs.map (·.1)).Nodup := hperm.nodup_iff.2 (List.nodup_finRange xs.length)
  have hunique : ∀ r ∈ rs, r.2 = results r.1 := by
    intro r hr
    have hsame : r = (r.1, results r.1) := List.inj_on_of_nodup_map hnodup hr (hresults r.1) rfl
    exact congrArg Prod.snd hsame
  refine ⟨results, calls, fun a => ?_, hcalls, fun i => ?_⟩
  · rw [hrs, List.mem_map]
    constructor
    · rintro ⟨r, hr, rfl⟩
      exact ⟨r.1, (hunique r hr).symm⟩
    · rintro ⟨i, rfl⟩
      exact ⟨_, hresults i, rfl⟩
  · obtain ⟨t, t', _, _, -, -, -, htrace⟩ := htraces _ (hresults i)
    exact ⟨t, t', htrace.of_told⟩

namespace Manager

variable (mgr : Manager)

/-! ### Launches -/

private theorem persists_chooseNames (group : String) (count : Nat) :
    (mgr.chooseNames group count).Persists mgr.client.retry.limit [] (fun _ _ => True) fun _ _ => True := by
  refine ((mgr.client.persists_list warranted_nil).mono (fun _ _ h => h) fun _ _ _ => trivial).bind fun is now _ => ?_
  exact Action.persists_pure trivial

private theorem course_of_invalid {group : String} {f : Failure} (h : Naming.validateGroup group = .error f) :
    Course limit past (.error f : Except Failure α) [] := by
  refine .answered .nil fun g hg => ?_
  cases hg
  unfold Naming.validateGroup Naming.validateName at h
  split at h <;> split at h <;> cases h <;> trivial

private theorem always_reclaimAfterLaunch_recorded (network : String) {report : LaunchReport}
    (hshared : report.shared = []) :
    (mgr.reclaimAfterLaunch network report).Always fun r es =>
      (r.created = report.created ∧ r.failed = report.failed) ∧ (r.shared = [] ∧ es = [] ∨
        ∃ o, r.shared = [o] ∧ Recorded mgr.client.retry.limit [] network o es) := by
  have hone (o : NetworkOutcome) : (report.addShared o).shared = [o] := by
    rw [LaunchReport.addShared, hshared]
    rfl
  unfold reclaimAfterLaunch
  split
  · refine Program.always_bind.2 ((mgr.client.persists_reclaimNetwork network).always fun r es hcourse hr => ?_)
    cases r with
    | ok o => exact Program.always_done.2 ⟨⟨rfl, rfl⟩, .inr ⟨o, hone o, .found hcourse hr⟩⟩
    | error f => exact Program.always_done.2 ⟨⟨rfl, rfl⟩, .inr ⟨_, hone _, .failed hcourse⟩⟩
  · exact Program.always_done.2 ⟨⟨rfl, rfl⟩, .inl ⟨hshared, rfl⟩⟩

section Runs

variable [Service Cloud σ]

private theorem launch_sends (group : String) (count : Nat) (t : NodeTemplate) (w : World Cloud σ) :
    ∃ es, (mgr.launch group count t w).2.record = es ++ w.record ∧
      mgr.LaunchSends group t (mgr.launch group count t w).1 es := by
  obtain ⟨before, hbefore, hchosen, -⟩ := Program.Always.run (mgr.persists_chooseNames group count) w
  have hrun := mgr.launch_run group count t w
  generalize (mgr.launch group count t w).1 = r, (mgr.launch group count t w).2 = w' at hrun
  cases hrun with
  | invalid h => exact ⟨[], rfl, .ended (course_of_invalid h)⟩
  | nothing h => exact ⟨[], rfl, .nothing⟩
  | unnamed hchoose =>
    rw [hchoose] at hchosen hbefore
    exact ⟨before, hbefore, .ended hchosen⟩
  | @launched names rs report w₁ w₂ w₃ hchoose hpool hlast =>
    rw [hchoose] at hchosen hbefore
    obtain ⟨results, calls, hresults, hcalls, htraces⟩ := runPool_results mgr.concurrency names (mgr.nodeOf group t) w₁
    rw [hpool] at hresults hcalls
    obtain ⟨after, hafter, ⟨hcreated, hfailed⟩, hshared⟩ := Program.Always.run
      (mgr.always_reclaimAfterLaunch_recorded (mgr.networkFor group t) (shared_launchReport rs)) w₂
    rw [hlast] at hafter hcreated hfailed hshared
    -- Each node's result bears its name.
    have hnode (i : Fin names.length) : (results i).1 = names.get i ∧
        NodeLaunched mgr.client.retry.limit (names.get i) (results i).2 (callsOf i calls) := by
      obtain ⟨s, s', htrace⟩ := htraces i
      exact mgr.nodeLaunched_of_trace htrace
    have heq (i : Fin names.length) : results i = (names.get i, (results i).2) := Prod.ext (hnode i).1 rfl
    refine ⟨after ++ (calls.map (·.2) ++ before), ?_, .reported (fun i => (results i).2) hchosen
      (fun i => ⟨(hnode i).2, ?_⟩) (fun a => ?_) (fun x => ?_) hshared⟩
    · rw [hafter, hcalls, hbefore, List.append_assoc, List.append_assoc]
    · obtain ⟨s, s', htrace⟩ := htraces i
      rw [heq i] at htrace
      exact ⟨s, s', htrace⟩
    · show a ∈ report.created ↔ _
      rw [hcreated, mem_created_launchReport]
      constructor
      · rintro ⟨n, hn⟩
        obtain ⟨i, hi⟩ := (hresults _).1 hn
        exact ⟨i, congrArg Prod.snd hi⟩
      · rintro ⟨i, hi⟩
        exact ⟨names.get i, (hresults _).2 ⟨i, by rw [heq i, hi]⟩⟩
    · show x ∈ report.failed ↔ _
      rw [hfailed, mem_failed_launchReport, hresults]
      constructor
      · rintro ⟨i, hi⟩
        exact ⟨i, by rw [← (hnode i).1, hi], by rw [hi]⟩
      · rintro ⟨i, hname, hi⟩
        exact ⟨i, by rw [heq i, hname, hi]⟩

end Runs

/-! ### Teardowns of groups -/

/-- A member's result bears the member. -/
private theorem course_of_destroyMember {i : Instance} {t t' : Nat} {a : Instance × Except Failure Unit}
    (h : (mgr.destroyMember i).Trace t a es t') :
    a.1 = i ∧ Course mgr.client.retry.limit [] a.2 es := by
  obtain ⟨r, es₁, t₁, es₂, rfl, hdestroy, h⟩ := Program.trace_bind.1 h
  obtain ⟨rfl, rfl, -⟩ := Program.trace_done.1 h
  exact ⟨rfl, ((mgr.client.persists_destroy (List.forall_mem_nil _)).trace hdestroy).1⟩

/-- The group's own network is looked up, and the networks are taken away one after the other. -/
private theorem always_reclaimGroup_recorded (group : String) (members : List Instance)
    (rs : List (Instance × Except Failure Unit)) :
    (mgr.reclaimGroup group members rs).run.Always fun r es => match r with
      | .error f => Course mgr.client.retry.limit [] (.error f : Except Failure (Option Network)) es
      | .ok report => report.destroyed = (teardownReport rs).destroyed ∧ report.failed = (teardownReport rs).failed ∧
          ∃ (own : Option Network) (links : List String) (lookup after : List (Exchange Cloud)), es = after ++ lookup ∧
            Course mgr.client.retry.limit [] (.ok own : Except Failure (Option Network)) lookup ∧
            RecordedAll mgr.client.retry.limit lookup links report.shared after := by
  unfold reclaimGroup groupNetworks
  refine Action.always_bind (Action.always_bind ((mgr.client.persists_fetch? warranted_nil).always
    fun r lookup hlookup hlast => ?_))
  rw [List.append_nil] at hlast
  -- Whatever networks there are, they are attended to after the lookup.
  have hall {own : Option Network} {links : List String} (hnodup : links.Nodup) (hown : r = .ok own) :
      ((mgr.reclaimAll (destroyedLinks rs) links >>= fun shared => pure { teardownReport rs with shared := shared } :
        Action TeardownReport)).run.Always fun r es' => match r with
      | .error f => Course mgr.client.retry.limit [] (.error f : Except Failure (Option Network)) (es' ++ lookup)
      | .ok report => report.destroyed = (teardownReport rs).destroyed ∧ report.failed = (teardownReport rs).failed ∧
          ∃ (own : Option Network) (links : List String) (lookup' after : List (Exchange Cloud)),
            es' ++ lookup = after ++ lookup' ∧
            Course mgr.client.retry.limit [] (.ok own : Except Failure (Option Network)) lookup' ∧
            RecordedAll mgr.client.retry.limit lookup' links report.shared after := by
    subst hown
    have hlist : ∀ l ∈ links, Warranted lookup (.list .instance (.onNetwork l)) :=
      fun l _ => hlast.1.warranted (by simp) rfl
    refine Action.always_bind ((mgr.always_reclaimAll_recorded _ hnodup hlist).mono fun r after hr => ?_)
    obtain ⟨os, rfl, hos⟩ := hr
    exact Action.always_pure ⟨rfl, rfl, own, links, lookup, after, rfl, hlookup, hos⟩
  rcases r with f | _ | n
  · exact hlookup
  · exact Action.always_pure (hall (OrderedMap.nodup_keys _) rfl)
  · dsimp only
    split <;> exact Action.always_pure (hall (OrderedMap.nodup_keys _) rfl)

section Runs

variable [Service Cloud σ]

private theorem destroyGroup_sends (group : String) (w : World Cloud σ) :
    ∃ es, (mgr.destroyGroup group w).2.record = es ++ w.record ∧
      mgr.TeardownSends (mgr.destroyGroup group w).1 es := by
  have hcall : Warranted [] (.list .instance (.withLabel Naming.groupKey group)) := warranted_nil
  obtain ⟨before, hbefore, hlisted, -⟩ := Program.Always.run (mgr.client.persists_list hcall) w
  -- The members have been taken down, each with its own result.
  have hdown {members : List Instance} {rs : List (Instance × Except Failure Unit)} {w₁ w₂ : World Cloud σ}
      (hlist : (mgr.client.list .instance (.withLabel Naming.groupKey group)).run.run w = (.ok members, w₁))
      (hpool : runPool mgr.concurrency (members.map mgr.destroyMember) w₁ = (rs, w₂)) :
      ∃ results calls, mgr.MembersSend members results before calls ∧
        w₂.record = calls.map (·.2) ++ (before ++ w.record) ∧ ∀ a, a ∈ rs ↔ ∃ i, (members.get i, results i) = a := by
    rw [hlist] at hlisted hbefore
    obtain ⟨results, calls, hresults, hcalls, htraces⟩ := runPool_results mgr.concurrency members mgr.destroyMember w₁
    rw [hpool] at hresults hcalls
    rw [hbefore] at hcalls
    have hmember (i : Fin members.length) : (results i).1 = members.get i ∧
        Course mgr.client.retry.limit [] (results i).2 (callsOf i calls) := by
      obtain ⟨t, t', htrace⟩ := htraces i
      exact mgr.course_of_destroyMember htrace
    have heq (i : Fin members.length) : results i = (members.get i, (results i).2) := Prod.ext (hmember i).1 rfl
    refine ⟨fun i => (results i).2, calls, ⟨hlisted, fun i => (hmember i).2, fun i => ?_⟩, hcalls, fun a => ?_⟩
    · obtain ⟨t, t', htrace⟩ := htraces i
      rw [heq i] at htrace
      exact ⟨t, t', htrace⟩
    · rw [hresults]
      exact exists_congr fun i => by rw [← heq i]
  have hrun := mgr.destroyGroup_run group w
  generalize (mgr.destroyGroup group w).1 = r, (mgr.destroyGroup group w).2 = w' at hrun
  cases hrun with
  | unlisted hlist =>
    rw [hlist] at hlisted hbefore
    exact ⟨before, hbefore, .unlisted hlisted⟩
  | @unreported members rs f w₁ w₂ w₃ hlist hpool hlast =>
    obtain ⟨results, calls, hmembers, hcalls, -⟩ := hdown hlist hpool
    obtain ⟨after, hafter, hlookup⟩ := Program.Always.run (mgr.always_reclaimGroup_recorded group members rs) w₂
    rw [hlast] at hafter hlookup
    refine ⟨after ++ (calls.map (·.2) ++ before), ?_, .unreported hmembers hlookup⟩
    rw [hafter, hcalls, List.append_assoc, List.append_assoc]
  | @destroyed members rs report w₁ w₂ w₃ hlist hpool hlast =>
    obtain ⟨results, calls, hmembers, hcalls, hresults⟩ := hdown hlist hpool
    obtain ⟨es, hes, hreport⟩ := Program.Always.run (mgr.always_reclaimGroup_recorded group members rs) w₂
    rw [hlast] at hes hreport
    obtain ⟨hdestroyed, hfailed, own, links, lookup, after, rfl, hlookup, hnetworks⟩ := hreport
    refine ⟨after ++ lookup ++ (calls.map (·.2) ++ before), ?_,
      .reported hmembers hlookup hnetworks (fun n => ?_) fun x => ?_⟩
    · rw [hes, hcalls, List.append_assoc, List.append_assoc, List.append_assoc, List.append_assoc]
    · show n ∈ report.destroyed ↔ _
      rw [hdestroyed, mem_destroyed_teardownReport]
      constructor
      · rintro ⟨m, hm, hname⟩
        obtain ⟨i, hi⟩ := (hresults _).1 hm
        obtain ⟨rfl, hok⟩ := Prod.mk.inj hi
        exact ⟨i, hname, hok⟩
      · rintro ⟨i, hname, hok⟩
        exact ⟨members.get i, (hresults _).2 ⟨i, by rw [hok]⟩, hname⟩
    · show x ∈ report.failed ↔ _
      rw [hfailed, mem_failed_teardownReport]
      constructor
      · rintro ⟨m, hm, hname⟩
        obtain ⟨i, hi⟩ := (hresults _).1 hm
        obtain ⟨rfl, herror⟩ := Prod.mk.inj hi
        exact ⟨i, hname, herror⟩
      · rintro ⟨i, hname, herror⟩
        exact ⟨members.get i, (hresults _).2 ⟨i, by rw [herror]⟩, hname⟩

end Runs

end Manager

/-! ### Every operation -/

private theorem run_retryCounted_send [Service Cloud σ] (c : Client) (call : Call) (w : World Cloud σ) :
    ∃ es, ((c.send call).run.run w).2.record = es ++ w.record ∧
      Request c.retry.limit call ((c.send call).run.run w).1 es ∧
      (c.retry.retryCounted (Action.call call).run).run w = ((((c.send call).run.run w).1, es.length),
        ((c.send call).run.run w).2) := by
  obtain ⟨es, hes, hrequest, hcount⟩ := (always_retryCounted_request c.retry call).run w
  let counted := (c.retry.retryCounted (Action.call call).run).run w
  have hsend : (c.send call).run.run w = (counted.1.1, counted.2) := Program.run_bind _ _ w
  rw [hsend]
  exact ⟨es, hes, hrequest, Prod.ext (Prod.ext rfl hcount) rfl⟩

/-- Whatever a platform answers, no operation returns or reports the failure to reach it once, and its exchanges are
requests, each of which is sent again only while the platform cannot be reached and at most `limit` times. A request
that is given up ends the action that has made it, which fails with the number of attempts and the last message. This is
how a call is made that is made with retries, whether the attempts are counted or not. -/
theorem undertake_persists [Service Cloud σ] (mgr : Manager) (u : Undertaking) (w : World Cloud σ) :
    Absorbed u.Absorbed (mgr.undertake u w).1 ∧
      (∃ es, (mgr.undertake u w).2.record = es ++ w.record ∧ mgr.Sends u (mgr.undertake u w).1 es) ∧
      ∀ (call : Call) (v : World Cloud σ), ∃ es, ((mgr.client.send call).run.run v).2.record = es ++ v.record ∧
        Request mgr.client.retry.limit call ((mgr.client.send call).run.run v).1 es ∧
        (mgr.client.retry.retryCounted (Action.call call).run).run v =
          ((((mgr.client.send call).run.run v).1, es.length), ((mgr.client.send call).run.run v).2) := by
  refine and_assoc.1 ⟨?_, run_retryCounted_send mgr.client⟩
  -- One action after nothing else, of whose result `Q` is known.
  have run {α : Type} {Q : α → List (Exchange Cloud) → Prop} {E : Failure → List (Exchange Cloud) → Prop} {a : Action α}
      (h : a.Persists mgr.client.retry.limit [] Q E) {P : α → Prop} (hP : ∀ v es, Q v es → P v) :
      Absorbed P (a.run.run w).1 ∧ ∃ es, (a.run.run w).2.record = es ++ w.record ∧
        Course mgr.client.retry.limit [] (a.run.run w).1 es := by
    have hcourse : a.run.Always fun r es => Absorbed P r ∧ Course mgr.client.retry.limit [] r es := by
      refine h.always fun r es hcourse hr => ⟨hcourse.absorbed fun v hv => ?_, hcourse⟩
      rw [hv] at hr
      exact hP v _ hr
    obtain ⟨es, hes, habsorbed, hcourse⟩ := hcourse.run w
    exact ⟨habsorbed, es, hes, hcourse⟩
  have anything {α : Type} {Q : α → List (Exchange Cloud) → Prop} (v : α) (es : List (Exchange Cloud)) (_ : Q v es) :
      True := trivial
  let c := mgr.client
  cases u with
  | fetch? kind scope name => exact run (c.persists_fetch? warranted_nil) anything
  | fetch kind scope name => exact run (c.persists_fetch warranted_nil) anything
  | list kind filter => exact run (c.persists_list warranted_nil) anything
  | submitInsert scope spec =>
    have hcall : Warranted [] (.insert scope spec) := warranted_nil
    exact run (c.persists_send hcall) anything
  | awaitDone h => exact run (c.persists_awaitDone warranted_nil) anything
  | awaitDoneWithin h timeoutMs => exact run (c.persists_awaitDoneWithin warranted_nil timeoutMs) anything
  | create kind scope spec => exact run (c.persists_create warranted_nil) anything
  | delete kind scope name => exact run (c.persists_delete warranted_nil) anything
  | deleteIfExists kind scope name => exact run (c.persists_deleteIfExists warranted_nil) anything
  | update kind scope name tags => exact run (c.persists_update warranted_nil) anything
  | ensure kind scope name spec => exact run (c.persists_ensure warranted_nil) anything
  | setTags zone name wanted => exact run (c.persists_setTags wanted warranted_nil) anything
  | createNode s => exact run (c.persists_createNode s) anything
  | destroy i => exact run (c.persists_destroy (List.forall_mem_nil _)) anything
  | reclaimShared link excluding =>
    exact run (c.persists_reclaimShared excluding warranted_nil) fun _ _ ho => NetworkOutcome.absorbed_of_isFailed ho.1
  | reclaimNetwork name =>
    exact run (c.persists_reclaimNetwork name) fun _ _ ho => NetworkOutcome.absorbed_of_isFailed ho
  | destroyNode id =>
    obtain ⟨es, hes, hsends⟩ := (mgr.always_destroyNode id).run w
    exact ⟨hsends.absorbed, es, hes, hsends⟩
  | nodes group =>
    refine run (Q := fun _ _ => True) ((c.persists_list warranted_nil).bind fun _ _ _ => ?_) anything
    exact Action.persists_pure trivial
  | node? id =>
    refine run (Q := fun _ _ => True) ((c.persists_fetch? warranted_nil).bind fun _ _ _ => ?_) anything
    exact Action.persists_pure trivial
  | launch group count t =>
    obtain ⟨es, hes, hsends⟩ := mgr.launch_sends group count t w
    exact ⟨hsends.absorbed, es, hes, hsends⟩
  | destroyGroup group =>
    obtain ⟨es, hes, hsends⟩ := mgr.destroyGroup_sends group w
    exact ⟨hsends.absorbed, es, hes, hsends⟩

end Fleet
