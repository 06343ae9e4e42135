import Fleet.Proofs.Launch.Report
import Fleet.Proofs.Names
import Fleet.Proofs.Record.Client
import Fleet.Proofs.Record.Heedless
import Fleet.Proofs.Record.Trace

/-!
# What a launch accounts for

Whatever a platform answers and whenever the signal to cancel comes, a launch that returns a report has chosen names
and reports on each of them once, and what it reports is what came of the exchanges of that node (`launch_accounts`).
The signal is looked at once for each node, before anything is asked for it, and never again: a node that has not been
started when the signal comes costs nothing, and one that has been started runs to its own end.
-/

namespace Fleet

variable {σ : Type}

namespace Manager

/-- What came of the launch of one node from the time `start` to the time `finish`, and by which exchanges, when the
signal to cancel is found to be `stop`. Once a node has been begun, nobody looks at the signal again. -/
inductive Attempt (mgr : Manager) (s : NodeSpec) (stop : Bool) (start finish : Nat) :
    Except Failure Instance → List (Exchange Cloud) → Prop
  /-- The signal is set, and nothing is asked. -/
  | withheld (h : stop = true) : Attempt mgr s stop start finish (.error (.cancelled s.name)) []
  | up {i : Instance} {es : List (Exchange Cloud)} (h : stop = false)
      (hheedless : (mgr.client.createNode s).run.Heedless)
      (hnode : (mgr.client.createNode s).run.Trace start (.ok i) es finish) :
      Attempt mgr s stop start finish (.ok i) es
  /-- The failure is that of the node, whatever its clean-up comes to. -/
  | failed {f : Failure} {r : Except Failure Unit} {es es' : List (Exchange Cloud)} {t : Nat}
      (h : stop = false) (hheedless : (mgr.client.createNode s).run.Heedless)
      (hnode : (mgr.client.createNode s).run.Trace start (.error f) es t)
      (hremains : (mgr.discardPartial s).run.Heedless)
      (hdiscard : (mgr.discardPartial s).run.Trace t r es' finish) :
      Attempt mgr s stop start finish (.error f) (es' ++ es)

private theorem trace_launchNode {mgr : Manager} {s : NodeSpec} {stop : Bool} {t t' : Nat}
    {a : String × Except Failure Instance} {es : List (Exchange Cloud)}
    (h : ((mgr.launchNode s).told stop).Trace t a es t') : a.1 = s.name ∧ Attempt mgr s stop t t' a.2 es := by
  cases stop with
  | true =>
    obtain ⟨rfl, rfl, rfl⟩ := Program.trace_done.1 h
    exact ⟨rfl, .withheld rfl⟩
  | false =>
    have hheedless := mgr.client.heedless_createNode s
    obtain ⟨r, es₁, t₁, es₂, rfl, hnode, h⟩ := Program.trace_bind.1 h
    cases r with
    | ok i =>
      obtain ⟨rfl, rfl, rfl⟩ := Program.trace_done.1 h
      exact ⟨rfl, .up rfl hheedless hnode⟩
    | error f =>
      obtain ⟨r, es₃, t₂, es₄, rfl, hdiscard, h⟩ := Program.trace_bind.1 h
      obtain ⟨rfl, rfl, rfl⟩ := Program.trace_done.1 h
      exact ⟨rfl, .failed rfl hheedless hnode (mgr.heedless_discardPartial s) hdiscard⟩

/-- Nodes that are launched side by side: each of them has one result, which tells how its own launch ended. -/
private theorem runPool_launchNode [Service Cloud σ] (mgr : Manager) (spec : String → NodeSpec)
    (hspec : ∀ n, (spec n).name = n) {names : List String} (hnodup : names.Nodup) (w : World Cloud σ) :
    ∃ entries w' calls, runPool mgr.concurrency (names.map fun n => mgr.launchNode (spec n)) w = (entries, w') ∧
      (entries.map (·.1)).Perm names ∧ w'.record = calls.map (·.2) ++ w.record ∧ (∀ c ∈ calls, c.1 ∈ names) ∧
      ∀ r ∈ entries, ∃ start finish earlier later, w.now ≤ start ∧ finish ≤ w'.now ∧
        Begins r.1 calls start earlier later ∧
        Attempt mgr (spec r.1) (w.signal start (earlier.length + w.record.length)) start finish r.2
          (callsOf r.1 calls) := by
  obtain ⟨rs, calls, hrs, hperm, hcalls, hlabels, htraces⟩ :=
    runPool_traces mgr.concurrency hnodup (fun n => mgr.launchNode (spec n)) w
  have hname : ∀ e ∈ rs, e.2.1 = e.1 := fun e he => by
    obtain ⟨t, t', earlier, later, -, -, -, htrace⟩ := htraces e he
    exact (trace_launchNode htrace).1.trans (hspec e.1)
  rcases hpool : runPool mgr.concurrency (names.map fun n => mgr.launchNode (spec n)) w with ⟨entries, w'⟩
  rw [hpool] at hrs hcalls htraces
  obtain rfl : entries = rs.map (·.2) := hrs
  refine ⟨_, w', calls, rfl, ?_, hcalls, hlabels, fun r hr => ?_⟩
  · rw [List.map_map]
    exact (List.map_congr_left hname) ▸ hperm
  · obtain ⟨e, he, rfl⟩ := List.mem_map.1 hr
    obtain ⟨t, t', earlier, later, hstart, hfinish, hbegins, htrace⟩ := htraces e he
    rw [hname e he]
    exact ⟨t, t', earlier, later, hstart, hfinish, hbegins, (trace_launchNode htrace).2⟩

/-- A report on the nodes `names`: the results of the nodes, in the order in which they ended, are `entries`; their
exchanges are `calls`, those before them `before` and those after them `after`. -/
structure Accounts (mgr : Manager) (group : String) (count : Nat) (t : NodeTemplate) (w w' : World Cloud σ)
    (report : LaunchReport) (names : List String) (entries : List (String × Except Failure Instance))
    (before : List (Exchange Cloud)) (calls : List (String × Exchange Cloud)) (after : List (Exchange Cloud)) :
    Prop where
  nodup : names.Nodup
  length_names : names.length = count
  chosen : 0 < count → ∃ s, (mgr.chooseNames group count).run.Trace w.now (.ok names) before s
  /-- Every node has one entry. -/
  entries_names : (entries.map (·.1)).Perm names
  created : report.created = entries.filterMap fun r => r.2.toOption
  failed : report.failed = entries.filterMap FailedNode.of?
  length : report.created.length + report.failed.length = count
  record : w'.record = after ++ (calls.map (·.2) ++ (before ++ w.record))
  labels : ∀ c ∈ calls, c.1 ∈ names
  /-- The entry of a node tells how its own launch ended, and whether the signal was set when it began: at this time,
  after the exchanges `earlier` of the other nodes. -/
  attempts : ∀ r ∈ entries, ∃ start finish earlier later, w.now ≤ start ∧ finish ≤ w'.now ∧
    Begins r.1 calls start earlier later ∧
    Attempt mgr (.ofTemplate r.1 group (mgr.networkFor group t) t)
      (w.signal start (earlier.length + (before ++ w.record).length)) start finish r.2 (callsOf r.1 calls)
  /-- Afterwards something is asked only when no node came up and one of them had begun. -/
  after_eq : after = [] ∨ report.created = [] ∧ ∃ x ∈ report.failed, wasStarted x.failure = true

private theorem always_chooseNames (mgr : Manager) (group : String) (count : Nat) :
    (mgr.chooseNames group count).run.Always fun r (es : List (Exchange Cloud)) =>
      (∀ e ∈ es, e.query.isMutation = false) ∧
      ∀ names, r = .ok names → names.Nodup ∧ names.length = count := by
  refine Action.always_bind ((mgr.client.always_list .instance _).mono fun r es hes => ?_)
  have hread : ∀ e ∈ es, e.query.isMutation = false := fun e he => by
    rw [hes e he]
    rfl
  cases r with
  | error f => exact ⟨hread, fun names h => by cases h⟩
  | ok is =>
    refine Action.always_pure ⟨hread, fun names h => ?_⟩
    cases h
    exact ⟨Naming.nodup_nextNodeNames _ _ _, Naming.length_nextNodeNames _ _ _⟩

private theorem always_reclaimAfterLaunch (mgr : Manager) (network : String) (report : LaunchReport) :
    (mgr.reclaimAfterLaunch network report).Always fun r es => r.created = report.created ∧ r.failed = report.failed ∧
      (es = [] ∨ report.created = [] ∧ ∃ x ∈ report.failed, wasStarted x.failure = true) := by
  unfold reclaimAfterLaunch
  split
  · next h =>
    obtain ⟨hcreated, hfailed⟩ : report.created = [] ∧ ∃ x ∈ report.failed, wasStarted x.failure = true := by
      simpa using h
    refine Program.always_bind.2 (Program.always_of_forall fun r es => ?_)
    cases r with
    | ok o => exact Program.always_done.2 ⟨rfl, rfl, .inr ⟨hcreated, hfailed⟩⟩
    | error f => exact Program.always_done.2 ⟨rfl, rfl, .inr ⟨hcreated, hfailed⟩⟩
  · exact Program.always_done.2 ⟨rfl, rfl, .inl rfl⟩

end Manager

/-- A launch that returns a report has an entry for each node, which tells how the node's own launch ended; and one that
returns a failure has asked for no change. -/
theorem launch_accounts [Service Cloud σ] (mgr : Manager) (group : String) (count : Nat) (t : NodeTemplate)
    (w : World Cloud σ) :
    match mgr.launch group count t w with
    | (.ok report, w') => ∃ names entries before calls after,
        mgr.Accounts group count t w w' report names entries before calls after
    | (.error _, w') => ∃ es, w'.record = es ++ w.record ∧ ∀ e ∈ es, e.query.isMutation = false := by
  unfold Manager.launch
  cases Naming.validateGroup group with
  | error f => exact ⟨[], rfl, fun e he => absurd he List.not_mem_nil⟩
  | ok _ =>
    by_cases hcount : count = 0
    · subst hcount
      refine ⟨[], [], [], [], [], List.nodup_nil, rfl, fun h => absurd h (Nat.lt_irrefl 0), .refl _, rfl, rfl, rfl, rfl,
        fun c hc => absurd hc List.not_mem_nil, fun r hr => absurd hr List.not_mem_nil, .inl rfl⟩
    · -- The exchanges come in three parts: choosing the names, the nodes side by side, and what follows.
      obtain ⟨before, hbefore, hsignal, hchoose⟩ := (mgr.chooseNames group count).run.trace_run w
      have hchosen := (mgr.always_chooseNames group count).trace hchoose
      simp only [hcount, if_false]
      rcases hnames : (mgr.chooseNames group count).run.run w with ⟨f | names, w₁⟩
      · rw [hnames] at hbefore
        exact ⟨before, hbefore, hchosen.1⟩
      · rw [hnames] at hbefore hsignal hchoose hchosen
        obtain ⟨hnodup, hlength⟩ := hchosen.2 names rfl
        obtain ⟨entries, w₂, calls, hpool, hperm, hcalls, hlabels, hattempts⟩ := mgr.runPool_launchNode
          (fun n => .ofTemplate n group (mgr.networkFor group t) t) (fun _ => rfl) hnodup w₁
        obtain ⟨after, hafter, -, hlast⟩ :=
          (mgr.reclaimAfterLaunch (mgr.networkFor group t) (Manager.launchReport entries)).trace_run w₂
        obtain ⟨hcreated, hfailed, hidle⟩ := (mgr.always_reclaimAfterLaunch _ _).trace hlast
        rcases hfinal : (mgr.reclaimAfterLaunch (mgr.networkFor group t) (Manager.launchReport entries)).run w₂ with
          ⟨report, w₃⟩
        rw [hfinal] at hafter hlast hcreated hfailed
        simp only [hpool, hfinal]
        refine ⟨names, entries, before, calls, after, hnodup, hlength, fun _ => ⟨_, hchoose⟩, hperm, ?_, ?_, ?_, ?_,
          hlabels, fun r hr => ?_, ?_⟩
        · exact hcreated.trans (created_launchReport entries)
        · exact hfailed.trans (failed_launchReport entries)
        · show report.created.length + report.failed.length = count
          rw [hcreated, hfailed, length_launchReport, ← hlength, ← hperm.length_eq, List.length_map]
        · rw [hafter, hcalls, hbefore]
        · obtain ⟨start, finish, earlier, later, hstart, hfinish, hbegins, hattempt⟩ := hattempts r hr
          rw [hsignal, hbefore] at hattempt
          exact ⟨start, finish, earlier, later, Nat.le_trans hchoose.le hstart, Nat.le_trans hfinish hlast.le, hbegins,
            hattempt⟩
        · show after = [] ∨ report.created = [] ∧ ∃ x ∈ report.failed, Manager.wasStarted x.failure = true
          rw [hcreated, hfailed]
          exact hidle

end Fleet
