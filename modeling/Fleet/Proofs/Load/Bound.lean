import Fleet.Proofs.Load.Floor
import Fleet.Proofs.Load.Outstanding
import Fleet.Proofs.Record.Group
import Fleet.Proofs.Session.Basic
import Mathlib.Combinatorics.Enumerative.DoubleCounting

/-!
# The load on the platform is bounded

However the nodes of a launch or of a group's teardown are run side by side, with at most `max c 1` of them going at a
time, no more operations than that are outstanding at any time on a platform without faults, and none when all is done
(`performWith_bounded`). The invariant is that every operation that is not done is in charge of one of the programs that
are going (`Floor.Tended`), and each of them has one operation in charge at most.
-/

namespace Fleet

open Memory Charge

variable {σ ι α : Type}

/-! ### Any way to run nodes side by side -/

namespace Manager

section With

variable [Service Cloud σ] (mgr : Manager) (side : Runner Cloud σ)

/-- A launch that runs its nodes side by side in some way. -/
def launchWith (group : String) (count : Nat) (t : NodeTemplate) : Job σ LaunchReport := fun w =>
  match Naming.validateGroup group with
  | .error f => (.error f, w)
  | .ok () =>
    if count = 0 then (.ok .empty, w)
    else
      match (mgr.chooseNames group count).run.run w with
      | (.error f, w') => (.error f, w')
      | (.ok names, w') =>
        let network := mgr.networkFor group t
        let nodes := names.map fun n => mgr.launchNode (.ofTemplate n group network t)
        let together := side.run (max mgr.concurrency 1) nodes w'
        let final := (mgr.reclaimAfterLaunch network (launchReport together.1)).run together.2
        (.ok { final.1 with durationMs := final.2.now - w.now }, final.2)

/-- The teardown of a group that runs its members side by side in some way. -/
def destroyGroupWith (group : String) : Job σ TeardownReport := fun w =>
  match (mgr.client.list .instance (.withLabel Naming.groupKey group)).run.run w with
  | (.error f, w') => (.error f, w')
  | (.ok members, w') =>
    let together := side.run (max mgr.concurrency 1) (members.map mgr.destroyMember) w'
    match (mgr.reclaimGroup group members together.1).run.run together.2 with
    | (.error f, w'') => (.error f, w'')
    | (.ok report, w'') => (.ok { report with durationMs := w''.now - w.now }, w'')

/-- The world after a task. -/
def performWith : Task → World Cloud σ → World Cloud σ
  | .createNodes group count t, w => (mgr.launchWith side group count t w).2
  | .destroyNode id, w => ((mgr.destroyNode id).run.run w).2
  | .destroyGroup group, w => (mgr.destroyGroupWith side group w).2
  | .reclaimNetwork name, w => ((mgr.client.reclaimNetwork name).run.run w).2

/-- A pool has always room for one program. -/
private theorem runPool_max (width : Nat) (ps : List (Program Cloud α)) (w : World Cloud σ) :
    runPool (max width 1) ps w = runPool width ps w := by
  rw [runPool, runPool, Pool.start, Pool.start, Nat.max_assoc, Nat.max_self]

/-- The manager runs them as a pool. -/
theorem performWith_pool (task : Task) (w : World Cloud σ) : mgr.performWith .pool task w = mgr.perform task w := by
  cases task with
  | createNodes group count t =>
    show (mgr.launchWith .pool group count t w).2 = mgr.perform (.createNodes group count t) w
    unfold launchWith Runner.pool
    simp only [runPool_max]
    rfl
  | destroyNode id => rfl
  | destroyGroup group =>
    show (mgr.destroyGroupWith .pool group w).2 = mgr.perform (.destroyGroup group) w
    unfold destroyGroupWith Runner.pool
    simp only [runPool_max]
    rfl
  | reclaimNetwork name => rfl

end With

end Manager

/-! ### Programs that are going see to all operations -/

/-- What goes on until all operations are done that have been started since `m₀`. -/
structure World.Sound (m₀ : Memory) (w : World Cloud Watched) : Prop where
  interventions : w.interventions = []
  faultFree : w.service.memory.FaultFree
  polls : w.service.memory.pollsUntilDone < UInt32.size
  count : m₀.operationCount ≤ w.service.memory.operationCount

namespace World.Sound

variable {m₀ : Memory} {w : World Cloud Watched}

theorem ask (h : w.Sound m₀) (c : Call) : (w.ask c).2.Sound m₀ where
  interventions := h.interventions
  faultFree := h.faultFree.continues (continues_answer c w.service.memory)
  polls := by
    show (answer c w.service.memory).2.pollsUntilDone < _
    rw [(continues_answer c w.service.memory).polls]
    exact h.polls
  count := Nat.le_trans h.count (operationCount_le_answer c w.service.memory)

theorem service_advanceTo (h : w.Sound m₀) (t : Nat) : (w.advanceTo t).service = w.service := by
  simp [World.advanceTo, World.intervene, h.interventions]

theorem advanceTo (h : w.Sound m₀) (t : Nat) : (w.advanceTo t).Sound m₀ := by
  have hservice := h.service_advanceTo t
  refine ⟨?_, ?_, ?_, ?_⟩
  · simp [World.advanceTo, World.intervene, h.interventions]
  · rw [hservice]
    exact h.faultFree
  · rw [hservice]
    exact h.polls
  · rw [hservice]
    exact h.count

end World.Sound

/-- At the time `now`, with `o` in charge, the program goes on to tend its operations. -/
def Stage.Minds (p : PollPolicy) (now : Nat) : Stage Cloud α → Option Charge → Prop
  | .waiting a, o => o = none ∧ a.Tidy p
  | .started due a, o => (due ≤ now ∧ a.Clears p now o) ∨ (now < due ∧ ∀ t, due ≤ t → a.Clears p t o)
  | .ended _, o => o = none

theorem Stage.Minds.isStarted {p : PollPolicy} {now : Nat} {s : Stage Cloud α} {c : Charge}
    (h : s.Minds p now (some c)) : s.isStarted = true := by
  cases s with
  | waiting a => exact absurd h.1 (by simp)
  | started due a => rfl
  | ended a => exact absurd h (by simp [Stage.Minds])

namespace Floor

variable {m₀ : Memory} {p : PollPolicy} {charges : ι → Option Charge} {k : Floor Cloud Watched ι α}
  {es : List (Exchange Cloud)}

/-- Every operation that is outstanding is in charge of one program, which tends it; `es` are the exchanges so far. -/
structure Tended (m₀ : Memory) (p : PollPolicy) (charges : ι → Option Charge) (k : Floor Cloud Watched ι α)
    (es : List (Exchange Cloud)) : Prop where
  sound : k.world.Sound m₀
  minds : ∀ i, (k.stages i).Minds p k.world.now (charges i)
  holds : ∀ i c, charges i = some c → c.Holds m₀ k.world.service.memory
  accepted : ∀ i c, charges i = some c → ∃ e ∈ es, e.time = c.since ∧ Call.accepted? e.query e.answer = some c.handle
  apart : ∀ i j c d, charges i = some c → charges j = some d → c.handle.name = d.handle.name → i = j
  outstanding : ∀ n ∈ m₀.outstanding k.world.service.memory, ∃ i c, charges i = some c ∧ c.handle.name = operationName n

/-- So there are no more of them than programs that are going. -/
theorem Tended.card_outstanding_le [Fintype ι] (h : k.Tended m₀ p charges es) :
    (m₀.outstanding k.world.service.memory).card ≤ k.started.card := by
  refine Finset.card_le_card_of_forall_subsingleton
    (fun n i => ∃ c, charges i = some c ∧ c.handle.name = operationName n) (fun n hn => ?_) fun i _ n hn n' hn' => ?_
  · obtain ⟨i, c, hc, hname⟩ := h.outstanding n hn
    have hminds := h.minds i
    rw [hc] at hminds
    exact ⟨i, mem_started.2 hminds.isStarted, c, hc, hname⟩
  · obtain ⟨-, c, hc, hname⟩ := hn
    obtain ⟨-, d, hd, hname'⟩ := hn'
    obtain rfl := Option.some.inj (hc.symm.trans hd)
    exact operationName_injective (hname.symm.trans hname')

/-- When all programs have ended, none is outstanding. -/
theorem Tended.outstanding_eq_empty (h : k.Tended m₀ p charges es) (hended : ∀ i, ∃ a, k.stages i = .ended a) :
    m₀.outstanding k.world.service.memory = ∅ := by
  refine Finset.eq_empty_of_forall_notMem fun n hn => ?_
  obtain ⟨i, c, hc, -⟩ := h.outstanding n hn
  obtain ⟨a, ha⟩ := hended i
  have hminds := h.minds i
  rw [hc, ha] at hminds
  exact absurd hminds.isStarted (by simp [Stage.isStarted])

/-- A program that goes on tends the operation that it has in charge. -/
private theorem Tended.clears (h : k.Tended m₀ p charges es) {i : ι} {due : Nat} {a : Program Cloud α}
    (hi : k.stages i = .started due a) (hdue : due ≤ k.world.now) : a.Clears p k.world.now (charges i) := by
  have hminds := h.minds i
  rw [hi] at hminds
  rcases hminds with ⟨-, hclears⟩ | ⟨hlt, -⟩
  · exact hclears
  · exact absurd hdue (Nat.not_le_of_lt hlt)

/-- What another program has in charge is not what the program `i` may ask for. -/
private theorem Tended.holds_answer (h : k.Tended m₀ p charges es) {i j : ι} (hj : j ≠ i) {c : Call}
    (hpermits : Permits (charges i) c) {d : Charge} (hd : charges j = some d) :
    d.Holds m₀ (answer c k.world.service.memory).2 := by
  refine (h.holds j d hd).of_others fun h' hc hname => ?_
  subst hc
  obtain ⟨d', hd', rfl⟩ := hpermits.eq_some
  exact hj (h.apart j i d d' hd hd' hname.symm)

/-- What the program `i` has in charge after an answer is not what another one has. -/
private theorem Tended.apart_of_leaves (h : k.Tended m₀ p charges es) {i j : ι} (hj : j ≠ i) {m' : Memory}
    {o : Option Charge} (hleaves : Leaves m₀ k.world.service.memory m' (charges i) o) {d d' : Charge}
    (hd : o = some d) (hd' : charges j = some d') : d.handle.name ≠ d'.handle.name := by
  intro hname
  rcases hleaves.fresh d hd with ⟨e, he, heq⟩ | hfresh
  · exact hj (h.apart j i d' e hd' he (by rw [heq, hname]))
  · obtain ⟨n, -, hle, hname', -⟩ := h.holds j d' hd'
    exact hfresh n hle (hname.trans hname')

/-- Time has passed while the programs slept or waited for answers. -/
private theorem Tended.pass (h : k.Tended m₀ p charges es) (t : Nat) (hidle : ∀ i, (k.stages i).Idles k.world.now) :
    (⟨k.stages, k.world.advanceTo t⟩ : Floor Cloud Watched ι α).Tended m₀ p charges es := by
  have hservice := h.sound.service_advanceTo t
  have hnow : k.world.now ≤ (k.world.advanceTo t).now := Nat.le_max_left _ _
  refine ⟨h.sound.advanceTo t, fun i => ?_, fun i c hc => ?_, h.accepted, h.apart, fun n hn => ?_⟩
  · have hminds := h.minds i
    have hi := hidle i
    show (k.stages i).Minds p (k.world.advanceTo t).now (charges i)
    cases hs : k.stages i with
    | waiting a =>
      rw [hs] at hminds
      exact hminds
    | ended a =>
      rw [hs] at hminds
      exact hminds
    | started due a =>
      rw [hs] at hminds hi
      rcases hminds with ⟨hdue, hclears⟩ | ⟨-, hclears⟩
      · rcases hi with hlt | ⟨c, next, rfl⟩
        · omega
        · exact .inl ⟨Nat.le_trans hdue hnow, hclears.of_ask hnow⟩
      · by_cases hdue : due ≤ (k.world.advanceTo t).now
        · exact .inl ⟨hdue, hclears _ hdue⟩
        · exact .inr ⟨by omega, hclears⟩
  · show c.Holds m₀ (k.world.advanceTo t).service.memory
    rw [hservice]
    exact h.holds i c hc
  · have hn : n ∈ m₀.outstanding (k.world.advanceTo t).service.memory := hn
    rw [hservice] at hn
    exact h.outstanding n hn

section Step

variable [DecidableEq ι] {i : ι}

/-- A program has gone on without asking anything. -/
private theorem Tended.put (h : k.Tended m₀ p charges es) {s : Stage Cloud α}
    (hs : s.Minds p k.world.now (charges i)) : (k.put i s k.world).Tended m₀ p charges es := by
  refine ⟨h.sound, fun j => ?_, h.holds, h.accepted, h.apart, h.outstanding⟩
  by_cases hj : j = i
  · subst hj
    rw [stages_put_self]
    exact hs
  · rw [stages_put_of_ne hj]
    exact h.minds j

/-- After one program's charge has changed, a charge is the new one or that of another program. -/
private theorem update_cases {o : Option Charge} {j : ι} {d : Charge}
    (h : Function.update charges i o j = some d) : (j = i ∧ o = some d) ∨ (j ≠ i ∧ charges j = some d) := by
  by_cases hj : j = i
  · subst hj
    rw [Function.update_self] at h
    exact .inl ⟨rfl, h⟩
  · rw [Function.update_of_ne hj] at h
    exact .inr ⟨hj, h⟩

/-- A program has asked and been answered. What it has in charge may have changed, and the others have still charge of
their operations. -/
private theorem Tended.ask (h : k.Tended m₀ p charges es) {due : Nat} {c : Call}
    {next : Except Failure c.Value → Program Cloud α} (hi : k.stages i = .started due (.ask c next))
    (hdue : due ≤ k.world.now) (htimely : p.Timely (⟨k.world.now, c, (k.world.ask c).1⟩ :: es)) :
    (k.put i (.started k.world.now (next (k.world.ask c).1)) (k.world.ask c).2).Tended m₀ p
      (Function.update charges i (after (charges i) k.world.now c (k.world.ask c).1))
      (⟨k.world.now, c, (k.world.ask c).1⟩ :: es) := by
  let m := k.world.service.memory
  obtain ⟨hpermits, hnext⟩ := Program.tends_ask.1 (h.clears hi hdue)
  have hleaves : Leaves m₀ m (answer c m).2 (charges i) (after (charges i) k.world.now c (answer c m).1) :=
    leaves_answer h.sound.faultFree h.sound.count (h.holds i) hpermits k.world.now
  have hexpects : Expects p (charges i) k.world.now c (answer c m).1 := by
    refine expects_answer h.sound.faultFree h.sound.polls (h.holds i) hpermits fun d hd hunfinished => ?_
    obtain ⟨e, he, hsince, haccepted⟩ := h.accepted i d hd
    rw [← hsince]
    exact htimely e (List.mem_cons_of_mem _ he) _ List.mem_cons_self d.handle haccepted hunfinished
  refine ⟨h.sound.ask c, fun j => ?_, fun j d hd => ?_, fun j d hd => ?_, fun j j' d d' hd hd' hname => ?_,
    fun n hn => ?_⟩
  · by_cases hj : j = i
    · subst hj
      rw [stages_put_self, Function.update_self]
      exact .inl ⟨Nat.le_refl _, hnext k.world.now (Nat.le_refl _) _ hexpects⟩
    · rw [stages_put_of_ne hj, Function.update_of_ne hj]
      exact h.minds j
  · rcases update_cases hd with ⟨-, hd⟩ | ⟨hj, hd⟩
    · exact hleaves.holds d hd
    · exact h.holds_answer hj hpermits hd
  · rcases update_cases hd with ⟨-, hd⟩ | ⟨-, hd⟩
    · rcases after_cases hd with ⟨haccepted, hsince⟩ | ⟨e, he, hhandle, hsince⟩
      · exact ⟨_, List.mem_cons_self, hsince.symm, haccepted⟩
      · obtain ⟨x, hx, hxsince, hxaccepted⟩ := h.accepted i e he
        exact ⟨x, List.mem_cons_of_mem _ hx, hxsince.trans hsince, hhandle ▸ hxaccepted⟩
    · obtain ⟨x, hx, hxe⟩ := h.accepted j d hd
      exact ⟨x, List.mem_cons_of_mem _ hx, hxe⟩
  · rcases update_cases hd with ⟨hj, hnew⟩ | ⟨hj, hold⟩ <;> rcases update_cases hd' with ⟨hj', hnew'⟩ | ⟨hj', hold'⟩
    · exact hj.trans hj'.symm
    · exact absurd hname (h.apart_of_leaves hj' hleaves hnew hold')
    · exact absurd hname.symm (h.apart_of_leaves hj hleaves hnew' hold)
    · exact h.apart j j' d d' hold hold' hname
  · rcases hleaves.outstanding n hn with ⟨d, hd, hname⟩ | ⟨hbefore, hne⟩
    · exact ⟨i, d, by rw [Function.update_self]; exact hd, hname⟩
    · obtain ⟨j, d, hd, hname⟩ := h.outstanding n hbefore
      have hj : j ≠ i := by
        rintro rfl
        exact hne d hd hname
      exact ⟨j, d, by rw [Function.update_of_ne hj]; exact hd, hname⟩

variable [Fintype ι] {width : Nat} {k' : Floor Cloud Watched ι α} {rest : List (Exchange Cloud)}

/-- Whatever happens next, all operations are still seen to. -/
private theorem Tended.step (h : k.Tended m₀ p charges es) (hstep : Step width k k') {es' : List (Exchange Cloud)}
    (hes : k.world.record = es ++ rest) (hes' : k'.world.record = es' ++ rest) (htimely : p.Timely es') :
    ∃ charges', k'.Tended m₀ p charges' es' := by
  have hsame (hrecord : k'.world.record = k.world.record) : es' = es := by
    rw [hes, hes'] at hrecord
    exact List.append_cancel_right hrecord
  cases hstep with
  | @start i a hi hroom =>
    obtain rfl := hsame rfl
    have hminds := h.minds i
    rw [hi] at hminds
    obtain ⟨hnone, htidy⟩ := hminds
    exact ⟨charges, h.put (.inl ⟨Nat.le_refl _, hnone ▸ htidy _⟩)⟩
  | pass t hidle =>
    obtain rfl := hsame rfl
    exact ⟨charges, h.pass t hidle⟩
  | @move i due a hi hdue =>
    have hclears := h.clears hi hdue
    cases a with
    | done a =>
      obtain rfl := hsame rfl
      exact ⟨charges, h.put (Program.tends_done.1 hclears)⟩
    | ask c next =>
      have hrecord : (⟨k.world.now, c, (k.world.ask c).1⟩ :: es) ++ rest = es' ++ rest := by
        rw [← hes', List.cons_append, ← hes]
        rfl
      obtain rfl := List.append_cancel_right hrecord
      exact ⟨_, h.ask hi hdue htimely⟩
    | sleep ms next =>
      obtain rfl := hsame rfl
      have hnext := Program.tends_sleep.1 hclears
      refine ⟨charges, h.put ?_⟩
      by_cases hms : ms = 0
      · subst hms
        exact .inl ⟨Nat.le_refl _, hnext _ (Nat.le_refl _)⟩
      · exact .inr ⟨by omega, hnext⟩
    | clock next =>
      obtain rfl := hsame rfl
      exact ⟨charges, h.put (.inl ⟨Nat.le_refl _, Program.tends_clock.1 hclears⟩)⟩
    | cancelled next =>
      obtain rfl := hsame rfl
      exact ⟨charges, h.put (.inl ⟨Nat.le_refl _, Program.tends_cancelled.1 hclears _⟩)⟩

end Step

end Floor

/-! ### Runs -/

/-- All operations that have been started since `m₀` are done, and after every answer so far no more than `bound` of
them were outstanding. -/
structure World.Settled (m₀ : Memory) (bound : Nat) (w : World Cloud Watched) : Prop extends w.Sound m₀ where
  outstanding : m₀.outstanding w.service.memory = ∅
  bounded : ∀ s ∈ w.service.steps, (m₀.outstanding s.2).card ≤ bound

section Run

variable {m₀ : Memory} {p : PollPolicy} {bound width : Nat}

/-- The platform changes by answers only. -/
private theorem Floor.Step.steps [Fintype ι] [DecidableEq ι] {k k' : Floor Cloud Watched ι α}
    (hstep : Floor.Step width k k') (hsound : k.world.Sound m₀) :
    ∀ s ∈ k'.world.service.steps, s ∈ k.world.service.steps ∨ s.2 = k'.world.service.memory := by
  intro s hs
  cases hstep with
  | start hi hroom => exact .inl hs
  | pass t hidle =>
    have hs : s ∈ (k.world.advanceTo t).service.steps := hs
    rw [hsound.service_advanceTo] at hs
    exact .inl hs
  | @move i due a hi hdue =>
    cases a with
    | ask c next =>
      rcases List.mem_append.1 hs with hs | hs
      · exact .inl hs
      · rw [List.mem_singleton.1 hs]
        exact .inr rfl
    | _ => exact .inl hs

/-- What holds of the floor at the beginning holds all the way, and so does the bound. -/
private theorem Floor.Tended.reaches [Fintype ι] [DecidableEq ι] {k k' : Floor Cloud Watched ι α}
    {charges : ι → Option Charge} (h : k.Tended m₀ p charges []) (hreaches : k.Reaches width k')
    (hwidth : width ≤ bound) (hstarted : k.started.card ≤ width)
    (hbounded : ∀ s ∈ k.world.service.steps, (m₀.outstanding s.2).card ≤ bound) {es : List (Exchange Cloud)}
    (hes : k'.world.record = es ++ k.world.record) (htimely : p.Timely es) :
    (∃ charges', k'.Tended m₀ p charges' es) ∧ k'.started.card ≤ width ∧
      ∀ s ∈ k'.world.service.steps, (m₀.outstanding s.2).card ≤ bound := by
  induction hreaches generalizing es with
  | refl =>
    obtain rfl : es = [] := List.append_cancel_right (hes.symm.trans (List.nil_append _).symm)
    exact ⟨⟨charges, h⟩, hstarted, hbounded⟩
  | @tail k₁ k' hreaches hstep ih =>
    obtain ⟨es₁, hes₁⟩ := Floor.Reaches.record hreaches
    obtain ⟨new, hnew⟩ := hstep.record
    have hsplit : es = new ++ es₁ := by
      rw [hes₁, ← List.append_assoc] at hnew
      exact List.append_cancel_right (hes.symm.trans hnew)
    obtain ⟨⟨charges₁, h₁⟩, hstarted₁, hbounded₁⟩ :=
      ih hes₁ (htimely.mono fun e he => hsplit ▸ List.mem_append_right new he)
    obtain ⟨charges', h'⟩ := h₁.step hstep hes₁ hes htimely
    have hstarted' := hstep.card_started_le hstarted₁
    refine ⟨⟨charges', h'⟩, hstarted', fun s hs => ?_⟩
    rcases hstep.steps h₁.sound s hs with hs | hs
    · exact hbounded₁ s hs
    · rw [hs]
      exact Nat.le_trans h'.card_outstanding_le (Nat.le_trans hstarted' hwidth)

/-- Programs that are tidy settle all their operations when they are run side by side. -/
private theorem World.Settled.together {w w' : World Cloud Watched} (h : w.Settled m₀ bound) (hwidth : width ≤ bound)
    {programs : List (Program Cloud α)} (htidy : ∀ a ∈ programs, a.Tidy p) {rs : List α}
    (hrun : RunTogether width programs w rs w') {es : List (Exchange Cloud)} (hes : w'.record = es ++ w.record)
    (htimely : p.Timely es) : w'.Settled m₀ bound := by
  obtain ⟨results, -, hreaches⟩ := hrun
  have hstart : (⟨fun i => .waiting programs[i], w⟩ : Floor Cloud Watched (Fin programs.length) α).Tended m₀ p
      (fun _ => none) [] := by
    refine ⟨h.toSound, fun i => ⟨rfl, htidy _ (List.getElem_mem i.2)⟩, fun i c hc => (by cases hc),
      fun i c hc => (by cases hc), fun i j c d hc => (by cases hc), fun n hn => ?_⟩
    have hn : n ∈ m₀.outstanding w.service.memory := hn
    rw [h.outstanding] at hn
    exact absurd hn (Finset.notMem_empty n)
  have hnobody : (⟨fun i => .waiting programs[i], w⟩ : Floor Cloud Watched (Fin programs.length) α).started = ∅ := by
    simp [Floor.started, Stage.isStarted]
  obtain ⟨⟨charges, hend⟩, -, hbounded⟩ :=
    hstart.reaches hreaches hwidth (by rw [hnobody]; exact Nat.zero_le _) h.bounded hes htimely
  exact ⟨hend.sound, hend.outstanding_eq_empty fun i => ⟨results i, rfl⟩, hbounded⟩

/-- From one world to another, all operations that are started are settled, as long as none times out. -/
private def World.Carries (p : PollPolicy) (m₀ : Memory) (bound : Nat) (w w' : World Cloud Watched) : Prop :=
  ∃ es, w'.record = es ++ w.record ∧ (p.Timely es → w.Settled m₀ bound → w'.Settled m₀ bound)

namespace World.Carries

variable {w w' w'' : World Cloud Watched}

private theorem refl (w : World Cloud Watched) : w.Carries p m₀ bound w := ⟨[], rfl, fun _ h => h⟩

private theorem trans (h : w.Carries p m₀ bound w') (h' : w'.Carries p m₀ bound w'') : w.Carries p m₀ bound w'' := by
  obtain ⟨es, hes, hsettled⟩ := h
  obtain ⟨es', hes', hsettled'⟩ := h'
  refine ⟨es' ++ es, by rw [hes', hes, List.append_assoc], fun htimely hw => ?_⟩
  exact hsettled' (htimely.mono fun e he => List.mem_append_left es he)
    (hsettled (htimely.mono fun e he => List.mem_append_right es' he) hw)

end World.Carries

private theorem carries_together (m₀ : Memory) (hwidth : width ≤ bound) {programs : List (Program Cloud α)}
    (htidy : ∀ a ∈ programs, a.Tidy p) {w w' : World Cloud Watched} {rs : List α}
    (hrun : RunTogether width programs w rs w') : w.Carries p m₀ bound w' := by
  obtain ⟨results, hperm, hreaches⟩ := hrun
  obtain ⟨es, hes⟩ := hreaches.record
  exact ⟨es, hes, fun htimely h => h.together hwidth htidy ⟨results, hperm, hreaches⟩ hes htimely⟩

/-- A program that runs alone is a pool of one. -/
private theorem carries_run (m₀ : Memory) (hbound : 0 < bound) {a : Program Cloud α} (htidy : a.Tidy p)
    (w : World Cloud Watched) : w.Carries p m₀ bound (a.run w).2 := by
  obtain ⟨es, hes, -⟩ := a.trace_run w
  refine ⟨es, hes, fun htimely h => ?_⟩
  have hrun := Runner.pool.together [a] w Nat.one_pos
  have halone : Runner.pool.run 1 [a] w = ([(a.run w).1], (a.run w).2) := runPool_singleton 1 a h.interventions
  rw [halone] at hrun
  refine h.together hbound (fun b hb => ?_) hrun hes htimely
  rw [List.mem_singleton.1 hb]
  exact htidy

end Run

namespace Manager

section Bounded

variable (mgr : Manager) (side : Runner Cloud Watched) (m₀ : Memory)

private theorem bound_pos : 0 < max mgr.concurrency 1 := by omega

private theorem carries_launchWith (group : String) (count : Nat) (t : NodeTemplate) (w : World Cloud Watched) :
    w.Carries mgr.client.poll m₀ (max mgr.concurrency 1) (mgr.launchWith side group count t w).2 := by
  unfold launchWith
  split
  · exact .refl w
  split
  · exact .refl w
  have hchoose := carries_run m₀ mgr.bound_pos (mgr.tidy_chooseNames group count) w
  rcases hrun : (mgr.chooseNames group count).run.run w with ⟨f | names, w'⟩ <;> rw [hrun] at hchoose
  · exact hchoose
  · have hnodes : ∀ a ∈ names.map fun n => mgr.launchNode (.ofTemplate n group (mgr.networkFor group t) t),
        a.Tidy mgr.client.poll := by
      intro a ha
      obtain ⟨n, -, rfl⟩ := List.mem_map.1 ha
      exact mgr.tidy_launchNode _
    have htogether := carries_together m₀ (Nat.le_refl _) hnodes (side.together _ w' mgr.bound_pos)
    exact (hchoose.trans htogether).trans (carries_run m₀ mgr.bound_pos (mgr.tidy_reclaimAfterLaunch _ _) _)

private theorem carries_destroyGroupWith (group : String) (w : World Cloud Watched) :
    w.Carries mgr.client.poll m₀ (max mgr.concurrency 1) (mgr.destroyGroupWith side group w).2 := by
  have hlist := carries_run m₀ mgr.bound_pos
    (mgr.client.tidy_list .instance (.withLabel Naming.groupKey group)) w
  unfold destroyGroupWith
  rcases hrun : (mgr.client.list .instance (.withLabel Naming.groupKey group)).run.run w with ⟨f | members, w'⟩ <;>
    rw [hrun] at hlist
  · exact hlist
  · have hmembers : ∀ a ∈ members.map mgr.destroyMember, a.Tidy mgr.client.poll := by
      intro a ha
      obtain ⟨i, -, rfl⟩ := List.mem_map.1 ha
      exact mgr.tidy_destroyMember i
    have htogether := carries_together m₀ (Nat.le_refl _) hmembers (side.together _ w' mgr.bound_pos)
    simp only
    rcases hside : side.run (max mgr.concurrency 1) (members.map mgr.destroyMember) w' with ⟨rs, w₁⟩
    rw [hside] at htogether
    have hreclaim := (hlist.trans htogether).trans
      (carries_run m₀ mgr.bound_pos (mgr.tidy_reclaimGroup group members rs) w₁)
    simp only
    rcases hlast : (mgr.reclaimGroup group members rs).run.run w₁ with ⟨f | report, w₂⟩ <;> rw [hlast] at hreclaim
    · exact hreclaim
    · exact hreclaim

private theorem carries_performWith (task : Task) (w : World Cloud Watched) :
    w.Carries mgr.client.poll m₀ (max mgr.concurrency 1) (mgr.performWith side task w) := by
  cases task with
  | createNodes group count t => exact mgr.carries_launchWith side m₀ group count t w
  | destroyNode id => exact carries_run m₀ mgr.bound_pos (mgr.tidy_destroyNode id) w
  | destroyGroup group => exact mgr.carries_destroyGroupWith side m₀ group w
  | reclaimNetwork name => exact carries_run m₀ mgr.bound_pos (mgr.client.tidy_reclaimNetwork name) w

end Bounded

end Manager

/-- On a platform without faults, when no operation times out, a manager has never more operations outstanding than
nodes that it may work on at the same time, in whatever order it works on them; and none is outstanding in the end. -/
theorem performWith_bounded (side : Runner Cloud Watched) (mgr : Manager) (task : Task) {m : Memory}
    (hfree : m.FaultFree) (hpolls : m.pollsUntilDone < UInt32.size) {w : World Cloud Watched}
    (hw : w.interventions = []) (hs : w.service = ⟨m, []⟩) {es : List (Exchange Cloud)}
    (hes : (mgr.performWith side task w).record = es ++ w.record) (htimely : mgr.client.poll.Timely es) :
    (∀ s ∈ (mgr.performWith side task w).service.steps, (m.outstanding s.2).card ≤ max mgr.concurrency 1) ∧
      m.outstanding (mgr.performWith side task w).service.memory = ∅ := by
  obtain ⟨es', hes', hcarries⟩ := mgr.carries_performWith side m task w
  obtain rfl : es' = es := List.append_cancel_right (hes'.symm.trans hes)
  have hnone : m.outstanding m = ∅ := by simp [outstanding]
  have hsettled : w.Settled m (max mgr.concurrency 1) := by
    refine ⟨⟨hw, ?_, ?_, ?_⟩, ?_, ?_⟩
    · rw [hs]
      exact hfree
    · rw [hs]
      exact hpolls
    · rw [hs]
    · rw [hs]
      exact hnone
    · rw [hs]
      exact fun s hs => absurd hs List.not_mem_nil
  obtain ⟨-, hempty, hbounded⟩ := hcarries htimely hsettled
  exact ⟨hbounded, hempty⟩

/-- The platform with a group of two nodes, of which every operation takes two polls. -/
def Memory.pair : Memory :=
  ((((Memory.empty "project").withPollsUntilDone 2).seedNode "zone-a" "db-1" "backend" "db").2.seedNode
    "zone-a" "db-2" "backend" "db").2

/-- Two members of a group are taken down side by side: now and then an operation on each of them is outstanding. -/
theorem performWith_bounded_of_pair :
    let mgr : Manager := { Manager.ofClient .standard with concurrency := 2 }
    let w : World Cloud Watched := World.start ⟨pair, []⟩ 0
    let w' := mgr.performWith .pool (.destroyGroup "db") w
    (∃ s ∈ w'.service.steps, (pair.outstanding s.2).card = 2) ∧
      (∀ s ∈ w'.service.steps, (pair.outstanding s.2).card ≤ max mgr.concurrency 1) ∧
      pair.outstanding w'.service.memory = ∅ := by
  intro mgr w w'
  let listing := (mgr.client.list .instance (.withLabel Naming.groupKey "db")).run.run w
  let one := (Memory.empty "project").seedNode "zone-a" "db-1" "backend" "db"
  let members := [one.1, (one.2.seedNode "zone-a" "db-2" "backend" "db").1]
  let pool := (Pool.start mgr.concurrency (members.map mgr.destroyMember)).runWithin 20 listing.2
  have hlisted : listing = (.ok members, listing.2) := Prod.ext (eq_ok_of_toOption (by decide +kernel)) rfl
  have hw' : w' = (mgr.destroyGroup "db" w).2 := mgr.performWith_pool (.destroyGroup "db") w
  rw [destroyGroup_of_pool hlisted (Option.some_get (show pool.isSome = true by decide +kernel)).symm] at hw'
  have htimely : mgr.client.poll.Timely w'.record := by
    refine PollPolicy.timely_of_lt (List.forall_iff_forall_mem.1 ?_)
    rw [hw']
    decide +kernel
  have hfree : pair.FaultFree := ((faultFree_empty "project" 2).seedNode "zone-a" "db-1" "backend" "db").seedNode
    "zone-a" "db-2" "backend" "db"
  refine ⟨?_, performWith_bounded .pool mgr (.destroyGroup "db") hfree (by decide) rfl rfl
    (List.append_nil _).symm htimely⟩
  rw [hw']
  decide +kernel

end Fleet
