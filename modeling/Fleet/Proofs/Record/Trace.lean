import Fleet.Platform.Basic
import Fleet.Proofs.Record.Basic

/-!
# Traces

What one run of a program looks like from inside: when it starts and ends, its result and its exchanges
(`Program.Trace`). Programs that run side by side mix up their exchanges in the record, but the exchanges of each of
them are a trace of it as if it had been alone, and the signal to cancel is to it what it is at the moment at which it
begins (`runPool_traces`). The run of a pool is told apart into its steps by
`Crew.Runs`, so that what holds of every step can be carried through the run by induction. A service
that nobody intervenes with answers the exchanges of a run one after the other (`Served`).
-/

namespace Fleet

variable {S : Signature} {σ ι α β : Type}

/-! ### One program -/

namespace Program

/-- A run of the program from the time `t` on may end at `t'` with the result `a`, having had the exchanges `es`, the
latest first. Whenever it looks at the signal to cancel, this may be set or not. -/
def Trace : Program S α → Nat → α → List (Exchange S) → Nat → Prop
  | .done b, t, a, es, t' => a = b ∧ es = [] ∧ t' = t
  | .ask q k, t, a, es, t' => ∃ r es', es = es' ++ [⟨t, q, r⟩] ∧ (k r).Trace t a es' t'
  | .sleep ms k, t, a, es, t' => k.Trace (t + ms) a es t'
  | .clock k, t, a, es, t' => (k t).Trace t a es t'
  | .cancelled k, t, a, es, t' => ∃ stop, (k stop).Trace t a es t'

/-- What is left of a program that looks at the signal to cancel before anything else, when it has found out. -/
def told (stop : Bool) : Program S α → Program S α
  | .cancelled k => k stop
  | p => p

variable {stop : Bool} {t t' : Nat} {es : List (Exchange S)}

theorem trace_done {a b : α} : (Program.done b).Trace t a es t' ↔ a = b ∧ es = [] ∧ t' = t := Iff.rfl

theorem trace_ask {q : S.Query} {k : S.Answer q → Program S α} {a : α} :
    (Program.ask q k).Trace t a es t' ↔ ∃ r es', es = es' ++ [⟨t, q, r⟩] ∧ (k r).Trace t a es' t' := Iff.rfl

theorem trace_sleep {ms : Nat} {k : Program S α} {a : α} :
    (Program.sleep ms k).Trace t a es t' ↔ k.Trace (t + ms) a es t' := Iff.rfl

theorem trace_clock {k : Nat → Program S α} {a : α} :
    (Program.clock k).Trace t a es t' ↔ (k t).Trace t a es t' := Iff.rfl

theorem trace_cancelled {k : Bool → Program S α} {a : α} :
    (Program.cancelled k).Trace t a es t' ↔ ∃ stop, (k stop).Trace t a es t' := Iff.rfl

theorem trace_bind {p : Program S α} {f : α → Program S β} {b : β} :
    (p.bind f).Trace t b es t' ↔ ∃ a es₁ t₁ es₂, es = es₂ ++ es₁ ∧ p.Trace t a es₁ t₁ ∧
      (f a).Trace t₁ b es₂ t' := by
  induction p generalizing t es with
  | done a =>
    constructor
    · intro h
      exact ⟨a, [], t, es, (List.append_nil es).symm, ⟨rfl, rfl, rfl⟩, h⟩
    · rintro ⟨b', es₁, t₁, es₂, rfl, ⟨rfl, rfl, rfl⟩, h⟩
      rw [List.append_nil]
      exact h
  | ask q k ih =>
    constructor
    · rintro ⟨r, es', rfl, h⟩
      obtain ⟨a, es₁, t₁, es₂, rfl, h₁, h₂⟩ := (ih r).1 h
      exact ⟨a, es₁ ++ [⟨t, q, r⟩], t₁, es₂, List.append_assoc .., ⟨r, es₁, rfl, h₁⟩, h₂⟩
    · rintro ⟨a, es₁, t₁, es₂, rfl, ⟨r, es', rfl, h₁⟩, h₂⟩
      exact ⟨r, es₂ ++ es', (List.append_assoc ..).symm, (ih r).2 ⟨a, es', t₁, es₂, rfl, h₁, h₂⟩⟩
  | sleep ms k ih => exact ih
  | clock k ih => exact ih t
  | cancelled k ih =>
    constructor
    · rintro ⟨stop, h⟩
      obtain ⟨a, es₁, t₁, es₂, hes, h₁, h₂⟩ := (ih stop).1 h
      exact ⟨a, es₁, t₁, es₂, hes, ⟨stop, h₁⟩, h₂⟩
    · rintro ⟨a, es₁, t₁, es₂, hes, ⟨stop, h₁⟩, h₂⟩
      exact ⟨stop, (ih stop).2 ⟨a, es₁, t₁, es₂, hes, h₁, h₂⟩⟩

/-- What a program may do when it has looked at the signal it may do altogether. -/
theorem Trace.of_told {p : Program S α} {a : α} (h : (p.told stop).Trace t a es t') : p.Trace t a es t' := by
  cases p with
  | cancelled k => exact ⟨stop, h⟩
  | done _ => exact h
  | ask _ _ => exact h
  | sleep _ _ => exact h
  | clock _ => exact h

theorem Trace.le {p : Program S α} {a : α} (h : p.Trace t a es t') : t ≤ t' := by
  induction p generalizing t es with
  | done b => exact Nat.le_of_eq h.2.2.symm
  | ask q k ih =>
    obtain ⟨r, es', -, h⟩ := h
    exact ih r h
  | sleep ms k ih => exact Nat.le_trans (Nat.le_add_right t ms) (ih h)
  | clock k ih => exact ih t h
  | cancelled k ih =>
    obtain ⟨stop, h⟩ := h
    exact ih stop h

/-- Questions are put while the program runs. -/
theorem Trace.time_mem {p : Program S α} {a : α} (h : p.Trace t a es t') {e : Exchange S} (he : e ∈ es) :
    t ≤ e.time ∧ e.time ≤ t' := by
  induction p generalizing t es with
  | done b =>
    obtain ⟨-, rfl, -⟩ := h
    exact absurd he List.not_mem_nil
  | ask q k ih =>
    obtain ⟨r, es', rfl, h⟩ := h
    rcases List.mem_append.1 he with he | he
    · exact ih r h he
    · rw [List.mem_singleton.1 he]
      exact ⟨Nat.le_refl t, h.le⟩
  | sleep ms k ih =>
    obtain ⟨hstart, hend⟩ := ih h he
    exact ⟨Nat.le_trans (Nat.le_add_right t ms) hstart, hend⟩
  | clock k ih => exact ih t h he
  | cancelled k ih =>
    obtain ⟨stop, h⟩ := h
    exact ih stop h he

/-- What always holds of a program holds of each of its traces. -/
theorem Always.trace {p : Program S α} {Q : α → List (Exchange S) → Prop} (hp : p.Always Q) {a : α}
    (h : p.Trace t a es t') : Q a es := by
  induction p generalizing Q t es with
  | done b =>
    obtain ⟨rfl, rfl, -⟩ := h
    exact always_done.1 hp
  | ask q k ih =>
    obtain ⟨r, es', rfl, h⟩ := h
    have hQ := ih r (always_ask.1 hp t r) h
    exact hQ
  | sleep ms k ih => exact ih (always_sleep.1 hp) h
  | clock k ih => exact ih t (always_clock.1 hp t) h
  | cancelled k ih =>
    obtain ⟨stop, h⟩ := h
    exact ih stop (always_cancelled.1 hp stop) h

/-- A program that is run leaves a trace. -/
theorem trace_run [Service S σ] (p : Program S α) (w : World S σ) :
    ∃ es, (p.run w).2.record = es ++ w.record ∧ (p.run w).2.signal = w.signal ∧
      p.Trace w.now (p.run w).1 es (p.run w).2.now := by
  induction p generalizing w with
  | done a => exact ⟨[], rfl, rfl, rfl, rfl, rfl⟩
  | ask q k ih =>
    obtain ⟨es, hes, hsignal, h⟩ := ih (w.ask q).1 (w.ask q).2
    have hsplit : (es ++ [⟨w.now, q, (w.ask q).1⟩]) ++ w.record = es ++ (w.ask q).2.record := List.append_assoc ..
    exact ⟨_, hes.trans hsplit.symm, hsignal, (w.ask q).1, es, rfl, h⟩
  | sleep ms k ih =>
    have hnow : (w.advanceTo (w.now + ms)).now = w.now + ms := by
      show max w.now (w.now + ms) = w.now + ms
      omega
    obtain ⟨es, hes, hsignal, h⟩ := ih (w.advanceTo (w.now + ms))
    rw [hnow] at h
    exact ⟨es, hes, hsignal, h⟩
  | clock k ih => exact ih w.now w
  | cancelled k ih =>
    obtain ⟨es, hes, hsignal, h⟩ := ih w.isCancelled w
    exact ⟨es, hes, hsignal, w.isCancelled, h⟩

end Program

/-- The exchanges `es` of one turn, during which no time passes. -/
private structure World.Puts (w : World S σ) (es : List (Exchange S)) (w' : World S σ) : Prop where
  now_eq : w'.now = w.now
  signal_eq : w'.signal = w.signal
  record_eq : w'.record = es ++ w.record
  time_eq : ∀ e ∈ es, e.time = w.now

namespace Program

private theorem puts_nil (w : World S σ) : w.Puts [] w := ⟨rfl, rfl, rfl, fun _ he => absurd he List.not_mem_nil⟩

/-- The exchange of a question is the earliest of what is left of the turn. -/
private theorem puts_ask [Service S σ] {w w' : World S σ} {q : S.Query} {es : List (Exchange S)}
    (h : (w.ask q).2.Puts es w') : w.Puts (es ++ [⟨w.now, q, (w.ask q).1⟩]) w' := by
  refine ⟨h.now_eq, h.signal_eq, ?_, fun e he => ?_⟩
  · rw [List.append_assoc]
    exact h.record_eq
  · rcases List.mem_append.1 he with he | he
    · exact h.time_eq e he
    · rw [List.mem_singleton.1 he]

/-- A turn takes no time. When it ends in sleep, a trace of the rest goes on from what has been asked so far. -/
private theorem trace_turn [Service S σ] (p : Program S α) (w : World S σ) :
    match p.turn w with
    | .ended a w' => ∃ es, w.Puts es w' ∧ p.Trace w.now a es w.now
    | .asleep ms q w' => ∃ es, w.Puts es w' ∧
        ∀ a es' t', q.Trace (w.now + ms) a es' t' → p.Trace w.now a (es' ++ es) t' := by
  induction p generalizing w with
  | done a => exact ⟨[], puts_nil w, rfl, rfl, rfl⟩
  | ask q k ih =>
    have h := ih (w.ask q).1 (w.ask q).2
    rw [turn]
    split
    · next ht =>
      rw [ht] at h
      obtain ⟨es, hes, h⟩ := h
      exact ⟨_, puts_ask hes, (w.ask q).1, es, rfl, h⟩
    · next ht =>
      rw [ht] at h
      obtain ⟨es, hes, h⟩ := h
      refine ⟨_, puts_ask hes, fun a es' t' hq => ?_⟩
      exact ⟨(w.ask q).1, es' ++ es, (List.append_assoc ..).symm, h a es' t' hq⟩
  | sleep ms k ih =>
    cases ms with
    | zero => exact ih w
    | succ ms => exact ⟨[], puts_nil w, fun a es' t' hq => by rw [List.append_nil]; exact hq⟩
  | clock k ih => exact ih w.now w
  | cancelled k ih =>
    have h := ih w.isCancelled w
    rw [turn]
    split
    · next ht =>
      rw [ht] at h
      obtain ⟨es, hes, h⟩ := h
      exact ⟨es, hes, w.isCancelled, h⟩
    · next ht =>
      rw [ht] at h
      obtain ⟨es, hes, h⟩ := h
      exact ⟨es, hes, fun a es' t' hq => ⟨w.isCancelled, h a es' t' hq⟩⟩

/-- When its turn comes, a program finds the signal to cancel as it is. -/
private theorem turn_told [Service S σ] (p : Program S α) (w : World S σ) :
    (p.told w.isCancelled).turn w = p.turn w := by
  cases p <;> rfl

private theorem trace_of_ended [Service S σ] {p : Program S α} {w w' : World S σ} {a : α}
    (h : p.turn w = .ended a w') : ∃ es, w.Puts es w' ∧ (p.told w.isCancelled).Trace w.now a es w.now := by
  have hturn := trace_turn (p.told w.isCancelled) w
  rwa [turn_told, h] at hturn

private theorem trace_of_asleep [Service S σ] {p q : Program S α} {w w' : World S σ} {ms : Nat}
    (h : p.turn w = .asleep ms q w') : ∃ es, w.Puts es w' ∧
      ∀ a es' t', q.Trace (w.now + ms) a es' t' → (p.told w.isCancelled).Trace w.now a (es' ++ es) t' := by
  have hturn := trace_turn (p.told w.isCancelled) w
  rwa [turn_told, h] at hturn

end Program

/-- An action after another one goes on with its result, unless it has failed. -/
theorem Action.trace_bind {a : Action α} {k : α → Action β} {t t' : Nat}
    {r : Except Failure β} {es : List (Exchange Cloud)} (h : (a >>= k).run.Trace t r es t') :
    (∃ v es₁ t₁ es₂, es = es₂ ++ es₁ ∧ a.run.Trace t (.ok v) es₁ t₁ ∧ (k v).run.Trace t₁ r es₂ t') ∨
      ∃ f, r = .error f ∧ a.run.Trace t (.error f) es t' := by
  obtain ⟨x, es₁, t₁, es₂, rfl, ha, h⟩ := Program.trace_bind.1 h
  cases x with
  | ok v => exact .inl ⟨v, es₁, t₁, es₂, rfl, ha, h⟩
  | error f =>
    obtain ⟨rfl, rfl, rfl⟩ := Program.trace_done.1 h
    exact .inr ⟨f, rfl, ha⟩

/-! ### A service that is left alone -/

/-- A service that nothing happens to but the questions of the exchanges, the latest first, comes from the state `s` to
another one by answering them. -/
inductive Served [Service S σ] (s : σ) : List (Exchange S) → σ → Prop
  | nil : Served s [] s
  | cons {es : List (Exchange S)} {s' : σ} (h : Served s es s') (t : Nat) (q : S.Query) :
      Served s (⟨t, q, (Service.answer q s').1⟩ :: es) (Service.answer q s').2

namespace Served

variable [Service S σ] {s s' s'' : σ} {es es' : List (Exchange S)}

theorem append (h : Served s es s') (h' : Served s' es' s'') : Served s (es' ++ es) s'' := by
  induction h' with
  | nil => exact h
  | cons _ t q ih => exact ih.cons t q

theorem split (h : Served s (es' ++ es) s'') : ∃ s', Served s es s' ∧ Served s' es' s'' := by
  induction es' generalizing s'' with
  | nil => exact ⟨s'', h, .nil⟩
  | cons e es' ih =>
    cases h with
    | cons h t q =>
      obtain ⟨s', hbefore, hafter⟩ := ih h
      exact ⟨s', hbefore, hafter.cons t q⟩

end Served

/-- In a world in which nothing happens from outside, a program finds the service as it has left it. -/
theorem Program.run_served [Service S σ] (p : Program S α) {w : World S σ} (hw : w.interventions = []) :
    ∃ es, (p.run w).2.record = es ++ w.record ∧ Served w.service es (p.run w).2.service ∧
      (p.run w).2.interventions = [] := by
  induction p generalizing w with
  | done a => exact ⟨[], rfl, .nil, hw⟩
  | ask q k ih =>
    obtain ⟨es, hes, hserved, hquiet⟩ := ih (w.ask q).1 (w := (w.ask q).2) hw
    have hfirst : Served w.service [⟨w.now, q, (w.ask q).1⟩] (w.ask q).2.service := Served.nil.cons w.now q
    have hsplit : (es ++ [⟨w.now, q, (w.ask q).1⟩]) ++ w.record = es ++ (w.ask q).2.record := List.append_assoc ..
    exact ⟨_, hes.trans hsplit.symm, hfirst.append hserved, hquiet⟩
  | sleep ms k ih =>
    have hstill : (w.advanceTo (w.now + ms)).service = w.service ∧ (w.advanceTo (w.now + ms)).interventions = [] := by
      simp [World.advanceTo, World.intervene, hw]
    have hrun := ih (w := w.advanceTo (w.now + ms)) hstill.2
    rw [hstill.1] at hrun
    exact hrun
  | clock k ih => exact ih w.now hw
  | cancelled k ih => exact ih w.isCancelled hw

/-! ### The steps of a pool -/

namespace Crew

/-- The pool of a crew. -/
def pool (k : Crew S ι α) : Pool S α := ⟨k.ready.map (·.2), k.asleep.map (·.2), k.waiting.map (·.2)⟩

private theorem pool_release (k : Crew S ι α) : k.release.pool = k.pool.release := by
  simp [pool, Crew.release, Pool.release, List.map_take, List.map_tail]

private theorem pool_suspend (k : Crew S ι α) (i : ι) (s : Sleeper S α) :
    (k.suspend (i, s)).pool = k.pool.suspend s := by
  simp [pool, Crew.suspend, Pool.suspend, List.map_tail]

private theorem pool_wake {k : Crew S ι α} {t : Nat} (ht : Pool.earliest (k.asleep.map (·.2)) = some t)
    (w : World S σ) : k.pool.wake w = ((k.wake t).pool, w.advanceTo t) := by
  simp [Pool.wake, pool, ht, Crew.wake, List.filter_map, Function.comp_def]

private theorem pool_start (width : Nat) (is : List ι) (program : ι → Program S α) :
    (start width is program).pool = Pool.start width (is.map program) := by
  simp [pool, start, Pool.start, List.map_take, List.map_drop, Function.comp_def]

variable [Service S σ]

/-- The crew is run to its end, with the results `rs` in the order in which the programs end. -/
inductive Runs : Crew S ι α → World S σ → List (ι × α) → World S σ → Prop
  | idle (w : World S σ) : Runs ⟨[], [], []⟩ w [] w
  | wake {k : Crew S ι α} {w w' : World S σ} {rs : List (ι × α)} {t : Nat} (hk : k.ready = [])
      (ht : Pool.earliest (k.asleep.map (·.2)) = some t) (h : Runs (k.wake t) (w.advanceTo t) rs w') : Runs k w rs w'
  | ended {k : Crew S ι α} {w w₁ w' : World S σ} {rs : List (ι × α)} {i : ι} {p : Program S α}
      {ps : List (ι × Program S α)} {a : α} (hk : k.ready = (i, p) :: ps) (ht : p.turn w = .ended a w₁)
      (h : Runs k.release w₁ rs w') : Runs k w ((i, a) :: rs) w'
  | asleep {k : Crew S ι α} {w w₁ w' : World S σ} {rs : List (ι × α)} {i : ι} {p q : Program S α}
      {ps : List (ι × Program S α)} {ms : Nat} (hk : k.ready = (i, p) :: ps) (ht : p.turn w = .asleep ms q w₁)
      (h : Runs (k.suspend (i, ⟨w₁.now + ms, q⟩)) w₁ rs w') : Runs k w rs w'

/-- A pool that has settled is that of a crew to which the run goes on, and of nobody when nothing is ready. -/
private theorem settle {k : Crew S ι α} (hk : k.Busy) (w : World S σ) :
    ∃ k' : Crew S ι α, k'.pool = (k.pool.settle w).1 ∧ k'.Busy ∧ (k'.ready = [] → k' = ⟨[], [], []⟩) ∧
      ∀ rs w', k'.Runs (k.pool.settle w).2 rs w' → k.Runs w rs w' := by
  by_cases hready : k.ready = []
  · have hsettle : k.pool.settle w = k.pool.wake w := by simp [Pool.settle, pool, hready]
    cases ht : Pool.earliest (k.asleep.map (·.2)) with
    | none =>
      have hasleep : k.asleep = [] := List.map_eq_nil_iff.1 (Pool.earliest_eq_none ht)
      have hwaiting : k.waiting = [] := hk.waiting_eq_nil hready hasleep
      have hwake : k.pool.wake w = (k.pool, w) := by simp [Pool.wake, pool, ht]
      have hempty : k = ⟨[], [], []⟩ := by
        obtain ⟨ready, asleep, waiting⟩ := k
        simp only at hready hasleep hwaiting
        rw [hready, hasleep, hwaiting]
      rw [hsettle, hwake]
      exact ⟨k, rfl, hk, fun _ => hempty, fun _ _ h => h⟩
    | some t =>
      obtain ⟨-, s, hs, hst⟩ := Pool.earliest_eq_some ht
      obtain ⟨e, he, rfl⟩ := List.mem_map.1 hs
      have hne : (k.wake t).ready ≠ [] := ready_wake_ne_nil he (Nat.le_of_eq hst)
      rw [hsettle, pool_wake ht]
      exact ⟨k.wake t, rfl, fun _ => .inl hne, fun h => absurd h hne, fun _ _ h => .wake hready ht h⟩
  · have hsettle : k.pool.settle w = (k.pool, w) := by simp [Pool.settle, pool, hready]
    rw [hsettle]
    exact ⟨k, rfl, hk, fun h => absurd h hready, fun _ _ h => h⟩

private theorem runs_run {k : Crew S ι α} (hk : k.Busy) (w : World S σ) :
    ∃ rs, (k.pool.run w).1 = rs.map (·.2) ∧ k.Runs w rs (k.pool.run w).2 := by
  generalize hp : k.pool = p
  -- The induction is on the run of the pool; settling supplies the crew of each of its turns.
  induction p, w using Pool.run.induct generalizing k with
  | case1 p w hr =>
    obtain ⟨k', hpool, -, hnil, hruns⟩ := settle hk w
    rw [hp] at hpool hruns
    have hk' : k' = ⟨[], [], []⟩ := hnil (List.map_eq_nil_iff.1 ((congrArg Pool.ready hpool).trans hr))
    rw [Pool.run_of_nil hr]
    exact ⟨[], rfl, hruns _ _ (hk' ▸ .idle _)⟩
  | case2 p w a as hr r w' ht ih =>
    obtain ⟨k', hpool, -, -, hruns⟩ := settle hk w
    rw [hp] at hpool hruns
    obtain ⟨⟨i, a'⟩, ps, hk', rfl, -⟩ : ∃ e ps, k'.ready = e :: ps ∧ e.2 = a ∧ ps.map (·.2) = as :=
      List.map_eq_cons_iff.1 ((congrArg Pool.ready hpool).trans hr)
    obtain ⟨rs, hrs, h⟩ := ih (busy_release k') (by rw [pool_release, hpool])
    rw [Pool.run_of_ended hr ht]
    exact ⟨(i, r) :: rs, by rw [hrs, List.map_cons], hruns _ _ (.ended hk' ht h)⟩
  | case3 p w a as hr ms q w' ht ih =>
    obtain ⟨k', hpool, -, -, hruns⟩ := settle hk w
    rw [hp] at hpool hruns
    obtain ⟨⟨i, a'⟩, ps, hk', rfl, -⟩ : ∃ e ps, k'.ready = e :: ps ∧ e.2 = a ∧ ps.map (·.2) = as :=
      List.map_eq_cons_iff.1 ((congrArg Pool.ready hpool).trans hr)
    have hbusy : (k'.suspend (i, ⟨w'.now + ms, q⟩)).Busy := fun _ => .inr (by simp [Crew.suspend])
    obtain ⟨rs, hrs, h⟩ := ih hbusy (by rw [pool_suspend, hpool])
    rw [Pool.run_of_asleep hr ht]
    exact ⟨rs, hrs, hruns _ _ (.asleep hk' ht h)⟩

/-- The run of a pool is that of the crew with which it starts. -/
theorem runs_runPool (width : Nat) (is : List ι) (program : ι → Program S α) (w : World S σ) :
    ∃ rs, (runPool width (is.map program) w).1 = rs.map (·.2) ∧
      (start width is program).Runs w rs (runPool width (is.map program) w).2 := by
  have hrun := runs_run (busy_start width is program) w
  rw [pool_start] at hrun
  exact hrun

end Crew

/-! ### The exchanges of one program among those of others -/

/-- The exchanges that bear a name. -/
def callsOf [DecidableEq ι] (i : ι) (calls : List (ι × Exchange S)) : List (Exchange S) :=
  (calls.filter fun c => c.1 = i).map (·.2)

section CallsOf

variable [DecidableEq ι] {i j : ι} {calls later earlier : List (ι × Exchange S)}

theorem callsOf_append : callsOf i (later ++ earlier) = callsOf i later ++ callsOf i earlier := by
  rw [callsOf, List.filter_append, List.map_append]
  rfl

theorem callsOf_eq_nil (h : ∀ c ∈ calls, c.1 ≠ i) : callsOf i calls = [] := by
  have hnone : (calls.filter fun c => decide (c.1 = i)) = [] :=
    List.filter_eq_nil_iff.2 fun c hc => by simpa using h c hc
  rw [callsOf, hnone, List.map_nil]

theorem callsOf_map_self (i : ι) (es : List (Exchange S)) : callsOf i (es.map fun e => (i, e)) = es := by
  induction es with
  | nil => rfl
  | cons e es ih => simpa [callsOf] using ih

theorem callsOf_map_of_ne (h : j ≠ i) (es : List (Exchange S)) : callsOf i (es.map fun e => (j, e)) = [] :=
  callsOf_eq_nil fun c hc => by
    obtain ⟨e, -, rfl⟩ := List.mem_map.1 hc
    exact h

end CallsOf

/-! ### The traces of the programs of a pool -/

namespace Crew

/-- The program of `i` starts or goes on at the time `t`, when it is `now`. One that waits starts some time. -/
inductive Due (k : Crew S ι α) (now : Nat) : ι → Program S α → Nat → Prop
  | ready {i : ι} {p : Program S α} (h : (i, p) ∈ k.ready) : Due k now i p now
  | asleep {i : ι} {s : Sleeper S α} (h : (i, s) ∈ k.asleep) : Due k now i s.rest s.wakeAt
  | waiting {i : ι} {p : Program S α} {t : Nat} (h : (i, p) ∈ k.waiting) (ht : now ≤ t) : Due k now i p t

variable {k : Crew S ι α} {now t : Nat} {i j : ι} {p q : Program S α}

theorem Due.mem_names (h : k.Due now i p t) : i ∈ k.names := by
  unfold names
  cases h with
  | ready h => exact List.mem_append_left _ (List.mem_append_left _ (List.mem_map_of_mem h))
  | asleep h => exact List.mem_append_left _ (List.mem_append_right _ (List.mem_map_of_mem h))
  | waiting h => exact List.mem_append_right _ (List.mem_map_of_mem h)

/-- The crew without its head. -/
private def others (k : Crew S ι α) : Crew S ι α := ⟨k.ready.tail, k.asleep, k.waiting⟩

private theorem names_of_head {rs : List (ι × Program S α)} (hk : k.ready = (i, p) :: rs) :
    k.names = i :: k.others.names := by
  simp [names, others, hk]

private theorem Due.of_others (h : k.others.Due now i p t) : k.Due now i p t := by
  cases h with
  | ready h => exact .ready (List.mem_of_mem_tail h)
  | asleep h => exact .asleep h
  | waiting h ht => exact .waiting h ht

private theorem Due.of_release (h : k.release.Due now i p t) : k.others.Due now i p t := by
  cases h with
  | ready h =>
    rcases List.mem_append.1 h with h | h
    · exact .ready h
    · exact .waiting (List.mem_of_mem_take h) (Nat.le_refl now)
  | asleep h => exact .asleep h
  | waiting h ht => exact .waiting (List.mem_of_mem_drop h) ht

private theorem Due.of_suspend {s : Sleeper S α} (h : (k.suspend (j, s)).Due now i p t) :
    k.others.Due now i p t ∨ i = j ∧ p = s.rest ∧ t = s.wakeAt := by
  cases h with
  | ready h => exact .inl (.ready h)
  | asleep h =>
    simp only [Crew.suspend, List.mem_append, List.mem_singleton, Prod.mk.injEq] at h
    rcases h with h | ⟨rfl, rfl⟩
    · exact .inl (.asleep h)
    · exact .inr ⟨rfl, rfl, rfl⟩
  | waiting h ht => exact .inl (.waiting h ht)

private theorem Due.of_wake {later : Nat} (hr : k.ready = []) (he : Pool.earliest (k.asleep.map (·.2)) = some later)
    (hle : now ≤ later) (h : (k.wake later).Due later i p t) : k.Due now i p t := by
  cases h with
  | ready h =>
    simp only [Crew.wake, hr, List.nil_append, List.mem_map, List.mem_filter, decide_eq_true_eq] at h
    obtain ⟨⟨i, s⟩, ⟨hs, hdue⟩, rfl, rfl⟩ := h
    -- Nobody wakes up before the earliest time, so those who are due wake up at that time.
    have hearliest := (Pool.earliest_eq_some he).1 s (List.mem_map_of_mem hs)
    have hwake : s.wakeAt = t := Nat.le_antisymm hdue hearliest
    rw [← hwake]
    exact .asleep hs
  | asleep h => exact .asleep (List.mem_filter.1 h).1
  | waiting h ht => exact .waiting h (Nat.le_trans hle ht)

end Crew

/-- The program `i` begins at the time `t`, when the exchanges `earlier` are over, none of which is its own. -/
structure Begins (i : ι) (calls : List (ι × Exchange S)) (t : Nat) (earlier later : List (ι × Exchange S)) : Prop where
  calls_eq : calls = later ++ earlier
  before : ∀ c ∈ earlier, c.2.time ≤ t ∧ c.1 ≠ i
  after : ∀ c ∈ later, t ≤ c.2.time

section Begins

variable {i j : ι} {w w₁ : World S σ} {calls earlier later : List (ι × Exchange S)} {es : List (Exchange S)} {t : Nat}

/-- A program that begins later does so after the turn. -/
private theorem begins_turn (h : Begins j calls t earlier later) (hij : i ≠ j) (hes : w.Puts es w₁) (ht : w.now ≤ t) :
    Begins j (calls ++ es.map fun e => (i, e)) t (earlier ++ es.map fun e => (i, e)) later := by
  refine ⟨?_, fun c hmem => ?_, h.after⟩
  · rw [h.calls_eq, List.append_assoc]
  · rcases List.mem_append.1 hmem with hmem | hmem
    · exact h.before c hmem
    · obtain ⟨e, he, rfl⟩ := List.mem_map.1 hmem
      exact ⟨hes.time_eq e he ▸ ht, hij⟩

/-- The signal at a later moment, by the number of questions that have been put until then. -/
private theorem signal_turn (hes : w.Puts es w₁) (i : ι) (earlier : List (ι × Exchange S)) (t : Nat) :
    w₁.signal t (earlier.length + w₁.record.length) =
      w.signal t ((earlier ++ es.map fun e => (i, e)).length + w.record.length) := by
  have hlength : earlier.length + w₁.record.length =
      (earlier ++ es.map fun e => (i, e)).length + w.record.length := by
    rw [hes.record_eq, List.length_append, List.length_append, List.length_map, Nat.add_assoc]
  rw [hes.signal_eq, hlength]

/-- A program that has its turn begins now. -/
private theorem begins_now (h : ∀ c ∈ calls, w.now ≤ c.2.time) : Begins i calls w.now [] calls :=
  ⟨(List.append_nil calls).symm, fun _ hmem => absurd hmem List.not_mem_nil, h⟩

private theorem signal_now (w : World S σ) :
    w.signal w.now (([] : List (ι × Exchange S)).length + w.record.length) = w.isCancelled := by
  rw [World.isCancelled, List.length_nil, Nat.zero_add]

end Begins

/-- What a run of programs side by side has left: the exchanges bear the names of the programs, and those of each
program are a trace of it, from the moment on at which it begins. -/
private structure Traced [DecidableEq ι] (k : Crew S ι α) (w : World S σ) (rs : List (ι × α)) (w' : World S σ)
    (calls : List (ι × Exchange S)) : Prop where
  now_le : w.now ≤ w'.now
  names : (rs.map (·.1)).Perm k.names
  record : w'.record = calls.map (·.2) ++ w.record
  labels : ∀ c ∈ calls, c.1 ∈ k.names
  times : ∀ c ∈ calls, w.now ≤ c.2.time
  traces : ∀ e ∈ rs, ∃ p t t' earlier later, k.Due w.now e.1 p t ∧ w.now ≤ t ∧ t' ≤ w'.now ∧
    Begins e.1 calls t earlier later ∧
    (p.told (w.signal t (earlier.length + w.record.length))).Trace t e.2 (callsOf e.1 calls) t'

namespace Traced

variable [DecidableEq ι] {k k' : Crew S ι α} {w w₁ w' : World S σ} {rs : List (ι × α)} {i j : ι} {p : Program S α}
  {ps : List (ι × Program S α)} {calls : List (ι × Exchange S)} {es : List (Exchange S)} {t : Nat}

/-! The exchanges `es` of a turn of the program `i` come before those of the rest of the run. -/

private theorem record_turn (hc : Traced k' w₁ rs w' calls) (hes : w.Puts es w₁) :
    w'.record = (calls ++ es.map fun e => (i, e)).map (·.2) ++ w.record := by
  rw [hc.record, hes.record_eq, List.map_append, List.append_assoc, List.map_map]
  simp [Function.comp_def]

private theorem labels_turn (hc : Traced k' w₁ rs w' calls) (hnames : ∀ j ∈ k'.names, j ∈ k.names) (hi : i ∈ k.names)
    (es : List (Exchange S)) : ∀ c ∈ calls ++ es.map fun e => (i, e), c.1 ∈ k.names := by
  intro c hmem
  rcases List.mem_append.1 hmem with hmem | hmem
  · exact hnames _ (hc.labels c hmem)
  · obtain ⟨e, -, rfl⟩ := List.mem_map.1 hmem
    exact hi

private theorem times_turn (hc : Traced k' w₁ rs w' calls) (hes : w.Puts es w₁) (i : ι) :
    ∀ c ∈ calls ++ es.map fun e => (i, e), w.now ≤ c.2.time := by
  intro c hmem
  rcases List.mem_append.1 hmem with hmem | hmem
  · exact hes.now_eq ▸ hc.times c hmem
  · obtain ⟨e, he, rfl⟩ := List.mem_map.1 hmem
    exact Nat.le_of_eq (hes.time_eq e he).symm

private theorem callsOf_turn_self : callsOf i (calls ++ es.map fun e => (i, e)) = callsOf i calls ++ es := by
  rw [callsOf_append, callsOf_map_self]

private theorem callsOf_turn_of_ne (h : i ≠ j) :
    callsOf j (calls ++ es.map fun e => (i, e)) = callsOf j calls := by
  rw [callsOf_append, callsOf_map_of_ne h, List.append_nil]

/-! What the rest of a run has left, and what the run with its first step has. -/

private theorem wake (hk : k.ready = []) (ht : Pool.earliest (k.asleep.map (·.2)) = some t) (hle : w.now ≤ t)
    (hc : Traced (k.wake t) (w.advanceTo t) rs w' calls) : Traced k w rs w' calls := by
  have hnow : (w.advanceTo t).now = t := Nat.max_eq_right hle
  have hperm := Crew.names_wake k t
  have hlater := hc.now_le
  rw [hnow] at hlater
  refine ⟨Nat.le_trans hle hlater, hc.names.trans hperm, hc.record, fun c hmem => hperm.mem_iff.1 (hc.labels c hmem),
    fun c hmem => ?_, fun e he => ?_⟩
  · have htime := hc.times c hmem
    rw [hnow] at htime
    exact Nat.le_trans hle htime
  · obtain ⟨q, u, u', earlier, later, hdue, hu, hend, hbegins, htrace⟩ := hc.traces e he
    rw [hnow] at hdue hu
    exact ⟨q, u, u', earlier, later, hdue.of_wake hk ht hle, Nat.le_trans hle hu, hend, hbegins, htrace⟩

/-- What has become of another program than the one that has had its turn. -/
private theorem other {e : ι × α} (hc : Traced k' w₁ rs w' calls) (he : e ∈ rs) (hes : w.Puts es w₁) (hie : i ≠ e.1) :
    ∃ p t t' earlier later, k'.Due w.now e.1 p t ∧ w.now ≤ t ∧ t' ≤ w'.now ∧
      Begins e.1 (calls ++ es.map fun e => (i, e)) t earlier later ∧
      (p.told (w.signal t (earlier.length + w.record.length))).Trace t e.2
        (callsOf e.1 (calls ++ es.map fun e => (i, e))) t' := by
  obtain ⟨q, u, u', earlier, later, hdue, hu, hend, hbegins, htrace⟩ := hc.traces e he
  rw [hes.now_eq] at hdue hu
  rw [signal_turn hes i] at htrace
  refine ⟨q, u, u', _, later, hdue, hu, hend, begins_turn hbegins hie hes hu, ?_⟩
  rwa [callsOf_turn_of_ne hie]

private theorem ended [Service S σ] {a : α} (hk : k.ready = (i, p) :: ps) (ht : p.turn w = .ended a w₁)
    (hnodup : k.names.Nodup) (hc : Traced k.release w₁ rs w' calls) :
    ∃ calls', Traced k w ((i, a) :: rs) w' calls' := by
  obtain ⟨es, hes, htrace⟩ := Program.trace_of_ended ht
  have hnow := hes.now_eq
  have hperm := Crew.names_release hk
  have hi : i ∉ k.release.names := (List.nodup_cons.1 (hperm.nodup_iff.1 hnodup)).1
  have hlabels := hc.labels_turn (fun j hj => hperm.mem_iff.2 (List.mem_cons_of_mem _ hj))
    (hperm.mem_iff.2 List.mem_cons_self) es
  have htimes := hc.times_turn hes i
  refine ⟨_, hnow ▸ hc.now_le, (hc.names.cons i).trans hperm.symm, hc.record_turn hes, hlabels, htimes, fun e he => ?_⟩
  rcases List.mem_cons.1 he with rfl | he
  · -- The program that has ended asks nothing afterwards.
    have hnone : callsOf i calls = [] := callsOf_eq_nil fun c hmem hci => hi (hci ▸ hc.labels c hmem)
    refine ⟨p, w.now, w.now, [], _, .ready (hk ▸ List.mem_cons_self), Nat.le_refl _, hnow ▸ hc.now_le,
      begins_now htimes, ?_⟩
    rw [callsOf_turn_self, hnone, List.nil_append, signal_now]
    exact htrace
  · have hie : i ≠ e.1 := by
      obtain ⟨_, _, _, _, _, hdue, _⟩ := hc.traces e he
      exact fun hie => hi (hie ▸ hdue.mem_names)
    obtain ⟨q, u, u', earlier, later, hdue, hrest⟩ := hc.other he hes hie
    exact ⟨q, u, u', earlier, later, hdue.of_release.of_others, hrest⟩

private theorem asleep [Service S σ] {q : Program S α} {ms : Nat} (hk : k.ready = (i, p) :: ps)
    (ht : p.turn w = .asleep ms q w₁) (hnodup : k.names.Nodup)
    (hc : Traced (k.suspend (i, ⟨w₁.now + ms, q⟩)) w₁ rs w' calls) : ∃ calls', Traced k w rs w' calls' := by
  obtain ⟨es, hes, htrace⟩ := Program.trace_of_asleep ht
  have hnow := hes.now_eq
  have hperm := Crew.names_suspend hk (⟨w₁.now + ms, q⟩ : Sleeper S α)
  have hlabels := hc.labels_turn (fun j => hperm.mem_iff.2) ((Crew.names_release hk).mem_iff.2 List.mem_cons_self) es
  have htimes := hc.times_turn hes i
  refine ⟨_, hnow ▸ hc.now_le, hc.names.trans hperm.symm, hc.record_turn hes, hlabels, htimes, fun e he => ?_⟩
  by_cases hie : i = e.1
  · -- The program itself goes on with what is left of it.
    subst hie
    obtain ⟨q', u, u', earlier, later, hdue, -, hend, -, hq⟩ := hc.traces e he
    rw [hnow] at hdue
    rcases hdue.of_suspend with hdue | ⟨-, rfl, rfl⟩
    · have hi := (List.nodup_cons.1 (Crew.names_of_head hk ▸ hnodup)).1
      exact absurd hdue.mem_names hi
    · refine ⟨p, w.now, u', [], _, .ready (hk ▸ List.mem_cons_self), Nat.le_refl _, hend, begins_now htimes, ?_⟩
      rw [callsOf_turn_self, signal_now]
      exact htrace _ _ _ hq.of_told
  · obtain ⟨q', u, u', earlier, later, hdue, hrest⟩ := hc.other he hes hie
    rcases hdue.of_suspend with hdue | ⟨hei, -, -⟩
    · exact ⟨q', u, u', earlier, later, hdue.of_others, hrest⟩
    · exact absurd hei.symm hie

end Traced

private theorem Crew.Runs.traced [Service S σ] [DecidableEq ι] {k : Crew S ι α} {w w' : World S σ}
    {rs : List (ι × α)} (h : k.Runs w rs w') (hnodup : k.names.Nodup) (hsleep : ∀ e ∈ k.asleep, w.now ≤ e.2.wakeAt) :
    ∃ calls, Traced k w rs w' calls := by
  induction h with
  | idle w => exact ⟨[], Nat.le_refl _, .refl _, rfl, by simp, by simp, by simp⟩
  | @wake k w w' rs t hk ht _ ih =>
    obtain ⟨hfirst, s, hs, rfl⟩ := Pool.earliest_eq_some ht
    obtain ⟨e, he, rfl⟩ := List.mem_map.1 hs
    have hnow : (w.advanceTo e.2.wakeAt).now = e.2.wakeAt := Nat.max_eq_right (hsleep e he)
    have hsleep' : ∀ f ∈ (k.wake e.2.wakeAt).asleep, (w.advanceTo e.2.wakeAt).now ≤ f.2.wakeAt := by
      intro f hf
      rw [hnow]
      exact hfirst f.2 (List.mem_map_of_mem (List.mem_filter.1 hf).1)
    obtain ⟨calls, hc⟩ := ih ((Crew.names_wake k _).nodup_iff.2 hnodup) hsleep'
    exact ⟨calls, hc.wake hk ht (hsleep e he)⟩
  | @ended k w w₁ w' rs i p ps a hk ht _ ih =>
    obtain ⟨-, ⟨hnow, -, -, -⟩, -⟩ := Program.trace_of_ended ht
    obtain ⟨calls, hc⟩ := ih (List.nodup_cons.1 ((Crew.names_release hk).nodup_iff.1 hnodup)).2
      fun e he => hnow ▸ hsleep e he
    exact hc.ended hk ht hnodup
  | @asleep k w w₁ w' rs i p q ps ms hk ht _ ih =>
    obtain ⟨-, ⟨hnow, -, -, -⟩, -⟩ := Program.trace_of_asleep ht
    have hsleep' : ∀ e ∈ (k.suspend (i, ⟨w₁.now + ms, q⟩)).asleep, w₁.now ≤ e.2.wakeAt := by
      intro e he
      rcases List.mem_append.1 he with he | he
      · exact hnow ▸ hsleep e he
      · rw [List.mem_singleton.1 he]
        exact Nat.le_add_right _ ms
    obtain ⟨calls, hc⟩ := ih ((Crew.names_suspend hk _).nodup_iff.1 hnodup) hsleep'
    exact hc.asleep hk ht hnodup

/-- Programs that are run side by side end with a result of each of them, and the exchanges of each of them are a trace
of it that starts and ends during the run. The first look at the signal to cancel, if a program begins with it, finds
what the signal is at this moment. -/
theorem runPool_traces [Service S σ] [DecidableEq ι] (width : Nat) {names : List ι} (hnames : names.Nodup)
    (program : ι → Program S α) (w : World S σ) :
    ∃ (rs : List (ι × α)) (calls : List (ι × Exchange S)),
      (runPool width (names.map program) w).1 = rs.map (·.2) ∧ (rs.map (·.1)).Perm names ∧
      (runPool width (names.map program) w).2.record = calls.map (·.2) ++ w.record ∧ (∀ c ∈ calls, c.1 ∈ names) ∧
      ∀ e ∈ rs, ∃ t t' earlier later, w.now ≤ t ∧ t' ≤ (runPool width (names.map program) w).2.now ∧
        Begins e.1 calls t earlier later ∧
        ((program e.1).told (w.signal t (earlier.length + w.record.length))).Trace t e.2 (callsOf e.1 calls) t' := by
  have hnodup : (Crew.start width names program).names.Nodup := by
    rw [Crew.names_start]
    exact hnames
  obtain ⟨rs, hrs, hruns⟩ := Crew.runs_runPool width names program w
  obtain ⟨calls, hc⟩ := hruns.traced hnodup fun e he => absurd he List.not_mem_nil
  have hperm := hc.names
  have hlabels := hc.labels
  rw [Crew.names_start] at hperm hlabels
  refine ⟨rs, calls, hrs, hperm, hc.record, hlabels, fun e he => ?_⟩
  obtain ⟨p, t, t', earlier, later, hdue, hstart, hend, hbegins, htrace⟩ := hc.traces e he
  -- The program that the name stands for is still as it was at the start.
  have hprogram : p = program e.1 := by
    cases hdue with
    | ready hp => exact (Crew.eq_program_of_mem_start (.inl hp)).2
    | asleep hp => exact absurd hp List.not_mem_nil
    | waiting hp _ => exact (Crew.eq_program_of_mem_start (.inr hp)).2
  exact ⟨t, t', earlier, later, hstart, hend, hbegins, hprogram ▸ htrace⟩

-- As with what always holds, a trace is not to be computed whenever it is looked at.
attribute [irreducible] Program.Trace

end Fleet
