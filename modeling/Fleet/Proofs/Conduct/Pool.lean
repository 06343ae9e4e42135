import Fleet.Pool
import Fleet.Proofs.Conduct.Basic

/-!
# Pools of programs that keep to a conduct

When each program of a pool obeys, whatever the others do as long as they obey too, the pool ends with a result
of each of them, and every result satisfies in the end what its program was to achieve (`runPool_of_obeys`). The
invariant of a run (`Crew.Mans`) names the programs of a pool and says of each of them that it goes on obeying
after any drift; a turn of one program is a drift for all the others.
-/

namespace Fleet

variable {S : Signature} {σ τ ι γ α : Type}

section Turn

variable [Service S σ] [Service S τ] {c : Conduct S σ ι γ} {view : τ → σ} {T : τ → τ → Prop} {F : (τ → τ) → Prop}

/-- From one world to another by steps of `i` that take no time. -/
private structure Moved (c : Conduct S σ ι γ) (view : τ → σ) (T : τ → τ → Prop) (F : (τ → τ) → Prop) (i : ι)
    (w : World S τ) (g : γ) (w' : World S τ) (g' : γ) : Prop where
  now_eq : w'.now = w.now
  within : w'.Within c F
  bound : T w.service w'.service
  drift : ∀ j, i ≠ j → c.drift j (view w.service, g) (view w'.service, g')

/-- How a turn of an obedient program ends. -/
private def EndsWell (c : Conduct S σ ι γ) (view : τ → σ) (T : τ → τ → Prop) (F : (τ → τ) → Prop) (i : ι)
    (Q : α → σ × γ → Nat → Prop) (w : World S τ) (g : γ) : Turn S τ α → Prop
  | .ended a w' => ∃ g', Moved c view T F i w g w' g' ∧ Q a (view w'.service, g') w'.now
  | .asleep ms q w' => ∃ g', Moved c view T F i w g w' g' ∧
      ∀ y, c.drift i (view w'.service, g') y → q.Obeys c i Q y (w'.now + ms)

private theorem EndsWell.of_moved (hb : c.Bounds view T F) {i : ι} {Q : α → σ × γ → Nat → Prop} {w w' : World S τ}
    {g g' : γ} (hm : Moved c view T F i w g w' g') {r : Turn S τ α} (h : EndsWell c view T F i Q w' g' r) :
    EndsWell c view T F i Q w g r := by
  have join {w'' : World S τ} {g'' : γ} (hm' : Moved c view T F i w' g' w'' g'') : Moved c view T F i w g w'' g'' :=
    ⟨hm'.now_eq.trans hm.now_eq, hm'.within, hb.trans _ _ _ hm.bound hm'.bound,
      fun j hj => c.drift_trans j _ _ _ (hm.drift j hj) (hm'.drift j hj)⟩
  cases r with
  | ended a w'' =>
    obtain ⟨g'', hm', hQ⟩ := h
    exact ⟨g'', join hm', hQ⟩
  | asleep ms q w'' =>
    obtain ⟨g'', hm', hq⟩ := h
    exact ⟨g'', join hm', hq⟩

private theorem obeys_turn (hb : c.Bounds view T F) {i : ι} {Q : α → σ × γ → Nat → Prop} {p : Program S α}
    {w : World S τ} {g : γ} (hw : w.Within c F) (h : p.Obeys c i Q (view w.service, g) w.now) :
    EndsWell c view T F i Q w g (p.turn w) := by
  have stay : Moved c view T F i w g w g := ⟨rfl, hw, hb.refl _, fun j _ => c.drift_refl j _⟩
  -- Within the turn nobody else asks, so only the interventions and this program move the service.
  induction p generalizing w g with
  | done a => exact ⟨g, stay, h⟩
  | ask q k ih =>
    have ⟨hmay, hk⟩ := h
    have hstep : Moved c view T F i w g (w.ask q).2 (c.note i q (view w.service, g)) := by
      refine ⟨rfl, hw.ask q, hb.of_may i q _ g hmay, fun j hj => ?_⟩
      have := c.drift_of_may i j q _ hj hmay
      rwa [hb.isView q w.service] at this
    rw [Conduct.after, hb.isView q w.service] at hk
    have hw' := hw.ask q
    exact EndsWell.of_moved hb hstep
      (ih (w.ask q).1 (w := (w.ask q).2) hw' hk ⟨rfl, hw', hb.refl _, fun j _ => c.drift_refl j _⟩)
  | sleep ms k ih =>
    cases ms with
    | zero => exact ih hw (h _ (c.drift_refl i _)) stay
    | succ ms => exact ⟨g, stay, h⟩
  | clock k ih => exact ih w.now hw h stay
  | cancelled k ih => exact ih w.isCancelled hw (h _ hw.stoppable_of_isCancelled) stay

end Turn

/-! ### The programs of a pool by name -/

/-- The programs of a pool together with their names. -/
structure Crew (S : Signature) (ι α : Type) where
  ready : List (ι × Program S α)
  asleep : List (ι × Sleeper S α)
  waiting : List (ι × Program S α)

namespace Crew

def names (k : Crew S ι α) : List ι := k.ready.map (·.1) ++ k.asleep.map (·.1) ++ k.waiting.map (·.1)

/-- As long as a program waits for room, another one takes it. -/
def Busy (k : Crew S ι α) : Prop := k.waiting ≠ [] → k.ready ≠ [] ∨ k.asleep ≠ []

theorem Busy.waiting_eq_nil {k : Crew S ι α} (hk : k.Busy) (hready : k.ready = []) (hasleep : k.asleep = []) :
    k.waiting = [] := by
  by_cases hne : k.waiting = []
  · exact hne
  · rcases hk hne with h | h
    · exact absurd hready h
    · exact absurd hasleep h

variable [Service S σ]

/-- The crew is that of the pool, and each of the programs obeys when its turn comes, whatever the others
do until then. -/
private structure Mans (k : Crew S ι α) (p : Pool S α) (c : Conduct S σ ι γ) (Q : ι → α → σ × γ → Nat → Prop)
    (x : σ × γ) (t : Nat) : Prop where
  ready_eq : p.ready = k.ready.map (·.2)
  sleeping_eq : p.sleeping = k.asleep.map (·.2)
  waiting_eq : p.waiting = k.waiting.map (·.2)
  ready_obeys : ∀ e ∈ k.ready, ∀ y, c.drift e.1 x y → e.2.Obeys c e.1 (Q e.1) y t
  asleep_obeys : ∀ e ∈ k.asleep, t ≤ e.2.wakeAt ∧ ∀ y, c.drift e.1 x y → e.2.rest.Obeys c e.1 (Q e.1) y e.2.wakeAt
  waiting_obeys : ∀ e ∈ k.waiting, ∀ y s, t ≤ s → c.drift e.1 x y → e.2.Obeys c e.1 (Q e.1) y s
  busy : k.waiting ≠ [] → k.ready ≠ [] ∨ k.asleep ≠ []
  nodup : k.names.Nodup

variable {c : Conduct S σ ι γ} {Q : ι → α → σ × γ → Nat → Prop}

/-- The head of a crew has had its turn: the others are as ready as before. -/
private theorem Mans.others {k : Crew S ι α} {p : Pool S α} {x x' : σ × γ} {t : Nat} (h : k.Mans p c Q x t)
    {i : ι} {a : Program S α} {rs : List (ι × Program S α)} (hk : k.ready = (i, a) :: rs)
    (hd : ∀ j, i ≠ j → c.drift j x x') :
    (∀ e ∈ rs, ∀ y, c.drift e.1 x' y → e.2.Obeys c e.1 (Q e.1) y t) ∧
    (∀ e ∈ k.asleep, t ≤ e.2.wakeAt ∧
      ∀ y, c.drift e.1 x' y → e.2.rest.Obeys c e.1 (Q e.1) y e.2.wakeAt) ∧
    (∀ e ∈ k.waiting, ∀ y s, t ≤ s → c.drift e.1 x' y → e.2.Obeys c e.1 (Q e.1) y s) := by
  have hn := h.nodup
  simp only [names, hk, List.map_cons, List.cons_append, List.nodup_cons, List.mem_append, List.mem_map,
    not_or, not_exists, not_and] at hn
  -- The others have different names, so for each of them the turn was drift.
  refine ⟨fun e he y hy => ?_, fun e he => ⟨(h.asleep_obeys e he).1, fun y hy => ?_⟩, fun e he y s hs hy => ?_⟩
  · have hne : i ≠ e.1 := fun hi => hn.1.1.1 e he hi.symm
    exact h.ready_obeys e (hk ▸ List.mem_cons_of_mem _ he) y (c.drift_trans _ _ _ _ (hd _ hne) hy)
  · have hne : i ≠ e.1 := fun hi => hn.1.1.2 e he hi.symm
    exact (h.asleep_obeys e he).2 y (c.drift_trans _ _ _ _ (hd _ hne) hy)
  · have hne : i ≠ e.1 := fun hi => hn.1.2 e he hi.symm
    exact h.waiting_obeys e he y s hs (c.drift_trans _ _ _ _ (hd _ hne) hy)

/-- The crew after its head has ended. -/
def release (k : Crew S ι α) : Crew S ι α :=
  ⟨k.ready.tail ++ k.waiting.take 1, k.asleep, k.waiting.drop 1⟩

/-- The crew after its head has fallen asleep. -/
def suspend (k : Crew S ι α) (e : ι × Sleeper S α) : Crew S ι α :=
  ⟨k.ready.tail, k.asleep ++ [e], k.waiting⟩

theorem busy_release (k : Crew S ι α) : k.release.Busy := by
  intro hw
  left
  cases hws : k.waiting with
  | nil => simp [release, hws] at hw
  | cons e es => simp [release, hws]

theorem names_release {k : Crew S ι α} {i : ι} {a : Program S α} {rs : List (ι × Program S α)}
    (hk : k.ready = (i, a) :: rs) : k.names.Perm (i :: k.release.names) := by
  have hw := Pool.perm_take_append_drop 1 (k.asleep.map (·.1)) (k.waiting.map (·.1))
  simpa [names, release, hk, List.append_assoc] using hw.append_left (rs.map (·.1))

theorem names_suspend {k : Crew S ι α} {i : ι} {a : Program S α} {rs : List (ι × Program S α)}
    (hk : k.ready = (i, a) :: rs) (s : Sleeper S α) : k.names.Perm (k.suspend (i, s)).names := by
  have hp : (i :: (rs.map (·.1) ++ (k.asleep.map (·.1) ++ k.waiting.map (·.1)))).Perm
      ((rs.map (·.1) ++ k.asleep.map (·.1)) ++ i :: k.waiting.map (·.1)) := by
    rw [← List.append_assoc]
    exact List.perm_middle.symm
  simpa [names, suspend, hk, List.append_assoc] using hp

private theorem Mans.release {k : Crew S ι α} {p : Pool S α} {x x' : σ × γ} {t : Nat} (h : k.Mans p c Q x t)
    {i : ι} {a : Program S α} {rs : List (ι × Program S α)} (hk : k.ready = (i, a) :: rs)
    (hd : ∀ j, i ≠ j → c.drift j x x') : k.release.Mans p.release c Q x' t where
  ready_eq := by simp [Pool.release, Crew.release, h.ready_eq, h.waiting_eq, hk, List.map_take]
  sleeping_eq := h.sleeping_eq
  waiting_eq := by simp [Pool.release, Crew.release, h.waiting_eq]
  ready_obeys := by
    obtain ⟨hr, -, hw⟩ := h.others hk hd
    intro e he y hy
    simp only [Crew.release, hk, List.tail_cons, List.mem_append] at he
    rcases he with he | he
    · exact hr e he y hy
    · exact hw e (List.mem_of_mem_take he) y t (Nat.le_refl t) hy
  asleep_obeys := (h.others hk hd).2.1
  waiting_obeys := fun e he => (h.others hk hd).2.2 e (List.mem_of_mem_drop he)
  busy := k.busy_release
  nodup := (List.nodup_cons.1 ((names_release hk).nodup_iff.1 h.nodup)).2

private theorem Mans.suspend {k : Crew S ι α} {p : Pool S α} {x x' : σ × γ} {t : Nat} (h : k.Mans p c Q x t)
    {i : ι} {a : Program S α} {rs : List (ι × Program S α)} (hk : k.ready = (i, a) :: rs)
    (hd : ∀ j, i ≠ j → c.drift j x x') {s : Sleeper S α} (ht : t ≤ s.wakeAt)
    (hs : ∀ y, c.drift i x' y → s.rest.Obeys c i (Q i) y s.wakeAt) :
    (k.suspend (i, s)).Mans (p.suspend s) c Q x' t where
  ready_eq := by simp [Pool.suspend, Crew.suspend, h.ready_eq, hk]
  sleeping_eq := by simp [Pool.suspend, Crew.suspend, h.sleeping_eq]
  waiting_eq := h.waiting_eq
  ready_obeys := fun e he => (h.others hk hd).1 e (by simpa [Crew.suspend, hk] using he)
  asleep_obeys := by
    intro e he
    simp only [Crew.suspend, List.mem_append, List.mem_singleton] at he
    rcases he with he | rfl
    · exact (h.others hk hd).2.1 e he
    · exact ⟨ht, hs⟩
  waiting_obeys := (h.others hk hd).2.2
  busy := fun _ => .inr (by simp [Crew.suspend])
  nodup := (names_suspend hk s).nodup_iff.1 h.nodup

/-- The crew with which a pool starts: the first programs are ready, and the others wait for room. -/
def start (width : Nat) (is : List ι) (program : ι → Program S α) : Crew S ι α :=
  let mates := is.map fun i => (i, program i)
  ⟨mates.take (max width 1), [], mates.drop (max width 1)⟩

section Start

variable (width : Nat) (is : List ι) (program : ι → Program S α)

theorem names_start : (start width is program).names = is := by
  have hsplit := congrArg (List.map (·.1)) (List.take_append_drop (max width 1) (is.map fun i => (i, program i)))
  rw [List.map_append, List.map_map] at hsplit
  unfold names start
  rw [List.map_nil, List.append_nil, hsplit]
  exact List.map_id' is

theorem busy_start : (start width is program).Busy := by
  intro hne
  left
  intro hnil
  have hempty : is.map (fun i => (i, program i)) = [] := by
    rcases List.take_eq_nil_iff.1 hnil with h0 | h0
    · omega
    · exact h0
  exact hne (by simp [start, hempty])

variable {width is program}

theorem eq_program_of_mem_start {e : ι × Program S α}
    (he : e ∈ (start width is program).ready ∨ e ∈ (start width is program).waiting) :
    e.1 ∈ is ∧ e.2 = program e.1 := by
  have hmem : e ∈ is.map fun i => (i, program i) := he.elim List.mem_of_mem_take List.mem_of_mem_drop
  obtain ⟨i, hi, rfl⟩ := List.mem_map.1 hmem
  exact ⟨hi, rfl⟩

end Start

end Crew

/-! ### Waking up -/

theorem Pool.earliest_eq_none {ss : List (Sleeper S α)} (h : Pool.earliest ss = none) : ss = [] := by
  cases ss with
  | nil => rfl
  | cons s ss => simp [Pool.earliest] at h

theorem Pool.earliest_eq_some {ss : List (Sleeper S α)} {t : Nat} (h : Pool.earliest ss = some t) :
    (∀ s ∈ ss, t ≤ s.wakeAt) ∧ ∃ s ∈ ss, s.wakeAt = t := by
  induction ss generalizing t with
  | nil => simp [Pool.earliest] at h
  | cons s ss ih =>
    simp only [Pool.earliest, Option.some.injEq] at h
    cases he : Pool.earliest ss with
    | none =>
      simp only [he, Option.elim] at h
      simp [Pool.earliest_eq_none he, h]
    | some u =>
      simp only [he, Option.elim] at h
      obtain ⟨hle, s', hs', heq⟩ := ih he
      refine ⟨fun s₁ h₁ => ?_, ?_⟩
      · rcases List.mem_cons.1 h₁ with rfl | h₁
        · omega
        · have := hle s₁ h₁; omega
      · by_cases hmin : s.wakeAt ≤ u
        · exact ⟨s, List.mem_cons_self, by omega⟩
        · exact ⟨s', List.mem_cons_of_mem _ hs', by omega⟩

section Run

variable [Service S σ] [Service S τ] {c : Conduct S σ ι γ} {view : τ → σ} {T : τ → τ → Prop} {F : (τ → τ) → Prop}
  {Q : ι → α → σ × γ → Nat → Prop}

/-- The crew after those who are due at time `t` have woken up. -/
def Crew.wake (k : Crew S ι α) (t : Nat) : Crew S ι α :=
  ⟨k.ready ++ (k.asleep.filter fun e => decide (e.2.wakeAt ≤ t)).map (fun e => (e.1, e.2.rest)),
    k.asleep.filter (fun e => !decide (e.2.wakeAt ≤ t)), k.waiting⟩

theorem Crew.names_wake (k : Crew S ι α) (t : Nat) : (k.wake t).names.Perm k.names := by
  have h := (List.filter_append_perm (fun e : ι × Sleeper S α => decide (e.2.wakeAt ≤ t)) k.asleep).map (·.1)
  rw [List.map_append] at h
  simpa [Crew.names, Crew.wake, Function.comp_def, List.append_assoc] using
    (h.append_left (k.ready.map (·.1))).append_right (k.waiting.map (·.1))

/-- Whoever is due becomes ready. -/
theorem Crew.ready_wake_ne_nil {k : Crew S ι α} {t : Nat} {e : ι × Sleeper S α} (he : e ∈ k.asleep)
    (ht : e.2.wakeAt ≤ t) : (k.wake t).ready ≠ [] := by
  have hmem : (e.1, e.2.rest) ∈ (k.wake t).ready := by
    simp only [Crew.wake, List.mem_append, List.mem_map, List.mem_filter, decide_eq_true_eq]
    exact .inr ⟨e, ⟨he, ht⟩, rfl⟩
  exact List.ne_nil_of_mem hmem

private theorem Crew.Mans.wake {k : Crew S ι α} {p : Pool S α} {w : World S τ} {g : γ} (hb : c.Bounds view T F)
    (h : k.Mans p c Q (view w.service, g) w.now) (hw : w.Within c F) (hr : k.ready = []) {t : Nat}
    (ht : Pool.earliest p.sleeping = some t) :
    (k.wake t).Mans (p.wake w).1 c Q (view (p.wake w).2.service, g) (p.wake w).2.now ∧ (k.wake t).ready ≠ [] ∧
      (p.wake w).2 = w.advanceTo t ∧ w.now ≤ t := by
  obtain ⟨hle, s, hs, hst⟩ := Pool.earliest_eq_some ht
  have hp : p.wake w = (⟨p.ready ++ (p.sleeping.filter (fun s => s.wakeAt ≤ t)).map (·.rest),
      p.sleeping.filter (fun s => !(s.wakeAt ≤ t)), p.waiting⟩, w.advanceTo t) := by
    rw [Pool.wake, ht]
  obtain ⟨e, he, hes⟩ := List.mem_map.1 (h.sleeping_eq ▸ hs)
  have hnow : w.now ≤ t := by
    have := (h.asleep_obeys e he).1
    rw [hes] at this
    omega
  have hadv : (w.advanceTo t).now = t := by
    show max w.now t = t
    omega
  obtain ⟨-, -, hd⟩ := hw.advanceTo hb t
  have hne : (k.wake t).ready ≠ [] := Crew.ready_wake_ne_nil he (Nat.le_of_eq (by rw [hes, hst]))
  refine ⟨?_, hne, by rw [hp], hnow⟩
  rw [hp]
  refine ⟨?_, ?_, h.waiting_eq, fun e' he' y hy => ?_, fun e' he' => ?_, fun e' he' y s' hs' hy => ?_,
    fun _ => .inl hne, (Crew.names_wake k t).nodup_iff.2 h.nodup⟩
  · simp [Crew.wake, h.ready_eq, hr, h.sleeping_eq, List.filter_map, Function.comp_def]
  · simp [Crew.wake, h.sleeping_eq, List.filter_map, Function.comp_def]
  · simp only [Crew.wake, hr, List.nil_append, List.mem_map, List.mem_filter, decide_eq_true_eq] at he'
    obtain ⟨f, ⟨hf, hft⟩, rfl⟩ := he'
    -- Nobody was due earlier, so whoever wakes up does so at its own time.
    have hwake : f.2.wakeAt = t := by
      have := hle f.2 (h.sleeping_eq ▸ List.mem_map_of_mem hf)
      omega
    have := (h.asleep_obeys f hf).2 y (c.drift_trans _ _ _ _ (hd f.1 g) hy)
    rw [hwake] at this
    rwa [hadv]
  · simp only [Crew.wake, List.mem_filter, Bool.not_eq_true', decide_eq_false_iff_not] at he'
    refine ⟨by rw [hadv]; omega, fun y hy => ?_⟩
    exact (h.asleep_obeys e' he'.1).2 y (c.drift_trans _ _ _ _ (hd _ g) hy)
  · rw [hadv] at hs'
    exact h.waiting_obeys e' he' y s' (by omega) (c.drift_trans _ _ _ _ (hd _ g) hy)

/-- A pool that has settled is manned by the same crew, and by nobody when nothing is ready. -/
private theorem Crew.Mans.settle {k : Crew S ι α} {p : Pool S α} {w : World S τ} {g : γ} (hb : c.Bounds view T F)
    (h : k.Mans p c Q (view w.service, g) w.now) (hw : w.Within c F) :
    ∃ k' : Crew S ι α, k'.names.Perm k.names ∧
      k'.Mans (p.settle w).1 c Q (view (p.settle w).2.service, g) (p.settle w).2.now ∧
      (k'.ready = [] → k'.names = []) ∧ (p.settle w).2.Within c F ∧
      T w.service (p.settle w).2.service ∧ w.now ≤ (p.settle w).2.now ∧
      ∀ i, c.drift i (view w.service, g) (view (p.settle w).2.service, g) := by
  have stay : T w.service w.service ∧ w.now ≤ w.now ∧ ∀ i, c.drift i (view w.service, g) (view w.service, g) :=
    ⟨hb.refl _, Nat.le_refl _, fun i => c.drift_refl i _⟩
  unfold Pool.settle
  split
  · next hready =>
    have hr : k.ready = [] := by
      rw [h.ready_eq] at hready
      simpa using hready
    cases he : Pool.earliest p.sleeping with
    | none =>
      have ha : k.asleep = [] := by
        have := Pool.earliest_eq_none he
        rw [h.sleeping_eq] at this
        simpa using this
      have hwt : k.waiting = [] := Crew.Busy.waiting_eq_nil h.busy hr ha
      have hp : p.wake w = (p, w) := by rw [Pool.wake, he]
      rw [hp]
      exact ⟨k, .refl _, h, fun _ => by simp [names, hr, ha, hwt], hw, stay⟩
    | some t =>
      obtain ⟨hm, hne, heq, hnow⟩ := h.wake hb hw hr he
      obtain ⟨hw', hT, hd⟩ := hw.advanceTo hb t
      rw [heq] at hm ⊢
      exact ⟨k.wake t, Crew.names_wake k t, hm, fun hnil => absurd hnil hne, hw', hT, Nat.le_max_left _ _, fun i => hd i g⟩
  · next hready =>
    refine ⟨k, .refl _, h, fun hnil => ?_, hw, stay⟩
    simp [h.ready_eq, hnil] at hready

/-! ### The run of a pool -/

/-- The run of a pool, which ends with a result of each program of its crew. -/
private structure EndedWell (c : Conduct S σ ι γ) (view : τ → σ) (T : τ → τ → Prop) (F : (τ → τ) → Prop)
    (Q : ι → α → σ × γ → Nat → Prop) (names : List ι) (w : World S τ) (g : γ) (r : List α × World S τ) : Prop where
  results : ∃ (g' : γ) (es : List (ι × α)), r.1 = es.map (·.2) ∧ (es.map (·.1)).Perm names ∧
    (∀ e ∈ es, Q e.1 e.2 (view r.2.service, g') r.2.now) ∧
    ∀ i ∉ names, c.drift i (view w.service, g) (view r.2.service, g')
  within : r.2.Within c F
  bound : T w.service r.2.service
  now_le : w.now ≤ r.2.now

namespace EndedWell

variable {names names' : List ι} {w w' : World S τ} {g g' : γ} {r : List α × World S τ} {i : ι}

private theorem nil (hb : c.Bounds view T F) (hw : w.Within c F) : EndedWell c view T F Q [] w g ([], w) :=
  ⟨⟨g, [], rfl, .nil, by simp, fun i _ => c.drift_refl i _⟩, hw, hb.refl _, Nat.le_refl _⟩

/-- The pool has settled before. -/
private theorem of_settled (h : EndedWell c view T F Q names' w' g r) (hb : c.Bounds view T F)
    (hnames : names'.Perm names) (hT : T w.service w'.service) (hnow : w.now ≤ w'.now)
    (hd : ∀ i, c.drift i (view w.service, g) (view w'.service, g)) : EndedWell c view T F Q names w g r := by
  obtain ⟨⟨g'', es, hes, hperm, hall, hrest⟩, hw, hbound, hlater⟩ := h
  refine ⟨⟨g'', es, hes, hperm.trans hnames, hall, fun i hi => ?_⟩, hw, hb.trans _ _ _ hT hbound,
    Nat.le_trans hnow hlater⟩
  exact c.drift_trans i _ _ _ (hd i) (hrest i fun hmem => hi (hnames.mem_iff.1 hmem))

/-- One of the programs has gone on before. -/
private theorem of_moved (h : EndedWell c view T F Q names w' g' r) (hb : c.Bounds view T F)
    (hm : Moved c view T F i w g w' g') (hi : i ∈ names) : EndedWell c view T F Q names w g r := by
  obtain ⟨⟨g'', es, hes, hperm, hall, hrest⟩, hw, hbound, hlater⟩ := h
  refine ⟨⟨g'', es, hes, hperm, hall, fun j hj => ?_⟩, hw, hb.trans _ _ _ hm.bound hbound, hm.now_eq ▸ hlater⟩
  have hij : i ≠ j := by
    rintro rfl
    exact hj hi
  exact c.drift_trans j _ _ _ (hm.drift j hij) (hrest j hj)

/-- Another program has ended before. -/
private theorem cons (h : EndedWell c view T F Q names w' g' r) (hb : c.Bounds view T F)
    (hQ : ∀ i a x y t s, Q i a x t → c.drift i x y → t ≤ s → Q i a y s) (hm : Moved c view T F i w g w' g')
    (hi : i ∉ names) {a : α} (ha : Q i a (view w'.service, g') w'.now) :
    EndedWell c view T F Q (i :: names) w g (a :: r.1, r.2) := by
  obtain ⟨⟨g'', es, hes, hperm, hall, hrest⟩, hw, hbound, hlater⟩ := h
  refine ⟨⟨g'', (i, a) :: es, by simp [hes], hperm.cons i, fun e he => ?_, fun j hj => ?_⟩, hw,
    hb.trans _ _ _ hm.bound hbound, hm.now_eq ▸ hlater⟩
  · rcases List.mem_cons.1 he with rfl | he
    · exact hQ i a _ _ _ _ ha (hrest i hi) hlater
    · exact hall e he
  · rw [List.mem_cons, not_or] at hj
    exact c.drift_trans j _ _ _ (hm.drift j (Ne.symm hj.1)) (hrest j hj.2)

end EndedWell

theorem Pool.run_of_nil {p : Pool S α} {w : World S τ} (h : (p.settle w).1.ready = []) :
    p.run w = ([], (p.settle w).2) := by
  rw [Pool.run]
  split
  · rfl
  · next h' => simp [h] at h'

theorem Pool.run_of_ended {p : Pool S α} {w w' : World S τ} {a : Program S α} {as : List (Program S α)}
    (h : (p.settle w).1.ready = a :: as) {r : α} (ht : a.turn (p.settle w).2 = .ended r w') :
    p.run w = (r :: ((p.settle w).1.release.run w').1, ((p.settle w).1.release.run w').2) := by
  rw [Pool.run]
  split
  · next h' => simp [h] at h'
  · next h' =>
    obtain ⟨rfl, rfl⟩ := List.cons.inj (h.symm.trans h')
    split
    · next ht' =>
      obtain ⟨rfl, rfl⟩ := Turn.ended.inj (ht.symm.trans ht')
      rfl
    · next ht' => simp [ht] at ht'

theorem Pool.run_of_asleep {p : Pool S α} {w w' : World S τ} {a q : Program S α} {as : List (Program S α)}
    (h : (p.settle w).1.ready = a :: as) {ms : Nat} (ht : a.turn (p.settle w).2 = .asleep ms q w') :
    p.run w = ((p.settle w).1.suspend ⟨w'.now + ms, q⟩).run w' := by
  rw [Pool.run]
  split
  · next h' => simp [h] at h'
  · next h' =>
    obtain ⟨rfl, rfl⟩ := List.cons.inj (h.symm.trans h')
    split
    · next ht' => simp [ht] at ht'
    · next ht' =>
      obtain ⟨rfl, rfl, rfl⟩ := Turn.asleep.inj (ht.symm.trans ht')
      rfl

/-- The run of a pool that is over after `n` turns. The turns are counted, so that a run can be computed. -/
def Pool.runWithin : Nat → Pool S α → World S τ → Option (List α × World S τ)
  | 0, _, _ => none
  | n + 1, p, w =>
    match (p.settle w).1.ready with
    | [] => some ([], (p.settle w).2)
    | a :: _ =>
      match a.turn (p.settle w).2 with
      | .ended r w' => (runWithin n (p.settle w).1.release w').map fun x => (r :: x.1, x.2)
      | .asleep ms q w' => runWithin n ((p.settle w).1.suspend ⟨w'.now + ms, q⟩) w'

theorem Pool.run_of_runWithin {n : Nat} {p : Pool S α} {w : World S τ} {x : List α × World S τ}
    (h : p.runWithin n w = some x) : p.run w = x := by
  induction n generalizing p w x with
  | zero => cases h
  | succ n ih =>
    unfold runWithin at h
    split at h
    · next hready =>
      cases h
      exact Pool.run_of_nil hready
    · next hready =>
      split at h
      · next hturn =>
        obtain ⟨y, hy, rfl⟩ := Option.map_eq_some_iff.1 h
        rw [Pool.run_of_ended hready hturn, ih hy]
      · next hturn => rw [Pool.run_of_asleep hready hturn, ih h]

theorem runPool_of_runWithin {width n : Nat} {ps : List (Program S α)} {w : World S τ} {x : List α × World S τ}
    (h : (Pool.start width ps).runWithin n w = some x) : runPool width ps w = x :=
  Pool.run_of_runWithin h

/-- The first program that is ready is that of the head of the crew, and its turn ends well. -/
private theorem Crew.Mans.turn {k : Crew S ι α} {p : Pool S α} {w : World S τ} {g : γ}
    (h : k.Mans p c Q (view w.service, g) w.now) (hb : c.Bounds view T F) (hw : w.Within c F) {a : Program S α}
    {as : List (Program S α)} (hr : p.ready = a :: as) :
    ∃ i rs, k.ready = (i, a) :: rs ∧ EndsWell c view T F i (Q i) w g (a.turn w) := by
  rw [h.ready_eq] at hr
  obtain ⟨⟨i, a⟩, rs, hk, rfl, -⟩ := List.map_eq_cons_iff.1 hr
  exact ⟨i, rs, hk, obeys_turn hb hw (h.ready_obeys (i, a) (hk ▸ List.mem_cons_self) _ (c.drift_refl i _))⟩

private theorem Crew.Mans.run (hb : c.Bounds view T F)
    (hQ : ∀ i a x y t s, Q i a x t → c.drift i x y → t ≤ s → Q i a y s) {p : Pool S α} {w : World S τ}
    {k : Crew S ι α} {g : γ} (h : k.Mans p c Q (view w.service, g) w.now) (hw : w.Within c F) :
    EndedWell c view T F Q k.names w g (p.run w) := by
  -- The crew is carried through the run, turn by turn, and the named results are collected.
  induction p, w using Pool.run.induct generalizing k g with
  | case1 p w hr =>
    obtain ⟨k', hperm, hm, hnil, hw', hT, hnow, hd⟩ := h.settle hb hw
    have hnobody : k'.names = [] := hnil (by simpa [hm.ready_eq] using hr)
    rw [Pool.run_of_nil hr]
    rw [hnobody] at hperm
    exact (EndedWell.nil hb hw').of_settled hb hperm hT hnow hd
  | case2 p w a as hr r w' ht ih =>
    obtain ⟨k', hperm, hm, -, hw', hT, hnow, hd⟩ := h.settle hb hw
    obtain ⟨i, rs, hk, hturn⟩ := hm.turn hb hw' hr
    rw [ht] at hturn
    obtain ⟨g', hmoved, hend⟩ := hturn
    have hothers := ih (hmoved.now_eq ▸ hm.release hk hmoved.drift) hmoved.within
    have hi : i ∉ k'.release.names := (List.nodup_cons.1 ((names_release hk).nodup_iff.1 hm.nodup)).1
    rw [Pool.run_of_ended hr ht]
    exact (hothers.cons hb hQ hmoved hi hend).of_settled hb ((names_release hk).symm.trans hperm) hT hnow hd
  | case3 p w a as hr ms q w' ht ih =>
    obtain ⟨k', hperm, hm, -, hw', hT, hnow, hd⟩ := h.settle hb hw
    obtain ⟨i, rs, hk, hturn⟩ := hm.turn hb hw' hr
    rw [ht] at hturn
    obtain ⟨g', hmoved, hrest⟩ := hturn
    have hwake : (p.settle w).2.now ≤ w'.now + ms := hmoved.now_eq ▸ Nat.le_add_right _ ms
    have hall := ih (hmoved.now_eq ▸ hm.suspend hk hmoved.drift hwake hrest) hmoved.within
    have hnames := names_suspend hk (⟨w'.now + ms, q⟩ : Sleeper S α)
    have hi := hnames.mem_iff.1 ((names_release hk).mem_iff.2 List.mem_cons_self)
    rw [Pool.run_of_asleep hr ht]
    exact (hall.of_moved hb hmoved hi).of_settled hb (hnames.symm.trans hperm) hT hnow hd

/-- Programs with different names that obey, whenever they start, are run side by side: each of them ends with
a result, and all of them have in the end what they were to achieve. -/
theorem runPool_of_obeys (hb : c.Bounds view T F)
    (hQ : ∀ i a x y t s, Q i a x t → c.drift i x y → t ≤ s → Q i a y s) (width : Nat) {names : List ι}
    (hnames : names.Nodup) {program : ι → Program S α} {w : World S τ} {g : γ} (hw : w.Within c F)
    (h : ∀ i ∈ names, ∀ y s, c.drift i (view w.service, g) y → (program i).Obeys c i (Q i) y s) :
    (runPool width (names.map program) w).2.Within c F ∧
      T w.service (runPool width (names.map program) w).2.service ∧
      ∃ (g' : γ) (es : List (ι × α)), (runPool width (names.map program) w).1 = es.map (·.2) ∧
        (es.map (·.1)).Perm names ∧
        (∀ e ∈ es, Q e.1 e.2 (view (runPool width (names.map program) w).2.service, g')
          (runPool width (names.map program) w).2.now) ∧
        ∀ i ∉ names, c.drift i (view w.service, g) (view (runPool width (names.map program) w).2.service, g') := by
  let k : Crew S ι α := .start width names program
  have hk : k.names = names := Crew.names_start width names program
  have obeys {e : ι × Program S α} (he : e ∈ k.ready ∨ e ∈ k.waiting) :
      ∀ y s, c.drift e.1 (view w.service, g) y → e.2.Obeys c e.1 (Q e.1) y s := by
    obtain ⟨hi, hprogram⟩ := Crew.eq_program_of_mem_start he
    rw [hprogram]
    exact h e.1 hi
  have hm : k.Mans (Pool.start width (names.map program)) c Q (view w.service, g) w.now := by
    refine ⟨?_, rfl, ?_, fun e he y hy => obeys (.inl he) y w.now hy, fun e he => absurd he List.not_mem_nil,
      fun e he y s _ hy => obeys (.inr he) y s hy, Crew.busy_start width names program, hk ▸ hnames⟩
    · simp [Pool.start, k, Crew.start, List.map_take, Function.comp_def]
    · simp [Pool.start, k, Crew.start, List.map_drop, Function.comp_def]
  obtain ⟨hres, hw', hT, -⟩ := hm.run hb hQ hw
  exact ⟨hw', hT, hk ▸ hres⟩

end Run

/-! ### Programs that are known by their places in a list -/

theorem map_eq_map_zipIdx {α β : Type} (as : List α) (f : α → β) : as.map f = as.zipIdx.map fun p => f p.1 := by
  conv => lhs; rw [← List.zipIdx_map_fst 0 as, List.map_map]
  rfl

theorem nodup_zipIdx {α : Type} (as : List α) : as.zipIdx.Nodup := by
  have hsnd : (as.zipIdx.map Prod.snd).Nodup := by
    rw [List.zipIdx_map_snd]
    exact List.nodup_range' 1
  exact List.Pairwise.of_map _ (fun p q hne he => hne (congrArg _ he)) hsnd

/-! ### A program on its own -/

section Alone

private theorem advanceTo_now {w : World S σ} (h : w.interventions = []) : w.advanceTo w.now = w := by
  obtain ⟨s, t, r, es, c, n⟩ := w
  subst h
  simp [World.advanceTo, World.intervene]

private theorem interventions_advanceTo {w : World S σ} (h : w.interventions = []) (t : Nat) :
    (w.advanceTo t).interventions = [] := by
  simp [World.advanceTo, World.intervene, h]

variable [Service S σ]

/-- How a program goes on after its turn, when nothing happens from outside. -/
private theorem run_of_turn {p : Program S α} {w : World S σ} (h : w.interventions = []) :
    match p.turn w with
    | .ended a w' => p.run w = (a, w')
    | .asleep ms q w' => w'.interventions = [] ∧ p.run w = q.run (w'.advanceTo (w'.now + ms)) := by
  induction p generalizing w with
  | done a => rfl
  | ask q k ih => exact ih _ (w := (w.ask q).2) h
  | sleep ms k ih =>
    cases ms with
    | zero =>
      have hsame : (Program.sleep 0 k).run w = k.run w := by
        show k.run (w.advanceTo (w.now + 0)) = k.run w
        rw [Nat.add_zero, advanceTo_now h]
      simpa only [Program.turn, hsame] using ih h
    | succ ms => exact ⟨h, rfl⟩
  | clock k ih => exact ih _ h
  | cancelled k ih => exact ih _ h

private theorem Pool.run_congr {p p' : Pool S α} {w w' : World S σ} (h : p.settle w = p'.settle w') :
    p.run w = p'.run w' := by
  rw [Pool.run, Pool.run, h]

private theorem Pool.run_empty (w : World S σ) : (⟨[], [], []⟩ : Pool S α).run w = ([], w) :=
  Pool.run_of_nil (p := ⟨[], [], []⟩) rfl

private theorem Pool.run_alone (p : Program S α) {w : World S σ} (h : w.interventions = []) :
    (⟨[p], [], []⟩ : Pool S α).run w = ([(p.run w).1], (p.run w).2) := by
  -- What is left of a program after it has slept is again alone in its pool.
  induction Program.acc_isRestOf p generalizing w with
  | intro p _ ih =>
    have hturn := run_of_turn (p := p) h
    have hready : ((⟨[p], [], []⟩ : Pool S α).settle w).1.ready = [p] := rfl
    cases ht : p.turn w with
    | ended a w' =>
      rw [ht] at hturn
      rw [Pool.run_of_ended hready ht, hturn]
      exact congrArg (fun r : List α × World S σ => (a :: r.1, r.2)) (Pool.run_empty w')
    | asleep ms q w' =>
      rw [ht] at hturn
      obtain ⟨hnone, hrun⟩ := hturn
      rw [Pool.run_of_asleep hready ht, hrun,
        ← ih q (Program.isRestOf_of_turn ht) (interventions_advanceTo hnone (w'.now + ms))]
      refine Pool.run_congr ?_
      simp [Pool.settle, Pool.wake, Pool.suspend, Pool.earliest]

/-- A pool of one program runs it as it would run outside. -/
theorem runPool_singleton (width : Nat) (p : Program S α) {w : World S σ} (h : w.interventions = []) :
    runPool width [p] w = ([(p.run w).1], (p.run w).2) := by
  have hstart : Pool.start width [p] = ⟨[p], [], []⟩ := by
    obtain ⟨n, hn⟩ : ∃ n, max width 1 = n + 1 := ⟨max width 1 - 1, by omega⟩
    simp [Pool.start, hn]
  rw [runPool, hstart]
  exact Pool.run_alone p h

end Alone

end Fleet
