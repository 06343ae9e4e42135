import Fleet.World

/-!
# Programs beside each other

What can be said of a program whose service is also used by others while it sleeps. A conduct says what each
program may ask and what it has to put up with; `Program.Obeys` says that a program keeps to it and ends in a
given relation, whatever the others do as long as they keep to it too. Sequencing is `obeys_bind`, and
`Obeys.run` turns the predicate into a statement about `Program.run`.

Beside the service there are notes, which no program can read: they are kept by the proofs only, to say who has
asked what.
-/

namespace Fleet

variable {S : Signature} {σ τ ι γ α β : Type}

/-- The rules by which programs with names in `ι` share a service with states in `σ`, with notes in `γ`. -/
structure Conduct (S : Signature) (σ ι γ : Type) [Service S σ] where
  /-- The notes after a program has put a question. -/
  note : ι → S.Query → σ × γ → γ
  /-- Whether a program may put a question. -/
  may : ι → S.Query → σ × γ → Prop
  /-- What may become of the service while a program sleeps. -/
  drift : ι → σ × γ → σ × γ → Prop
  /-- Whether the signal to cancel may be set. -/
  stoppable : Prop
  drift_refl : ∀ i x, drift i x x
  drift_trans : ∀ i x y z, drift i x y → drift i y z → drift i x z
  drift_of_may : ∀ i j q x, i ≠ j → may i q x → drift j x ((Service.answer q x.1).2, note i q x)

namespace Conduct

variable [Service S σ]

/-- The service and the notes after a question. -/
def after (c : Conduct S σ ι γ) (i : ι) (q : S.Query) (x : σ × γ) : σ × γ :=
  ((Service.answer q x.1).2, c.note i q x)

end Conduct

namespace Program

variable [Service S σ]

/-- The program of `i` keeps to the conduct from the state `x` at time `t` on, and ends with a result, a state
and a time in `Q`. -/
def Obeys (c : Conduct S σ ι γ) (i : ι) (Q : α → σ × γ → Nat → Prop) : Program S α → σ × γ → Nat → Prop
  | .done a, x, t => Q a x t
  | .ask q k, x, t => c.may i q x ∧ (k (Service.answer q x.1).1).Obeys c i Q (c.after i q x) t
  | .sleep ms k, x, t => ∀ y, c.drift i x y → k.Obeys c i Q y (t + ms)
  | .clock k, x, t => (k t).Obeys c i Q x t
  | .cancelled k, x, t => ∀ b, (b = true → c.stoppable) → (k b).Obeys c i Q x t

variable {c : Conduct S σ ι γ} {i : ι}

theorem obeys_done {a : α} {Q : α → σ × γ → Nat → Prop} {x : σ × γ} {t : Nat} :
    (Program.done a).Obeys c i Q x t ↔ Q a x t :=
  Iff.rfl

theorem obeys_bind {p : Program S α} {f : α → Program S β} {Q : β → σ × γ → Nat → Prop} {x : σ × γ} {t : Nat} :
    (p.bind f).Obeys c i Q x t ↔ p.Obeys c i (fun a y s => (f a).Obeys c i Q y s) x t := by
  induction p generalizing x t with
  | done a => rfl
  | ask q k ih => exact and_congr_right fun _ => ih _
  | sleep ms k ih => exact forall₂_congr fun _ _ => ih
  | clock k ih => exact ih _
  | cancelled k ih => exact forall₂_congr fun b _ => ih b

theorem Obeys.mono {p : Program S α} {Q R : α → σ × γ → Nat → Prop} (hQR : ∀ a y s, Q a y s → R a y s)
    {x : σ × γ} {t : Nat} (h : p.Obeys c i Q x t) : p.Obeys c i R x t := by
  induction p generalizing x t with
  | done a => exact hQR _ _ _ h
  | ask q k ih => exact ⟨h.1, ih _ h.2⟩
  | sleep ms k ih => exact fun y hy => ih (h y hy)
  | clock k ih => exact ih _ h
  | cancelled k ih => exact fun b hb => ih b (h b hb)

end Program

/-! ### Services seen through a map -/

/-- Through `view`, the service with states in `τ` answers as the one with states in `σ`. -/
def IsView [Service S σ] [Service S τ] (view : τ → σ) : Prop :=
  ∀ q s, Service.answer q (view s) = ((Service.answer q s).1, view (Service.answer q s).2)

theorem isView_id [Service S σ] : IsView (S := S) (id : σ → σ) := fun _ _ => rfl

namespace Conduct

variable [Service S σ] [Service S τ]

/-- `T` relates, for a service that is seen through `view`, the states before and after every question that
the conduct allows and every change from outside in `F`, and so the states before and after any run in the conduct.
The changes in `F` stay within the drift of every program. -/
structure Bounds (c : Conduct S σ ι γ) (view : τ → σ) (T : τ → τ → Prop) (F : (τ → τ) → Prop) : Prop where
  isView : IsView (S := S) view
  refl : ∀ s, T s s
  trans : ∀ s s' s'', T s s' → T s' s'' → T s s''
  of_may : ∀ i q s g, c.may i q (view s, g) → T s (Service.answer q s).2
  tolerates : ∀ f, F f → ∀ s, T s (f s) ∧ ∀ i g, c.drift i (view s, g) (view (f s), g)

end Conduct

/-- The signal to cancel is never set. -/
def World.NeverCancelled (w : World S τ) : Prop := ∀ t n, w.signal t n = false

/-- A world in which nothing happens from outside but changes in `F`, and no signal to cancel is set that the
conduct does not permit. -/
structure World.Within [Service S σ] (w : World S τ) (c : Conduct S σ ι γ) (F : (τ → τ) → Prop) : Prop where
  from_outside : ∀ e ∈ w.interventions, F e.2
  uncancelled : w.NeverCancelled ∨ c.stoppable

theorem World.within_of_quiet [Service S σ] {c : Conduct S σ ι γ} {w : World S τ} (hw : w.interventions = [])
    (h : w.NeverCancelled ∨ c.stoppable) : w.Within c fun _ => False :=
  ⟨by rw [hw]; simp, h⟩

theorem World.Within.interventions_eq_nil [Service S σ] {c : Conduct S σ ι γ} {w : World S τ}
    (hw : w.Within c fun _ => False) : w.interventions = [] :=
  List.eq_nil_iff_forall_not_mem.2 hw.from_outside

theorem World.Within.stoppable_of_isCancelled [Service S σ] {c : Conduct S σ ι γ} {F : (τ → τ) → Prop}
    {w : World S τ} (hw : w.Within c F) (h : w.isCancelled = true) : c.stoppable := by
  rcases hw.uncancelled with hn | hs
  · rw [World.isCancelled, hn] at h
    cases h
  · exact hs

section Run

variable [Service S σ] [Service S τ] {c : Conduct S σ ι γ} {view : τ → σ} {T : τ → τ → Prop} {F : (τ → τ) → Prop}

private theorem intervene_spec (hb : c.Bounds view T F) (t : Nat) (es : List (Nat × (τ → τ))) (s : τ)
    (h : ∀ e ∈ es, F e.2) :
    T s (World.intervene t es s).1 ∧ (∀ i g, c.drift i (view s, g) (view (World.intervene t es s).1, g)) ∧
      ∀ e ∈ (World.intervene t es s).2, e ∈ es := by
  induction es generalizing s with
  | nil => exact ⟨hb.refl s, fun i g => c.drift_refl i _, fun e he => he⟩
  | cons e es ih =>
    unfold World.intervene
    split
    · obtain ⟨hT, hd, hmem⟩ := ih (e.2 s) fun e' he' => h e' (List.mem_cons_of_mem _ he')
      have he := hb.tolerates _ (h e List.mem_cons_self) s
      refine ⟨hb.trans _ _ _ he.1 hT, fun i g => c.drift_trans i _ _ _ (he.2 i g) (hd i g), fun e' he' => ?_⟩
      exact List.mem_cons_of_mem _ (hmem e' he')
    · exact ⟨hb.refl s, fun i g => c.drift_refl i _, fun e he => he⟩

theorem World.Within.advanceTo (hb : c.Bounds view T F) {w : World S τ} (hw : w.Within c F) (t : Nat) :
    (w.advanceTo t).Within c F ∧ T w.service (w.advanceTo t).service ∧
      ∀ i g, c.drift i (view w.service, g) (view (w.advanceTo t).service, g) := by
  obtain ⟨hT, hd, hmem⟩ := intervene_spec hb (max w.now t) w.interventions w.service hw.from_outside
  exact ⟨⟨fun e he => hw.from_outside e (hmem e he), hw.uncancelled⟩, hT, hd⟩

theorem World.Within.ask {w : World S τ} (hw : w.Within c F) (q : S.Query) :
    (w.ask q).2.Within c F :=
  ⟨hw.from_outside, hw.uncancelled⟩

/-- A program that obeys ends as it says, in a world that is related to the first one as every step is. -/
theorem Program.Obeys.run (hb : c.Bounds view T F) {i : ι} {Q : α → σ × γ → Nat → Prop} {p : Program S α}
    {w : World S τ} {g : γ} (hw : w.Within c F) (h : p.Obeys c i Q (view w.service, g) w.now) :
    (p.run w).2.Within c F ∧ T w.service (p.run w).2.service ∧
      ∃ g', Q (p.run w).1 (view (p.run w).2.service, g') (p.run w).2.now := by
  induction p generalizing w g with
  | done a => exact ⟨hw, hb.refl _, g, h⟩
  | ask q k ih =>
    have ⟨hmay, hk⟩ := h
    rw [Conduct.after, hb.isView q w.service] at hk
    obtain ⟨hw', hT, hQ⟩ := ih (w.ask q).1 (w := (w.ask q).2) (hw.ask q) hk
    exact ⟨hw', hb.trans _ _ _ (hb.of_may i q _ g hmay) hT, hQ⟩
  | sleep ms k ih =>
    obtain ⟨hw', hT, hd⟩ := hw.advanceTo hb (w.now + ms)
    have hnow : (w.advanceTo (w.now + ms)).now = w.now + ms := by
      show max w.now (w.now + ms) = w.now + ms
      omega
    obtain ⟨hw'', hT', hQ⟩ := ih hw' (by rw [hnow]; exact h _ (hd i g))
    exact ⟨hw'', hb.trans _ _ _ hT hT', hQ⟩
  | clock k ih => exact ih w.now hw h
  | cancelled k ih => exact ih w.isCancelled hw (h _ hw.stoppable_of_isCancelled)

end Run

end Fleet
