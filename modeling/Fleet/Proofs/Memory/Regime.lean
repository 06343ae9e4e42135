import Fleet.Proofs.Conduct.Basic
import Fleet.Proofs.Memory.Calls

/-!
# Programs on the platform in memory

A regime says what holds of the platform while some programs work on it, what each of them can rely on, and what
every change of the store has to respect. Its conduct allows a program to ask for its own operations only: the
notes tell who has started which operation. `Does` is the triple that the rules for clients are stated with: from
a state in `A`, an action ends with a result in `B` or a failure in `E`.
-/

namespace Fleet

open Memory

universe u

variable {ι α β : Type}

/-- The rules of a stretch of work on the platform. -/
structure Regime (ι : Type) where
  /-- What holds before and after every call. -/
  inv : Memory → Prop
  /-- What the program of `i` can rely on while others work. -/
  keeps : ι → Memory → Memory → Prop
  /-- What every change of the store respects. -/
  respects : Memory → Memory → Prop
  /-- The project of the platform and the polls that an operation takes. -/
  project : String
  polls : Nat
  /-- Whether fetches of operations get through and records stay. -/
  steady : Prop
  /-- Whether no failures are ordered meanwhile, and none for names whose insert gets lost. -/
  tame : Prop
  /-- Whether the signal to cancel may be set. -/
  stoppable : Prop
  inv_quiet : ∀ {m m'}, inv m → m.Quiet m' → inv m'
  keeps_quiet : ∀ {i m m'}, inv m → m.Quiet m' → keeps i m m'
  keeps_trans : ∀ {i m m' m''}, keeps i m m' → keeps i m' m'' → keeps i m m''
  respects_refl : ∀ {m}, inv m → respects m m
  respects_quiet : ∀ {m n n' m'}, m.Quiet n → n'.Quiet m' → respects n n' → respects m m'
  wellKeyed : ∀ {m}, inv m → m.WellKeyed
  project_eq : ∀ {m}, inv m → m.project = project
  polls_eq : ∀ {m}, inv m → m.pollsUntilDone = polls
  fetches : ∀ {m}, steady → inv m → m.failingFetches = 0
  keeps_unscripted : ∀ {i m m' n}, tame → keeps i m m' → m.scriptedFailures.find? n = none →
    m'.scriptedFailures.find? n = none
  lost_unscripted : ∀ {m n}, tame → inv m → m.lostInserts.contains n = true → m.scriptedFailures.find? n = none

namespace Regime

variable {R : Regime ι} {i j : ι} {m m' : Memory}

/-- The operation belongs to `i`. -/
def Owns (i : ι) (h : OperationHandle) (x : Memory × (Nat → Option ι)) : Prop :=
  ∃ n, n ≤ x.1.operationCount ∧ h.name = operationName n ∧ x.2 n = some i

/-- The change from `m` to `m'` is one that `i` may make. -/
structure Allows (R : Regime ι) (i : ι) (m m' : Memory) : Prop where
  inv : R.inv m'
  respects : R.respects m m'
  keeps : ∀ j, i ≠ j → R.keeps j m m'

theorem allows_of_quiet (hm : R.inv m) (hq : m.Quiet m') : R.Allows i m m' :=
  ⟨R.inv_quiet hm hq, R.respects_quiet (.refl m) hq (R.respects_refl hm), fun _ _ => R.keeps_quiet hm hq⟩

/-- Quiet changes before and after a change that is allowed do not matter. -/
theorem Allows.of_quiet {n n' : Memory} (h : R.Allows i n n') (hm : R.inv m) (hq : m.Quiet n)
    (hq' : n'.Quiet m') : R.Allows i m m' where
  inv := R.inv_quiet h.inv hq'
  respects := R.respects_quiet hq hq' h.respects
  keeps j hj := R.keeps_trans (R.keeps_trans (R.keeps_quiet hm hq) (h.keeps j hj)) (R.keeps_quiet h.inv hq')

/-- What the notes say of the operations that are not new, and what `i` finds of its own. -/
structure Leaves (R : Regime ι) (i : ι) (x y : Memory × (Nat → Option ι)) : Prop where
  inv : R.inv y.1
  keeps : R.keeps i x.1 y.1
  count : x.1.operationCount ≤ y.1.operationCount
  owner : ∀ n, n ≤ x.1.operationCount → y.2 n = x.2 n
  record : ∀ n, n ≤ x.1.operationCount → x.2 n = some i →
    y.1.operations.find? (operationName n) = x.1.operations.find? (operationName n) ∨
      (¬ R.steady ∧ y.1.operations.find? (operationName n) = none)

/-- The conduct of a regime. -/
def conduct (R : Regime ι) : Conduct Cloud Memory ι (Nat → Option ι) where
  note i q x n :=
    if x.1.operationCount < n ∧ n ≤ (answer q x.1).2.operationCount then some i else x.2 n
  may i q x := (∀ h, q = .operation h → Owns i h x) ∧ R.Allows i x.1 (answer q x.1).2
  drift i x y := R.inv x.1 → R.Leaves i x y
  stoppable := R.stoppable
  drift_refl i x hx := ⟨hx, R.keeps_quiet hx (.refl _), Nat.le_refl _, fun _ _ => rfl, fun _ _ _ => .inl rfl⟩
  drift_trans i x y z hxy hyz hx := by
    have h := hxy hx
    have h' := hyz h.inv
    refine ⟨h'.inv, R.keeps_trans h.keeps h'.keeps, Nat.le_trans h.count h'.count, fun n hn => ?_, fun n hn hi => ?_⟩
    · rw [h'.owner n (Nat.le_trans hn h.count), h.owner n hn]
    · have hy := h'.record n (Nat.le_trans hn h.count) ((h.owner n hn).trans hi)
      rcases hy with hy | hy
      · rw [hy]
        exact h.record n hn hi
      · exact .inr hy
  drift_of_may i j q x hij hmay _ := by
    obtain ⟨hown, hallow⟩ := hmay
    refine ⟨hallow.inv, hallow.keeps j hij, operationCount_le_answer q x.1, fun n hn => ?_, fun n hn hj => .inl ?_⟩
    · exact if_neg fun h => by omega
    · refine find?_operations_answer hn fun h hq he => ?_
      obtain ⟨n', -, hn', hi⟩ := hown h hq
      have : n' = n := operationName_injective (hn'.symm.trans he)
      subst this
      rw [hi] at hj
      exact hij (Option.some.inj hj)

/-- The change from `m` to `m'` is one from outside that every program can put up with. -/
structure Tolerates (R : Regime ι) (m m' : Memory) : Prop where
  inv : R.inv m'
  keeps : ∀ i, R.keeps i m m'
  count : m.operationCount ≤ m'.operationCount
  record : ∀ n, m'.operations.find? n = m.operations.find? n ∨ (¬ R.steady ∧ m'.operations.find? n = none)

theorem Tolerates.drift (h : R.inv m → R.Tolerates m m') (i : ι) (g : Nat → Option ι) :
    R.conduct.drift i (m, g) (m', g) := by
  intro hm
  obtain ⟨hinv, hkeeps, hcount, hrecord⟩ := h hm
  exact ⟨hinv, hkeeps i, hcount, fun _ _ => rfl, fun n _ _ => hrecord _⟩

/-- The invariant holds before and after whatever happens in the conduct of a regime. -/
theorem bounds {F : (Memory → Memory) → Prop} (hF : ∀ f, F f → ∀ m, R.inv m → R.Tolerates m (f m)) :
    R.conduct.Bounds id (fun m m' => R.inv m → R.inv m') F where
  isView := isView_id
  refl _ hm := hm
  trans _ _ _ h h' hm := h' (h hm)
  of_may _ _ _ _ hmay _ := hmay.2.inv
  tolerates f hf m := ⟨fun hm => (hF f hf m hm).inv, Tolerates.drift (hF f hf m)⟩

/-! ### Assertions -/

/-- An assertion that quiet changes do not spoil. -/
def Still (R : Regime ι) (A : Memory → Prop) : Prop := ∀ m m', R.inv m → m.Quiet m' → A m → A m'

/-- An assertion that the others do not spoil for `i`. -/
def Stable (R : Regime ι) (i : ι) (A : Memory → Prop) : Prop :=
  ∀ m m', R.inv m → R.inv m' → R.keeps i m m' → A m → A m'

theorem Stable.still {A : Memory → Prop} (h : R.Stable i A) : R.Still A :=
  fun m m' hm hq => h m m' hm (R.inv_quiet hm hq) (R.keeps_quiet hm hq)

theorem Stable.and {A B : Memory → Prop} (hA : R.Stable i A) (hB : R.Stable i B) :
    R.Stable i fun m => A m ∧ B m :=
  fun m m' hm hm' hk h => ⟨hA m m' hm hm' hk h.1, hB m m' hm hm' hk h.2⟩

theorem Stable.exists {β : Sort u} {A : β → Memory → Prop} (h : ∀ b, R.Stable i (A b)) :
    R.Stable i fun m => ∃ b, A b m :=
  fun m m' hm hm' hk ⟨b, hb⟩ => ⟨b, h b m m' hm hm' hk hb⟩

theorem stable_const (P : Prop) : R.Stable i fun _ => P := fun _ _ _ _ _ h => h

/-- Where no failures are ordered meanwhile, there is none for a name. -/
def Unscripted (R : Regime ι) (n : String) (m : Memory) : Prop := R.tame → m.scriptedFailures.find? n = none

theorem stable_unscripted (n : String) : R.Stable i (R.Unscripted n) :=
  fun _ _ _ _ hk h ht => R.keeps_unscripted ht hk (h ht)

/-! ### Triples -/

/-- How an action ends. -/
def Ends (B : α → Memory → Prop) (E : Failure → Memory → Prop) : Except Failure α → Memory → Prop
  | .ok a, m => B a m
  | .error f, m => E f m

/-- What a program achieves when its result is used by an action. -/
def Uses (R : Regime ι) (i : ι) (k : α → Action β) (Q : Except Failure β → Memory × (Nat → Option ι) → Nat → Prop) :
    Except Failure α → Memory × (Nat → Option ι) → Nat → Prop
  | .ok v, y, t => (k v).run.Obeys R.conduct i Q y t
  | .error f, y, t => Q (.error f) y t

theorem obeys_action_bind {a : Action α} {k : α → Action β}
    {Q : Except Failure β → Memory × (Nat → Option ι) → Nat → Prop} {x : Memory × (Nat → Option ι)} {t : Nat}
    (h : a.run.Obeys R.conduct i (R.Uses i k Q) x t) : (a >>= k).run.Obeys R.conduct i Q x t := by
  refine Program.obeys_bind.2 (h.mono fun r y s hr => ?_)
  cases r with
  | ok v => exact hr
  | error f => exact hr

/-- From a state in `A`, the action of `i` ends with a result in `B` or a failure in `E`. -/
structure Does (R : Regime ι) (i : ι) (A : Memory → Prop) (a : Action α) (B : α → Memory → Prop)
    (E : Failure → Memory → Prop) : Prop where
  obeys : ∀ x t, R.inv x.1 → A x.1 → a.run.Obeys R.conduct i (fun r y _ => R.inv y.1 ∧ Ends B E r y.1) x t

variable {A A' : Memory → Prop} {B B' : α → Memory → Prop} {E E' : Failure → Memory → Prop}

theorem Does.conseq {a : Action α} (h : R.Does i A a B E) (hA : ∀ m, R.inv m → A' m → A m)
    (hB : ∀ v m, R.inv m → B v m → B' v m) (hE : ∀ f m, R.inv m → E f m → E' f m) : R.Does i A' a B' E' := by
  refine ⟨fun x t hx hA' => ?_⟩
  refine (h.obeys x t hx (hA x.1 hx hA')).mono fun r y s hr => ⟨hr.1, ?_⟩
  cases r with
  | ok v => exact hB v y.1 hr.1 hr.2
  | error f => exact hE f y.1 hr.1 hr.2

theorem Does.pre {a : Action α} (h : R.Does i A a B E) (hA : ∀ m, R.inv m → A' m → A m) : R.Does i A' a B E :=
  h.conseq hA (fun _ _ _ hB => hB) (fun _ _ _ hE => hE)

theorem does_pure {v : α} (h : ∀ m, R.inv m → A m → B v m) : R.Does i A (pure v) B E :=
  ⟨fun x _ hx hA => ⟨hx, h x.1 hx hA⟩⟩

theorem does_throw {f : Failure} (h : ∀ m, R.inv m → A m → E f m) : R.Does i A (throw f : Action α) B E :=
  ⟨fun x _ hx hA => ⟨hx, h x.1 hx hA⟩⟩

theorem Does.bind {a : Action α} {k : α → Action β} {C : β → Memory → Prop} (h : R.Does i A a B E)
    (hk : ∀ v, R.Does i (B v) (k v) C E) : R.Does i A (a >>= k) C E := by
  refine ⟨fun x t hx hA => ?_⟩
  refine obeys_action_bind ((h.obeys x t hx hA).mono fun r y s hr => ?_)
  cases r with
  | ok v => exact (hk v).obeys y s hr.1 hr.2
  | error f => exact ⟨hr.1, hr.2⟩

theorem Does.outcome {a : Action α} (h : R.Does i A a B E) {E' : Failure → Memory → Prop} :
    R.Does i A a.outcome (Ends B E) E' := by
  refine ⟨fun x t hx hA => ?_⟩
  exact Program.obeys_bind.2 ((h.obeys x t hx hA).mono fun r y s hr => hr)

/-- What an action achieves when it is run. -/
theorem Does.run {τ : Type} [Service Cloud τ] {view : τ → Memory} {T : τ → τ → Prop} {F : (τ → τ) → Prop}
    {a : Action α} (h : R.Does i A a B E) (hb : R.conduct.Bounds view T F) {w : World Cloud τ}
    (hw : w.Within R.conduct F) (hinv : R.inv (view w.service)) (hA : A (view w.service)) :
    (a.run.run w).2.Within R.conduct F ∧ T w.service (a.run.run w).2.service ∧
      R.inv (view (a.run.run w).2.service) ∧ Ends B E (a.run.run w).1 (view (a.run.run w).2.service) := by
  have hobeys := h.obeys (view w.service, fun _ => none) w.now hinv hA
  obtain ⟨hw', hT, g, hinv', hends⟩ := Program.Obeys.run hb hw hobeys
  exact ⟨hw', hT, hinv', hends⟩

theorem does_exists {γ : Sort u} {A : γ → Memory → Prop} {a : Action α} (h : ∀ c, R.Does i (A c) a B E) :
    R.Does i (fun m => ∃ c, A c m) a B E :=
  ⟨fun x t hx ⟨c, hc⟩ => (h c).obeys x t hx hc⟩

theorem does_and {P : Prop} {a : Action α} (h : P → R.Does i A a B E) : R.Does i (fun m => P ∧ A m) a B E :=
  ⟨fun x t hx ⟨hP, hA⟩ => (h hP).obeys x t hx hA⟩

end Regime

end Fleet
