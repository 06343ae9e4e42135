import Fleet.Proofs.Conduct.Pool

/-!
# Programs on any service

What can be said of a program when nothing is known of the service that answers it. `Program.Always` is a statement
about the result and the exchanges that the program adds to the record, whatever the answers are and whenever they
come. Sequencing is `always_bind`, and `Always.run` turns the predicate into a statement about `Program.run`. Of
programs that run side by side it tells the results (`runPool_of_always`).
-/

namespace Fleet

variable {S : Signature} {σ ι α β : Type}

namespace Program

/-- Whatever is answered, the program ends with a result and adds exchanges to the record, the latest first, of
which `Q` holds. -/
def Always (Q : α → List (Exchange S) → Prop) : Program S α → Prop
  | .done a => Q a []
  | .ask q k => ∀ t r, (k r).Always fun a es => Q a (es ++ [⟨t, q, r⟩])
  | .sleep _ k => k.Always Q
  | .clock k => ∀ t, (k t).Always Q
  | .cancelled k => ∀ b, (k b).Always Q

section Steps

variable {Q : α → List (Exchange S) → Prop}

theorem always_done {a : α} : (Program.done a).Always Q ↔ Q a [] := Iff.rfl

theorem always_ask {q : S.Query} {k : S.Answer q → Program S α} :
    (Program.ask q k).Always Q ↔ ∀ t r, (k r).Always fun a es => Q a (es ++ [⟨t, q, r⟩]) := Iff.rfl

theorem always_sleep {ms : Nat} {k : Program S α} : (Program.sleep ms k).Always Q ↔ k.Always Q := Iff.rfl

theorem always_clock {k : Nat → Program S α} : (Program.clock k).Always Q ↔ ∀ t, (k t).Always Q := Iff.rfl

theorem always_cancelled {k : Bool → Program S α} : (Program.cancelled k).Always Q ↔ ∀ b, (k b).Always Q := Iff.rfl

end Steps

theorem always_bind {p : Program S α} {f : α → Program S β} {Q : β → List (Exchange S) → Prop} :
    (p.bind f).Always Q ↔ p.Always fun a es => (f a).Always fun b es' => Q b (es' ++ es) := by
  induction p generalizing Q with
  | done a => simp only [Program.bind, Always, List.append_nil]
  | ask q k ih =>
    refine forall₂_congr fun t r => ?_
    rw [ih r]
    simp only [List.append_assoc]
  | sleep ms k ih => exact ih
  | clock k ih => exact forall_congr' fun t => ih t
  | cancelled k ih => exact forall_congr' fun b => ih b

theorem Always.mono {p : Program S α} {Q R : α → List (Exchange S) → Prop} (h : p.Always Q)
    (hQR : ∀ a es, Q a es → R a es) : p.Always R := by
  induction p generalizing Q R with
  | done a => exact hQR a [] h
  | ask q k ih => exact fun t r => ih r (h t r) fun a es => hQR a _
  | sleep ms k ih => exact ih h hQR
  | clock k ih => exact fun t => ih t (h t) hQR
  | cancelled k ih => exact fun b => ih b (h b) hQR

theorem Always.and {p : Program S α} {Q R : α → List (Exchange S) → Prop} (hQ : p.Always Q) (hR : p.Always R) :
    p.Always fun a es => Q a es ∧ R a es := by
  induction p generalizing Q R with
  | done a => exact ⟨hQ, hR⟩
  | ask q k ih => exact fun t r => ih r (hQ t r) (hR t r)
  | sleep ms k ih => exact ih hQ hR
  | clock k ih => exact fun t => ih t (hQ t) (hR t)
  | cancelled k ih => exact fun b => ih b (hQ b) (hR b)

theorem always_of_forall {p : Program S α} {Q : α → List (Exchange S) → Prop} (h : ∀ a es, Q a es) : p.Always Q := by
  induction p generalizing Q with
  | done a => exact h a []
  | ask q k ih => exact fun t r => ih r fun a es => h a _
  | sleep ms k ih => exact ih h
  | clock k ih => exact fun t => ih t h
  | cancelled k ih => exact fun b => ih b h

/-- What a program does when it is run. -/
theorem Always.run [Service S σ] {p : Program S α} {Q : α → List (Exchange S) → Prop} (h : p.Always Q)
    (w : World S σ) : ∃ es, (p.run w).2.record = es ++ w.record ∧ Q (p.run w).1 es := by
  induction p generalizing Q w with
  | done a => exact ⟨[], rfl, h⟩
  | ask q k ih =>
    obtain ⟨es, hes, hQ⟩ := ih _ (h w.now (w.ask q).1) (w.ask q).2
    have hsplit : (es ++ [⟨w.now, q, (w.ask q).1⟩]) ++ w.record = es ++ (w.ask q).2.record := List.append_assoc ..
    exact ⟨_, hes.trans hsplit.symm, hQ⟩
  | sleep ms k ih => exact ih h (w.advanceTo (w.now + ms))
  | clock k ih => exact ih _ (h w.now) w
  | cancelled k ih => exact ih _ (h w.isCancelled) w

end Program

/-! ### Programs side by side -/

/-- The conduct that permits everything. -/
private def freeConduct (S : Signature) (σ ι : Type) [Service S σ] : Conduct S σ ι Unit where
  note _ _ _ := ()
  may _ _ _ := True
  drift _ _ _ := True
  stoppable := True
  drift_refl _ _ := trivial
  drift_trans _ _ _ _ _ _ := trivial
  drift_of_may _ _ _ _ _ _ := trivial

private theorem Program.Always.obeys [Service S σ] {p : Program S α} {Q : α → Prop} (h : p.Always fun a _ => Q a)
    {i : ι} {x : σ × Unit} {t : Nat} : p.Obeys (freeConduct S σ ι) i (fun a _ _ => Q a) x t := by
  induction p generalizing x t with
  | done a => exact h
  | ask q k ih => exact ⟨trivial, ih _ (h t _)⟩
  | sleep ms k ih => exact fun _ _ => ih h
  | clock k ih => exact ih _ (h t)
  | cancelled k ih => exact fun b _ => ih b (h b)

/-- Programs that are run side by side end with a result of each of them, in any order. -/
theorem runPool_of_always [Service S σ] (width : Nat) {names : List ι} (hnames : names.Nodup)
    {program : ι → Program S α} {Q : ι → α → Prop} (h : ∀ i ∈ names, (program i).Always fun a _ => Q i a)
    (w : World S σ) :
    ∃ es : List (ι × α), (runPool width (names.map program) w).1 = es.map (·.2) ∧ (es.map (·.1)).Perm names ∧
      ∀ e ∈ es, Q e.1 e.2 := by
  have hbounds : (freeConduct S σ ι).Bounds id (fun _ _ => True) fun _ => True :=
    ⟨isView_id, fun _ => trivial, fun _ _ _ _ _ => trivial, fun _ _ _ _ _ => trivial,
      fun _ _ _ => ⟨trivial, fun _ _ => trivial⟩⟩
  obtain ⟨-, -, -, es, hes, hperm, hall, -⟩ := runPool_of_obeys (Q := fun i a _ _ => Q i a) (g := ()) hbounds
    (fun _ _ _ _ _ _ hQ _ _ => hQ) width hnames (w := w) ⟨fun _ _ => trivial, .inr trivial⟩
    (fun i hi _ _ _ => (h i hi).obeys)
  exact ⟨es, hes, hperm, hall⟩

-- Otherwise the elaborator runs a program whenever it looks at a statement about it.
attribute [irreducible] Program.Always

end Fleet
