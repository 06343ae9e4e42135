import Fleet.Proofs.Memory.Faults
import Fleet.Proofs.Memory.Regime

/-!
# Regimes that speak of the store

Most of what programs promise each other is about the stored resources. `Rules` are such promises, together with
what may go wrong meanwhile; `Rules.regime` is the regime that they make up.
-/

namespace Fleet

open Memory

variable {ι : Type}

/-- What a platform stores. -/
abbrev Stock := OrderedMap ResourceKey Resource

/-- `s'` stores nothing that is not stored in `s`. -/
def Shrinks (s s' : Stock) : Prop := ∀ k r, s'.find? k = some r → s.find? k = some r

theorem Memory.shrinks_removeWith (m : Memory) (k : ResourceKey) (r : Resource) :
    Shrinks m.resources ((m.remove k).removeWith r).resources := by
  intro j s hs
  rw [find?_removeWith] at hs
  split at hs
  · exact absurd hs (by simp)
  · exact hs

structure Rules (ι : Type) where
  project : String
  polls : Nat
  /-- Fetches of operations get through and records stay. -/
  steady : Prop
  /-- No failures are ordered, there is none for a name that is stored or whose insert gets lost. -/
  tame : Prop
  /-- The codes of the failures that may be ordered. -/
  codes : ErrorCode → Prop
  inv : Stock → Prop
  keeps : ι → Stock → Stock → Prop
  respects : Stock → Stock → Prop
  keeps_refl : ∀ i s, keeps i s s
  keeps_trans : ∀ i s s' s'', keeps i s s' → keeps i s' s'' → keeps i s s''
  respects_refl : ∀ s, respects s s

namespace Rules

variable (R : Rules ι)

structure Holds (m : Memory) : Prop where
  keyed : m.WellKeyed
  store : R.inv m.resources
  project : m.project = R.project
  polls : m.pollsUntilDone = R.polls
  codes : ∀ n x, m.scriptedFailures.find? n = some x → R.codes x.code
  fetches : R.steady → m.failingFetches = 0
  lost : R.tame → ∀ n, m.lostInserts.contains n = true → m.scriptedFailures.find? n = none
  unscripted : R.tame → ∀ k r, m.resources.find? k = some r → m.scriptedFailures.find? r.name = none

structure Keeps (i : ι) (m m' : Memory) : Prop where
  store : R.keeps i m.resources m'.resources
  unscripted : R.tame → ∀ n, m.scriptedFailures.find? n = none → m'.scriptedFailures.find? n = none

variable {R} {i : ι} {m m' : Memory}

/-- What follows from the platform before, when only the store is changed. -/
theorem Holds.continues (h : R.Holds m) (hc : m.Continues m') (hkeyed : m'.WellKeyed) (hstore : R.inv m'.resources)
    (hun : R.tame → ∀ k r, m'.resources.find? k = some r → m.scriptedFailures.find? r.name = none) : R.Holds m' where
  keyed := hkeyed
  store := hstore
  project := hc.project.trans h.project
  polls := hc.polls.trans h.polls
  codes n x hx := h.codes n x (hc.scripted n x hx)
  fetches hs := by
    have := h.fetches hs
    have := hc.fetches
    omega
  lost ht n hn := hc.scripted_none (h.lost ht n (hc.lost n hn))
  unscripted ht k r hr := hc.scripted_none (hun ht k r hr)

theorem Holds.quiet (h : R.Holds m) (hq : m.Quiet m') : R.Holds m' := by
  refine h.continues hq.toContinues ?_ ?_ ?_
  · unfold WellKeyed
    rw [hq.resources]
    exact h.keyed
  · rw [hq.resources]
    exact h.store
  · rw [hq.resources]
    exact h.unscripted

variable (R)

def regime : Regime ι where
  inv := R.Holds
  keeps := R.Keeps
  respects m m' := R.respects m.resources m'.resources
  project := R.project
  polls := R.polls
  steady := R.steady
  tame := R.tame
  stoppable := True
  inv_quiet := Holds.quiet
  keeps_quiet {i m m'} _ hq := ⟨by rw [hq.resources]; exact R.keeps_refl i _, fun _ _ hn => hq.scripted_none hn⟩
  keeps_trans h h' :=
    ⟨R.keeps_trans _ _ _ _ h.store h'.store, fun ht n hn => h'.unscripted ht n (h.unscripted ht n hn)⟩
  respects_refl _ := R.respects_refl _
  respects_quiet h h' hr := by rw [← h.resources, h'.resources]; exact hr
  wellKeyed h := h.keyed
  project_eq h := h.project
  polls_eq h := h.polls
  fetches hs h := h.fetches hs
  keeps_unscripted ht h := h.unscripted ht _
  lost_unscripted ht h := h.lost ht _

variable {R}

/-- An effect is allowed when the store after it is one that the rules permit. -/
theorem allows (h : R.Holds m) (hc : m.Continues m') (hkeyed : m'.WellKeyed) (hstore : R.inv m'.resources)
    (hun : R.tame → ∀ k r, m'.resources.find? k = some r → m.scriptedFailures.find? r.name = none)
    (hrespects : R.respects m.resources m'.resources) (hkeeps : ∀ j, i ≠ j → R.keeps j m.resources m'.resources) :
    R.regime.Allows i m m' :=
  ⟨h.continues hc hkeyed hstore hun, hrespects, fun j hj => ⟨hkeeps j hj, fun _ _ hn => hc.scripted_none hn⟩⟩

/-- Where neither fetches nor the orders of failures are promised anything, faults are put up with. -/
theorem tolerates_fault (hs : ¬ R.steady) (ht : ¬ R.tame) {f : Fault}
    (hf : ∀ code, f.code? = some code → R.codes code) (h : R.Holds m) : R.regime.Tolerates m (f.apply m) := by
  have hd := f.disturbed m
  refine ⟨⟨?_, ?_, hd.project.trans h.project, hd.polls.trans h.polls, fun n x hx => ?_, fun hs' => absurd hs' hs,
    fun ht' => absurd ht' ht, fun ht' => absurd ht' ht⟩, fun i => ⟨?_, fun ht' => absurd ht' ht⟩,
    Nat.le_of_eq hd.count.symm, fun n => ?_⟩
  · unfold WellKeyed
    rw [hd.resources]
    exact h.keyed
  · rw [hd.resources]
    exact h.store
  · rcases Fault.scripted hx with hx | hx
    · exact h.codes n x hx
    · exact hf x.code hx
  · rw [hd.resources]
    exact R.keeps_refl i _
  · exact (hd.record n).imp_right fun hn => ⟨hs, hn⟩

end Rules

end Fleet
