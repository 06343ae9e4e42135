import Fleet.Proofs.Memory.Lifecycle

/-!
# Fingerprints of tags

The platform gives out a fingerprint with every new instance and with every change of tags, and never one again. An
instance bears its fingerprint in the store, or in an operation that is going to create it (`Place`), so at any time at
most one place bears a fingerprint (`Marked`), and one that is superseded does not come back (`Confined`). An event
gives out at most one fingerprint or carries one from an operation into the store (`Shift`).

The fingerprint of a change of tags is compared when the change is asked for and not when it is carried out. Changes
that do not overlap have different fingerprints therefore (`later_write_differs`), and those that overlap may overwrite
each other (`overlapping_writes`).
-/

namespace Fleet

/-- The fingerprint of the instance that a resource is. -/
def Resource.mark? : Resource → Option (Option String)
  | .instance i => some i.tags.fingerprint
  | _ => none

/-- The fingerprint of the instance that an effect creates. -/
def Effect.mark? : Effect → Option (Option String)
  | .create r => r.mark?
  | _ => none

namespace Memory

/-- The `j`-th fingerprint that is given out. -/
def fingerprint (j : Nat) : String := "fp-" ++ fourDigits j

theorem fingerprint_injective {a b : Nat} (h : fingerprint a = fingerprint b) : a = b := by
  have ht : (fourDigits a).toList = (fourDigits b).toList := by
    have := congrArg String.toList h
    simpa [fingerprint] using this
  exact fourDigits_injective (String.toList_inj.1 ht)

/-- Where an instance may be: under a key of the store, or in an operation. -/
inductive Place
  | stored (k : ResourceKey)
  | pending (operation : String)
  deriving DecidableEq

/-- The fingerprint that the instance at a place bears. -/
def markAt (m : Memory) : Place → Option (Option String)
  | .stored k => (m.resources.find? k).bind Resource.mark?
  | .pending n => ((m.operations.find? n).bind OperationRecord.effect).bind Effect.mark?

/-- The platform has given out the fingerprint. -/
def Issued (m : Memory) (f : Option String) : Prop := ∃ j, j ≤ m.fingerprintCount ∧ f = some (fingerprint j)

/-- All fingerprints have been given out by the platform, and each is borne once. -/
structure Marked (m : Memory) : Prop where
  issued : ∀ p f, m.markAt p = some f → m.Issued f
  unique : ∀ p q f, m.markAt p = some f → m.markAt q = some f → p = q

/-- The fingerprint has been given out, and at most stored instances with certain keys bear it. -/
structure Confined (P : ResourceKey → Prop) (f : Option String) (m : Memory) : Prop where
  issued : m.Issued f
  borne : ∀ p, m.markAt p = some f → ∃ k, P k ∧ p = .stored k

/-- How the fingerprints change: they stay or go, one is given out, or one gets from an operation into the store. -/
inductive Shift (m m' : Memory) : Prop
  | kept (hcount : m.fingerprintCount ≤ m'.fingerprintCount)
      (h : ∀ p f, m'.markAt p = some f → m.markAt p = some f)
  | fresh (q : Place) (hcount : m'.fingerprintCount = m.fingerprintCount + 1)
      (hq : m'.markAt q = some (some (fingerprint (m.fingerprintCount + 1))))
      (h : ∀ p f, p ≠ q → m'.markAt p = some f → m.markAt p = some f)
  | moved (n : String) (k : ResourceKey) (hcount : m.fingerprintCount ≤ m'.fingerprintCount)
      (hn : m'.markAt (.pending n) = none) (hk : m'.markAt (.stored k) = m.markAt (.pending n))
      (h : ∀ p f, p ≠ .stored k → m'.markAt p = some f → m.markAt p = some f)

variable {m m' : Memory} {f : Option String} {P : ResourceKey → Prop}

/-! ### What shifts preserve -/

theorem Issued.mono (h : m.Issued f) (hcount : m.fingerprintCount ≤ m'.fingerprintCount) : m'.Issued f := by
  obtain ⟨j, hj, hf⟩ := h
  exact ⟨j, Nat.le_trans hj hcount, hf⟩

/-- The next fingerprint has not been given out. -/
theorem not_issued_next (m : Memory) : ¬ m.Issued (some (fingerprint (m.fingerprintCount + 1))) := by
  rintro ⟨j, hj, hf⟩
  have := fingerprint_injective (Option.some.inj hf)
  omega

theorem Shift.count_le (hs : m.Shift m') : m.fingerprintCount ≤ m'.fingerprintCount := by
  cases hs with
  | kept hcount h => exact hcount
  | fresh q hcount hq h => omega
  | moved n k hcount hn hk h => exact hcount

private theorem Marked.fresh (h : m.Marked) {q₀ : Place} (hcount : m'.fingerprintCount = m.fingerprintCount + 1)
    (hnew : m'.markAt q₀ = some (some (fingerprint (m.fingerprintCount + 1))))
    (hkept : ∀ p f, p ≠ q₀ → m'.markAt p = some f → m.markAt p = some f) : m'.Marked := by
  have hold (p : Place) (f : Option String) (hp : m'.markAt p = some f) (hne : p ≠ q₀) :
      m.markAt p = some f ∧ f ≠ some (fingerprint (m.fingerprintCount + 1)) := by
    have hp' := hkept p f hne hp
    refine ⟨hp', ?_⟩
    rintro rfl
    exact m.not_issued_next (h.issued p _ hp')
  constructor
  · intro p f hp
    by_cases hpq : p = q₀
    · subst hpq
      rw [hnew] at hp
      exact ⟨_, Nat.le_of_eq hcount.symm, (Option.some.inj hp).symm⟩
    · exact (h.issued p f (hold p f hp hpq).1).mono (by omega)
  · intro p q f hp hq
    by_cases hpq : p = q₀ <;> by_cases hqq : q = q₀
    · rw [hpq, hqq]
    · subst hpq
      rw [hnew] at hp
      exact absurd (Option.some.inj hp).symm (hold q f hq hqq).2
    · subst hqq
      rw [hnew] at hq
      exact absurd (Option.some.inj hq).symm (hold p f hp hpq).2
    · exact h.unique p q f (hold p f hp hpq).1 (hold q f hq hqq).1

private theorem Marked.moved (h : m.Marked) {n : String} {k : ResourceKey}
    (hcount : m.fingerprintCount ≤ m'.fingerprintCount) (hn : m'.markAt (.pending n) = none)
    (hk : m'.markAt (.stored k) = m.markAt (.pending n))
    (hkept : ∀ p f, p ≠ .stored k → m'.markAt p = some f → m.markAt p = some f) : m'.Marked := by
  -- The place in the store stands for that in the operation, which bears nothing any more.
  have hold (p : Place) (f : Option String) (hp : m'.markAt p = some f) :
      ∃ q, m.markAt q = some f ∧ ((p = .stored k ∧ q = .pending n) ∨ (p ≠ .pending n ∧ q = p)) := by
    by_cases hpk : p = .stored k
    · subst hpk
      exact ⟨_, hk.symm.trans hp, .inl ⟨rfl, rfl⟩⟩
    · refine ⟨p, hkept p f hpk hp, .inr ⟨?_, rfl⟩⟩
      rintro rfl
      rw [hn] at hp
      exact absurd hp (by simp)
  constructor
  · intro p f hp
    obtain ⟨q, hq, -⟩ := hold p f hp
    exact (h.issued q f hq).mono hcount
  · intro p q f hp hq
    obtain ⟨p', hp', hcase⟩ := hold p f hp
    obtain ⟨q', hq', hcase'⟩ := hold q f hq
    obtain rfl := h.unique p' q' f hp' hq'
    rcases hcase with ⟨rfl, rfl⟩ | ⟨hpn, rfl⟩ <;> rcases hcase' with ⟨rfl, hq''⟩ | ⟨hqn, hq''⟩
    · rfl
    · exact absurd hq''.symm hqn
    · exact absurd hq'' hpn
    · exact hq''

theorem Marked.shift (h : m.Marked) (hs : m.Shift m') : m'.Marked := by
  cases hs with
  | kept hcount hkept =>
    exact ⟨fun p f hp => (h.issued p f (hkept p f hp)).mono hcount,
      fun p q f hp hq => h.unique p q f (hkept p f hp) (hkept q f hq)⟩
  | fresh q hcount hnew hkept => exact h.fresh hcount hnew hkept
  | moved n k hcount hn hk hkept => exact h.moved hcount hn hk hkept

/-- A fingerprint that has been given out does not spread. -/
theorem Confined.shift (h : Confined P f m) (hs : m.Shift m') : Confined P f m' := by
  refine ⟨h.issued.mono hs.count_le, fun p hp => ?_⟩
  cases hs with
  | kept hcount hkept => exact h.borne p (hkept p f hp)
  | fresh q hcount hq hkept =>
    by_cases hpq : p = q
    · subst hpq
      rw [hq] at hp
      rw [← Option.some.inj hp] at h
      exact absurd h.issued m.not_issued_next
    · exact h.borne p (hkept p f hpq hp)
  | moved n k hcount hn hk hkept =>
    by_cases hpk : p = .stored k
    · subst hpk
      obtain ⟨k', -, hk'⟩ := h.borne (.pending n) (hk.symm.trans hp)
      exact absurd hk' (by simp)
    · exact h.borne p (hkept p f hpk hp)

/-- A fingerprint that a stored instance bears is borne by this instance alone. -/
theorem Marked.confined (h : m.Marked) {k : ResourceKey} (hk : m.markAt (.stored k) = some f) :
    Confined (· = k) f m := by
  refine ⟨h.issued _ f hk, fun p hp => ⟨k, rfl, ?_⟩⟩
  exact h.unique p (.stored k) f hp hk

/-! ### What the fingerprints depend on -/

theorem markAt_congr (hres : m'.resources = m.resources) (hops : m'.operations = m.operations) :
    m'.markAt = m.markAt := by
  funext p
  cases p with
  | stored k => rw [markAt, markAt, hres]
  | pending n => rw [markAt, markAt, hops]

theorem markAt_of_insert (m : Memory) {m' : Memory} (k : ResourceKey) (r : Resource)
    (hres : m'.resources = m.resources.insert k r)
    (hops : m'.operations = m.operations) (p : Place) :
    m'.markAt p = if p = .stored k then r.mark? else m.markAt p := by
  cases p with
  | stored j =>
    rw [markAt, hres, OrderedMap.find?_insert]
    by_cases hj : j = k
    · rw [if_pos hj, if_pos (by rw [hj])]
      rfl
    · rw [if_neg hj, if_neg (by simpa using hj)]
      rfl
  | pending n =>
    rw [if_neg (by simp), markAt, markAt, hops]

theorem markAt_of_record {n : String} {r : OperationRecord} (hres : m'.resources = m.resources)
    (hr : m'.operations.find? n = some r) (hothers : ∀ j, j ≠ n → m'.operations.find? j = m.operations.find? j)
    (p : Place) : m'.markAt p = if p = .pending n then r.effect.bind Effect.mark? else m.markAt p := by
  cases p with
  | stored k => rw [if_neg (by simp), markAt, markAt, hres]
  | pending j =>
    by_cases hj : j = n
    · rw [if_pos (by rw [hj]), markAt, hj, hr]
      rfl
    · rw [if_neg (by simpa using hj), markAt, markAt, hothers j hj]

theorem markAt_enter (m : Memory) (n : String) (r : OperationRecord) (p : Place) :
    (m.enter n r).markAt p = if p = .pending n then r.effect.bind Effect.mark? else m.markAt p := by
  have hres : (m.enter n r).resources = m.resources := rfl
  refine markAt_of_record hres (m.find?_operations_enter n r) (fun j hj => ?_) p
  exact (OrderedMap.find?_insert _ _ _ _).trans (if_neg hj)

private theorem Shift.of_congr (hres : m'.resources = m.resources) (hops : m'.operations = m.operations)
    (hcount : m.fingerprintCount ≤ m'.fingerprintCount) : m.Shift m' := by
  refine .kept hcount fun p f hp => ?_
  rw [← markAt_congr hres hops]
  exact hp

/-- What is new gets the next fingerprint, or is nothing that bears one. -/
private def Stamps (count : Nat) (mark : Option (Option String)) (count' : Nat) : Prop :=
  (mark = none ∧ count ≤ count') ∨ (mark = some (some (fingerprint (count + 1))) ∧ count' = count + 1)

private theorem Stamps.count_le {count count' : Nat} {mark : Option (Option String)} (h : Stamps count mark count') :
    count ≤ count' := by
  rcases h with ⟨-, hle⟩ | ⟨-, heq⟩
  · exact hle
  · omega

private theorem Shift.of_place {q : Place} {x : Option (Option String)}
    (h : ∀ p, m'.markAt p = if p = q then x else m.markAt p)
    (hmark : Stamps m.fingerprintCount x m'.fingerprintCount) : m.Shift m' := by
  rcases hmark with ⟨rfl, hcount⟩ | ⟨rfl, hcount⟩
  · refine .kept hcount fun p f hp => ?_
    rw [h] at hp
    by_cases hpq : p = q
    · rw [if_pos hpq] at hp
      exact absurd hp (by simp)
    · rw [if_neg hpq] at hp
      exact hp
  · refine .fresh q hcount ((h q).trans (if_pos rfl)) fun p f hpq hp => ?_
    rw [h, if_neg hpq] at hp
    exact hp

/-! ### What happens to the fingerprints -/

private theorem shift_removeWith (m : Memory) (k : ResourceKey) (r : Resource) :
    m.Shift ((m.remove k).removeWith r) := by
  have hops : ((m.remove k).removeWith r).operations = m.operations := by
    rw [removeWith_eq]
    rfl
  refine .kept (Nat.le_of_eq ?_) fun p f hp => ?_
  · rw [removeWith_eq]
    rfl
  · cases p with
    | stored j =>
      rw [markAt, find?_removeWith] at hp
      split at hp
      · exact absurd hp (by simp)
      · exact hp
    | pending n =>
      rw [markAt, hops] at hp
      exact hp

/-- An operation that is entered holds the fingerprint of what it is going to create. -/
private theorem Shift.of_submit {m₁ : Memory} (hmarks : m₁.markAt = m.markAt) (kind : OperationKind)
    (target : Summary) {e : Effect} (he : Stamps m.fingerprintCount e.mark? m₁.fingerprintCount) :
    m.Shift (m₁.submit kind target e).2 := by
  have hs := m₁.submitted_submit kind target e
  have hcount : (m₁.submit kind target e).2.fingerprintCount = m₁.fingerprintCount := rfl
  obtain ⟨r, hr, ha⟩ := hs.record
  have heffect : r.effect = (m₁.planFor target.name e).toOption := ha.effect
  refine .of_place (q := .pending (m₁.submit kind target e).1.name) (x := r.effect.bind Effect.mark?) (fun p => ?_) ?_
  · rw [← hmarks]
    exact markAt_of_record hs.quiet.resources hr hs.others p
  · rw [hcount, heffect, planFor]
    cases m₁.scriptedFailures.find? target.name with
    | none => exact he
    | some x => exact .inl ⟨rfl, he.count_le⟩

/-- A request for an instance takes the next fingerprint, all others take none. -/
private theorem stamps_materialize (m : Memory) (scope : Scope) (spec : ResourceSpec) :
    Stamps m.fingerprintCount (m.materialize scope spec).1.mark? (m.materialize scope spec).2.fingerprintCount := by
  cases spec with
  | «instance» i => exact .inr ⟨rfl, rfl⟩
  | _ => exact .inl ⟨rfl, Nat.le_refl _⟩

private theorem shift_insert (m : Memory) (scope : Scope) (spec : ResourceSpec) : m.Shift (m.insert scope spec).2 := by
  have hstamps : Stamps m.fingerprintCount _ _ :=
    (m.journal (.insert spec.kind spec.name)).stamps_materialize scope spec
  obtain ⟨hres, hops⟩ : ((m.journal (.insert spec.kind spec.name)).materialize scope spec).2.resources = m.resources ∧
      ((m.journal (.insert spec.kind spec.name)).materialize scope spec).2.operations = m.operations := by
    cases spec <;> exact ⟨rfl, rfl⟩
  unfold insert
  rcases hp : (m.journal (.insert spec.kind spec.name)).materialize scope spec with ⟨r, m₁⟩
  rw [hp] at hstamps hres hops
  simp only at hstamps hres hops ⊢
  by_cases hlost : m₁.lostInserts.contains spec.name = true
  · rw [if_pos hlost]
    generalize hm₂ : ({ m₁ with lostInserts := m₁.lostInserts.erase spec.name } : Memory) = m₂
    have hres₂ : m₂.resources = m.resources := by rw [← hm₂, ← hres]
    have hops₂ : m₂.operations = m.operations := by rw [← hm₂, ← hops]
    have hcount₂ : m₂.fingerprintCount = m₁.fingerprintCount := by rw [← hm₂]
    have hrefused : m.Shift m₂ := .of_congr hres₂ hops₂ (by rw [hcount₂]; exact hstamps.count_le)
    rcases m₂.apply_create r with ⟨-, ha⟩ | ⟨-, k, -, ha⟩ | ⟨-, -, ha⟩ <;> rw [ha]
    · exact hrefused
    · exact hrefused
    · have hmark (p : Place) : ((m₂.log (.insert r.kind r.name)).seed r).markAt p =
          if p = .stored r.key then r.mark? else m.markAt p := by
        rw [← markAt_congr hres₂ hops₂]
        refine m₂.markAt_of_insert r.key r ?_ ?_ p <;> rfl
      refine .of_place hmark ?_
      rw [← hcount₂] at hstamps
      exact hstamps
  · rw [if_neg hlost]
    exact .of_submit (markAt_congr hres hops) .insert r.summary hstamps

private theorem shift_delete (m : Memory) (kind : Kind) (scope : Scope) (name : String) :
    m.Shift (m.delete kind scope name).2 := by
  have hsame : (m.journal (.delete kind name)).markAt = m.markAt := markAt_congr rfl rfl
  unfold delete
  simp only
  split
  · exact .of_congr rfl rfl (Nat.le_refl _)
  · next r _ =>
    show m.Shift (Memory.submit _ .delete r.summary (.delete (resourceKey kind scope name))).2
    exact .of_submit hsame .delete r.summary (.inl ⟨rfl, Nat.le_refl _⟩)

private theorem shift_setTags (m : Memory) (kind : Kind) (scope : Scope) (name : String) (tags : Tags) :
    m.Shift (m.setTags kind scope name tags).2 := by
  have hsame : (m.journal (.setTags name tags.items tags.fingerprint)).markAt = m.markAt := markAt_congr rfl rfl
  unfold setTags
  simp only
  split
  · next i _ =>
    split
    · -- The conflict gives the instance another fingerprint.
      refine .of_place (q := .stored (resourceKey kind scope name)) (fun p => ?_) (.inr ⟨rfl, rfl⟩)
      refine m.markAt_of_insert _ (.instance { i with tags := ⟨i.tags.items, some m.newFingerprint.1⟩ }) ?_ ?_ p <;> rfl
    · split
      · exact .of_congr rfl rfl (Nat.le_refl _)
      · show m.Shift (Memory.submit _ .update _ (.setTags (resourceKey kind scope name) tags.items)).2
        exact .of_submit hsame .update _ (.inl ⟨rfl, Nat.le_refl _⟩)
  · exact .of_congr rfl rfl (Nat.le_refl _)

/-- An operation with nothing to do bears no fingerprint. -/
private theorem Shift.enter (hs : m.Shift m') (n : String) {r : OperationRecord} (hr : r.effect = none) :
    m.Shift (m'.enter n r) := by
  have hless (p : Place) (f : Option String) (hp : (m'.enter n r).markAt p = some f) : m'.markAt p = some f := by
    rw [markAt_enter, hr] at hp
    split at hp
    · exact absurd hp (by simp)
    · exact hp
  cases hs with
  | kept hcount hkept => exact .kept hcount fun p f hp => hkept p f (hless p f hp)
  | fresh q hcount hq hkept =>
    by_cases hqn : q = .pending n
    · refine .kept (show m.fingerprintCount ≤ m'.fingerprintCount by omega) fun p f hp => ?_
      refine hkept p f (fun hpq => ?_) (hless p f hp)
      rw [markAt_enter, if_pos (hpq.trans hqn), hr] at hp
      exact absurd hp (by simp)
    · refine .fresh q hcount ?_ fun p f hpq hp => hkept p f hpq (hless p f hp)
      rw [markAt_enter, if_neg hqn]
      exact hq
  | moved j k hcount hj hk hkept =>
    refine .moved j k hcount ?_ ?_ fun p f hpk hp => hkept p f hpk (hless p f hp)
    · rw [markAt_enter, hj, hr]
      split <;> rfl
    · rw [markAt_enter, if_neg (by simp)]
      exact hk

/-- The instance that an operation creates takes its fingerprint into the store. -/
private theorem shift_settle {n : String} {r : OperationRecord} (hr : m.operations.find? n = some r)
    {r' : OperationRecord} (hr' : r'.effect = none) : m.Shift ((m.attempt r.effect).2.enter n r') := by
  have hsame : m.Shift m := .of_congr rfl rfl (Nat.le_refl _)
  rcases m.attempt_cases r.effect with ⟨-, ha⟩ | ⟨e, he, ha⟩ <;> rw [ha]
  · exact hsame.enter n hr'
  · cases e with
    | create s =>
      rcases m.apply_create s with ⟨-, hs⟩ | ⟨-, k, -, hs⟩ | ⟨-, -, hs⟩ <;> rw [hs]
      · exact hsame.enter n hr'
      · exact hsame.enter n hr'
      · have hmark (p : Place) : ((m.log (.insert s.kind s.name)).seed s).markAt p =
            if p = .stored s.key then s.mark? else m.markAt p := by
          refine m.markAt_of_insert s.key s ?_ ?_ p <;> rfl
        have hpending : m.markAt (.pending n) = s.mark? := by
          rw [markAt, hr, Option.bind_some, he]
          rfl
        refine .moved n s.key (Nat.le_refl m.fingerprintCount) ?_ ?_ fun p f hp hf => ?_
        · rw [markAt_enter, if_pos rfl, hr']
          rfl
        · rw [markAt_enter, if_neg (by simp), hmark, if_pos rfl, hpending]
        · rw [markAt_enter, hr'] at hf
          split at hf
          · exact absurd hf (by simp)
          · rw [hmark, if_neg hp] at hf
            exact hf
    | delete k =>
      rcases m.apply_delete k with ⟨-, hs⟩ | ⟨s, u, -, -, hs⟩ | ⟨s, -, -, hs⟩ <;> rw [hs]
      · exact hsame.enter n hr'
      · exact hsame.enter n hr'
      · exact (m.shift_removeWith k s).enter n hr'
    | setTags k items =>
      rcases m.apply_setTags k items with ⟨i, -, hs⟩ | ⟨-, hs⟩ <;> rw [hs]
      · have hretag : m.Shift (m.retag k i items) := by
          refine .of_place (q := .stored k) (fun p => ?_) (.inr ⟨rfl, rfl⟩)
          refine m.markAt_of_insert k (.instance { i with tags := ⟨items, some m.newFingerprint.1⟩ }) ?_ ?_ p <;> rfl
        exact hretag.enter n hr'
      · have hspent : m.Shift m.newFingerprint.2 := .of_congr rfl rfl (Nat.le_succ _)
        exact hspent.enter n hr'

private theorem shift_poll (m : Memory) (h : OperationHandle) : m.Shift (answer (.operation h) m).2 := by
  -- The record of an operation that is asked for still holds what the operation is going to do.
  have hagain {r r' : OperationRecord} (hr : m.operations.find? h.name = some r) (he : r'.effect = r.effect) :
      m.Shift (m.enter h.name r') := by
    refine .kept (Nat.le_refl m.fingerprintCount) fun p f hp => ?_
    rw [markAt_enter] at hp
    split at hp
    · next hpn => rw [hpn, markAt, hr, Option.bind_some, ← he, hp]
    · exact hp
  rcases m.poll_cases h with ⟨-, ha⟩ | ⟨-, -, ha⟩ | ⟨r, -, hr, ⟨-, ha⟩ | ⟨-, -, ha⟩ | ⟨-, -, ha⟩⟩ <;> rw [ha]
  · exact .of_congr rfl rfl (Nat.le_refl _)
  · exact .of_congr rfl rfl (Nat.le_refl _)
  · exact hagain hr rfl
  · exact hagain hr rfl
  · exact shift_settle hr rfl

/-- Nobody but the platform gives an instance its fingerprint: instances are not put into the store as they are. -/
def Event.Issuing : Event → Prop
  | .seed r => r.kind ≠ .instance
  | _ => True

private theorem shift_expire (m : Memory) (n : String) : m.Shift (Event.apply (.fault (.expire n)) m) := by
  refine .kept (Nat.le_refl m.fingerprintCount) fun p f hp => ?_
  cases p with
  | stored k => exact hp
  | pending j =>
    have herase : (Event.apply (.fault (.expire n)) m).operations.find? j =
        if j = n then none else m.operations.find? j := OrderedMap.find?_erase _ _ _
    rw [markAt, herase] at hp
    split at hp
    · exact absurd hp (by simp)
    · exact hp

private theorem shift_seed (m : Memory) {r : Resource} (hr : r.kind ≠ .instance) : m.Shift (m.seed r) := by
  have hmark : r.mark? = none := by
    cases r with
    | «instance» i => exact absurd rfl hr
    | _ => rfl
  refine .of_place (q := .stored r.key) (x := r.mark?) (fun p => ?_) (.inl ⟨hmark, Nat.le_refl _⟩)
  refine m.markAt_of_insert r.key r ?_ ?_ p <;> rfl

private theorem shift_seedNode (m : Memory) (zone name network group : String) :
    m.Shift (m.seedNode zone name network group).2 := by
  obtain ⟨hcount, hops⟩ : (m.seedNode zone name network group).2.fingerprintCount = m.fingerprintCount + 1 ∧
      (m.seedNode zone name network group).2.operations = m.operations := by
    unfold Memory.seedNode
    split <;> exact ⟨rfl, rfl⟩
  refine .fresh (.stored (resourceKey .instance (.zone zone) name)) hcount ?_ fun p f hp hf => ?_
  · rw [markAt, find?_seedNode, if_pos rfl, seedNode_fst]
    rfl
  · cases p with
    | stored k =>
      -- Disks and networks bear no fingerprint.
      rw [markAt, find?_seedNode, if_neg (fun hk => hp (by rw [hk]))] at hf
      split at hf
      · exact absurd hf (by simp [Resource.mark?])
      · split at hf
        · exact absurd hf (by simp [Resource.mark?])
        · exact hf
    | pending n =>
      rw [markAt, hops] at hf
      exact hf

/-- What happens to the fingerprints is a shift, whatever happens. -/
theorem Event.shift (m : Memory) {e : Event} (he : e.Issuing) : m.Shift (e.apply m) := by
  cases e with
  | call c =>
    cases c with
    | get kind scope name => exact .of_congr rfl rfl (Nat.le_refl _)
    | list kind filter => exact .of_congr rfl rfl (Nat.le_refl _)
    | insert scope spec => exact m.shift_insert scope spec
    | delete kind scope name => exact m.shift_delete kind scope name
    | setTags kind scope name tags => exact m.shift_setTags kind scope name tags
    | operation h => exact m.shift_poll h
  | fault f =>
    cases f with
    | expire n => exact m.shift_expire n
    | _ => exact .of_congr rfl rfl (Nat.le_refl _)
  | seed r => exact m.shift_seed he
  | seedNode zone name network group => exact m.shift_seedNode zone name network group

/-! ### Superseded fingerprints -/

theorem marked_empty (project : String) (polls : Nat) : ((Memory.empty project).withPollsUntilDone polls).Marked := by
  have hnone (p : Place) (f : Option String) :
      ((Memory.empty project).withPollsUntilDone polls).markAt p ≠ some f := by
    cases p <;> exact fun h => absurd h (by simp [markAt, withPollsUntilDone, Memory.empty])
  exact ⟨fun p f hp => absurd hp (hnone p f), fun p q f hp => absurd hp (hnone p f)⟩

theorem Marked.after (h : m.Marked) {es : List Event} (hes : ∀ e ∈ es, e.Issuing) : (m.after es).Marked :=
  after_of_forall (fun e he m hm => hm.shift (Event.shift m (hes e he))) h

theorem Confined.after (h : Confined P f m) {es : List Event} (hes : ∀ e ∈ es, e.Issuing) :
    Confined P f (m.after es) :=
  after_of_forall (fun e he m hm => hm.shift (Event.shift m (hes e he))) h

/-- A change of tags that is accepted has come with the fingerprint that the instance bears. -/
theorem markAt_of_started {kind : Kind} {scope : Scope} {name : String} {tags : Tags} {h : OperationHandle}
    (hstarted : started? (.setTags kind scope name tags) m = some h) :
    m.markAt (.stored (resourceKey kind scope name)) = some tags.fingerprint := by
  have hstarted : (m.setTags kind scope name tags).1.toOption = some h := hstarted
  have hres : (m.journal (.setTags name tags.items tags.fingerprint)).resources = m.resources := rfl
  unfold setTags at hstarted
  simp only [hres] at hstarted
  split at hstarted
  · next i hi =>
    split at hstarted
    · exact absurd hstarted (by simp [Except.toOption])
    · split at hstarted
      · exact absurd hstarted (by simp [Except.toOption])
      · next hsame =>
        have hsame : tags.fingerprint = i.tags.fingerprint := not_not.1 hsame
        rw [markAt, hi, hsame]
        rfl
  · exact absurd hstarted (by simp [Except.toOption])

/-- A change of tags that is entered in the journal has given out the next fingerprint. -/
private theorem fingerprint_of_applied {e : Effect} {name : String} {items : List String} {new : String}
    (h : (m.apply e).2.applied = m.applied ++ [.setTags name items (some new)]) :
    new = fingerprint (m.fingerprintCount + 1) := by
  rcases m.apply_happens e with ⟨-, hhappens⟩ | ⟨x, -, -, hidle⟩
  · cases e with
    | create r =>
      obtain ⟨-, -, happlied⟩ := hhappens
      rw [happlied] at h
      exact absurd (List.append_cancel_left h) (by simp)
    | delete k =>
      obtain ⟨r, keys, -, -, -, -, happlied⟩ := hhappens
      rw [happlied] at h
      have hentry : JournalEntry.setTags name items (some new) ∈ keys.map fun j => JournalEntry.delete j.1 j.2.2 := by
        rw [List.append_cancel_left h]
        exact List.mem_singleton_self _
      obtain ⟨j, -, hj⟩ := List.mem_map.1 hentry
      exact absurd hj (by simp)
    | setTags k items' =>
      rcases m.apply_setTags k items' with ⟨i, -, ha⟩ | ⟨-, ha⟩
      · rw [ha] at h
        have hentry := List.append_cancel_left
          (show m.applied ++ [.setTags k.2.2 items' (some m.newFingerprint.1)] = _ from h)
        simp only [List.cons.injEq, JournalEntry.setTags.injEq, Option.some.injEq, and_true] at hentry
        exact hentry.2.2.symm
      · obtain ⟨i, new', -, -, happlied⟩ := hhappens
        rw [ha] at happlied
        exact absurd (congrArg List.length happlied) (by simp [newFingerprint])
  · rw [hidle] at h
    exact absurd (congrArg List.length h) (by simp)

/-- An instance whose tags are changed by an operation gets the next fingerprint. -/
theorem markAt_of_happens {k : ResourceKey} {items : List String} {o : OperationHandle}
    (h : (Effect.setTags k items).Happens m (answer (.operation o) m).2) :
    (answer (.operation o) m).2.markAt (.stored k) = some (some (fingerprint (m.fingerprintCount + 1))) := by
  obtain ⟨i, new, -, hres, happlied⟩ := h
  have hnot : (answer (.operation o) m).2.applied ≠ m.applied := by
    intro hsame
    rw [hsame] at happlied
    exact absurd (congrArg List.length happlied) (by simp)
  -- The fetch has carried out an effect, since the journal has grown.
  have hnew : new = fingerprint (m.fingerprintCount + 1) := by
    rcases m.poll_cases o with ⟨-, ha⟩ | ⟨-, -, ha⟩ | ⟨r, -, -, ⟨-, ha⟩ | ⟨-, -, ha⟩ | ⟨-, -, ha⟩⟩ <;>
      rw [ha] at happlied hnot
    · exact absurd rfl hnot
    · exact absurd rfl hnot
    · exact absurd rfl hnot
    · exact absurd rfl hnot
    · rcases m.attempt_cases r.effect with ⟨-, he⟩ | ⟨e, -, he⟩ <;> rw [he] at happlied hnot
      · exact absurd rfl hnot
      · exact fingerprint_of_applied happlied
  rw [markAt, hres, OrderedMap.find?_insert, if_pos rfl, ← hnew]
  rfl

/-- The fingerprint of an instance does not come back after a change of its tags. -/
theorem Marked.superseded (h : m.Marked) {k : ResourceKey} (hk : m.markAt (.stored k) = some f) {es : List Event}
    (hes : ∀ e ∈ es, e.Issuing) {items : List String} {o : OperationHandle}
    (heffect : (Effect.setTags k items).Happens (m.after es) (answer (.operation o) (m.after es)).2)
    {es' : List Event} (hes' : ∀ e ∈ es', e.Issuing) (p : Place) :
    ((answer (.operation o) (m.after es)).2.after es').markAt p ≠ some f := by
  have hconfined : Confined (· = k) f (answer (.operation o) (m.after es)).2 :=
    ((h.confined hk).after hes).shift (Event.shift (m.after es) (e := .call (.operation o)) trivial)
  have hgone : Confined (fun _ => False) f (answer (.operation o) (m.after es)).2 := by
    refine ⟨hconfined.issued, fun p hp => ?_⟩
    obtain ⟨k', rfl, rfl⟩ := hconfined.borne p hp
    rw [markAt_of_happens heffect] at hp
    have hissued := ((h.confined hk).after hes).issued
    rw [← Option.some.inj hp] at hissued
    exact absurd hissued (m.after es).not_issued_next
  intro hp
  obtain ⟨k', hk', -⟩ := (hgone.after hes').borne p hp
  exact hk'

/-! ### Changes that take effect -/

private theorem started_of_current {kind : Kind} {scope : Scope} {name : String} (tags : Tags) {i : Instance}
    (hi : m.resources.find? (resourceKey kind scope name) = some (.instance i)) (hconflicts : m.tagConflicts = 0)
    (hsame : tags.fingerprint = i.tags.fingerprint) :
    ∃ h, started? (.setTags kind scope name tags) m = some h ∧
      m.Submitted (Resource.instance i).summary (.setTags (resourceKey kind scope name) tags.items) h
        (answer (.setTags kind scope name tags) m).2 := by
  rcases m.answer_setTags kind scope name tags with
    ⟨hno, -⟩ | ⟨i', hi', -, ⟨hpos, -⟩ | ⟨-, hne, -⟩⟩ | ⟨i', h, hi', ha, hs⟩
  · exact absurd hi (hno i)
  · omega
  · rw [hi] at hi'
    cases hi'
    exact absurd hsame hne
  · rw [hi] at hi'
    cases hi'
    have ha : (m.setTags kind scope name tags).1 = .ok h := ha
    refine ⟨h, ?_, hs⟩
    rw [started?, ha]
    rfl

private theorem happens_of_record {k : ResourceKey} {items : List String} {i : Instance} {h : OperationHandle}
    {r : OperationRecord} (hfetches : m.failingFetches = 0) (hpolls : m.pollsUntilDone ≤ 1)
    (hr : m.operations.find? h.name = some r) (ha : Awaits r 0 (.ok (.setTags k items)))
    (hi : m.resources.find? k = some (.instance i)) :
    (Effect.setTags k items).Happens m (answer (.operation h) m).2 := by
  rcases m.poll_cases h with ⟨hpos, -⟩ | ⟨-, hnone, -⟩ | ⟨r', -, hr', ⟨hdone, -⟩ | ⟨-, hlt, -⟩ | ⟨-, -, hans⟩⟩
  · omega
  · rw [hr] at hnone
    exact absurd hnone (by simp)
  · obtain rfl := Option.some.inj (hr.symm.trans hr')
    rw [ha.running] at hdone
    exact absurd hdone (by simp)
  · omega
  · obtain rfl := Option.some.inj (hr.symm.trans hr')
    have heffect : r.effect = some (.setTags k items) := ha.effect
    have hattempt : m.attempt r.effect = m.apply (.setTags k items) := by rw [heffect]; rfl
    rw [hans, hattempt]
    rcases m.apply_setTags k items with ⟨i', hi', happly⟩ | ⟨hno, -⟩
    · rw [happly]
      exact ⟨i', _, hi', rfl, rfl⟩
    · exact absurd hi (hno i)

/-- Two changes of the tags of an instance have different fingerprints, if the second has been asked for after the first
has taken effect. -/
theorem later_write_differs {project : String} {polls : Nat} {es es₁ es₂ : List Event}
    (hes : ∀ e ∈ es ++ es₁ ++ es₂, e.Issuing) {m m₁ m₂ : Memory}
    (hm : m = ((Memory.empty project).withPollsUntilDone polls).after es)
    {kind : Kind} {scope : Scope} {name : String} {tags : Tags} {h : OperationHandle}
    (hstarted : started? (.setTags kind scope name tags) m = some h)
    (hm₁ : m₁ = (answer (.setTags kind scope name tags) m).2.after es₁)
    (heffect : (Effect.setTags (resourceKey kind scope name) tags.items).Happens m₁ (answer (.operation h) m₁).2)
    (hm₂ : m₂ = (answer (.operation h) m₁).2.after es₂)
    {kind' : Kind} {scope' : Scope} {name' : String} {tags' : Tags} {h' : OperationHandle}
    (hkey : resourceKey kind' scope' name' = resourceKey kind scope name)
    (hstarted' : started? (.setTags kind' scope' name' tags') m₂ = some h') :
    tags.fingerprint ≠ tags'.fingerprint := by
  intro hsame
  subst hm hm₁ hm₂
  have hmarked : (((Memory.empty project).withPollsUntilDone polls).after es).Marked :=
    (marked_empty project polls).after fun e he => hes e (by simp [he])
  have hes₁ : ∀ e ∈ Event.call (.setTags kind scope name tags) :: es₁, e.Issuing := by
    intro e he
    rcases List.mem_cons.1 he with rfl | he
    · trivial
    · exact hes e (by simp [he])
  have hnow := markAt_of_started hstarted'
  rw [hkey, ← hsame] at hnow
  exact hmarked.superseded (markAt_of_started hstarted) hes₁ heffect (fun e he => hes e (by simp [he])) _ hnow

/-- A node whose tags are going to be changed. -/
def tagged : Memory := ((Memory.empty "project").withPollsUntilDone 1).after [.seedNode "zone-a" "web-1" "net" "web"]

theorem later_write_differs_of_two :
    let c := Call.setTags .instance (.zone "zone-a") "web-1" ⟨["http"], some "fp-0001"⟩
    let c' := Call.setTags .instance (.zone "zone-a") "web-1" ⟨["ssh"], some "fp-0002"⟩
    ∃ h h', started? c tagged = some h ∧ started? c' (answer (.operation h) (answer c tagged).2).2 = some h' ∧
      some "fp-0001" ≠ some "fp-0002" := by
  intro c c'
  have hfree : tagged.FaultFree := (faultFree_empty "project" 1).seedNode "zone-a" "web-1" "net" "web"
  have hi : tagged.resources.find? (resourceKey .instance (.zone "zone-a") "web-1") =
      some (.instance (tagged.seedInstance "zone-a" "web-1" "net" "web" "fp-0001")) := rfl
  obtain ⟨h, hstarted, hs⟩ := started_of_current ⟨["http"], some "fp-0001"⟩ hi hfree.conflicts rfl
  obtain ⟨r, hr, ha⟩ := hs.record
  rw [planFor, hfree.scripted] at ha
  have hfree₁ : (answer c tagged).2.FaultFree := hfree.continues hs.quiet.toContinues
  have heffect := happens_of_record hfree₁.fetches (Nat.le_of_eq hs.quiet.polls) hr ha (hs.quiet.resources ▸ hi)
  have hmark := markAt_of_happens heffect
  obtain ⟨i, new, -, hres, -⟩ := id heffect
  have hi₂ := (OrderedMap.find?_insert (answer c tagged).2.resources (resourceKey .instance (.zone "zone-a") "web-1")
    (resourceKey .instance (.zone "zone-a") "web-1")
    (.instance { i with tags := ⟨["http"], some new⟩ })).trans (if_pos rfl)
  rw [← hres] at hi₂
  rw [markAt, hi₂] at hmark
  have hcount : (answer c tagged).2.fingerprintCount = 1 := by decide +kernel
  have hnext : fingerprint 2 = "fp-0002" := by decide
  rw [hcount, hnext] at hmark
  have hnew : some "fp-0002" = some new := (Option.some.inj hmark).symm
  have hfree₂ := hfree₁.continues (continues_answer (.operation h) _)
  obtain ⟨h', hstarted', -⟩ := started_of_current ⟨["ssh"], some "fp-0002"⟩ hi₂ hfree₂.conflicts hnew
  refine ⟨h, h', hstarted, hstarted', ?_⟩
  have hissuing : ∀ e ∈ [Event.seedNode "zone-a" "web-1" "net" "web"] ++ [] ++ [], e.Issuing := by
    intro e he
    obtain rfl := List.mem_singleton.1 he
    trivial
  exact later_write_differs hissuing rfl hstarted rfl heffect rfl rfl hstarted'

/-! ### Changes that overlap -/

/-- Two changes of the tags of an instance that have both been asked for with its fingerprint both take effect. -/
theorem overlapping_take_effect (hfree : m.FaultFree) (hpolls : m.pollsUntilDone ≤ 1) {kind : Kind} {scope : Scope}
    {name : String} {i : Instance} (hi : m.resources.find? (resourceKey kind scope name) = some (.instance i))
    {tags tags' : Tags} (hsame : tags.fingerprint = i.tags.fingerprint)
    (hsame' : tags'.fingerprint = i.tags.fingerprint) :
    let c := Call.setTags kind scope name tags
    let c' := Call.setTags kind scope name tags'
    let m' := (answer c' (answer c m).2).2
    ∃ h h', started? c m = some h ∧ started? c' (answer c m).2 = some h' ∧
      (Effect.setTags (resourceKey kind scope name) tags.items).Happens m' (answer (.operation h) m').2 ∧
      (Effect.setTags (resourceKey kind scope name) tags'.items).Happens (answer (.operation h) m').2
        (answer (.operation h') (answer (.operation h) m').2).2 := by
  intro c c' m'
  obtain ⟨h, hstarted, hs⟩ := started_of_current tags hi hfree.conflicts hsame
  have hfree₁ : (answer c m).2.FaultFree := hfree.continues hs.quiet.toContinues
  have hi₁ : (answer c m).2.resources.find? (resourceKey kind scope name) = some (.instance i) := by
    rw [hs.quiet.resources]
    exact hi
  obtain ⟨h', hstarted', hs'⟩ := started_of_current tags' hi₁ hfree₁.conflicts hsame'
  have hplan (n : String) (e : Effect) : m.planFor n e = .ok e := by rw [planFor, hfree.scripted n]
  have hplan₁ (n : String) (e : Effect) : (answer c m).2.planFor n e = .ok e := by rw [planFor, hfree₁.scripted n]
  obtain ⟨r, hr, ha⟩ := hs.record
  obtain ⟨r', hr', ha'⟩ := hs'.record
  rw [hplan] at ha
  rw [hplan₁] at ha'
  have hnames : h.name ≠ h'.name := by
    rw [hs.name, hs'.name, hs.count]
    intro heq
    have := operationName_injective heq
    omega
  have hfree₂ : m'.FaultFree := hfree₁.continues hs'.quiet.toContinues
  have hpolls₂ : m'.pollsUntilDone = m.pollsUntilDone := hs'.quiet.polls.trans hs.quiet.polls
  have hi₂ : m'.resources.find? (resourceKey kind scope name) = some (.instance i) := by
    rw [hs'.quiet.resources]
    exact hi₁
  have hfirst : (Effect.setTags (resourceKey kind scope name) tags.items).Happens m' (answer (.operation h) m').2 :=
    happens_of_record hfree₂.fetches (by omega) ((hs'.others h.name hnames).trans hr) ha hi₂
  refine ⟨h, h', hstarted, hstarted', hfirst, ?_⟩
  have hc₃ : m'.Continues (answer (.operation h) m').2 := m'.continues_answer (.operation h)
  have hr₃ : (answer (.operation h) m').2.operations.find? h'.name = some r' := by
    rw [hs'.name] at hr' ⊢
    refine (find?_operations_answer (Nat.le_of_eq hs'.count.symm) fun o ho heq => ?_).trans hr'
    cases ho
    exact hnames (heq.trans hs'.name.symm)
  obtain ⟨i₂, new, -, hres, -⟩ := hfirst
  have hi₃ := (OrderedMap.find?_insert m'.resources (resourceKey kind scope name) (resourceKey kind scope name)
    (.instance { i₂ with tags := ⟨tags.items, some new⟩ })).trans (if_pos rfl)
  rw [← hres] at hi₃
  have hpolls₃ : (answer (.operation h) m').2.pollsUntilDone ≤ 1 := by
    rw [hc₃.polls]
    omega
  exact happens_of_record (hfree₂.continues hc₃).fetches hpolls₃ hr₃ ha' hi₃

/-- So the fingerprints of two changes that take effect may be the same. -/
theorem overlapping_writes :
    let c := Call.setTags .instance (.zone "zone-a") "web-1" ⟨["http"], some "fp-0001"⟩
    let c' := Call.setTags .instance (.zone "zone-a") "web-1" ⟨["ssh"], some "fp-0001"⟩
    let k := resourceKey .instance (.zone "zone-a") "web-1"
    let m := (answer c' (answer c tagged).2).2
    ∃ h h', started? c tagged = some h ∧ started? c' (answer c tagged).2 = some h' ∧
      (Effect.setTags k ["http"]).Happens m (answer (.operation h) m).2 ∧
      (Effect.setTags k ["ssh"]).Happens (answer (.operation h) m).2
        (answer (.operation h') (answer (.operation h) m).2).2 := by
  have hfree : tagged.FaultFree := (faultFree_empty "project" 1).seedNode "zone-a" "web-1" "net" "web"
  have hi : tagged.resources.find? (resourceKey .instance (.zone "zone-a") "web-1") =
      some (.instance (tagged.seedInstance "zone-a" "web-1" "net" "web" "fp-0001")) := rfl
  exact overlapping_take_effect hfree (Nat.le_refl 1) hi rfl rfl

end Memory

end Fleet
