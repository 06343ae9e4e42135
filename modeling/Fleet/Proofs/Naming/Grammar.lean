import Fleet.Proofs.Naming.Validity
import Mathlib.Computability.RegularExpressions

/-!
# The grammar of names

The check of a name looks at its length, at its two ends and at its characters one by one. Together these conditions
say that the name is short enough and is as a whole a word of the regular expression `[a-z]([-a-z0-9]*[a-z0-9])?`
(`accepted_iff_grammar`). The regular expression is made of classes of characters (`IsClass`): the words of a class have
one character, and those of its star are the texts with characters of the class only.
-/

namespace Fleet

namespace Naming

/-! ### Classes of characters -/

/-- The regular expression for one of some characters. -/
def oneOf (cs : List Char) : RegularExpression Char := (cs.map .char).sum

/-- The words of the regular expression are the single characters with the property. -/
def IsClass (P : RegularExpression Char) (p : Char → Bool) : Prop :=
  ∀ w, w ∈ P.matches' ↔ ∃ c, w = [c] ∧ p c = true

theorem isClass_char (d : Char) : IsClass (.char d) fun c => c == d := by
  intro w
  have hd : w ∈ (RegularExpression.char d).matches' ↔ w = [d] := Iff.rfl
  simpa only [beq_iff_eq, exists_eq_right] using hd

theorem IsClass.add {P Q : RegularExpression Char} {p q : Char → Bool} (hP : IsClass P p) (hQ : IsClass Q q) :
    IsClass (P + Q) fun c => p c || q c := by
  intro w
  rw [RegularExpression.matches'_add, Language.mem_add, hP w, hQ w]
  simp only [Bool.or_eq_true, and_or_left, exists_or]

theorem IsClass.mem_star_iff {P : RegularExpression Char} {p : Char → Bool} (h : IsClass P p) (w : List Char) :
    w ∈ P.star.matches' ↔ ∀ c ∈ w, p c = true := by
  rw [RegularExpression.matches'_star, Language.mem_kstar]
  constructor
  · rintro ⟨ws, rfl, hws⟩ c hc
    obtain ⟨v, hv, hcv⟩ := List.mem_flatten.1 hc
    obtain ⟨d, rfl, hd⟩ := (h v).1 (hws v hv)
    rwa [List.mem_singleton.1 hcv]
  · intro hw
    refine ⟨w.map fun c => [c], by simp [← List.flatMap_def], fun v hv => ?_⟩
    obtain ⟨c, hc, rfl⟩ := List.mem_map.1 hv
    exact (h [c]).2 ⟨c, rfl, hw c hc⟩

theorem isClass_oneOf (cs : List Char) : IsClass (oneOf cs) fun c => decide (c ∈ cs) := by
  induction cs with
  | nil =>
    intro w
    simp [oneOf, RegularExpression.matches'_zero, Language.notMem_zero]
  | cons d ds ih =>
    have hsame (c : Char) : decide (c ∈ d :: ds) = (c == d || decide (c ∈ ds)) := by
      simp only [List.mem_cons, Bool.decide_or, Bool.beq_eq_decide_eq]
    simpa only [hsame, oneOf, List.map_cons, List.sum_cons] using (isClass_char d).add ih

/-- The characters between two others, when all of them are listed and no others. -/
private theorem isClass_between {lo hi : Char} {cs : List Char}
    (hlisted : ∀ n ∈ List.range' lo.toNat (hi.toNat + 1 - lo.toNat), Char.ofNat n ∈ cs)
    (hbetween : (cs.all fun c => lo ≤ c && c ≤ hi) = true) : IsClass (oneOf cs) fun c => lo ≤ c && c ≤ hi := by
  have hsame (c : Char) : decide (c ∈ cs) = (decide (lo ≤ c) && decide (c ≤ hi)) := by
    refine Bool.eq_iff_iff.2 ⟨fun hc => List.all_eq_true.1 hbetween c (of_decide_eq_true hc), fun hc => ?_⟩
    rw [Bool.and_eq_true, decide_eq_true_eq, decide_eq_true_eq] at hc
    have hlo : lo.toNat ≤ c.toNat := hc.1
    have hhi : c.toNat ≤ hi.toNat := hc.2
    have hlist := hlisted c.toNat (List.mem_range'_1.2 ⟨hlo, by omega⟩)
    rw [Char.ofNat_toNat] at hlist
    exact decide_eq_true hlist
  simpa only [hsame] using isClass_oneOf cs

/-! ### Names -/

/-- `[a-z]` -/
def letter : RegularExpression Char := oneOf "abcdefghijklmnopqrstuvwxyz".toList

/-- `[a-z0-9]` -/
def alphanumeric : RegularExpression Char := letter + oneOf "0123456789".toList

/-- `[a-z]([-a-z0-9]*[a-z0-9])?` -/
def grammar : RegularExpression Char := letter * (1 + (alphanumeric + .char '-').star * alphanumeric)

theorem isClass_letter : IsClass letter isLower := isClass_between (by decide) (by decide)

theorem isClass_alphanumeric : IsClass alphanumeric fun c => isLower c || Text.isDecimalDigit c :=
  isClass_letter.add (isClass_between (by decide) (by decide))

theorem isClass_nameChar : IsClass (alphanumeric + .char '-') isNameChar :=
  isClass_alphanumeric.add (isClass_char '-')

private theorem alphanumeric_iff {c : Char} :
    (isLower c || Text.isDecimalDigit c) = true ↔ isNameChar c = true ∧ c ≠ '-' := by
  rw [isNameChar, Bool.or_eq_true (isLower c || Text.isDecimalDigit c), beq_iff_eq]
  constructor
  · intro h
    refine ⟨.inl h, ?_⟩
    rintro rfl
    exact absurd h (by decide)
  · rintro ⟨h, hc⟩
    exact h.resolve_right hc

/-- What may follow the first letter of a name: nothing, or characters of names of which the last one is no hyphen. -/
def FollowsLetter (cs : List Char) : Prop :=
  cs = [] ∨ ∃ ds d, cs = ds ++ [d] ∧ (∀ e ∈ ds, isNameChar e = true) ∧ isNameChar d = true ∧ d ≠ '-'

private theorem mem_rest_iff {cs : List Char} :
    cs ∈ (1 + (alphanumeric + .char '-').star * alphanumeric).matches' ↔ FollowsLetter cs := by
  rw [RegularExpression.matches'_add, Language.mem_add, RegularExpression.matches'_mul, Language.mem_mul,
    RegularExpression.matches'_epsilon, Language.mem_one]
  refine or_congr_right ⟨?_, ?_⟩
  · rintro ⟨ds, hds, last, hlast, rfl⟩
    obtain ⟨d, rfl, hd⟩ := (isClass_alphanumeric last).1 hlast
    exact ⟨ds, d, rfl, (isClass_nameChar.mem_star_iff ds).1 hds, alphanumeric_iff.1 hd⟩
  · rintro ⟨ds, d, rfl, hds, hd⟩
    have hlast := (isClass_alphanumeric [d]).2 ⟨d, rfl, alphanumeric_iff.2 hd⟩
    exact ⟨ds, (isClass_nameChar.mem_star_iff ds).2 hds, [d], hlast, rfl⟩

theorem mem_grammar_iff {w : List Char} :
    w ∈ grammar.matches' ↔ ∃ c cs, w = c :: cs ∧ isLower c = true ∧ FollowsLetter cs := by
  rw [grammar, RegularExpression.matches'_mul, Language.mem_mul]
  constructor
  · rintro ⟨v, hv, cs, hcs, rfl⟩
    obtain ⟨c, rfl, hc⟩ := (isClass_letter v).1 hv
    exact ⟨c, cs, rfl, hc, mem_rest_iff.1 hcs⟩
  · rintro ⟨c, cs, rfl, hc, hcs⟩
    exact ⟨[c], (isClass_letter [c]).2 ⟨c, rfl, hc⟩, cs, mem_rest_iff.2 hcs, rfl⟩

theorem toList_mem_grammar_iff {name : String} :
    name.toList ∈ grammar.matches' ↔ (∃ c cs, name.toList = c :: cs ∧ isLower c = true) ∧ IsTail name := by
  rw [mem_grammar_iff]
  constructor
  · rintro ⟨c, cs, hname, hc, hcs⟩
    refine ⟨⟨c, cs, hname, hc⟩, ?_⟩
    obtain ⟨hfirst, hne⟩ : isNameChar c = true ∧ c ≠ '-' := alphanumeric_iff.1 (by rw [hc]; rfl)
    rcases hcs with rfl | ⟨ds, d, rfl, hds, hd, hlast⟩
    · exact ⟨by simpa [hname] using hfirst, c, by rw [hname]; rfl, hne⟩
    · refine ⟨?_, d, ?_, hlast⟩
      · rw [hname, List.forall_mem_cons, List.forall_mem_append, List.forall_mem_singleton]
        exact ⟨hfirst, hds, hd⟩
      · rw [hname, ← List.cons_append, List.getLast?_concat]
  · rintro ⟨⟨c, cs, hname, hc⟩, hchars, d, hlast, hd⟩
    refine ⟨c, cs, hname, hc, ?_⟩
    rw [hname] at hchars hlast
    rcases cs.eq_nil_or_concat' with rfl | ⟨ds, e, rfl⟩
    · exact .inl rfl
    · rw [← List.cons_append, List.getLast?_concat, Option.some.injEq] at hlast
      subst hlast
      rw [List.forall_mem_cons, List.forall_mem_append, List.forall_mem_singleton] at hchars
      exact .inr ⟨ds, e, rfl, hchars.2.1, hchars.2.2, hd⟩

/-- A name is accepted when it has at most 63 bytes and is a word of the grammar, and a group's name when it is accepted
as a name and has at most 53 bytes. -/
theorem accepted_iff_grammar (s : String) :
    (validateName s = .ok () ↔ s.utf8ByteSize ≤ 63 ∧ s.toList ∈ grammar.matches') ∧
      (validateGroup s = .ok () ↔ validateName s = .ok () ∧ s.utf8ByteSize ≤ 53) := by
  constructor
  · rw [validateName_eq_ok_iff, isValidName_iff, toList_mem_grammar_iff, maxNameBytes]
    exact and_left_comm
  · rw [validateGroup_eq_ok_iff, validateName_eq_ok_iff, groupAllowance, maxNameBytes]
    exact and_congr_right fun _ => by omega

/-- A hyphen may stand inside a name, but not at its end, and a name may be a single letter. -/
example : "a".toList ∈ grammar.matches' ∧ "a--1".toList ∈ grammar.matches' ∧ "a-".toList ∉ grammar.matches' := by
  decide

end Naming

end Fleet
