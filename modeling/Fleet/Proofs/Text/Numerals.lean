import Fleet.Text.Numeral
import Mathlib.Algebra.Group.Nat.Defs

/-!
# Numerals and their numbers

A numeral for a number ends in its decimal digits; in front of them there may be zeros, and a plus sign in front of
all (`IsNumeral`). The numerals for a number below the limit are exactly the texts that are read as this number
(`unsignedBelow?_eq_some_iff`).
-/

namespace Fleet.Text

/-- The text `cs` is a numeral for `n`. -/
def IsNumeral (n : Nat) (cs : List Char) : Prop :=
  ∃ sign zeros, (sign = [] ∨ sign = ['+']) ∧ cs = sign ++ List.replicate zeros '0' ++ Nat.toDigits 10 n

/-! ### Digits -/

theorem isDecimalDigit_of_mem_toDigits {n : Nat} {c : Char} (h : c ∈ Nat.toDigits 10 n) : isDecimalDigit c = true :=
  Nat.isDigit_of_mem_toDigits (by decide) (by decide) h

private theorem exists_digitChar {c : Char} (h : isDecimalDigit c = true) : ∃ d < 10, c = Nat.digitChar d := by
  have hbounds : 48 ≤ c.toNat ∧ c.toNat ≤ 57 := Char.isDigit_iff_toNat.1 h
  refine ⟨c.toNat - 48, by omega, Char.toNat_inj.1 ?_⟩
  rw [Nat.toNat_digitChar_of_lt_ten (by omega)]
  omega

private theorem toDigits_append {n : Nat} (hn : 0 < n) {cs : List Char} (h : ∀ c ∈ cs, isDecimalDigit c = true) :
    Nat.toDigits 10 n ++ cs = Nat.toDigits 10 (Nat.ofDigitChars 10 cs n) := by
  induction cs generalizing n with
  | nil => simp
  | cons c cs ih =>
    obtain ⟨hc, hcs⟩ := List.forall_mem_cons.1 h
    obtain ⟨d, hd, rfl⟩ := exists_digitChar hc
    have hone : Nat.toDigits 10 n ++ [Nat.digitChar d] = Nat.toDigits 10 (10 * n + d) := by
      rw [← Nat.toDigits_append_toDigits (by decide) hn hd, Nat.toDigits_of_lt_base hd]
    rw [Nat.ofDigitChars_cons_digitChar_of_lt_ten hd, ← ih (by omega) hcs, ← hone, List.append_assoc]
    rfl

/-- Digits are those of the number that they write, with zeros in front. -/
private theorem exists_zeros {ds : List Char} (hne : ds ≠ []) (h : ∀ c ∈ ds, isDecimalDigit c = true) :
    ∃ zeros, ds = List.replicate zeros '0' ++ Nat.toDigits 10 (Nat.ofDigitChars 10 ds 0) := by
  induction ds with
  | nil => exact absurd rfl hne
  | cons c cs ih =>
    obtain ⟨hc, hcs⟩ := List.forall_mem_cons.1 h
    obtain ⟨d, hd, rfl⟩ := exists_digitChar hc
    rw [Nat.ofDigitChars_cons_digitChar_of_lt_ten hd, Nat.mul_zero, Nat.zero_add]
    rcases Nat.eq_zero_or_pos d with rfl | hpos
    · by_cases hnil : cs = []
      · -- The only digit of the number zero is not one of the zeros in front.
        subst hnil
        exact ⟨0, rfl⟩
      · obtain ⟨zeros, hzeros⟩ := ih hnil hcs
        refine ⟨zeros + 1, ?_⟩
        rw [List.replicate_succ, List.cons_append, ← hzeros]
        rfl
    · refine ⟨0, ?_⟩
      rw [← toDigits_append hpos hcs, Nat.toDigits_of_lt_base hd]
      rfl

private theorem utf8ByteSize_digitChar {d : Nat} (hd : d < 10) :
    (String.singleton (Nat.digitChar d)).utf8ByteSize = 1 := by
  have hvalue := Nat.toNat_digitChar_of_lt_ten hd
  rw [String.utf8ByteSize_singleton, Char.utf8Size_eq_one_iff, UInt32.le_iff_toNat_le, Char.toNat_val, hvalue]
  show 48 + d ≤ 127
  omega

/-- A number has as many bytes as digits. -/
theorem utf8ByteSize_toString_le {n k : Nat} (hk : 0 < k) (h : n < 10 ^ k) : (toString n).utf8ByteSize ≤ k := by
  rw [Nat.toString_eq_repr]
  induction k generalizing n with
  | zero => exact absurd hk (by decide)
  | succ k ih =>
    by_cases hone : n < 10
    · rw [Nat.repr_of_lt hone, utf8ByteSize_digitChar hone]
      omega
    · have hrest : n / 10 < 10 ^ k := by
        rw [Nat.pow_succ] at h
        omega
      have hpos : 0 < k := by
        rcases Nat.eq_zero_or_pos k with rfl | hpos
        · exact absurd h (by omega)
        · exact hpos
      have hstart := ih hpos hrest
      rw [Nat.repr_of_ge (by omega), String.utf8ByteSize_append, utf8ByteSize_digitChar (by omega)]
      omega

theorem IsNumeral.plus_or_digit {n : Nat} {cs : List Char} (h : IsNumeral n cs) {c : Char} (hc : c ∈ cs) :
    c = '+' ∨ isDecimalDigit c = true := by
  obtain ⟨sign, zeros, hsign, rfl⟩ := h
  rcases List.mem_append.1 hc with hc | hc
  · rcases List.mem_append.1 hc with hc | hc
    · rcases hsign with rfl | rfl
      · exact absurd hc List.not_mem_nil
      · exact .inl (List.mem_singleton.1 hc)
    · rw [List.eq_of_mem_replicate hc]
      exact .inr (by decide)
  · exact .inr (isDecimalDigit_of_mem_toDigits hc)

/-! ### Reading -/

private theorem digitsBelow?_eq_some_iff {limit n : Nat} {ds : List Char} :
    digitsBelow? limit ds = some n ↔ n < limit ∧ ∃ zeros, ds = List.replicate zeros '0' ++ Nat.toDigits 10 n := by
  have hcheck : (ds = [] ∨ ds.any (fun c => !isDecimalDigit c) = true) ↔
      ¬(ds ≠ [] ∧ ∀ c ∈ ds, isDecimalDigit c = true) := by
    simp [Classical.or_iff_not_imp_left]
  unfold digitsBelow?
  constructor
  · intro h
    split at h
    · exact absurd h (by simp)
    · next hds =>
      obtain ⟨hne, hdigits⟩ := Classical.not_not.1 (mt hcheck.2 hds)
      obtain ⟨hlt, rfl⟩ : Nat.ofDigitChars 10 ds 0 < limit ∧ Nat.ofDigitChars 10 ds 0 = n := by
        simpa [Option.ite_none_right_eq_some] using h
      exact ⟨hlt, exists_zeros hne hdigits⟩
  · rintro ⟨hlt, zeros, rfl⟩
    have hdigits : ∀ c ∈ List.replicate zeros '0' ++ Nat.toDigits 10 n, isDecimalDigit c = true := by
      intro c hc
      rcases List.mem_append.1 hc with hc | hc
      · rw [List.eq_of_mem_replicate hc]
        decide
      · exact isDecimalDigit_of_mem_toDigits hc
    have hvalue : Nat.ofDigitChars 10 (List.replicate zeros '0' ++ Nat.toDigits 10 n) 0 = n := by
      rw [Nat.ofDigitChars_append, Nat.ofDigitChars_replicate_zero, Nat.mul_zero, Nat.ofDigitChars_ten_toDigits]
    rw [if_neg (fun h => hcheck.1 h ⟨by simp, hdigits⟩), hvalue]
    exact if_pos hlt

/-- A text is read as a number when it is a numeral for it and the number lies below the limit. -/
theorem unsignedBelow?_eq_some_iff {limit n : Nat} {cs : List Char} :
    unsignedBelow? limit cs = some n ↔ n < limit ∧ IsNumeral n cs := by
  have hplus {zeros : Nat} : '+' ∉ List.replicate zeros '0' ++ Nat.toDigits 10 n := by
    intro h
    rcases List.mem_append.1 h with h | h
    · exact absurd (List.eq_of_mem_replicate h) (by decide)
    · exact absurd (isDecimalDigit_of_mem_toDigits h) (by decide)
  unfold unsignedBelow?
  split
  · next ds =>
    rw [digitsBelow?_eq_some_iff]
    refine and_congr_right fun _ => ⟨?_, ?_⟩
    · rintro ⟨zeros, rfl⟩
      exact ⟨['+'], zeros, .inr rfl, rfl⟩
    · rintro ⟨sign, zeros, rfl | rfl, h⟩
      · exact absurd (h ▸ List.mem_cons_self) hplus
      · exact ⟨zeros, List.cons.inj h |>.2⟩
  · next hsign =>
    rw [digitsBelow?_eq_some_iff]
    refine and_congr_right fun _ => ⟨?_, ?_⟩
    · rintro ⟨zeros, rfl⟩
      exact ⟨[], zeros, .inl rfl, rfl⟩
    · rintro ⟨sign, zeros, rfl | rfl, h⟩
      · exact ⟨zeros, h⟩
      · exact absurd h (hsign _)

end Fleet.Text
