import Mathlib.Tactic.SplitIfs

/-!
# Texts as bytes

Texts are compared by the code points of their characters. The order of their UTF-8 bytes is the same
(`Text.bytes_lt_of_lt`), because a greater character has the greater byte where its form first differs from that of a
smaller one.
-/

namespace Fleet.Text

/-- The bytes of the UTF-8 form of a text. -/
def bytes (s : String) : List UInt8 := s.toUTF8.data.toList

theorem bytes_eq (s : String) : bytes s = s.toList.flatMap String.utf8EncodeChar := by
  conv => lhs; rw [← String.ofList_toList (s := s)]
  rw [bytes, String.toUTF8, String.toByteArray_ofList, List.utf8Encode, List.data_toByteArray]

private theorem toNat_lt (c : Char) : c.val.toNat < 0x110000 := by
  rcases c.valid with h | h
  · exact Nat.lt_trans h (by decide)
  · exact h.2

/-- The forms of two characters differ in such a way that nothing that follows them matters. -/
private theorem encode_append_lt {c d : Char} (h : c < d) (r r' : List UInt8) :
    String.utf8EncodeChar c ++ r < String.utf8EncodeChar d ++ r' := by
  rw [Char.lt_def, UInt32.lt_iff_toNat_lt] at h
  have hbound := toNat_lt d
  unfold String.utf8EncodeChar
  generalize c.val.toNat = m at h ⊢
  generalize d.val.toNat = n at h hbound ⊢
  dsimp only
  -- The digits of a form are bytes without a carry, so what is left is about the digits of `m` and `n`.
  split_ifs <;>
    simp (disch := omega) only [List.cons_append, List.nil_append, List.cons_lt_cons_iff, UInt8.lt_iff_toNat_lt,
      ← UInt8.toNat_inj, UInt8.toNat_ofNat', Nat.mod_eq_of_lt] <;>
    omega

theorem bytes_lt_of_lt {s t : String} (h : s < t) : bytes s < bytes t := by
  change s.toList < t.toList at h
  rw [bytes_eq, bytes_eq]
  generalize s.toList = l, t.toList = l' at h ⊢
  induction h with
  | @nil c l' =>
    obtain ⟨b, bs, hform⟩ := List.exists_cons_of_ne_nil (String.utf8EncodeChar_ne_nil (c := c))
    rw [List.flatMap_cons, hform]
    exact .nil
  | rel hcd =>
    rw [List.flatMap_cons, List.flatMap_cons]
    exact encode_append_lt hcd _ _
  | cons _ ih =>
    rw [List.flatMap_cons, List.flatMap_cons]
    exact List.append_left_lt ih

end Fleet.Text
