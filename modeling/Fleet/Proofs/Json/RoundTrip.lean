import Fleet.Json.Parser
import Fleet.Json.Printer
import Fleet.Proofs.Text.Numerals
import Mathlib.Data.Nat.Digits.Defs

/-!
# What is written is read back

The compact form of a plain value (`Json.Plain`) is read as this value (`Json.parseSound?_compact`). Texts are escaped
and assembled again character by character. A numeral ends where no further digit follows, and in arrays and objects
every item is followed by a character that belongs to no numeral (`Json.Ends`). The proof is by induction on the fuel of
the reader (`Json.ReadsBack`): a value needs twice as much as its text is long.
-/

namespace Fleet

theorem Numeral.isFinite_ofNat {n digits : Nat} (h : n < 10 ^ digits) (hpos : 0 < digits) (hdigits : digits < 300) :
    (ofNat n).isFinite = true := by
  have hlength := Nat.toDigits_length 10 n digits hpos h
  have hsmall : ((Nat.toDigits 10 n).length : Int) + 0 < 300 := by omega
  simp only [isFinite, ofNat, hsmall, decide_true, Bool.or_true, if_true]

namespace Json

/-! ### Texts -/

private theorem hex4?_hexDigit : ∀ n < 0x20, hex4? '0' '0' (hexDigit (n / 16)) (hexDigit n) = some n := by decide

private theorem assemble?_char (c : Char) (ps : List Piece) :
    assemble? (.char c :: ps) = (assemble? ps).map fun cs => c :: cs := by
  rw [assemble?]
  cases assemble? ps <;> rfl

private theorem assemble?_unit {c : Char} (hc : c.toNat < 0x20) (ps : List Piece) :
    assemble? (.unit c.toNat :: ps) = (assemble? ps).map fun cs => c :: cs := by
  have hlow : (c.toNat < 0xD800 || 0xE000 ≤ c.toNat) = true := by simp; omega
  conv_lhs => unfold assemble?
  simp only [hlow, if_true, Char.ofNat_toNat]
  cases assemble? ps <;> rfl

private theorem pieces?_short {c e : Char} (he : shortEscape? e = some c) (cs : List Char) :
    pieces? ('\\' :: e :: cs) = (pieces? cs).map fun r => (.char c :: r.1, r.2) := by
  have hu : e ≠ 'u' := by
    rintro rfl
    exact nomatch he
  rw [pieces?]
  · rw [he]
    cases pieces? cs <;> rfl
  · rintro a b c d cs rfl
    exact absurd rfl hu

private theorem pieces?_plain {c : Char} (hquote : c ≠ '"') (hslash : c ≠ '\\') (hc : ¬ c.toNat < 0x20)
    (cs : List Char) : pieces? (c :: cs) = (pieces? cs).map fun r => (.char c :: r.1, r.2) := by
  rw [pieces?]
  · simp only [hslash, hc, beq_iff_eq, decide_false, Bool.false_or, if_false]
    cases pieces? cs <;> rfl
  · exact fun h => hquote h
  · exact fun _ _ _ _ _ h => absurd h hslash
  · exact fun _ _ h => absurd h hslash

/-- An escaped character is one piece of a text, which is assembled to this character again. -/
private theorem exists_piece (c : Char) :
    ∃ p, (∀ cs, pieces? (escaped c ++ cs) = (pieces? cs).map fun r => (p :: r.1, r.2)) ∧
      ∀ ps, assemble? (p :: ps) = (assemble? ps).map fun cs => c :: cs := by
  unfold escaped
  split
  case h_8 hquote hslash _ _ _ _ _ =>
    by_cases hc : c.toNat < 0x20
    · refine ⟨.unit c.toNat, fun cs => ?_, assemble?_unit hc⟩
      rw [if_pos hc]
      simp only [List.cons_append, List.nil_append, pieces?, hex4?_hexDigit c.toNat hc]
      cases pieces? cs <;> rfl
    · rw [if_neg hc]
      exact ⟨.char c, pieces?_plain (fun h => hquote h) (fun h => hslash h) hc, assemble?_char c⟩
  all_goals exact ⟨.char _, pieces?_short rfl, assemble?_char _⟩

private theorem text?_escaped (s : String) (rest : List Char) :
    text? (s.toList.flatMap escaped ++ '"' :: rest) = some (some s, rest) := by
  have hpieces (cs : List Char) :
      ∃ ps, pieces? (cs.flatMap escaped ++ '"' :: rest) = some (ps, rest) ∧ assemble? ps = some cs := by
    induction cs with
    | nil => exact ⟨[], by simp [pieces?], by simp [assemble?]⟩
    | cons c cs ih =>
      obtain ⟨ps, hps, hcs⟩ := ih
      obtain ⟨p, hp, hc⟩ := exists_piece c
      refine ⟨p :: ps, ?_, ?_⟩
      · rw [List.flatMap_cons, List.append_assoc, hp, hps]
        rfl
      · rw [hc, hcs]
        rfl
  obtain ⟨ps, hps, hs⟩ := hpieces s.toList
  rw [text?, hps, Option.map_some, hs]
  simp

/-! ### Numbers -/

/-- What may follow a value: nothing, or the end of an item. -/
def Ends (rest : List Char) : Prop := ∀ c ∈ rest.head?, c = ',' ∨ c = ']' ∨ c = '\x7d'

private theorem digitsOf_toDigits (n : Nat) {rest : List Char} (h : Ends rest) :
    digitsOf (Nat.toDigits 10 n ++ rest) = (Nat.toDigits 10 n, rest) := by
  have hdigits : ∀ c ∈ Nat.toDigits 10 n, Text.isDecimalDigit c = true := fun c =>
    Text.isDecimalDigit_of_mem_toDigits
  have hrest : rest.takeWhile Text.isDecimalDigit = [] ∧ rest.dropWhile Text.isDecimalDigit = rest := by
    cases rest with
    | nil => exact ⟨rfl, rfl⟩
    | cons c cs => rcases h c rfl with rfl | rfl | rfl <;> exact ⟨rfl, rfl⟩
  rw [digitsOf, List.takeWhile_append_of_pos hdigits, List.dropWhile_append_of_pos hdigits, hrest.1, hrest.2,
    List.append_nil]

/-- A positive number does not begin with a zero. -/
private theorem exists_head_toDigits {n : Nat} (hn : 0 < n) : ∃ c cs, Nat.toDigits 10 n = c :: cs ∧ c ≠ '0' := by
  induction n using Nat.strongRecOn with
  | ind n ih =>
    by_cases hsmall : n < 10
    · refine ⟨Nat.digitChar n, [], Nat.toDigits_of_lt_base hsmall, ?_⟩
      have hdigit : ∀ d < 10, 0 < d → Nat.digitChar d ≠ '0' := by decide
      exact hdigit n hsmall hn
    · obtain ⟨c, cs, hcs, hc⟩ := ih (n / 10) (by omega) (by omega)
      exact ⟨c, cs ++ [(n % 10).digitChar], by rw [Nat.toDigits_of_base_le (by decide) (by omega), hcs]; rfl, hc⟩

private theorem isWhole_toDigits (n : Nat) : isWhole (Nat.toDigits 10 n) = true := by
  rcases Nat.eq_zero_or_pos n with rfl | hn
  · rfl
  · obtain ⟨c, cs, hcs, hc⟩ := exists_head_toDigits hn
    rw [hcs]
    unfold isWhole
    split
    · next h => exact nomatch h
    · rfl
    · next h => exact absurd (List.cons.inj h).1 hc
    · rfl

private theorem numeral?_toDigits (negative : Bool) (n : Nat) {rest : List Char} (h : Ends rest) :
    numeral? negative (Nat.toDigits 10 n ++ rest) = some (⟨negative, n, 0, true⟩, rest) := by
  have hfraction : fraction? rest = some ([], rest) := by
    cases rest with
    | nil => rfl
    | cons c cs => rcases h c rfl with rfl | rfl | rfl <;> rfl
  have hexponent : exponent? rest = some (none, rest) := by
    cases rest with
    | nil => rfl
    | cons c cs => rcases h c rfl with rfl | rfl | rfl <;> rfl
  simp [numeral?, digitsOf_toDigits n h, isWhole_toDigits, hfraction, hexponent, Nat.ofDigitChars_ten_toDigits]

/-! ### Values -/

/-- A value that is read as it is written: its numbers are whole and finite, its texts and names are sequences of
characters, the names of its members differ, and it nests fewer than `depth` arrays and objects. -/
inductive Plain : Nat → Json → Prop
  | null {depth : Nat} : Plain depth null
  | bool {depth : Nat} (b : Bool) : Plain depth (bool b)
  | num {depth : Nat} {n : Numeral} (integral : n.integral = true) (exponent : n.exponent = 0)
      (finite : n.isFinite = true) : Plain depth (num n)
  | str {depth : Nat} (s : String) : Plain depth (str s)
  | arr {depth : Nat} {items : List Json} (plain : ∀ j ∈ items, Plain (depth + 1) j) : Plain (depth + 2) (arr items)
  | object {depth : Nat} {ms : List (String × Json)} (differ : (ms.map (·.1)).Nodup)
      (plain : ∀ m ∈ ms, Plain (depth + 1) m.2) : Plain (depth + 2) (object ms)

private theorem skipGap_cons {c : Char} (h : isGap c = false) (cs : List Char) : skipGap (c :: cs) = c :: cs := by
  rw [skipGap, List.dropWhile_cons_of_neg (by simp [h])]

private theorem ne_of_digit {c d : Char} (hc : Text.isDecimalDigit c = true) (hd : Text.isDecimalDigit d = false) :
    c ≠ d := by
  rintro rfl
  exact absurd (hc.symm.trans hd) (by simp)

private theorem isGap_of_digit {c : Char} (hc : Text.isDecimalDigit c = true) : isGap c = false := by
  simp [isGap, ne_of_digit hc (d := ' ') rfl, ne_of_digit hc (d := '\t') rfl, ne_of_digit hc (d := '\n') rfl,
    ne_of_digit hc (d := '\r') rfl]

/-- A text that begins with a digit is a number. -/
private theorem value?_of_digit {c : Char} (hc : Text.isDecimalDigit c = true) (fuel : Nat) (cs : List Char) :
    value? (fuel + 1) (c :: cs) = (numeral? false (c :: cs)).map fun r => (num r.1, r.2) := by
  rw [value?, skipGap_cons (isGap_of_digit hc)]
  split
  case h_8 => rfl
  all_goals
    next h => exact absurd (List.cons.inj h).1 (ne_of_digit hc rfl)

private theorem value?_num {n : Numeral} (hintegral : n.integral = true) (hexponent : n.exponent = 0) (fuel : Nat)
    {rest : List Char} (h : Ends rest) : value? (fuel + 1) ((compact (num n)).toList ++ rest) = some (num n, rest) := by
  obtain ⟨negative, mantissa, exponent, integral⟩ := n
  obtain rfl : integral = true := hintegral
  obtain rfl : exponent = 0 := hexponent
  cases negative with
  | true =>
    have htext : (compact (num ⟨true, mantissa, 0, true⟩)).toList = '-' :: Nat.toDigits 10 mantissa := by
      simp [compact, numeralText]
    rw [htext, List.cons_append, value?, skipGap_cons rfl]
    show (numeral? true _).map _ = _
    rw [numeral?_toDigits true mantissa h]
    rfl
  | false =>
    have htext : (compact (num ⟨false, mantissa, 0, true⟩)).toList = Nat.toDigits 10 mantissa := by
      simp [compact, numeralText]
    obtain ⟨c, cs, hcs⟩ := List.exists_cons_of_ne_nil (Nat.toDigits_ne_nil (n := mantissa) (b := 10))
    have hc : Text.isDecimalDigit c = true := Text.isDecimalDigit_of_mem_toDigits (hcs ▸ List.mem_cons_self)
    have hread := numeral?_toDigits false mantissa h
    rw [htext]
    rw [hcs, List.cons_append] at hread ⊢
    rw [value?_of_digit hc, hread]
    rfl

/-! ### What a value begins with -/

private theorem toList_compact_str (s : String) :
    (compact (str s)).toList = '"' :: (s.toList.flatMap escaped ++ ['"']) := by simp [compact, quoted]

private theorem toList_compact_arr (js : List Json) :
    (compact (arr js)).toList = '[' :: ((commas (compactItems js)).toList ++ [']']) := by simp [compact]

private theorem toList_compact_object (ms : List (String × Json)) :
    (compact (object ms)).toList = '\x7b' :: ((commas (compactMembers (object ms).members)).toList ++ ['\x7d']) := by
  simp [object, members, compact]

/-- The first character of a value is neither a blank nor the end of an array. -/
private theorem exists_head_compact (j : Json) :
    ∃ c cs, (compact j).toList = c :: cs ∧ isGap c = false ∧ c ≠ ']' := by
  cases j with
  | null => exact ⟨_, _, rfl, by decide, by decide⟩
  | bool b => cases b <;> exact ⟨_, _, rfl, by decide, by decide⟩
  | num n =>
    obtain ⟨negative, mantissa, exponent, integral⟩ := n
    cases negative with
    | true => exact ⟨'-', _, by rw [compact, numeralText]; simp; rfl, by decide, by decide⟩
    | false =>
      obtain ⟨c, cs, hcs⟩ := List.exists_cons_of_ne_nil (Nat.toDigits_ne_nil (n := mantissa) (b := 10))
      have hc : Text.isDecimalDigit c = true := Text.isDecimalDigit_of_mem_toDigits (hcs ▸ List.mem_cons_self)
      exact ⟨c, _, by rw [compact, numeralText]; simp [hcs]; rfl, isGap_of_digit hc, ne_of_digit hc rfl⟩
  | str s => exact ⟨'"', _, toList_compact_str s, by decide, by decide⟩
  | broken => exact ⟨_, _, rfl, by decide, by decide⟩
  | arr js => exact ⟨'[', _, toList_compact_arr js, by decide, by decide⟩
  | obj ms => exact ⟨'\x7b', _, by simp [compact]; rfl, by decide, by decide⟩

private theorem length_compact_pos (j : Json) : 0 < (compact j).toList.length := by
  obtain ⟨c, cs, hcs, -⟩ := exists_head_compact j
  simp [hcs]

private theorem toList_commas_cons (s s' : String) (ss : List String) :
    (commas (s :: s' :: ss)).toList = s.toList ++ ',' :: (commas (s' :: ss)).toList := by
  simp [commas]

private theorem toList_commas_singleton (s : String) : (commas [s]).toList = s.toList := rfl

private theorem exists_head_items (j : Json) (js : List Json) :
    ∃ c cs, (commas (compactItems (j :: js))).toList = c :: cs ∧ isGap c = false ∧ c ≠ ']' := by
  obtain ⟨c, cs, hcs, hc⟩ := exists_head_compact j
  cases js with
  | nil => exact ⟨c, cs, hcs, hc⟩
  | cons j' js => exact ⟨c, _, by rw [compactItems, compactItems, toList_commas_cons, hcs, List.cons_append], hc⟩

private theorem compactMembers_cons (m : String × Json) (ms : List (String × Json)) :
    compactMembers (object (m :: ms)).members =
      (quoted m.1 ++ ":" ++ compact m.2) :: compactMembers (object ms).members := rfl

private theorem toList_compactMember (m : String × Json) :
    (quoted m.1 ++ ":" ++ compact m.2).toList =
      '"' :: (m.1.toList.flatMap escaped ++ '"' :: ':' :: (compact m.2).toList) := by
  simp [quoted]

private theorem exists_head_members (m : String × Json) (ms : List (String × Json)) :
    ∃ cs, (commas (compactMembers (object (m :: ms)).members)).toList = '"' :: cs := by
  cases ms with
  | nil => exact ⟨_, toList_compactMember m⟩
  | cons m' ms =>
    exact ⟨_, by rw [compactMembers_cons, compactMembers_cons, toList_commas_cons, toList_compactMember,
      List.cons_append]⟩

/-! ### Reading arrays and objects -/

section Reading

variable {fuel : Nat} {j : Json} {cs rest : List Char}

private theorem value?_array {c : Char} (hgap : isGap c = false) (hc : c ≠ ']') :
    value? (fuel + 1) ('[' :: c :: cs) = (items? fuel (c :: cs)).map fun r => (arr r.1, r.2) := by
  simp only [value?, skipGap_cons (c := '[') rfl, skipGap_cons hgap]
  split
  · next heq => exact absurd (List.cons.inj heq).1 hc
  · rfl

private theorem value?_object :
    value? (fuel + 1) ('\x7b' :: '"' :: cs) = (members? fuel ('"' :: cs)).map fun r => (obj r.1, r.2) := by
  simp only [value?, skipGap_cons (c := '\x7b') rfl, skipGap_cons (c := '"') rfl]
  rfl

private theorem items?_last (h : value? fuel cs = some (j, ']' :: rest)) :
    items? (fuel + 1) cs = some ([j], rest) := by
  simp only [items?, h]
  rfl

private theorem items?_more (h : value? fuel cs = some (j, ',' :: rest)) :
    items? (fuel + 1) cs = (items? fuel rest).map fun r => (j :: r.1, r.2) := by
  simp only [items?, h]
  show (items? fuel rest).bind _ = _
  cases items? fuel rest <;> rfl

private theorem members?_last {k : String} (h : value? fuel cs = some (j, '\x7d' :: rest)) :
    members? (fuel + 1) ('"' :: (k.toList.flatMap escaped ++ '"' :: ':' :: cs)) = some ([(some k, j)], rest) := by
  simp only [members?, skipGap_cons (c := '"') rfl, text?_escaped, Option.bind_eq_bind, Option.bind_some,
    skipGap_cons (c := ':') rfl, h]
  rfl

private theorem members?_more {k : String} (h : value? fuel cs = some (j, ',' :: rest)) :
    members? (fuel + 1) ('"' :: (k.toList.flatMap escaped ++ '"' :: ':' :: cs)) =
      (members? fuel rest).map fun r => ((some k, j) :: r.1, r.2) := by
  simp only [members?, skipGap_cons (c := '"') rfl, text?_escaped, Option.bind_eq_bind, Option.bind_some,
    skipGap_cons (c := ':') rfl, h]
  show (members? fuel rest).bind _ = _
  cases members? fuel rest <;> rfl

end Reading

/-- With this much fuel, what is written is read back: a value, and the items of an array and the members of an object
with the closing bracket. -/
structure ReadsBack (fuel : Nat) : Prop where
  value : ∀ {depth : Nat} {j : Json}, Plain depth j → 2 * (compact j).toList.length ≤ fuel →
    ∀ rest, Ends rest → value? fuel ((compact j).toList ++ rest) = some (j, rest)
  items : ∀ {depth : Nat} {j : Json} {js : List Json}, (∀ i ∈ j :: js, Plain depth i) →
    2 * (commas (compactItems (j :: js))).toList.length < fuel →
    ∀ rest, items? fuel ((commas (compactItems (j :: js))).toList ++ ']' :: rest) = some (j :: js, rest)
  members : ∀ {depth : Nat} {m : String × Json} {ms : List (String × Json)},
    (∀ n ∈ m :: ms, Plain depth n.2) → 2 * (commas (compactMembers (object (m :: ms)).members)).toList.length < fuel →
    ∀ rest, members? fuel ((commas (compactMembers (object (m :: ms)).members)).toList ++ '\x7d' :: rest) =
      some ((object (m :: ms)).members, rest)

namespace ReadsBack

variable {fuel : Nat}

private theorem value_succ (h : ReadsBack fuel) {depth : Nat} {j : Json} (hj : Plain depth j)
    (hfuel : 2 * (compact j).toList.length ≤ fuel + 1) (rest : List Char) (hends : Ends rest) :
    value? (fuel + 1) ((compact j).toList ++ rest) = some (j, rest) := by
  cases hj with
  | null => rfl
  | bool b => cases b <;> rfl
  | num hintegral hexponent => exact value?_num hintegral hexponent fuel hends
  | str s =>
    rw [toList_compact_str, List.cons_append, List.append_assoc, value?, skipGap_cons rfl]
    show (text? (s.toList.flatMap escaped ++ '"' :: rest)).map _ = _
    rw [text?_escaped]
    rfl
  | @arr depth items hitems =>
    cases items with
    | nil => rfl
    | cons j js =>
      rw [toList_compact_arr, List.length_cons, List.length_append, List.length_singleton] at hfuel
      have hread := h.items hitems (by omega) rest
      obtain ⟨c, cs, hcs, hgap, hc⟩ := exists_head_items j js
      rw [toList_compact_arr, List.cons_append, List.append_assoc, List.singleton_append]
      rw [hcs, List.cons_append] at hread ⊢
      rw [value?_array hgap hc, hread, Option.map_some]
  | @object depth ms hdiffer hmembers =>
    cases ms with
    | nil => rfl
    | cons m ms =>
      rw [toList_compact_object, List.length_cons, List.length_append, List.length_singleton] at hfuel
      have hread := h.members hmembers (by omega) rest
      obtain ⟨cs, hcs⟩ := exists_head_members m ms
      rw [toList_compact_object, List.cons_append, List.append_assoc, List.singleton_append]
      rw [hcs, List.cons_append] at hread ⊢
      rw [value?_object, hread, Option.map_some]
      rfl

private theorem items_succ (h : ReadsBack fuel) {depth : Nat} {j : Json} {js : List Json}
    (hjs : ∀ i ∈ j :: js, Plain depth i) (hfuel : 2 * (commas (compactItems (j :: js))).toList.length < fuel + 1)
    (rest : List Char) :
    items? (fuel + 1) ((commas (compactItems (j :: js))).toList ++ ']' :: rest) = some (j :: js, rest) := by
  obtain ⟨hj, hjs⟩ := List.forall_mem_cons.1 hjs
  cases js with
  | nil =>
    rw [compactItems, compactItems, toList_commas_singleton] at hfuel ⊢
    exact items?_last (h.value hj (by omega) _ (by simp [Ends]))
  | cons j' js =>
    rw [compactItems, compactItems, toList_commas_cons, ← compactItems] at hfuel ⊢
    rw [List.length_append, List.length_cons] at hfuel
    rw [List.append_assoc, List.cons_append, items?_more (h.value hj (by omega) _ (by simp [Ends])),
      h.items hjs (by omega), Option.map_some]

private theorem members_succ (h : ReadsBack fuel) {depth : Nat} {m : String × Json} {ms : List (String × Json)}
    (hms : ∀ n ∈ m :: ms, Plain depth n.2)
    (hfuel : 2 * (commas (compactMembers (object (m :: ms)).members)).toList.length < fuel + 1) (rest : List Char) :
    members? (fuel + 1) ((commas (compactMembers (object (m :: ms)).members)).toList ++ '\x7d' :: rest) =
      some ((object (m :: ms)).members, rest) := by
  obtain ⟨hm, hms⟩ := List.forall_mem_cons.1 hms
  cases ms with
  | nil =>
    have htext : (commas (compactMembers (object [m]).members)).toList = _ := toList_compactMember m
    rw [htext] at hfuel ⊢
    simp only [List.length_cons, List.length_append] at hfuel
    simp only [List.cons_append, List.append_assoc]
    exact members?_last (h.value hm (by omega) _ (by simp [Ends]))
  | cons m' ms =>
    rw [compactMembers_cons, compactMembers_cons, toList_commas_cons, ← compactMembers_cons,
      toList_compactMember] at hfuel ⊢
    simp only [List.length_cons, List.length_append] at hfuel
    simp only [List.cons_append, List.append_assoc]
    rw [members?_more (h.value hm (by omega) _ (by simp [Ends])), h.members hms (by omega), Option.map_some]
    rfl

end ReadsBack

/-- The induction follows the reader: each part of a value is read with one less. -/
theorem readsBack (fuel : Nat) : ReadsBack fuel := by
  induction fuel with
  | zero =>
    refine ⟨fun {depth j} _ hfuel => ?_, fun _ hfuel => ?_, fun _ hfuel => ?_⟩
    · have := length_compact_pos j
      omega
    all_goals omega
  | succ fuel ih => exact ⟨ih.value_succ, ih.items_succ, ih.members_succ⟩

theorem parse?_compact {depth : Nat} {j : Json} (hj : Plain depth j) : parse? (compact j) = some j := by
  have hfuel : 2 * (compact j).toList.length ≤ 2 * (compact j).length + 1 := by rw [String.length_toList]; omega
  have hread := (readsBack _).value hj hfuel [] (by simp [Ends])
  rw [List.append_nil] at hread
  rw [parse?, hread]
  rfl

/-! ### Soundness -/

theorem soundItems?_of_forall {depth : Nat} {js : List Json} (h : ∀ j ∈ js, sound? depth j = some j) :
    soundItems? depth js = some js := by
  induction js with
  | nil => rfl
  | cons j js ih =>
    obtain ⟨hj, hjs⟩ := List.forall_mem_cons.1 h
    simp [soundItems?, hj, ih hjs]

theorem soundMembers?_of_forall {depth : Nat} {ms : List (String × Json)}
    (h : ∀ m ∈ ms, sound? depth m.2 = some m.2) :
    soundMembers? depth (object ms).members = some (object ms).members := by
  induction ms with
  | nil => rfl
  | cons m ms ih =>
    obtain ⟨hm, hms⟩ := List.forall_mem_cons.1 h
    show soundMembers? depth ((some m.1, m.2) :: (object ms).members) = _
    simp [soundMembers?, hm, ih hms]
    rfl

theorem lastOfEach_of_nodup {ms : List (String × Json)} (h : (ms.map (·.1)).Nodup) :
    lastOfEach (object ms).members = (object ms).members := by
  induction ms with
  | nil => rfl
  | cons m ms ih =>
    obtain ⟨hm, hms⟩ := List.nodup_cons.1 h
    have hnone : ((object ms).members.any fun n => n.1 == some m.1) = false := by
      simp only [object, members, List.any_map, List.any_eq_false]
      rintro n hn heq
      exact hm (List.mem_map.2 ⟨n, hn, by simpa using heq⟩)
    show lastOfEach ((some m.1, m.2) :: (object ms).members) = _
    rw [lastOfEach, hnone, ih hms]
    rfl

theorem Plain.sound?_eq {depth : Nat} {j : Json} (hj : Plain depth j) : sound? depth j = some j := by
  induction hj with
  | null | bool | str => simp [sound?]
  | num _ _ hfinite => simp [sound?, hfinite]
  | arr _ ih => simp [sound?, soundItems?_of_forall ih]
  | @object depth ms hdiffer _ ih =>
    show sound? (depth + 2) (obj (Json.object ms).members) = _
    simp [sound?, soundMembers?_of_forall ih, lastOfEach_of_nodup hdiffer]
    rfl

/-- What is written is read back. -/
theorem parseSound?_compact {j : Json} (hj : Plain depthLimit j) : parseSound? (compact j) = some j := by
  rw [parseSound?, parse?_compact hj, Option.bind_some, hj.sound?_eq]

end Json

end Fleet
