import Fleet.Http.Url
import Fleet.Proofs.Text.Bytes

/-!
# Reading the query of an address

A parameter that is added to an address is read from the query as it was, whatever characters it has, and the other
parameters stay (`Url.parameters_withParameter`). An address without a question mark has none
(`Url.parameters_ofText?`).
-/

namespace Fleet.Url

/-- The bytes that stand for a text in a submitted form. A percent sign without two digits stands for itself. -/
def formDecode : List Char → List UInt8
  | '+' :: cs => 0x20 :: formDecode cs
  | '%' :: a :: b :: cs =>
    match Text.hexValue? a, Text.hexValue? b with
    | some m, some n => UInt8.ofNat (m * 16 + n) :: formDecode cs
    | _, _ => String.utf8EncodeChar '%' ++ formDecode (a :: b :: cs)
  | c :: cs => String.utf8EncodeChar c ++ formDecode cs
  | [] => []

/-- The names and values in the text of a query. -/
def parametersIn (cs : List Char) : List (List UInt8 × List UInt8) :=
  ((Text.segments '&' cs).filter (· ≠ [])).map fun s =>
    let (name, value) := cutAt '=' s
    (formDecode name, formDecode (value.getD []))

def parameters (u : Url) : List (List UInt8 × List UInt8) := parametersIn (u.query.getD "").toList

/-! ### The characters of an encoded text -/

/-- What becomes of a character in a submitted form. -/
private def formChar (c : Char) : List Char :=
  if c = ' ' then ['+']
  else if c.isAlphanum || ['*', '-', '.', '_'].contains c then [c]
  else (String.utf8EncodeChar c).flatMap percent

private theorem toList_formEncode (s : String) : (formEncode s).toList = s.toList.flatMap formChar :=
  String.toList_ofList

private theorem hexValue?_upperHex (n : Nat) : Text.hexValue? (upperHex n) = some (n % 16) := by
  have h : ∀ k < 16, Text.hexValue? (Nat.digitChar k).toUpper = some k := by decide
  exact h _ (Nat.mod_lt n (by decide))

private theorem upperHex_ne (n : Nat) : upperHex n ≠ '&' ∧ upperHex n ≠ '=' := by
  have h : ∀ k < 16, (Nat.digitChar k).toUpper ≠ '&' ∧ (Nat.digitChar k).toUpper ≠ '=' := by decide
  exact h _ (Nat.mod_lt n (by decide))

private theorem formDecode_percent (b : UInt8) (cs : List Char) :
    formDecode (percent b ++ cs) = b :: formDecode cs := by
  have hb : b.toNat < 256 := b.toNat_lt
  simp only [percent, List.cons_append, List.nil_append, formDecode, hexValue?_upperHex]
  rw [show b.toNat / 16 % 16 * 16 + b.toNat % 16 = b.toNat by omega, UInt8.ofNat_toNat]

private theorem formDecode_percents (bs : List UInt8) (cs : List Char) :
    formDecode (bs.flatMap percent ++ cs) = bs ++ formDecode cs := by
  induction bs with
  | nil => rfl
  | cons b bs ih => rw [List.flatMap_cons, List.append_assoc, formDecode_percent, ih, List.cons_append]

private theorem formDecode_formChar (c : Char) (cs : List Char) :
    formDecode (formChar c ++ cs) = String.utf8EncodeChar c ++ formDecode cs := by
  unfold formChar
  split
  · next h => subst h; rfl
  · split
    · next h =>
      have hplus : c ≠ '+' := by rintro rfl; exact absurd h (by decide)
      have hpercent : c ≠ '%' := by rintro rfl; exact absurd h (by decide)
      rw [List.singleton_append, formDecode] <;> simp_all
    · exact formDecode_percents _ cs

theorem formDecode_formEncode (s : String) : formDecode (formEncode s).toList = Text.bytes s := by
  rw [toList_formEncode, Text.bytes_eq]
  induction s.toList with
  | nil => rfl
  | cons c cs ih => rw [List.flatMap_cons, formDecode_formChar, ih, List.flatMap_cons]

/-- The characters that part the parameters do not occur in them. -/
private theorem separator_ne {s : String} {c : Char} (h : c ∈ (formEncode s).toList) : c ≠ '&' ∧ c ≠ '=' := by
  rw [toList_formEncode] at h
  obtain ⟨d, -, h⟩ := List.mem_flatMap.1 h
  unfold formChar at h
  split at h
  · rw [List.mem_singleton.1 h]
    decide
  · split at h
    · next hd =>
      rw [List.mem_singleton.1 h]
      constructor <;> (rintro rfl; exact absurd hd (by decide))
    · obtain ⟨b, -, h⟩ := List.mem_flatMap.1 h
      simp only [percent, List.mem_cons, List.not_mem_nil, or_false] at h
      obtain rfl | rfl | rfl := h
      · decide
      · exact upperHex_ne _
      · exact upperHex_ne _

/-! ### Further parameters -/

private theorem parametersIn_append (cs ds : List Char) :
    parametersIn (cs ++ '&' :: ds) = parametersIn cs ++ parametersIn ds := by
  rw [parametersIn, Text.segments_append_cons, List.filter_append, List.map_append]
  rfl

private theorem parametersIn_pair (key value : String) :
    parametersIn (formEncode key ++ "=" ++ formEncode value).toList = [(Text.bytes key, Text.bytes value)] := by
  have hlist : (formEncode key ++ "=" ++ formEncode value).toList =
      (formEncode key).toList ++ '=' :: (formEncode value).toList := by
    rw [String.toList_append, String.toList_append, List.append_assoc]
    rfl
  have hone : '&' ∉ (formEncode key).toList ++ '=' :: (formEncode value).toList := by
    rw [List.mem_append, List.mem_cons]
    rintro (h | h | h)
    · exact (separator_ne h).1 rfl
    · exact absurd h (by decide)
    · exact (separator_ne h).1 rfl
  have hcut : cutAt '=' ((formEncode key).toList ++ '=' :: (formEncode value).toList) =
      ((formEncode key).toList, some (formEncode value).toList) := by
    rw [cutAt, Text.splitFirst_append fun h => (separator_ne h).2 rfl]
  rw [hlist, parametersIn, Text.segments_of_not_mem hone, List.filter_cons_of_pos (by simp), List.filter_nil,
    List.map_singleton, hcut]
  dsimp only [Option.getD_some]
  rw [formDecode_formEncode, formDecode_formEncode]

/-- A further parameter is read as it was given, after those that the address has. -/
theorem parameters_withParameter (u : Url) (key value : String) :
    (u.withParameter key value).parameters = u.parameters ++ [(Text.bytes key, Text.bytes value)] := by
  have hpair := parametersIn_pair key value
  obtain ⟨origin, path, query, fragment⟩ := u
  unfold withParameter parameters
  dsimp only
  split
  · exact hpair
  · exact hpair
  · next q _ =>
    rw [Option.getD_some, Option.getD_some, String.toList_append, String.toList_append, List.append_assoc,
      show "&".toList = ['&'] from rfl, List.singleton_append, parametersIn_append, hpair]

/-! ### Addresses without parameters -/

private theorem mem_of_mem_cleaned {c : Char} {cs : List Char} (h : c ∈ cleaned cs) : c ∈ cs := by
  have hedges := List.mem_reverse.1 (List.mem_filter.1 h).1
  exact (List.dropWhile_suffix _).subset (List.mem_reverse.1 ((List.dropWhile_suffix _).subset hedges))

private theorem mem_of_mem_scheme? {c : Char} {cs rest : List Char} {name : String} {usual : Nat}
    (h : scheme? cs = some (name, usual, rest)) (hc : c ∈ rest) : c ∈ cs := by
  have hafter {d : Char} {ds : List Char} (hds : (before (· = ':') cs).2 = d :: ds) (hmem : c ∈ ds) : c ∈ cs := by
    have hdrop : c ∈ (before (· = ':') cs).2 := hds ▸ List.mem_cons_of_mem d hmem
    exact (List.dropWhile_suffix _).subset hdrop
  unfold scheme? at h
  dsimp only at h
  split at h
  · next hds =>
    cases h
    exact hafter hds hc
  · next hds =>
    cases h
    exact hafter hds hc
  · cases h

private theorem mem_of_mem_cutAt {c mark : Char} {cs : List Char} (h : c ∈ (cutAt mark cs).1) : c ∈ cs := by
  unfold cutAt at h
  split at h
  · next hsplit =>
    rw [(Text.splitFirst_eq_some hsplit).1]
    exact List.mem_append_left _ h
  · exact h

/-- There are no parameters in an address that has no question mark. -/
theorem parameters_ofText? {s : String} {u : Url} (h : ofText? s = some u) (hs : '?' ∉ s.toList) :
    u.parameters = [] := by
  unfold ofText? at h
  simp only [Option.bind_eq_bind, Option.bind_eq_some_iff, Option.pure_def, Option.some.injEq] at h
  obtain ⟨⟨name, usual, rest⟩, hscheme, authority, -, rfl⟩ := h
  have hnone : '?' ∉ (cutAt '#' rest).1 := fun hmem =>
    hs (mem_of_mem_cleaned (mem_of_mem_scheme? hscheme (mem_of_mem_cutAt hmem)))
  have hcut : (cutAt '?' (cutAt '#' rest).1).2 = none := by
    rw [cutAt, Text.splitFirst_eq_none_iff.2 hnone]
  unfold parameters
  dsimp only
  rw [hcut]
  rfl

end Fleet.Url
