/-!
# Finite maps in key order

A map is the list of its entries with strictly increasing keys, so two maps with the same entries are
equal and traversal is always in key order. The order is a parameter (`KeyOrder`): texts are ordered by
code point and pairs lexicographically. `find?` after `insert`, `erase` is given by `find?_insert` and
`find?_erase`; erasing is filtering, so what else is stored stays as it was.
-/

namespace Fleet

/-- A strict total order that can be decided. -/
class KeyOrder (κ : Type) where
  before : κ → κ → Bool
  irrefl : ∀ a, before a a = false
  trans : ∀ a b c, before a b = true → before b c = true → before a c = true
  total : ∀ a b, before a b = false → before b a = false → a = b

namespace KeyOrder

/-- Natural numbers by size. -/
instance : KeyOrder Nat where
  before a b := decide (a < b)
  irrefl a := by simp
  trans a b c := by simp only [decide_eq_true_eq]; omega
  total a b := by simp only [decide_eq_false_iff_not]; omega

/-- Texts by the code points of their characters, which is also the order of their UTF-8 bytes. -/
instance : KeyOrder String where
  before a b := decide (a < b)
  irrefl a := by simp
  trans a b c := by simpa only [decide_eq_true_eq] using String.lt_trans
  total a b := by
    simp only [decide_eq_false_iff_not, String.not_lt]
    exact fun h h' => String.le_antisymm h' h

/-- Pairs by the first component, and by the second where the first ones agree. -/
instance {κ μ : Type} [DecidableEq κ] [KeyOrder κ] [KeyOrder μ] : KeyOrder (κ × μ) where
  before a b := before a.1 b.1 || (decide (a.1 = b.1) && before a.2 b.2)
  irrefl a := by simp [irrefl]
  trans a b c h h' := by
    simp only [Bool.or_eq_true, Bool.and_eq_true, decide_eq_true_eq] at *
    rcases h with h | ⟨h, g⟩ <;> rcases h' with h' | ⟨h', g'⟩
    · exact .inl (trans _ _ _ h h')
    · exact .inl (h' ▸ h)
    · exact .inl (h ▸ h')
    · exact .inr ⟨h.trans h', trans _ _ _ g g'⟩
  total a b h h' := by
    simp only [Bool.or_eq_false_iff, Bool.and_eq_false_iff, decide_eq_false_iff_not] at *
    have e : a.1 = b.1 := total _ _ h.1 h'.1
    rcases h.2 with n | n
    · exact absurd e n
    · rcases h'.2 with n' | n'
      · exact absurd e.symm n'
      · exact Prod.ext e (total _ _ n n')

/-- The order of the images under an injective map. -/
@[reducible] def ofInjective {κ μ : Type} [KeyOrder μ] (f : κ → μ) (inj : ∀ a b, f a = f b → a = b) :
    KeyOrder κ where
  before a b := before (f a) (f b)
  irrefl a := irrefl (f a)
  trans a b c := trans (f a) (f b) (f c)
  total a b h h' := inj a b (total _ _ h h')

end KeyOrder

/-- A finite map whose entries are listed by strictly increasing keys. -/
structure OrderedMap (κ : Type) [KeyOrder κ] (ν : Type) where
  entries : List (κ × ν)
  increasing : entries.Pairwise fun a b => KeyOrder.before a.1 b.1 = true

namespace OrderedMap

open KeyOrder (before)

variable {κ : Type} [KeyOrder κ] [DecidableEq κ] {ν : Type}

instance [DecidableEq ν] : DecidableEq (OrderedMap κ ν) := fun a b =>
  if h : a.entries = b.entries then .isTrue (by cases a; cases b; cases h; rfl)
  else .isFalse fun e => h (e ▸ rfl)

/-- The map without entries. -/
def empty : OrderedMap κ ν := ⟨[], List.Pairwise.nil⟩

instance : Inhabited (OrderedMap κ ν) := ⟨empty⟩

/-- The value of the first entry with key `k`. -/
def valueIn (k : κ) : List (κ × ν) → Option ν
  | [] => none
  | e :: es => if k = e.1 then some e.2 else valueIn k es

/-- The value stored under a key. -/
def find? (m : OrderedMap κ ν) (k : κ) : Option ν := valueIn k m.entries

/-- Whether a key has a value. -/
def contains (m : OrderedMap κ ν) (k : κ) : Bool := (m.find? k).isSome

def keys (m : OrderedMap κ ν) : List κ := m.entries.map (·.1)

def values (m : OrderedMap κ ν) : List ν := m.entries.map (·.2)

/-- The entries with `k` given the value `v`, in the place that the key order assigns. -/
def place (k : κ) (v : ν) : List (κ × ν) → List (κ × ν)
  | [] => [(k, v)]
  | e :: es =>
    if before k e.1 then (k, v) :: e :: es
    else if k = e.1 then (k, v) :: es
    else e :: place k v es

private theorem mem_place {k : κ} {v : ν} {es : List (κ × ν)} {x : κ × ν} (h : x ∈ place k v es) :
    x = (k, v) ∨ x ∈ es := by
  induction es with
  | nil => simpa [place] using h
  | cons e es ih =>
    unfold place at h
    split at h
    · simpa using h
    · split at h
      · rcases List.mem_cons.1 h with h | h
        · exact .inl h
        · exact .inr (List.mem_cons_of_mem _ h)
      · rcases List.mem_cons.1 h with h | h
        · exact .inr (h ▸ List.mem_cons_self)
        · exact (ih h).imp_right (List.mem_cons_of_mem _)

private theorem increasing_place (k : κ) (v : ν) {es : List (κ × ν)}
    (h : es.Pairwise fun a b => before a.1 b.1 = true) :
    (place k v es).Pairwise fun a b => before a.1 b.1 = true := by
  induction es with
  | nil => simp [place]
  | cons e es ih =>
    have ⟨he, hs⟩ := List.pairwise_cons.1 h
    unfold place
    split
    · next hk =>
      refine List.pairwise_cons.2 ⟨fun x hx => ?_, h⟩
      rcases List.mem_cons.1 hx with rfl | hx
      · exact hk
      · exact KeyOrder.trans _ _ _ hk (he x hx)
    · next hk =>
      split
      · next heq => exact List.pairwise_cons.2 ⟨fun x hx => heq ▸ he x hx, hs⟩
      · next hne =>
        refine List.pairwise_cons.2 ⟨fun x hx => ?_, ih hs⟩
        rcases mem_place hx with rfl | hx
        · cases hb : before e.1 k with
          | true => rfl
          | false => exact absurd (KeyOrder.total _ _ (by simpa using hk) hb) hne
        · exact he x hx

/-- The map with `k` given the value `v`, whether or not it had one. -/
def insert (m : OrderedMap κ ν) (k : κ) (v : ν) : OrderedMap κ ν :=
  ⟨place k v m.entries, increasing_place k v m.increasing⟩

/-- The map without a value for `k`. -/
def erase (m : OrderedMap κ ν) (k : κ) : OrderedMap κ ν :=
  ⟨m.entries.filter (fun e => decide (e.1 ≠ k)), m.increasing.filter _⟩

/-- The map that results from storing the entries of a list one after the other. -/
def ofList (es : List (κ × ν)) : OrderedMap κ ν :=
  es.foldl (fun m e => m.insert e.1 e.2) empty

/-! ### Lookup -/

@[simp] theorem find?_empty (k : κ) : (empty : OrderedMap κ ν).find? k = none := rfl

private theorem valueIn_place (k : κ) (v : ν) (j : κ) (es : List (κ × ν)) :
    valueIn j (place k v es) = if j = k then some v else valueIn j es := by
  induction es with
  | nil => rfl
  | cons e es ih =>
    unfold place
    split
    · rfl
    · split
      · next he =>
        by_cases h : j = k
        · simp [valueIn, h]
        · simp [valueIn, h, ← he]
      · next he =>
        by_cases hj : j = e.1
        · have : j ≠ k := fun e' => he (e' ▸ hj)
          simp [valueIn, hj, Ne.symm he]
        · simp [valueIn, hj, ih]

theorem find?_insert (m : OrderedMap κ ν) (k j : κ) (v : ν) :
    (m.insert k v).find? j = if j = k then some v else m.find? j :=
  valueIn_place k v j m.entries

private theorem valueIn_filter_ne {μ : Type} [DecidableEq μ] (k j : μ) (es : List (μ × ν)) :
    valueIn j (es.filter (fun e => decide (e.1 ≠ k))) = if j = k then none else valueIn j es := by
  induction es with
  | nil => simp [valueIn]
  | cons e es ih =>
    by_cases he : e.1 = k
    · rw [List.filter_cons_of_neg (by simpa using he), ih]
      by_cases hj : j = k
      · simp [hj]
      · simp [valueIn, hj, he]
    · rw [List.filter_cons_of_pos (by simpa using he)]
      by_cases hj : j = e.1
      · simp [valueIn, hj, he]
      · rw [valueIn, if_neg hj, ih, valueIn, if_neg hj]

theorem find?_erase (m : OrderedMap κ ν) (k j : κ) :
    (m.erase k).find? j = if j = k then none else m.find? j :=
  valueIn_filter_ne k j m.entries

private theorem valueIn_of_mem {k : κ} {v : ν} {es : List (κ × ν)}
    (hs : es.Pairwise fun a b => before a.1 b.1 = true) (h : (k, v) ∈ es) : valueIn k es = some v := by
  induction es with
  | nil => simp at h
  | cons e es ih =>
    have ⟨he, hs⟩ := List.pairwise_cons.1 hs
    rcases List.mem_cons.1 h with rfl | h
    · simp [valueIn]
    · have hb := he _ h
      have hne : k ≠ e.1 := by
        rintro rfl
        exact absurd hb (by simp [KeyOrder.irrefl])
      simp [valueIn, hne, ih hs h]

private theorem mem_of_valueIn {μ : Type} [DecidableEq μ] {k : μ} {v : ν} {es : List (μ × ν)} (h : valueIn k es = some v) :
    (k, v) ∈ es := by
  induction es with
  | nil => simp [valueIn] at h
  | cons e es ih =>
    unfold valueIn at h
    split at h
    · next hk => simp only [Option.some.injEq] at h; simp [hk, ← h]
    · exact List.mem_cons_of_mem _ (ih h)

/-- The entries are exactly the pairs of a key and its value. -/
theorem mem_entries_iff {m : OrderedMap κ ν} {k : κ} {v : ν} : (k, v) ∈ m.entries ↔ m.find? k = some v :=
  ⟨valueIn_of_mem m.increasing, mem_of_valueIn⟩

/-- The keys are those that have a value. -/
theorem mem_keys_iff {m : OrderedMap κ ν} {k : κ} : k ∈ m.keys ↔ ∃ v, m.find? k = some v := by
  simp only [keys, List.mem_map, Prod.exists, ← mem_entries_iff]
  constructor
  · rintro ⟨_, v, h, rfl⟩
    exact ⟨v, h⟩
  · rintro ⟨v, h⟩
    exact ⟨k, v, h, rfl⟩

omit [DecidableEq κ] in
theorem nodup_keys (m : OrderedMap κ ν) : m.keys.Nodup := by
  refine List.Pairwise.map _ (fun a b h he => ?_) m.increasing
  rw [he, KeyOrder.irrefl] at h
  exact absurd h (by simp)

omit [DecidableEq κ] in
theorem nodup_entries (m : OrderedMap κ ν) : m.entries.Nodup :=
  List.Pairwise.of_map (·.1) (fun _ _ hkeys he => hkeys (congrArg (·.1) he)) m.nodup_keys

/-- Entries are in the order of their keys, so two maps are equal when they give every key the same value. -/
theorem eq_of_find? {m m' : OrderedMap κ ν} (h : ∀ k, m.find? k = m'.find? k) : m = m' := by
  -- Both lists have the same members and are in the order of the keys.
  have hperm : m.entries.Perm m'.entries := by
    refine (List.perm_ext_iff_of_nodup m.nodup_entries m'.nodup_entries).2 fun e => ?_
    exact mem_entries_iff.trans ((h e.1) ▸ mem_entries_iff.symm)
  have hentries : m.entries = m'.entries := by
    refine hperm.eq_of_pairwise (fun a b _ _ hab hba => ?_) m.increasing m'.increasing
    have := KeyOrder.trans _ _ _ hab hba
    rw [KeyOrder.irrefl] at this
    exact absurd this (by simp)
  obtain ⟨es, hes⟩ := m
  obtain ⟨es', hes'⟩ := m'
  cases hentries
  rfl

theorem mem_keys_insert {m : OrderedMap κ ν} {k j : κ} {v : ν} : j ∈ (m.insert k v).keys ↔ j = k ∨ j ∈ m.keys := by
  simp only [mem_keys_iff, find?_insert]
  by_cases h : j = k <;> simp [h]

/-- The keys of a map that is made from a list are those of the list. -/
theorem mem_keys_ofList {es : List (κ × ν)} {k : κ} : k ∈ (ofList es).keys ↔ k ∈ es.map (·.1) := by
  have hfold (m : OrderedMap κ ν) :
      k ∈ (es.foldl (fun m e => m.insert e.1 e.2) m).keys ↔ k ∈ m.keys ∨ k ∈ es.map (·.1) := by
    induction es generalizing m with
    | nil => simp
    | cons e es ih =>
      rw [List.foldl_cons, ih, mem_keys_insert, List.map_cons, List.mem_cons]
      simp only [or_assoc, or_left_comm]
  rw [ofList, hfold]
  simp [keys, empty]

/-- Of entries with the same key the last one counts. -/
theorem find?_ofList (es : List (κ × ν)) (k : κ) : (ofList es).find? k = es.reverse.lookup k := by
  have hfold (m : OrderedMap κ ν) :
      (es.foldl (fun m e => m.insert e.1 e.2) m).find? k = (es.reverse.lookup k).or (m.find? k) := by
    induction es generalizing m with
    | nil => rfl
    | cons e es ih =>
      obtain ⟨j, v⟩ := e
      rw [List.foldl_cons, ih, find?_insert, List.reverse_cons, List.lookup_append, Option.or_assoc, List.lookup_cons]
      by_cases hk : k = j
      · simp [hk]
      · simp [hk, beq_eq_false_iff_ne.2 hk]
  rw [ofList, hfold, find?_empty, Option.or_none]

private theorem valueIn_eq_none {k : κ} {es : List (κ × ν)} (h : ∀ e ∈ es, before k e.1 = true) : valueIn k es = none := by
  induction es with
  | nil => rfl
  | cons e es ih =>
    have hne : k ≠ e.1 := by
      rintro rfl
      exact absurd (h e List.mem_cons_self) (by simp [KeyOrder.irrefl])
    rw [valueIn, if_neg hne]
    exact ih fun e' he' => h e' (List.mem_cons_of_mem _ he')

/-- The map that is made from the entries of a map is that map. -/
theorem ofList_entries (m : OrderedMap κ ν) : ofList m.entries = m := by
  obtain ⟨es, hes⟩ := m
  have hfold (m : OrderedMap κ ν) (k : κ) :
      (es.foldl (fun m e => m.insert e.1 e.2) m).find? k = (valueIn k es).or (m.find? k) := by
    induction es generalizing m with
    | nil => rfl
    | cons e es ih =>
      obtain ⟨he, hes⟩ := List.pairwise_cons.1 hes
      rw [List.foldl_cons, ih hes, find?_insert, valueIn]
      by_cases hk : k = e.1
      · -- The keys that follow are greater, so the entry is the only one with its key.
        rw [if_pos hk, if_pos hk, hk, valueIn_eq_none he]
        rfl
      · rw [if_neg hk, if_neg hk]
  exact eq_of_find? fun k => (hfold empty k).trans (Option.or_none)

/-- The values are those that are stored under some key. -/
theorem mem_values_iff {m : OrderedMap κ ν} {v : ν} : v ∈ m.values ↔ ∃ k, m.find? k = some v := by
  simp only [values, List.mem_map, Prod.exists, ← mem_entries_iff]
  constructor
  · rintro ⟨k, _, h, rfl⟩
    exact ⟨k, h⟩
  · rintro ⟨k, h⟩
    exact ⟨k, v, h, rfl⟩

/-- A value that is stored takes the place of what was under its key, and no other. -/
theorem perm_entries_insert (m : OrderedMap κ ν) (k : κ) (v : ν) :
    (m.insert k v).entries.Perm ((k, v) :: (m.erase k).entries) := by
  have hnew : (k, v) ∉ (m.erase k).entries := by
    rw [mem_entries_iff, find?_erase, if_pos rfl]
    simp
  refine (List.perm_ext_iff_of_nodup (nodup_entries _) (List.nodup_cons.2 ⟨hnew, nodup_entries _⟩)).2 fun e => ?_
  obtain ⟨j, w⟩ := e
  rw [List.mem_cons, mem_entries_iff, mem_entries_iff, find?_insert, find?_erase]
  by_cases hj : j = k
  · simp [hj, eq_comm]
  · simp [hj]

theorem insert_of_find? {m : OrderedMap κ ν} {k : κ} {v : ν} (h : m.find? k = some v) : m.insert k v = m := by
  refine eq_of_find? fun j => ?_
  rw [find?_insert]
  split
  · next hj => rw [hj, h]
  · rfl

theorem erase_of_find?_none {m : OrderedMap κ ν} {k : κ} (h : m.find? k = none) : m.erase k = m := by
  refine eq_of_find? fun j => ?_
  rw [find?_erase]
  split
  · next hj => rw [hj, h]
  · rfl

/-- The values are counted key by key. -/
theorem countP_values_insert (m : OrderedMap κ ν) (k : κ) (v : ν) (p : ν → Bool) :
    (m.insert k v).values.countP p = (m.erase k).values.countP p + if p v then 1 else 0 := by
  have hperm : (m.insert k v).values.Perm (v :: (m.erase k).values) := (m.perm_entries_insert k v).map Prod.snd
  rw [hperm.countP_eq, List.countP_cons]

theorem countP_values_of_find? {m : OrderedMap κ ν} {k : κ} {v : ν} (h : m.find? k = some v) (p : ν → Bool) :
    m.values.countP p = (m.erase k).values.countP p + if p v then 1 else 0 := by
  rw [← countP_values_insert, insert_of_find? h]

theorem contains_eq_true_iff {m : OrderedMap κ ν} {k : κ} : m.contains k = true ↔ ∃ v, m.find? k = some v :=
  Option.isSome_iff_exists

theorem contains_eq_false_iff {m : OrderedMap κ ν} {k : κ} : m.contains k = false ↔ m.find? k = none :=
  Option.isSome_eq_false_iff.trans Option.isNone_iff_eq_none

end OrderedMap

end Fleet
