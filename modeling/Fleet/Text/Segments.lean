/-!
# Texts cut at a separator

Links, names and identifiers are written as segments joined by a separator. `segments` gives all of
them, `afterLast` the last one and `splitFirst` the two sides of the first separator. Nothing is lost:
joining the segments again gives the text (`joined_segments`), and a text is cut in two exactly when it
holds the separator (`splitFirst_eq_none_iff`).
-/

namespace Fleet.Text

variable {α : Type} [DecidableEq α]

/-- The segments of a text between the occurrences of `sep`; a text without `sep` is its only segment. -/
def segments (sep : α) : List α → List (List α)
  | [] => [[]]
  | c :: cs =>
    if c = sep then [] :: segments sep cs
    else
      match segments sep cs with
      | [] => [[c]]
      | s :: ss => (c :: s) :: ss

/-- The segments of `ss` with `sep` between neighbours. -/
def joined (sep : List α) : List (List α) → List α
  | [] => []
  | [s] => s
  | s :: ss => s ++ sep ++ joined sep ss

/-- What follows the last `sep`, or the whole text when there is none. -/
def afterLast (sep : α) (cs : List α) : List α :=
  (cs.reverse.takeWhile (· ≠ sep)).reverse

/-- The two sides of the first `sep`. -/
def splitFirst (sep : α) : List α → Option (List α × List α)
  | [] => none
  | c :: cs =>
    if c = sep then some ([], cs) else (splitFirst sep cs).map fun p => (c :: p.1, p.2)

/-- What is left of `cs` after `start`, when it begins so. -/
def dropStart? : List α → List α → Option (List α)
  | [], cs => some cs
  | _ :: _, [] => none
  | p :: ps, c :: cs => if p = c then dropStart? ps cs else none

/-! ### Laws -/

theorem segments_ne_nil (sep : α) (cs : List α) : segments sep cs ≠ [] := by
  cases cs with
  | nil => simp [segments]
  | cons c cs =>
    unfold segments
    split
    · simp
    · split <;> simp

private theorem joined_cons {β : Type} (sep s : List β) {ss : List (List β)} (h : ss ≠ []) :
    joined sep (s :: ss) = s ++ sep ++ joined sep ss := by
  cases ss with
  | nil => exact absurd rfl h
  | cons t ts => rfl

private theorem joined_cons_head {β : Type} (sep s : List β) (c : β) (ss : List (List β)) :
    joined sep ((c :: s) :: ss) = c :: joined sep (s :: ss) := by
  cases ss <;> rfl

theorem joined_segments (sep : α) (cs : List α) : joined [sep] (segments sep cs) = cs := by
  induction cs with
  | nil => rfl
  | cons c cs ih =>
    unfold segments
    split
    · next h => rw [joined_cons _ _ (segments_ne_nil sep cs), ih, h]; rfl
    · split
      · next h => exact absurd h (segments_ne_nil sep cs)
      · next h => rw [joined_cons_head, ← h, ih]

theorem segments_inj {sep : α} {cs ds : List α} (h : segments sep cs = segments sep ds) : cs = ds := by
  rw [← joined_segments sep cs, h, joined_segments]

theorem segments_of_not_mem {sep : α} {cs : List α} (h : sep ∉ cs) : segments sep cs = [cs] := by
  induction cs with
  | nil => rfl
  | cons c cs ih =>
    rw [List.mem_cons, not_or] at h
    rw [segments, if_neg (Ne.symm h.1), ih h.2]

theorem segments_append_cons (sep : α) (cs ds : List α) :
    segments sep (cs ++ sep :: ds) = segments sep cs ++ segments sep ds := by
  induction cs with
  | nil => simp [segments]
  | cons c cs ih =>
    rw [List.cons_append, segments, segments, ih]
    split
    · rfl
    · cases hs : segments sep cs with
      | nil => exact absurd hs (segments_ne_nil sep cs)
      | cons s ss => rfl

theorem afterLast_of_not_mem {sep : α} {cs : List α} (h : sep ∉ cs) : afterLast sep cs = cs := by
  have hd : ∀ x ∈ cs.reverse, (decide (x ≠ sep)) = true := by
    intro x hx
    have : x ≠ sep := fun e => h (e ▸ List.mem_reverse.1 hx)
    simpa using this
  have : cs.reverse.takeWhile (· ≠ sep) = cs.reverse := by
    simpa using @List.takeWhile_append_of_pos _ _ cs.reverse [] hd
  rw [afterLast, this, List.reverse_reverse]

/-- What precedes a separator does not matter for what follows the last one. -/
theorem afterLast_append (sep : α) (cs ds : List α) : afterLast sep (cs ++ sep :: ds) = afterLast sep ds := by
  unfold afterLast
  rw [List.reverse_append, List.reverse_cons, List.append_assoc, List.takeWhile_append]
  split
  · next h =>
    have hall := (List.takeWhile_prefix (fun c => decide (c ≠ sep))).eq_of_length h
    rw [hall, List.singleton_append, List.takeWhile_cons_of_neg (by simp), List.append_nil]
  · rfl

theorem afterLast_append_cons (sep : α) (cs ds : List α) (h : sep ∉ ds) :
    afterLast sep (cs ++ sep :: ds) = ds := by
  rw [afterLast_append, afterLast_of_not_mem h]

/-- A text is determined by what follows its last separator and what precedes it. -/
theorem eq_of_append_cons {sep : α} {cs cs' ds ds' : List α} (hd : sep ∉ ds) (hd' : sep ∉ ds')
    (h : cs ++ sep :: ds = cs' ++ sep :: ds') : cs = cs' ∧ ds = ds' := by
  have hlast : ds = ds' := by
    rw [← afterLast_append_cons sep cs ds hd, h, afterLast_append_cons sep cs' ds' hd']
  subst hlast
  exact ⟨List.append_cancel_right h, rfl⟩

theorem splitFirst_eq_some {sep : α} {cs ds es : List α} (h : splitFirst sep cs = some (ds, es)) :
    cs = ds ++ sep :: es ∧ sep ∉ ds := by
  induction cs generalizing ds with
  | nil => simp [splitFirst] at h
  | cons c cs ih =>
    unfold splitFirst at h
    split at h
    · next hc => simp only [Option.some.injEq, Prod.mk.injEq] at h; simp [← h.1, ← h.2, hc]
    · next hc =>
      obtain ⟨p, hp, he⟩ := Option.map_eq_some_iff.1 h
      simp only [Prod.mk.injEq] at he
      have := @ih p.1 (by rw [hp, ← he.2])
      refine ⟨by rw [← he.1, this.1]; rfl, ?_⟩
      rw [← he.1, List.mem_cons, not_or]
      exact ⟨fun e => hc e.symm, this.2⟩

theorem splitFirst_append {sep : α} {ds es : List α} (h : sep ∉ ds) :
    splitFirst sep (ds ++ sep :: es) = some (ds, es) := by
  induction ds with
  | nil => simp [splitFirst]
  | cons d ds ih =>
    rw [List.mem_cons, not_or] at h
    have hd : d ≠ sep := fun e => h.1 e.symm
    simp [splitFirst, hd, ih h.2]

theorem splitFirst_eq_none_iff {sep : α} {cs : List α} : splitFirst sep cs = none ↔ sep ∉ cs := by
  induction cs with
  | nil => simp [splitFirst]
  | cons c cs ih =>
    unfold splitFirst
    split
    · next h => simp [h]
    · next h => simp [ih, Ne.symm h]

theorem dropStart?_eq_some_iff {start cs rest : List α} :
    dropStart? start cs = some rest ↔ cs = start ++ rest := by
  induction start generalizing cs with
  | nil => simp [dropStart?]
  | cons p ps ih =>
    cases cs with
    | nil => simp [dropStart?]
    | cons c cs =>
      unfold dropStart?
      split
      · next h => simp [ih, h]
      · next h => simp [Ne.symm h]

end Fleet.Text
