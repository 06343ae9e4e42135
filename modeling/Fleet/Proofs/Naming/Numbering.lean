import Fleet.Proofs.Names

/-!
# The numbers of new nodes

New nodes of a group get the lowest indices that are not taken (`nextNodeNames_lowest`). An index is taken only by a
name that ends in a numeral for it directly after the name of the group, so that the nodes of a group whose name
begins with that of another one do not count there.
-/

namespace Fleet

namespace Naming

/-- The indices are those of `count` new nodes of a group beside nodes with the existing names. -/
structure Numbers (group : String) (existing : List String) (count : Nat) (indices : List Nat) : Prop where
  length_eq : indices.length = count
  increasing : indices.Pairwise (· < ·)
  pos : ∀ n ∈ indices, 1 ≤ n
  lt_size : ∀ n ∈ indices, n < UInt32.size
  fresh : ∀ n ∈ indices, nodeName group n ∉ existing
  free : ∀ n ∈ indices, ∀ name ∈ existing, ¬TakesIndex group name n
  /-- What is passed over is taken. -/
  lowest : ∀ n ∈ indices, ∀ i, 1 ≤ i → i ≤ n → i ∉ indices → ∃ name ∈ existing, TakesIndex group name i

private theorem mem_taken_iff {group : String} {existing : List String} {i : Nat} :
    i ∈ existing.filterMap (takenIndex? group) ↔ ∃ name ∈ existing, TakesIndex group name i := by
  simp only [List.mem_filterMap, takenIndex?_eq_some_iff]

/-- A hyphen after the name of the group and its own hyphen is not part of a numeral. -/
theorem not_takesIndex_of_hyphen (group other rest : String) (i : Nat) :
    ¬TakesIndex group (group ++ "-" ++ other ++ "-" ++ rest) i := by
  rintro ⟨-, numeral, hname, hnumeral⟩
  have htail : (other ++ "-" ++ rest).toList = numeral.toList := by
    have hlists := congrArg String.toList hname
    simp only [String.toList_append, List.append_assoc] at hlists ⊢
    exact List.append_cancel_left (List.append_cancel_left hlists)
  have hhyphen : '-' ∈ numeral.toList := by
    rw [← htail, String.toList_append, String.toList_append]
    simp
  rcases hnumeral.plus_or_digit hhyphen with h | h <;> exact absurd h (by decide)

/-- A name that takes no index may be left out. -/
private theorem nextNodeNames_filter_ne {group name : String} (h : ∀ i, ¬TakesIndex group name i)
    (existing : List String) (count : Nat) :
    nextNodeNames group (existing.filter (· ≠ name)) count = nextNodeNames group existing count := by
  have hnone : takenIndex? group name = none :=
    Option.eq_none_iff_forall_ne_some.2 fun i hi => h i (takenIndex?_eq_some_iff.1 hi)
  have hsame : (existing.filter (· ≠ name)).filterMap (takenIndex? group) = existing.filterMap (takenIndex? group) := by
    rw [List.filterMap_filter]
    refine congrArg (fun f => existing.filterMap f) (funext fun n => ?_)
    by_cases hn : n = name
    · rw [hn, hnone]
      simp
    · simp [hn]
  unfold nextNodeNames
  rw [hsame]

/-- New nodes get the lowest indices, from 1 on, that no existing name takes, and those of other groups, even if their
names begin with that of this group and a hyphen, take none. -/
theorem nextNodeNames_lowest (group : String) {existing : List String} {count : Nat}
    (hbound : count + existing.length < UInt32.size - 1) :
    (∃ indices, nextNodeNames group existing count = indices.map (nodeName group) ∧
      Numbers group existing count indices) ∧
    ∀ other rest : String, (∀ i, ¬TakesIndex group (group ++ "-" ++ other ++ "-" ++ rest) i) ∧
      nextNodeNames group (existing.filter (· ≠ group ++ "-" ++ other ++ "-" ++ rest)) count =
        nextNodeNames group existing count := by
  have hsize : count + existing.length < UInt32.size := by omega
  have htaken : (existing.filterMap (takenIndex? group)).length ≤ existing.length :=
    List.length_filterMap_le (takenIndex? group) existing
  refine ⟨⟨lowestFree (existing.filterMap (takenIndex? group)) 1 count, rfl, ?_⟩, fun other rest => ?_⟩
  · constructor
    case length_eq => exact length_lowestFree _ _ _
    case increasing => exact pairwise_lowestFree _ _ _
    case pos => exact fun n hn => (mem_lowestFree hn).1
    case lt_size =>
      intro n hn
      have hlt := (mem_lowestFree hn).2.1
      omega
    case fresh => exact fun n hn => nextNodeNames_fresh hsize (List.mem_map_of_mem hn)
    case free => exact fun n hn name hname htakes => (mem_lowestFree hn).2.2 (mem_taken_iff.2 ⟨name, hname, htakes⟩)
    case lowest => exact fun n hn i hpos hin hi => mem_taken_iff.1 (mem_taken_of_le hn hpos hin hi)
  · have hother := not_takesIndex_of_hyphen group other rest
    exact ⟨hother, nextNodeNames_filter_ne hother existing count⟩

/-- The index 3 is taken by a numeral with a sign and a zero, and the index 2 by no name. -/
theorem nextNodeNames_lowest_of_gap :
    3 + ["web-1", "web-+03", "webby-2", "web-x-2"].length < UInt32.size - 1 ∧
      nextNodeNames "web" ["web-1", "web-+03", "webby-2", "web-x-2"] 3 = ["web-2", "web-4", "web-5"] ∧
      ∃ indices, ["web-2", "web-4", "web-5"] = indices.map (nodeName "web") ∧
        Numbers "web" ["web-1", "web-+03", "webby-2", "web-x-2"] 3 indices := by
  have hbound : 3 + ["web-1", "web-+03", "webby-2", "web-x-2"].length < UInt32.size - 1 := by decide
  have hnames : nextNodeNames "web" ["web-1", "web-+03", "webby-2", "web-x-2"] 3 = ["web-2", "web-4", "web-5"] := by
    decide
  obtain ⟨⟨indices, hindices, hnumbers⟩, -⟩ := nextNodeNames_lowest "web" hbound
  exact ⟨hbound, hnames, indices, hnames ▸ hindices, hnumbers⟩

end Naming

end Fleet
