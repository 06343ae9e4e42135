import Fleet.Memory.Basic
import Fleet.Proofs.Text.Numerals
import Mathlib.Data.List.Induction

/-!
# Names of new nodes and links to resources

A launch chooses as many names as it was asked for, all of them different (`nodup_nextNodeNames`) and none of an
existing node, as long as the indices stay 32-bit numbers (`nextNodeNames_fresh`). An index is taken by the names that
end in a numeral for it (`takenIndex?_eq_some_iff`). The links that the platform gives to resources end in their names
(`name_selfLink`), so that links to resources of one kind tell them apart.
-/

namespace Fleet

namespace Naming

/-! ### Checks -/

theorem validateName_eq_ok_iff {name : String} : validateName name = .ok () ↔ isValidName name = true := by
  unfold validateName
  split
  · next h => simp [h]
  · next h => simp [h]

theorem validateGroup_eq_ok_iff {group : String} :
    validateGroup group = .ok () ↔ isValidName group = true ∧ group.utf8ByteSize + groupAllowance ≤ maxNameBytes := by
  unfold validateGroup validateName
  split
  · next h =>
    simp only [h, true_and, bind, Except.bind]
    split
    · next hlong =>
      simp only [reduceCtorEq, false_iff]
      omega
    · next hroom =>
      simp only [pure, Except.pure, true_iff]
      omega
  · next h => simp [h, bind, Except.bind]

/-! ### Characters -/

theorem slash_not_mem_of_valid {name : String} (h : isValidName name = true) : '/' ∉ name.toList := by
  simp only [isValidName, Bool.and_eq_true, List.all_eq_true] at h
  intro hs
  exact absurd (h.2 '/' hs) (by decide)

theorem slash_not_mem_of_group {group : String} (h : validateGroup group = .ok ()) : '/' ∉ group.toList :=
  slash_not_mem_of_valid (validateGroup_eq_ok_iff.1 h).1

theorem toList_toString (n : Nat) : (toString n).toList = Nat.toDigits 10 n := by
  rw [Nat.toString_eq_repr, Nat.toList_repr]

theorem not_mem_toString {c : Char} (hc : Text.isDecimalDigit c = false) (n : Nat) : c ∉ (toString n).toList := by
  rw [toList_toString]
  intro h
  exact absurd (Text.isDecimalDigit_of_mem_toDigits h) (by rw [hc]; decide)

theorem toString_inj {m n : Nat} (h : (toString m).toList = (toString n).toList) : m = n := by
  rw [toList_toString, toList_toString] at h
  rw [← Nat.ofDigitChars_ten_toDigits (n := m), h, Nat.ofDigitChars_ten_toDigits]

theorem toList_nodeName (group : String) (i : Nat) :
    (nodeName group i).toList = group.toList ++ '-' :: (toString i).toList := by
  rw [nodeName, String.toList_append, String.toList_append, List.append_assoc]
  rfl

theorem slash_not_mem_nodeName {group : String} (h : '/' ∉ group.toList) (i : Nat) :
    '/' ∉ (nodeName group i).toList := by
  rw [toList_nodeName, List.mem_append, List.mem_cons, not_or, not_or]
  exact ⟨h, by decide, not_mem_toString (by decide) i⟩

theorem slash_not_mem_bootDiskName {name : String} (h : '/' ∉ name.toList) : '/' ∉ (bootDiskName name).toList := by
  simp only [bootDiskName, String.toList_append, List.mem_append, not_or]
  exact ⟨h, by decide⟩

/-- Every port adds a hyphen and its digits to the name of a firewall. -/
theorem firewallName_concat (network : String) (ports : List Nat) (p : Nat) :
    firewallName network (ports ++ [p]) = firewallName network ports ++ "-" ++ toString p := by
  rw [firewallName, List.foldl_append]
  rfl

theorem toList_firewallName (network : String) (ports : List Nat) : (firewallName network ports).toList =
    network.toList ++ "-port".toList ++ ports.flatMap fun p => '-' :: (toString p).toList := by
  induction ports using List.reverseRecOn with
  | nil => rw [firewallName, List.foldl_nil, String.toList_append, List.flatMap_nil, List.append_nil]
  | append_singleton ports p ih =>
    rw [firewallName_concat, String.toList_append, String.toList_append, ih, List.flatMap_append,
      List.flatMap_singleton]
    simp only [List.append_assoc]
    rfl

theorem slash_not_mem_firewallName {network : String} (h : '/' ∉ network.toList) (ports : List Nat) :
    '/' ∉ (firewallName network ports).toList := by
  rw [toList_firewallName, List.mem_append, List.mem_append, List.mem_flatMap]
  rintro ((hs | hs) | ⟨p, -, hs⟩)
  · exact h hs
  · exact absurd hs (by decide)
  · rcases List.mem_cons.1 hs with hs | hs
    · exact absurd hs (by decide)
    · exact not_mem_toString (by decide) p hs

theorem bootDiskName_injective {a b : String} (h : bootDiskName a = bootDiskName b) : a = b := by
  have ht := congrArg String.toList h
  simp only [bootDiskName, String.toList_append] at ht
  exact String.toList_injective (List.append_cancel_right ht)

/-- A number has no hyphen, so the index of a node follows the last hyphen of its name. -/
theorem nodeName_inj {group group' : String} {i j : Nat} (h : nodeName group i = nodeName group' j) :
    group = group' ∧ i = j := by
  have hlists := congrArg String.toList h
  rw [toList_nodeName, toList_nodeName] at hlists
  obtain ⟨hgroup, hindex⟩ :=
    Text.eq_of_append_cons (not_mem_toString (by decide) i) (not_mem_toString (by decide) j) hlists
  exact ⟨String.toList_injective hgroup, toString_inj hindex⟩

/-! ### The choice of names -/

/-- The name is that of the group, a hyphen and a numeral for the index, which is a 32-bit number. -/
def TakesIndex (group name : String) (i : Nat) : Prop :=
  i < UInt32.size ∧ ∃ numeral : String, name = group ++ "-" ++ numeral ∧ Text.IsNumeral i numeral.toList

theorem takenIndex?_eq_some_iff {group name : String} {i : Nat} :
    takenIndex? group name = some i ↔ TakesIndex group name i := by
  simp only [takenIndex?, Option.bind_eq_some_iff, Text.dropStart?_eq_some_iff, Text.unsignedBelow?_eq_some_iff]
  constructor
  · rintro ⟨cs, hname, hi, hcs⟩
    refine ⟨hi, String.ofList cs, String.toList_injective ?_, by rwa [String.toList_ofList]⟩
    rw [String.toList_append, String.toList_ofList, hname]
  · rintro ⟨hi, numeral, rfl, hcs⟩
    exact ⟨numeral.toList, String.toList_append .., hi, hcs⟩

private theorem takesIndex_nodeName {group : String} {i : Nat} (hi : i < UInt32.size) :
    TakesIndex group (nodeName group i) i :=
  ⟨hi, toString i, rfl, [], 0, .inl rfl, toList_toString i⟩

theorem mem_lowestFree {taken : List Nat} {start count n : Nat} (h : n ∈ lowestFree taken start count) :
    start ≤ n ∧ n < start + count + taken.length ∧ n ∉ taken := by
  have hm := List.mem_of_mem_take h
  simp only [List.mem_filter, List.mem_range', Bool.not_eq_true', List.contains_eq_mem,
    decide_eq_false_iff_not] at hm
  obtain ⟨⟨i, hi, rfl⟩, hn⟩ := hm
  exact ⟨by omega, by omega, hn⟩

/-- The numbers that are not taken, as far as the choice looks. -/
private theorem pairwise_free (taken : List Nat) (start len : Nat) :
    ((List.range' start len).filter fun n => !taken.contains n).Pairwise (· < ·) :=
  (List.pairwise_lt_range' 1).filter _

theorem pairwise_lowestFree (taken : List Nat) (start count : Nat) :
    (lowestFree taken start count).Pairwise (· < ·) :=
  (pairwise_free taken start _).sublist (List.take_sublist _ _)

/-- What lies below a chosen number is chosen as well, or taken. -/
theorem mem_taken_of_le {taken : List Nat} {start count n i : Nat} (hn : n ∈ lowestFree taken start count)
    (hstart : start ≤ i) (hin : i ≤ n) (hi : i ∉ lowestFree taken start count) : i ∈ taken := by
  by_cases htaken : i ∈ taken
  · exact htaken
  obtain ⟨-, hlt, -⟩ := mem_lowestFree hn
  have hfree : i ∈ (List.range' start (count + taken.length)).filter fun n => !taken.contains n := by
    simp only [List.mem_filter, List.mem_range'_1, Bool.not_eq_true', List.contains_eq_mem, decide_eq_false_iff_not]
    exact ⟨⟨hstart, by omega⟩, htaken⟩
  have hsorted := pairwise_free taken start (count + taken.length)
  rw [← List.take_append_drop count ((List.range' start (count + taken.length)).filter fun n => !taken.contains n)]
    at hfree hsorted
  -- The numbers that are left over are greater than all that are chosen.
  rcases List.mem_append.1 hfree with hchosen | hleft
  · exact absurd hchosen hi
  · have hgt := (List.pairwise_append.1 hsorted).2.2 n hn i hleft
    omega

theorem length_lowestFree (taken : List Nat) (start count : Nat) : (lowestFree taken start count).length = count := by
  have hnodup : (List.range' start (count + taken.length)).Nodup := List.nodup_range' 1
  have hsplit := (List.filter_append_perm (fun n => taken.contains n)
    (List.range' start (count + taken.length))).length_eq
  have htaken : ((List.range' start (count + taken.length)).filter fun n => taken.contains n).length ≤
      taken.length := by
    refine List.Nodup.length_le_of_subset (hnodup.filter _) fun n hn => ?_
    simpa using (List.mem_filter.1 hn).2
  rw [List.length_append, List.length_range'] at hsplit
  unfold lowestFree
  rw [List.length_take]
  omega

/-- As many names are chosen as were asked for. -/
theorem length_nextNodeNames (group : String) (existing : List String) (count : Nat) :
    (nextNodeNames group existing count).length = count := by
  rw [nextNodeNames, List.length_map, length_lowestFree]

theorem nodup_nextNodeNames (group : String) (existing : List String) (count : Nat) :
    (nextNodeNames group existing count).Nodup := by
  unfold nextNodeNames
  refine List.Pairwise.map _ (fun _ _ hlt he => ?_) (pairwise_lowestFree _ _ _)
  exact Nat.ne_of_lt hlt (nodeName_inj he).2

/-- No name of an existing node is chosen, as long as the indices are 32-bit numbers. -/
theorem nextNodeNames_fresh {group : String} {existing : List String} {count : Nat}
    (hbound : count + existing.length < UInt32.size) {n : String} (h : n ∈ nextNodeNames group existing count) :
    n ∉ existing := by
  unfold nextNodeNames at h
  obtain ⟨i, hi, rfl⟩ := List.mem_map.1 h
  obtain ⟨-, hlt, hfree⟩ := mem_lowestFree hi
  have hlen := List.length_filterMap_le (takenIndex? group) existing
  intro hmem
  exact hfree (List.mem_filterMap.2 ⟨_, hmem, takenIndex?_eq_some_iff.2 (takesIndex_nodeName (by omega))⟩)

theorem slash_not_mem_nextNodeNames {group : String} (hg : '/' ∉ group.toList) {existing : List String} {count : Nat}
    {n : String} (h : n ∈ nextNodeNames group existing count) : '/' ∉ n.toList := by
  obtain ⟨i, -, rfl⟩ := List.mem_map.1 h
  exact slash_not_mem_nodeName hg i

/-- Names of other groups do not matter for the choice. -/
theorem nextNodeNames_filter (group : String) (existing : List String) (count : Nat) :
    nextNodeNames group (existing.filter fun n => (group ++ "-").toList.isPrefixOf n.toList) count =
      nextNodeNames group existing count := by
  have hsame : (existing.filter fun n => (group ++ "-").toList.isPrefixOf n.toList).filterMap (takenIndex? group) =
      existing.filterMap (takenIndex? group) := by
    rw [List.filterMap_filter]
    refine congrArg (fun f => existing.filterMap f) (funext fun n => ?_)
    split
    · rfl
    · next hp =>
      unfold takenIndex?
      cases hd : Text.dropStart? (group ++ "-").toList n.toList with
      | none => rfl
      | some rest =>
        rw [Text.dropStart?_eq_some_iff] at hd
        exact absurd (List.isPrefixOf_iff_prefix.2 ⟨rest, hd.symm⟩) hp
  unfold nextNodeNames
  rw [hsame]

end Naming

/-! ### Links -/

theorem Scope.zone_eq_of_path {z z' : String} (h : (Scope.zone z).path = (Scope.zone z').path) : z = z' := by
  have htext : "zones/" ++ z = "zones/" ++ z' := h
  simpa using htext

namespace Memory

theorem name_selfLink (m : Memory) (kind : Kind) (scope : Scope) {name : String} (h : '/' ∉ name.toList) :
    Link.name (m.selfLink kind scope name) = name :=
  Link.name_append _ _ h

theorem isPath_selfLink (m : Memory) (kind : Kind) (scope : Scope) (name : String) :
    Link.isPath (m.selfLink kind scope name) = true := by
  simp [Link.isPath, selfLink]

theorem selfLink_congr {m m' : Memory} (h : m.project = m'.project) (kind : Kind) (scope : Scope) (name : String) :
    m.selfLink kind scope name = m'.selfLink kind scope name := by
  rw [selfLink, selfLink, h]

/-- Links to resources of one kind are equal only when the resources have one name and one scope. -/
theorem selfLink_injective {m : Memory} {kind : Kind} {scope scope' : Scope} {name name' : String}
    (hn : '/' ∉ name.toList) (hn' : '/' ∉ name'.toList)
    (h : m.selfLink kind scope name = m.selfLink kind scope' name') :
    name = name' ∧ (resourceKey kind scope name).2.1.path = (resourceKey kind scope' name').2.1.path := by
  have hname : name = name' := by
    rw [← m.name_selfLink kind scope hn, h, m.name_selfLink kind scope' hn']
  refine ⟨hname, ?_⟩
  subst hname
  have ht := congrArg String.toList h
  simp only [selfLink, String.toList_append, List.append_assoc, List.append_cancel_left_eq] at ht
  have := List.append_cancel_right ht
  exact String.toList_injective this

end Memory

namespace Link

/-- Two links denote the same resource only when they are equal. -/
theorem sameResource_of_isPath {a b : String} (ha : isPath a = true) (hb : isPath b = true) :
    sameResource a b = true ↔ a = b := by
  simp [sameResource, ha, hb]

theorem sameResource_refl (a : String) : sameResource a a = true := by
  unfold sameResource
  split <;> simp

end Link

end Fleet
