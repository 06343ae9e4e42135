import Fleet.Group
import Fleet.Proofs.Names
import Mathlib.Algebra.GroupWithZero.Nat

/-!
# The validity of derived names

A valid name stays valid when a text is appended that may end a name (`IsTail`), as long as the whole is not too long
(`isValidName_append`). So the names that a launch derives from the name of a group are valid unless they are too long
(`launchNames_valid`), and this happens only to the firewall: a group is left enough room for the index and the boot
disk of its nodes, but not for what the name of the firewall has in front of the group's and after it.
-/

namespace Fleet

namespace Naming

/-- A text of name characters with which a name may end. -/
structure IsTail (s : String) : Prop where
  chars : ∀ c ∈ s.toList, isNameChar c = true
  last : ∃ c, s.toList.getLast? = some c ∧ c ≠ '-'

theorem IsTail.append {s t : String} (hs : ∀ c ∈ s.toList, isNameChar c = true) (ht : IsTail t) : IsTail (s ++ t) := by
  constructor
  · intro c hc
    rw [String.toList_append] at hc
    rcases List.mem_append.1 hc with hc | hc
    · exact hs c hc
    · exact ht.chars c hc
  · obtain ⟨c, hlast, hc⟩ := ht.last
    exact ⟨c, by rw [String.toList_append, List.getLast?_append, hlast, Option.some_or], hc⟩

/-- A valid name begins with a letter, is not too long, and is as a whole something with which a name may end. -/
theorem isValidName_iff {name : String} : isValidName name = true ↔
    (∃ c cs, name.toList = c :: cs ∧ isLower c = true) ∧ name.utf8ByteSize ≤ maxNameBytes ∧ IsTail name := by
  have hhead : name.toList.head?.any isLower = true ↔ ∃ c cs, name.toList = c :: cs ∧ isLower c = true := by
    cases name.toList <;> simp
  simp only [isValidName, Bool.and_eq_true, hhead, decide_eq_true_eq, bne_iff_ne, ne_eq, List.all_eq_true]
  constructor
  · rintro ⟨⟨⟨⟨c, cs, hname, hc⟩, hsize⟩, hlast⟩, hchars⟩
    refine ⟨⟨c, cs, hname, hc⟩, hsize, hchars, ?_⟩
    rw [hname] at hlast ⊢
    exact ⟨_, List.getLast?_cons, fun h => hlast (by rw [List.getLast?_cons, h])⟩
  · rintro ⟨hbegin, hsize, hchars, c, hlast, hc⟩
    exact ⟨⟨⟨hbegin, hsize⟩, fun h => hc (Option.some.inj (hlast.symm.trans h))⟩, hchars⟩

/-- A name to which a tail is appended stays valid unless it gets too long. -/
theorem isValidName_append {name tail : String} (hname : isValidName name = true) (htail : IsTail tail) :
    isValidName (name ++ tail) = true ↔ (name ++ tail).utf8ByteSize ≤ maxNameBytes := by
  obtain ⟨⟨c, cs, hcs, hc⟩, -, hwhole⟩ := isValidName_iff.1 hname
  rw [isValidName_iff]
  constructor
  · exact fun h => h.2.1
  · intro h
    exact ⟨⟨c, cs ++ tail.toList, by rw [String.toList_append, hcs, List.cons_append], hc⟩, h,
      htail.append hwhole.chars⟩

/-! ### Tails -/

private theorem isTail_toString (n : Nat) : IsTail (toString n) := by
  have hdigit {c : Char} (hc : c ∈ (toString n).toList) : Text.isDecimalDigit c = true :=
    Text.isDecimalDigit_of_mem_toDigits (toList_toString n ▸ hc)
  constructor
  · intro c hc
    simp [isNameChar, hdigit hc]
  · have hne : (toString n).toList ≠ [] := by
      rw [toList_toString]
      exact Nat.toDigits_ne_nil
    have hlast := List.getLast_mem hne
    exact ⟨_, List.getLast?_eq_some_getLast hne, fun h => absurd (hdigit (h ▸ hlast)) (by decide)⟩

private theorem isTail_hyphen {tail : String} (h : IsTail tail) : IsTail ("-" ++ tail) :=
  h.append (List.all_eq_true.1 (by decide))

/-! ### Names that are derived from a valid one -/

theorem isValidName_nodeName {group : String} (h : isValidName group = true) (n : Nat) :
    isValidName (nodeName group n) = true ↔ (nodeName group n).utf8ByteSize ≤ maxNameBytes := by
  rw [nodeName, String.append_assoc]
  exact isValidName_append h (isTail_hyphen (isTail_toString n))

theorem isValidName_bootDiskName {name : String} (h : isValidName name = true) :
    isValidName (bootDiskName name) = true ↔ (bootDiskName name).utf8ByteSize ≤ maxNameBytes :=
  isValidName_append h ⟨List.all_eq_true.1 (by decide), 't', by decide, by decide⟩

theorem isValidName_groupNetworkName {stem group : String} (hstem : isValidName stem = true)
    (hgroup : isValidName group = true) :
    isValidName (groupNetworkName stem group) = true ↔ (groupNetworkName stem group).utf8ByteSize ≤ maxNameBytes := by
  rw [groupNetworkName, String.append_assoc]
  exact isValidName_append hstem (isTail_hyphen (isValidName_iff.1 hgroup).2.2)

theorem isValidName_firewallName {network : String} (h : isValidName network = true) (ports : List Nat) :
    isValidName (firewallName network ports) = true ↔ (firewallName network ports).utf8ByteSize ≤ maxNameBytes := by
  have htail : ∃ tail, firewallName network ports = network ++ tail ∧ IsTail tail := by
    induction ports using List.reverseRecOn with
    | nil => exact ⟨"-port", rfl, List.all_eq_true.1 (by decide), 't', by decide, by decide⟩
    | append_singleton ports p ih =>
      obtain ⟨tail, hname, htail⟩ := ih
      refine ⟨tail ++ ("-" ++ toString p), ?_, (isTail_hyphen (isTail_toString p)).append htail.chars⟩
      rw [firewallName_concat, hname, String.append_assoc, String.append_assoc]
  obtain ⟨tail, hname, htail⟩ := htail
  rw [hname]
  exact isValidName_append h htail

theorem utf8ByteSize_nodeName (group : String) (n : Nat) :
    (nodeName group n).utf8ByteSize = group.utf8ByteSize + 1 + (toString n).utf8ByteSize := by
  rw [nodeName, String.utf8ByteSize_append, String.utf8ByteSize_append]
  rfl

theorem utf8ByteSize_bootDiskName (name : String) : (bootDiskName name).utf8ByteSize = name.utf8ByteSize + 5 :=
  String.utf8ByteSize_append

theorem utf8ByteSize_groupNetworkName (stem group : String) :
    (groupNetworkName stem group).utf8ByteSize = stem.utf8ByteSize + 1 + group.utf8ByteSize := by
  rw [groupNetworkName, String.utf8ByteSize_append, String.utf8ByteSize_append]
  rfl

theorem utf8ByteSize_firewallName (network : String) (ports : List Nat) :
    (firewallName network ports).utf8ByteSize =
      network.utf8ByteSize + 5 + (ports.map fun p => 1 + (toString p).utf8ByteSize).sum := by
  induction ports using List.reverseRecOn with
  | nil => exact String.utf8ByteSize_append
  | append_singleton ports p ih =>
    have hhyphen : "-".utf8ByteSize = 1 := rfl
    rw [firewallName_concat, String.utf8ByteSize_append, String.utf8ByteSize_append, ih, hhyphen, List.map_append,
      List.sum_append, List.map_singleton, List.sum_singleton]
    omega

/-! ### The names of a launch -/

/-- A launch with the usual settings derives valid names from the name of every accepted group for its network and for
up to 9999 nodes and their boot disks; for its firewall it does when the name of the group has at most 47 bytes. -/
theorem launchNames_valid (c : Client) (zone machineType image : String) {group : String} {n : Nat}
    (hgroup : validateGroup group = .ok ()) (hn : n ≤ 9999) :
    let t := NodeTemplate.plain zone machineType image
    let s := NodeSpec.ofTemplate (nodeName group n) group ((Manager.ofClient c).networkFor group t) t
    validateName s.name = .ok () ∧ validateName s.bootDiskName = .ok () ∧ validateName s.network = .ok () ∧
      (validateName s.firewallName = .ok () ↔ group.utf8ByteSize ≤ 47) := by
  obtain ⟨hvalid, hroom⟩ := validateGroup_eq_ok_iff.1 hgroup
  have hindex : (toString n).utf8ByteSize ≤ 4 := Text.utf8ByteSize_toString_le (by decide) (by omega)
  simp only [groupAllowance, maxNameBytes] at hroom
  have hnode : isValidName (nodeName group n) = true := by
    rw [isValidName_nodeName hvalid, utf8ByteSize_nodeName, maxNameBytes]
    omega
  have hdisk : isValidName (bootDiskName (nodeName group n)) = true := by
    rw [isValidName_bootDiskName hnode, utf8ByteSize_bootDiskName, utf8ByteSize_nodeName, maxNameBytes]
    omega
  have hnetworkSize : (groupNetworkName "gceflow" group).utf8ByteSize = 8 + group.utf8ByteSize :=
    utf8ByteSize_groupNetworkName "gceflow" group
  have hnetwork : isValidName (groupNetworkName "gceflow" group) = true := by
    rw [isValidName_groupNetworkName (by decide) hvalid, hnetworkSize, maxNameBytes]
    omega
  have hportSize : ([22].map fun p => 1 + (toString p).utf8ByteSize).sum = 3 := by decide
  have hfirewall : isValidName (firewallName (groupNetworkName "gceflow" group) [22]) = true ↔
      group.utf8ByteSize ≤ 47 := by
    rw [isValidName_firewallName hnetwork, utf8ByteSize_firewallName, hnetworkSize, hportSize, maxNameBytes]
    omega
  simp only [validateName_eq_ok_iff]
  exact ⟨hnode, hdisk, hnetwork, hfirewall⟩

/-- The longest name that a group may have leaves just enough room for the boot disk of the node 9999. -/
theorem launchNames_valid_of_longest :
    let group := "abcdefghijklmnopqrstuvwxyz-abcdefghijklmnopqrstuvwxyz"
    let t := NodeTemplate.plain "zone-a" "f1-micro" "debian"
    let s := NodeSpec.ofTemplate (nodeName group 9999) group ((Manager.ofClient .standard).networkFor group t) t
    validateGroup group = .ok () ∧ 9999 ≤ 9999 ∧ validateName s.name = .ok () ∧ validateName s.bootDiskName = .ok () ∧
      validateName s.network = .ok () ∧ (validateName s.firewallName = .ok () ↔ group.utf8ByteSize ≤ 47) :=
  have hgroup : validateGroup "abcdefghijklmnopqrstuvwxyz-abcdefghijklmnopqrstuvwxyz" = .ok () := by rfl
  ⟨hgroup, Nat.le_refl _, launchNames_valid .standard "zone-a" "f1-micro" "debian" hgroup (Nat.le_refl _)⟩

/-- The name of a group with 48 bytes is accepted, but the name of its firewall is too long. -/
theorem firewallName_too_long :
    let group := "abcdefghijklmnopqrstuvwxyz-abcdefghijklmnopqrstu"
    let t := NodeTemplate.plain "zone-a" "f1-micro" "debian"
    let s := NodeSpec.ofTemplate (nodeName group 1) group ((Manager.ofClient .standard).networkFor group t) t
    validateGroup group = .ok () ∧ validateName s.firewallName ≠ .ok () := by
  refine ⟨by rfl, fun h => ?_⟩
  exact absurd (validateName_eq_ok_iff.1 h) (by decide)

end Naming

end Fleet
