import Fleet.Proofs.Names

/-!
# Derived names tell apart what they are derived from

The names of nodes, boot disks, firewalls and networks are put together with hyphens, which may also stand in the
names that they are made from. Yet none of them comes about in two ways (`derivedNames_injective`): a number has no
hyphen, so what follows the last hyphen of a node's name is its index, and the last segment `port` in the name of a
firewall is the one in front of its ports.
-/

namespace Fleet

namespace Naming

theorem groupNetworkName_inj {stem group group' : String}
    (h : groupNetworkName stem group = groupNetworkName stem group') : group = group' := by
  have hlists := congrArg String.toList h
  simp only [groupNetworkName, String.toList_append] at hlists
  exact String.toList_injective (List.append_cancel_left hlists)

private theorem segments_hyphenated (cs : List Char) {ps : List (List Char)} (h : ∀ p ∈ ps, '-' ∉ p) :
    Text.segments '-' (cs ++ ps.flatMap fun p => '-' :: p) = Text.segments '-' cs ++ ps := by
  induction ps generalizing cs with
  | nil => simp
  | cons p ps ih =>
    obtain ⟨hp, hps⟩ := List.forall_mem_cons.1 h
    rw [List.flatMap_cons, ← List.append_assoc, ih _ hps, Text.segments_append_cons, Text.segments_of_not_mem hp,
      List.append_assoc, List.singleton_append]

/-- The segments of the name of a firewall are those of the network's name, the word `port` and the ports. -/
private theorem segments_firewallName (network : String) (ports : List Nat) :
    Text.segments '-' (firewallName network ports).toList =
      Text.segments '-' network.toList ++ "port".toList :: ports.map fun p => (toString p).toList := by
  have hlists : (firewallName network ports).toList = network.toList ++
      ("port".toList :: ports.map fun p => (toString p).toList).flatMap fun p => '-' :: p := by
    rw [toList_firewallName, List.flatMap_cons, List.flatMap_map, List.append_assoc]
    rfl
  have hhyphen : ∀ p ∈ "port".toList :: ports.map fun p => (toString p).toList, '-' ∉ p := by
    refine List.forall_mem_cons.2 ⟨by decide, fun p hp => ?_⟩
    obtain ⟨n, -, rfl⟩ := List.mem_map.1 hp
    exact not_mem_toString (by decide) n
  rw [hlists, segments_hyphenated _ hhyphen]

theorem firewallName_inj {network network' : String} {ports ports' : List Nat}
    (h : firewallName network ports = firewallName network' ports') : network = network' ∧ ports = ports' := by
  have hport (ports : List Nat) : "port".toList ∉ ports.map fun p => (toString p).toList := by
    intro hp
    obtain ⟨n, -, hn⟩ := List.mem_map.1 hp
    have hletter : 'p' ∈ (toString n).toList := by
      rw [hn]
      decide
    exact not_mem_toString (by decide) n hletter
  have hsegments := congrArg (fun name => Text.segments '-' name.toList) h
  simp only [segments_firewallName] at hsegments
  obtain ⟨hnetwork, hports⟩ := Text.eq_of_append_cons (hport ports) (hport ports') hsegments
  exact ⟨String.toList_injective (Text.segments_inj hnetwork),
    (List.map_inj_right fun _ _ => toString_inj).1 hports⟩

/-- The name of a firewall tells its network and its ports, that of a node its group and its index, that of a boot disk
its node, and that of a group's network the group. -/
theorem derivedNames_injective :
    Function.Injective (fun x : String × List Nat => firewallName x.1 x.2) ∧
      Function.Injective (fun x : String × Nat => nodeName x.1 x.2) ∧ Function.Injective bootDiskName ∧
      ∀ stem, Function.Injective (groupNetworkName stem) := by
  refine ⟨fun x y h => ?_, fun x y h => ?_, fun _ _ => bootDiskName_injective, fun _ _ _ => groupNetworkName_inj⟩
  · obtain ⟨hnetwork, hports⟩ := firewallName_inj h
    exact Prod.ext hnetwork hports
  · obtain ⟨hgroup, hindex⟩ := nodeName_inj h
    exact Prod.ext hgroup hindex

/-- A network whose name ends like the name of a firewall has firewalls of its own. -/
example : firewallName "net-port-22" [] ≠ firewallName "net" [22] ∧
    firewallName "net-port-22" [80] ≠ firewallName "net" [22, 80] := by decide

end Naming

end Fleet
