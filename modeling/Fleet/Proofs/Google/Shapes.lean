import Fleet.Google.Platform
import Fleet.Proofs.Json.RoundTrip

/-!
# Requests and responses have the same form

The API reports a resource in the form in which it was asked for, with some members of its own (`Google.reported`). What
is written for a request is read as the resource that was asked for, and what is written for tags as the same tags.
Writers and readers have their lists of members separately, so each pair of them is compared here, from the rules and
interfaces up to the resources; and because all that is written is plain (`Json.Plain`), nothing is lost on its way as a
text either.
-/

namespace Fleet

/-! ### Reading records that were written as objects -/

namespace Json

theorem mapM_object (ms : List (String × Json)) :
    ((ms.map fun m => (some m.1, m.2)).mapM fun m : Option String × Json => m.1.map fun k => (k, m.2)) = some ms := by
  induction ms with
  | nil => rfl
  | cons m ms ih => simp [List.mapM_cons, ih]

/-- The members that a record does not know of do not hide those that it knows. -/
theorem lookup_filter {names : List String} {name : String} (hname : names.contains name = true)
    (ms : List (String × Json)) : (ms.filter fun m => names.contains m.1).lookup name = ms.lookup name := by
  induction ms with
  | nil => rfl
  | cons m ms ih =>
    obtain ⟨k, j⟩ := m
    by_cases hk : names.contains k = true
    · rw [List.filter_cons_of_pos (by exact hk), List.lookup_cons, List.lookup_cons, ih]
    · have hne : (name == k) = false := by
        rw [beq_eq_false_iff_ne]
        rintro rfl
        exact hk hname
      rw [List.filter_cons_of_neg (by exact hk), List.lookup_cons, hne, ih]

/-- The fields of a record that are among the members of an object. -/
def fields (names : List String) (ms : List (String × Json)) : Record := ⟨false, ms.filter fun m => names.contains m.1⟩

@[simp] theorem append_object (ms ms' : List (String × Json)) :
    (object ms).append (object ms') = object (ms ++ ms') := by simp [object, append, members]

/-- An object is read as a record when the names of its members differ. -/
theorem record?_object (names : List String) {ms : List (String × Json)} (h : (ms.map (·.1)).Nodup) :
    record? names (object ms) = some (fields names ms) := by
  have hdiffer {ss : List String} (hss : ss.Nodup) : hasRepeat ss = false := by
    induction ss with
    | nil => rfl
    | cons s ss ih =>
      obtain ⟨hs, hss⟩ := List.nodup_cons.1 hss
      simp [hasRepeat, ih hss, hs]
  have hknown : ((ms.filter fun m => names.contains m.1).map (·.1)).Nodup := (List.filter_sublist.map _).nodup h
  simp only [record?, object, mapM_object, hdiffer hknown, Bool.false_eq_true, if_false, fields]

section Fields

variable {α : Type} {names : List String} {name : String} (ms : List (String × Json)) (read : Json → Option α)

@[simp] theorem required_fields (hname : names.contains name = true) :
    (fields names ms).required name read = (ms.lookup name).bind read := by
  rw [Record.required, fields, lookup_filter hname]

@[simp] theorem optional_fields (hname : names.contains name = true) :
    (fields names ms).optional name read =
      match ms.lookup name with
      | none => some none
      | some null => some none
      | some j => (read j).map some := by
  rw [Record.optional, fields, lookup_filter hname]
  rfl

@[simp] theorem defaulted_fields (hname : names.contains name = true) (dflt : α) :
    (fields names ms).defaulted name dflt read = ((ms.lookup name).map read).getD (some dflt) := by
  rw [Record.defaulted, fields, lookup_filter hname]
  cases ms.lookup name <;> rfl

end Fields

@[simp] theorem asText_str (s : String) : asText (str s) = some s := rfl

@[simp] theorem asBool_bool (b : Bool) : asBool (bool b) = some b := rfl

theorem asList_array {α : Type} {read : Json → Option α} {write : α → Json} (h : ∀ a, read (write a) = some a)
    (as : List α) : asList read (array write as) = some as := by
  show (as.map write).mapM read = some as
  induction as with
  | nil => rfl
  | cons a as ih => simp [List.mapM_cons, h, ih]

@[simp] theorem asList_texts (ss : List String) : asList asText (texts ss) = some ss :=
  asList_array asText_str ss

end Json

namespace Google

open Json (record?_object asList_array)

theorem rule?_rulePayload (r : FirewallRule) : rule? (rulePayload r) = some r := by
  obtain ⟨protocol, ports⟩ := r
  cases ports <;> simp [rule?, rulePayload, record?_object, List.lookup_cons]

theorem network?_networkPayload (n : NetworkSpec) (link : String) :
    network? ((networkPayload n).append (.object [("selfLink", .str link)])) =
      some ⟨n.name, link, some n.ipv4Range, none, n.description⟩ := by
  obtain ⟨name, range, description⟩ := n
  cases description <;> simp [network?, networkPayload, record?_object, present, List.lookup_cons]

theorem firewall?_firewallPayload (f : FirewallSpec) (link : String) :
    firewall? ((firewallPayload f).append (.object [("selfLink", .str link)])) =
      some ⟨f.name, link, f.network, f.sourceRanges, f.sourceTags, f.targetTags, f.allowed⟩ := by
  simp [firewall?, firewallPayload, record?_object, List.lookup_cons, asList_array rule?_rulePayload]

theorem size?_nat {n : Nat} (h : n < Text.limit32) : size? (.nat n) = some n := by
  simp [size?, Json.nat, Json.asNatBelow, Numeral.natBelow?, Numeral.ofNat, h]

theorem disk?_diskPayload (d : DiskSpec) (hsize : d.sizeGb < Text.limit32) (link zone : String) :
    disk? ((diskPayload d).append (.object [("selfLink", .str link), ("zone", .str zone)])) =
      some ⟨d.name, link, Link.name zone, d.sizeGb, some d.sourceImage, none⟩ := by
  simp [disk?, diskPayload, record?_object, List.lookup_cons, size?_nat hsize]

/-! ### Instances -/

theorem networkInterface?_interfacePayload (network : String) (externalIp : Bool) :
    networkInterface? (interfacePayload network externalIp) = some ⟨network, none, none⟩ := by
  have hconfig : accessConfig? (.object [("type", .str "ONE_TO_ONE_NAT")]) = some none := by
    simp [accessConfig?, record?_object, List.lookup_cons]
  cases externalIp <;>
    simp [networkInterface?, interfacePayload, record?_object, List.lookup_cons, Json.asList, hconfig]

theorem attachedDisk?_bootDiskPayload (source : String) :
    attachedDisk? (bootDiskPayload source) = some ⟨source, true, true⟩ := by
  simp [attachedDisk?, bootDiskPayload, record?_object, List.lookup_cons]

theorem metadata?_metadataPayload (m : Metadata) : metadata? (metadataPayload m) = some m := by
  have hitem (e : String × String) :
      metadataItem? (.object [("key", .str e.1), ("value", .str e.2)]) = some e := by
    simp [metadataItem?, record?_object, List.lookup_cons]
  simp [metadata?, metadataPayload, record?_object, List.lookup_cons, asList_array hitem, OrderedMap.ofList_entries]

theorem instance?_instancePayload (i : InstanceSpec) (link zone status : String) :
    instance? ((instancePayload i).append
        (.object [("selfLink", .str link), ("zone", .str zone), ("status", .str status)])) =
      some ⟨i.name, link, Link.name zone, i.machineType, .ofText status, ⟨[], none⟩, [⟨i.network, none, none⟩],
        [⟨i.bootDisk, true, true⟩], i.metadata⟩ := by
  simp [instance?, instancePayload, record?_object, List.lookup_cons, Json.asList, networkInterface?_interfacePayload,
    attachedDisk?_bootDiskPayload, metadata?_metadataPayload]

/-! ### Tags -/

theorem tags?_tagsPayload (t : Tags) : tags? (tagsPayload t) = some t := by
  obtain ⟨items, fingerprint⟩ := t
  cases fingerprint <;> simp [tags?, tagsPayload, record?_object, present, List.lookup_cons]

/-! ### Texts -/

section Plain

open Json (Plain)

variable {depth : Nat}

theorem plain_array {α : Type} {write : α → Json} (h : ∀ a, Plain (depth + 1) (write a)) (as : List α) :
    Plain (depth + 2) (.array write as) := .arr (List.forall_mem_map.2 fun a _ => h a)

theorem plain_texts (ss : List String) : Plain (depth + 2) (.texts ss) := plain_array .str ss

theorem plain_nat {n : Nat} (h : n < Text.limit32) : Plain depth (.nat n) := by
  have hdigits : n < 10 ^ 10 := Nat.lt_trans h (by decide)
  exact .num rfl rfl (Numeral.isFinite_ofNat hdigits (by decide) (by decide))

theorem plain_rulePayload (r : FirewallRule) : Plain (depth + 3) (rulePayload r) := by
  obtain ⟨protocol, ports⟩ := r
  cases ports <;> exact .object (by simp) (by simp [Plain.str, plain_texts])

theorem plain_bootDiskPayload (source : String) : Plain (depth + 2) (bootDiskPayload source) :=
  .object (by simp) (by simp [Plain.str, Plain.bool])

theorem plain_interfacePayload (network : String) (externalIp : Bool) :
    Plain (depth + 4) (interfacePayload network externalIp) := by
  have hconfig : Plain (depth + 2) (.object [("type", .str "ONE_TO_ONE_NAT")]) :=
    .object (by simp) (by simp [Plain.str])
  have hconfigs : Plain (depth + 3) (.arr (if externalIp then [.object [("type", .str "ONE_TO_ONE_NAT")]] else [])) :=
    .arr (by cases externalIp <;> simp [hconfig])
  exact .object (by simp) (by simp [Plain.str, hconfigs])

theorem plain_metadataPayload (m : Metadata) : Plain (depth + 4) (metadataPayload m) := by
  have hitem (e : String × String) : Plain (depth + 2) (.object [("key", .str e.1), ("value", .str e.2)]) :=
    .object (by simp) (by simp [Plain.str])
  exact .object (by simp) (by simp [Plain.str, plain_array hitem])

theorem plain_tagsPayload (t : Tags) : Plain (depth + 3) (tagsPayload t) := by
  obtain ⟨items, fingerprint⟩ := t
  cases fingerprint <;> exact .object (by simp [present]) (by simp [present, Plain.str, plain_texts])

end Plain

/-! ### Resources -/

/-- The form in which the API reports what was asked for: under an address of its own, in a zone and with a status where
the kind has them. -/
def reported (spec : ResourceSpec) (link zone status : String) : Json :=
  (payload spec).append <| .object <|
    match spec with
    | .network _ => [("selfLink", .str link)]
    | .firewall _ => [("selfLink", .str link)]
    | .disk _ => [("selfLink", .str link), ("zone", .str zone)]
    | .instance _ => [("selfLink", .str link), ("zone", .str zone), ("status", .str status)]

/-- The resource that was asked for. -/
def asReported (spec : ResourceSpec) (link zone status : String) : Resource :=
  match spec with
  | .network n => .network ⟨n.name, link, some n.ipv4Range, none, n.description⟩
  | .firewall f => .firewall ⟨f.name, link, f.network, f.sourceRanges, f.sourceTags, f.targetTags, f.allowed⟩
  | .disk d => .disk ⟨d.name, link, Link.name zone, d.sizeGb, some d.sourceImage, none⟩
  | .instance i => .instance {
      name := i.name
      selfLink := link
      zone := Link.name zone
      machineType := i.machineType
      status := .ofText status
      tags := ⟨[], none⟩
      networkInterfaces := [⟨i.network, none, none⟩]
      disks := [⟨i.bootDisk, true, true⟩]
      metadata := i.metadata }

theorem plain_reported (spec : ResourceSpec) (hsize : ∀ d, spec = .disk d → d.sizeGb < Text.limit32)
    (link zone status : String) : Json.Plain Json.depthLimit (reported spec link zone status) := by
  cases spec with
  | network n =>
    obtain ⟨name, range, description⟩ := n
    simp only [reported, payload, networkPayload, Json.append_object]
    cases description <;> exact .object (by simp [present]) (by simp [present, Json.Plain.str])
  | firewall f =>
    simp only [reported, payload, firewallPayload, Json.append_object]
    exact .object (by simp) (by simp [Json.Plain.str, plain_texts, plain_array plain_rulePayload])
  | disk d =>
    simp only [reported, payload, diskPayload, Json.append_object]
    exact .object (by simp) (by simp [Json.Plain.str, plain_nat (hsize d rfl)])
  | «instance» i =>
    simp only [reported, payload, instancePayload, Json.append_object]
    have hdisks : Json.Plain 127 (.arr [bootDiskPayload i.bootDisk]) := .arr (by simp [plain_bootDiskPayload])
    have hinterfaces : Json.Plain 127 (.arr [interfacePayload i.network i.externalIp]) :=
      .arr (by simp [plain_interfacePayload])
    exact .object (by simp) (by simp [Json.Plain.str, hdisks, hinterfaces, plain_metadataPayload, Json.Plain.arr])

/-- Requests and responses have the same form. A resource that the API reports as it was asked for arrives as it was
sent, and is read as the resource that was asked for; and what is written for tags is read as these tags. -/
theorem resource?_reported (spec : ResourceSpec) (hsize : ∀ d, spec = .disk d → d.sizeGb < Text.limit32)
    (link zone status : String) :
    resource? spec.kind (reported spec link zone status) = some (asReported spec link zone status) ∧
      Api.received (Json.asSound Json.depthLimit) ⟨200, (reported spec link zone status).compact⟩ =
        .ok (reported spec link zone status) ∧
      ∀ t : Tags, tags? (tagsPayload t) = some t ∧
        Json.parseSound? (tagsPayload t).compact = some (tagsPayload t) := by
  refine ⟨?_, ?_, fun t => ⟨tags?_tagsPayload t, Json.parseSound?_compact (plain_tagsPayload t)⟩⟩
  · cases spec with
    | network n => exact congrArg (Option.map _) (network?_networkPayload n link)
    | firewall f => exact congrArg (Option.map _) (firewall?_firewallPayload f link)
    | disk d => exact congrArg (Option.map _) (disk?_diskPayload d (hsize d rfl) link zone)
    | «instance» i => exact congrArg (Option.map _) (instance?_instancePayload i link zone status)
  · have hread : (Json.parse? (reported spec link zone status).compact).bind (Json.asSound Json.depthLimit) = some _ :=
      Json.parseSound?_compact (plain_reported spec hsize link zone status)
    simp [Api.received, Http.Response.isSuccess, hread]

theorem resource?_reported_disk :
    (∀ d, ResourceSpec.disk ⟨"test-1-boot", 10, "debian-7-wheezy"⟩ = .disk d → d.sizeGb < Text.limit32) ∧
      resource? .disk (.object [("name", .str "test-1-boot"), ("sizeGb", .nat 10),
          ("sourceImage", .str "debian-7-wheezy"), ("selfLink", .str "disks/test-1-boot"),
          ("zone", .str "zones/us-central1-a")]) =
        some (.disk ⟨"test-1-boot", "disks/test-1-boot", "us-central1-a", 10, some "debian-7-wheezy", none⟩) := by
  have hsize (d : DiskSpec) (hd : ResourceSpec.disk ⟨"test-1-boot", 10, "debian-7-wheezy"⟩ = .disk d) :
      d.sizeGb < Text.limit32 := by
    cases hd
    decide
  have hzone : Link.name "zones/us-central1-a" = "us-central1-a" := by decide
  refine ⟨hsize, ?_⟩
  rw [← hzone]
  exact (resource?_reported _ hsize "disks/test-1-boot" "zones/us-central1-a" "READY").1

end Google

end Fleet
