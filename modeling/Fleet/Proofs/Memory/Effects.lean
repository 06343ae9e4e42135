import Fleet.Memory.Platform

/-!
# What effects do to the store

An effect that is refused leaves the store as it is (`apply_create`, `apply_delete` and `apply_setTags` tell the
cases apart). One that takes effect changes the store at its own key and, when an instance is deleted, at the keys
of the disks that go with it (`find?_removeWith`). No effect touches anything but the store, its journal and the
count of fingerprints (`apply_eq`).
-/

namespace Fleet

namespace Memory

/-- Every resource is stored under its own key. -/
def WellKeyed (m : Memory) : Prop := ∀ k r, m.resources.find? k = some r → r.key = k

theorem WellKeyed.kind_eq {m : Memory} (h : m.WellKeyed) {k : ResourceKey} {r : Resource}
    (hr : m.resources.find? k = some r) : r.kind = k.1 := by
  rw [← h k r hr]
  rfl

theorem WellKeyed.name_eq {m : Memory} (h : m.WellKeyed) {k : ResourceKey} {r : Resource}
    (hr : m.resources.find? k = some r) : r.name = k.2.2 := by
  rw [← h k r hr]
  rfl

/-- What is stored under the key of an instance is one, of this zone and name. -/
theorem WellKeyed.exists_instance {m : Memory} (h : m.WellKeyed) {zone name : String} {r : Resource}
    (hr : m.find? .instance (.zone zone) name = some r) : ∃ i, r = .instance i ∧ i.zone = zone ∧ i.name = name := by
  have hkey : r.key = resourceKey .instance (.zone zone) name := h _ r hr
  cases r with
  | «instance» i => exact ⟨i, rfl, Scope.zone.inj (congrArg (·.2.1) hkey), congrArg (·.2.2) hkey⟩
  | network n => exact absurd (congrArg (·.1) hkey) (by simp [Resource.key, Resource.kind, resourceKey])
  | firewall f => exact absurd (congrArg (·.1) hkey) (by simp [Resource.key, Resource.kind, resourceKey])
  | disk d => exact absurd (congrArg (·.1) hkey) (by simp [Resource.key, Resource.kind, resourceKey])

theorem WellKeyed.seed {m : Memory} (h : m.WellKeyed) (r : Resource) : (m.seed r).WellKeyed := by
  intro k s hs
  have hs : (m.resources.insert r.key r).find? k = some s := hs
  rw [OrderedMap.find?_insert] at hs
  split at hs
  · next hk =>
    cases hs
    exact hk.symm
  · exact h k s hs

theorem WellKeyed.seedNode {m : Memory} (h : m.WellKeyed) (zone name network group : String) :
    (m.seedNode zone name network group).2.WellKeyed := by
  unfold Memory.seedNode
  refine WellKeyed.seed (m := (Memory.seed _ (.disk _)).newFingerprint.2) ?_ _
  refine WellKeyed.seed (m := ite _ m _) ?_ _
  split
  · exact h
  · exact h.seed _

theorem wellKeyed_empty (project : String) : (Memory.empty project).WellKeyed := fun _ _ h => by cases h

/-! ### Keys -/

theorem diskKey_eq (zone link : String) : diskKey zone link = (.disk, .zone zone, Link.name link) := rfl

theorem networkKey_eq (link : String) : networkKey link = (.network, .global, Link.name link) := rfl

/-! ### Removing -/

private theorem removeAttached_cons (m : Memory) (zone : String) (d : AttachedDisk) (ds : List AttachedDisk) :
    m.removeAttached zone (d :: ds) =
      if d.autoDelete && m.resources.contains (diskKey zone d.source)
      then (m.remove (diskKey zone d.source)).removeAttached zone ds else m.removeAttached zone ds := by
  by_cases h : (d.autoDelete && m.resources.contains (diskKey zone d.source)) = true
  · rw [if_pos h, removeAttached, if_pos h]
  · rw [if_neg h, removeAttached, if_neg h]

theorem removeAttached_eq (m : Memory) (zone : String) (ds : List AttachedDisk) :
    m.removeAttached zone ds =
      { m with
        resources := (m.removeAttached zone ds).resources
        applied := (m.removeAttached zone ds).applied } := by
  induction ds generalizing m with
  | nil => rfl
  | cons d ds ih =>
    rw [removeAttached_cons]
    split
    · exact ih (m.remove (diskKey zone d.source))
    · exact ih m

theorem find?_remove (m : Memory) (k j : ResourceKey) :
    (m.remove k).resources.find? j = if j = k then none else m.resources.find? j := OrderedMap.find?_erase m.resources k j

theorem find?_removeAttached (m : Memory) (zone : String) (ds : List AttachedDisk) (k : ResourceKey) :
    (m.removeAttached zone ds).resources.find? k =
      if ds.any (fun d => d.autoDelete && diskKey zone d.source == k) then none else m.resources.find? k := by
  induction ds generalizing m with
  | nil => rfl
  | cons d ds ih =>
    rw [removeAttached_cons, List.any_cons]
    by_cases hds : ds.any (fun d => d.autoDelete && diskKey zone d.source == k) = true
    · split <;> rw [ih] <;> simp [hds]
    · -- This disk is the only one that may be stored under the key.
      by_cases hk : diskKey zone d.source = k
      · subst hk
        cases hd : d.autoDelete with
        | false => simp [ih, hds]
        | true =>
          cases hc : m.resources.contains (diskKey zone d.source) with
          | true => simp [ih, hds, find?_remove]
          | false => simpa [ih, hds] using OrderedMap.contains_eq_false_iff.1 hc
      · have hk' : k ≠ diskKey zone d.source := fun h => hk h.symm
        split <;> rw [ih] <;> simp [hds, hk, find?_remove, hk']

/-- The keys of the disks that are deleted together with a resource. -/
def takesAlong (r : Resource) (k : ResourceKey) : Bool :=
  match r with
  | .instance i => i.disks.any fun d => d.autoDelete && diskKey i.zone d.source == k
  | _ => false

theorem kind_of_takesAlong {r : Resource} {k : ResourceKey} (h : takesAlong r k = true) : k.1 = .disk := by
  unfold takesAlong at h
  split at h
  · simp only [List.any_eq_true, Bool.and_eq_true, beq_iff_eq] at h
    obtain ⟨d, -, -, rfl⟩ := h
    rfl
  · exact absurd h (by simp)

theorem find?_removeWith (m : Memory) (k : ResourceKey) (r : Resource) (j : ResourceKey) :
    ((m.remove k).removeWith r).resources.find? j =
      if j = k ∨ takesAlong r j = true then none else m.resources.find? j := by
  have hk := m.find?_remove k j
  cases r with
  | «instance» i =>
    show ((m.remove k).removeAttached i.zone i.disks).resources.find? j = _
    rw [find?_removeAttached, hk]
    by_cases ht : takesAlong (.instance i) j = true
    · simp [ht, show (i.disks.any fun d => d.autoDelete && diskKey i.zone d.source == j) = true from ht]
    · simp [ht, show ¬ (i.disks.any fun d => d.autoDelete && diskKey i.zone d.source == j) = true from ht]
  | network n => simpa [removeWith, takesAlong] using hk
  | firewall f => simpa [removeWith, takesAlong] using hk
  | disk d => simpa [removeWith, takesAlong] using hk

/-- Only instances take other resources along. -/
theorem find?_removeWith_of_ne (m : Memory) (k : ResourceKey) {r : Resource} (h : r.kind ≠ .instance)
    (j : ResourceKey) :
    ((m.remove k).removeWith r).resources.find? j = if j = k then none else m.resources.find? j := by
  have hnot : takesAlong r j = false := by
    cases r with
    | «instance» i => exact absurd rfl h
    | _ => rfl
  rw [find?_removeWith, hnot]
  simp

theorem WellKeyed.removeWith {m : Memory} (h : m.WellKeyed) (k : ResourceKey) (r : Resource) :
    ((m.remove k).removeWith r).WellKeyed := by
  intro j s hs
  rw [find?_removeWith] at hs
  split at hs
  · exact absurd hs (by simp)
  · exact h j s hs

private theorem applied_removeAttached (m : Memory) (zone : String) (ds : List AttachedDisk) :
    ∃ es, (m.removeAttached zone ds).applied = m.applied ++ es ∧ ∀ e ∈ es, ∃ kind name, e = .delete kind name := by
  induction ds generalizing m with
  | nil => exact ⟨[], (List.append_nil _).symm, by simp⟩
  | cons d ds ih =>
    rw [removeAttached_cons]
    split
    · obtain ⟨es, hes, hdel⟩ := ih (m.remove (diskKey zone d.source))
      refine ⟨_ :: es, by rw [hes]; exact List.append_assoc _ _ _, fun e he => ?_⟩
      rcases List.mem_cons.1 he with rfl | he
      · exact ⟨_, _, rfl⟩
      · exact hdel e he
    · exact ih m

/-- A deletion is entered in the journal, and so are those of the disks that go with it. -/
theorem applied_removeWith (m : Memory) (k : ResourceKey) (r : Resource) :
    ∃ es, ((m.remove k).removeWith r).applied = m.applied ++ es ∧ ∀ e ∈ es, ∃ kind name, e = .delete kind name := by
  have hone : ∃ es, (m.remove k).applied = m.applied ++ es ∧ ∀ e ∈ es, ∃ kind name, e = .delete kind name :=
    ⟨[.delete k.1 k.2.2], rfl, fun e he => ⟨_, _, List.mem_singleton.1 he⟩⟩
  cases r with
  | «instance» i =>
    obtain ⟨es, hes, hdel⟩ := applied_removeAttached (m.remove k) i.zone i.disks
    refine ⟨.delete k.1 k.2.2 :: es, by rw [removeWith, hes]; exact List.append_assoc _ _ _, fun e he => ?_⟩
    rcases List.mem_cons.1 he with rfl | he
    · exact ⟨_, _, rfl⟩
    · exact hdel e he
  | network n => exact hone
  | firewall f => exact hone
  | disk d => exact hone

/-! ### What is in use -/

theorem exists_of_user? {m : Memory} {r u : Resource} (h : m.user? r = some u) :
    (∃ k, m.resources.find? k = some u) ∧ uses u r = true :=
  ⟨OrderedMap.mem_values_iff.1 (List.mem_of_find?_eq_some h), List.find?_some (p := fun u => uses u r) h⟩

theorem not_uses_of_user? {m : Memory} {r u : Resource} {k : ResourceKey} (h : m.user? r = none)
    (hk : m.resources.find? k = some u) : uses u r = false := by
  have := List.find?_eq_none.1 h u (OrderedMap.mem_values_iff.2 ⟨k, hk⟩)
  simpa using this

/-- Only instances use disks. -/
theorem exists_instance_of_uses {u : Resource} {d : Disk} (h : uses u (.disk d) = true) : ∃ i, u = .instance i := by
  cases u with
  | «instance» i => exact ⟨i, rfl⟩
  | _ => simp [uses] at h

/-! ### The cases of an effect -/

theorem apply_create (m : Memory) (r : Resource) :
    ((∃ s, m.resources.find? r.key = some s) ∧ m.apply (.create r) = (.error (alreadyExists r), m)) ∨
    (m.resources.find? r.key = none ∧ ∃ k, m.missingReference? r = some k ∧
      m.apply (.create r) = (.error (notFound k), m)) ∨
    (m.resources.find? r.key = none ∧ m.missingReference? r = none ∧
      m.apply (.create r) = (.ok (), (m.log (.insert r.kind r.name)).seed r)) := by
  cases hc : m.resources.contains r.key with
  | true => exact .inl ⟨OrderedMap.contains_eq_true_iff.1 hc, by simp [apply, hc]⟩
  | false =>
    have hn := OrderedMap.contains_eq_false_iff.1 hc
    right
    cases hm : m.missingReference? r with
    | some k => exact .inl ⟨hn, k, rfl, by simp [apply, hc, hm]⟩
    | none => exact .inr ⟨hn, rfl, by simp [apply, hc, hm]⟩

theorem apply_delete (m : Memory) (k : ResourceKey) :
    (m.resources.find? k = none ∧ m.apply (.delete k) = (.error (notFound k), m)) ∨
    (∃ r u, m.resources.find? k = some r ∧ m.user? r = some u ∧ m.apply (.delete k) = (.error (inUse r u), m)) ∨
    (∃ r, m.resources.find? k = some r ∧ m.user? r = none ∧
      m.apply (.delete k) = (.ok (), (m.remove k).removeWith r)) := by
  cases hf : m.resources.find? k with
  | none => exact .inl ⟨rfl, by simp [apply, hf]⟩
  | some r =>
    right
    cases hu : m.user? r with
    | some u => exact .inl ⟨r, u, rfl, hu, by simp [apply, hf, hu]⟩
    | none => exact .inr ⟨r, rfl, hu, by simp [apply, hf, hu]⟩

/-- The store after the tags of an instance have been replaced. -/
def retag (m : Memory) (k : ResourceKey) (i : Instance) (items : List String) : Memory :=
  let changed : Instance := { i with tags := ⟨items, some m.newFingerprint.1⟩ }
  { m.newFingerprint.2 with resources := m.resources.insert k (.instance changed) }.log
    (.setTags k.2.2 items (some m.newFingerprint.1))

theorem apply_setTags (m : Memory) (k : ResourceKey) (items : List String) :
    (∃ i, m.resources.find? k = some (.instance i) ∧ m.apply (.setTags k items) = (.ok (), m.retag k i items)) ∨
    ((∀ i, m.resources.find? k ≠ some (.instance i)) ∧
      m.apply (.setTags k items) = (.error (notFound k), m.newFingerprint.2)) := by
  rcases hf : m.resources.find? k with _ | r
  · exact .inr ⟨by simp, by simp [apply, newFingerprint, hf]⟩
  · cases r with
    | «instance» i => exact .inl ⟨i, rfl, by simp [apply, newFingerprint, hf, retag]⟩
    | network n => exact .inr ⟨by simp, by simp [apply, newFingerprint, hf]⟩
    | firewall f => exact .inr ⟨by simp, by simp [apply, newFingerprint, hf]⟩
    | disk d => exact .inr ⟨by simp, by simp [apply, newFingerprint, hf]⟩

theorem removeWith_eq (m : Memory) (r : Resource) :
    m.removeWith r = { m with resources := (m.removeWith r).resources, applied := (m.removeWith r).applied } := by
  cases r with
  | «instance» i => exact removeAttached_eq m i.zone i.disks
  | network n => rfl
  | firewall f => rfl
  | disk d => rfl

/-- Effects change the store, its journal and the count of fingerprints only. -/
theorem apply_eq (m : Memory) (e : Effect) :
    (m.apply e).2 = { m with
      resources := (m.apply e).2.resources
      applied := (m.apply e).2.applied
      fingerprintCount := (m.apply e).2.fingerprintCount } := by
  cases e with
  | create r =>
    rcases m.apply_create r with ⟨-, h⟩ | ⟨-, k, -, h⟩ | ⟨-, -, h⟩
    · rw [h]
    · rw [h]
    · rw [h]
      rfl
  | delete k =>
    rcases m.apply_delete k with ⟨-, h⟩ | ⟨r, u, -, -, h⟩ | ⟨r, -, -, h⟩
    · rw [h]
    · rw [h]
    · rw [h, removeWith_eq]
      rfl
  | setTags k items =>
    rcases m.apply_setTags k items with ⟨i, -, h⟩ | ⟨-, h⟩ <;> rw [h] <;> rfl

@[simp] theorem project_apply (m : Memory) (e : Effect) : (m.apply e).2.project = m.project :=
  congrArg (·.project) (apply_eq m e)

@[simp] theorem pollsUntilDone_apply (m : Memory) (e : Effect) : (m.apply e).2.pollsUntilDone = m.pollsUntilDone :=
  congrArg (·.pollsUntilDone) (apply_eq m e)

@[simp] theorem operations_apply (m : Memory) (e : Effect) : (m.apply e).2.operations = m.operations :=
  congrArg (·.operations) (apply_eq m e)

@[simp] theorem operationCount_apply (m : Memory) (e : Effect) : (m.apply e).2.operationCount = m.operationCount :=
  congrArg (·.operationCount) (apply_eq m e)

@[simp] theorem scriptedFailures_apply (m : Memory) (e : Effect) :
    (m.apply e).2.scriptedFailures = m.scriptedFailures :=
  congrArg (·.scriptedFailures) (apply_eq m e)

@[simp] theorem lostInserts_apply (m : Memory) (e : Effect) : (m.apply e).2.lostInserts = m.lostInserts :=
  congrArg (·.lostInserts) (apply_eq m e)

@[simp] theorem tagConflicts_apply (m : Memory) (e : Effect) : (m.apply e).2.tagConflicts = m.tagConflicts :=
  congrArg (·.tagConflicts) (apply_eq m e)

@[simp] theorem failingFetches_apply (m : Memory) (e : Effect) : (m.apply e).2.failingFetches = m.failingFetches :=
  congrArg (·.failingFetches) (apply_eq m e)

end Memory

end Fleet
