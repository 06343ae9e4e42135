import Fleet.Proofs.Memory.History

/-!
# The journal accounts for the store

What is inserted and what is deleted is entered in the journal, so the journal tells how many resources of a kind and a
name are stored: as many as have been inserted and not been deleted (`Accounted`). Resources that are put into the store
from outside are in no journal; a history without them (`Event.IsSeed`) keeps the account, whatever is called and
whatever goes wrong (`Accounted.after`).
-/

namespace Fleet

namespace Memory

/-- A resource is put into the store from outside. -/
def Event.IsSeed : Event → Prop
  | .seed _ => True
  | .seedNode _ _ _ _ => True
  | _ => False

/-- How many resources of a kind and a name are stored, over all scopes. -/
def stored (m : Memory) (kind : Kind) (name : String) : Nat :=
  m.resources.values.countP fun r => decide (r.kind = kind ∧ r.name = name)

/-- Resources are stored under their own keys, and have been inserted once more than deleted. -/
structure Accounted (m : Memory) : Prop where
  keyed : m.WellKeyed
  balance : ∀ kind name,
    m.applied.count (.insert kind name) = m.applied.count (.delete kind name) + m.stored kind name

variable {m m' : Memory} {k : ResourceKey} {r : Resource} {kind : Kind} {name : String}

/-! ### What is stored -/

/-- A resource under a free key counts for its own kind and name. -/
private theorem stored_seed (hk : m.resources.find? r.key = none) :
    (m.seed r).stored kind name = m.stored kind name + if r.kind = kind ∧ r.name = name then 1 else 0 := by
  have hcount := OrderedMap.countP_values_insert m.resources r.key r
    fun r => decide (r.kind = kind ∧ r.name = name)
  rw [OrderedMap.erase_of_find?_none hk] at hcount
  simpa [stored, seed] using hcount

private theorem stored_remove (hr : m.resources.find? k = some r) :
    m.stored kind name = (m.remove k).stored kind name + if r.kind = kind ∧ r.name = name then 1 else 0 := by
  have hcount := OrderedMap.countP_values_of_find? hr fun r => decide (r.kind = kind ∧ r.name = name)
  simpa [stored, remove, log] using hcount

/-- A resource that takes the place of one of its kind and name changes no number. -/
private theorem stored_replace {s : Resource} (hr : m.resources.find? k = some r) (hkind : s.kind = r.kind)
    (hname : s.name = r.name) (hres : m'.resources = m.resources.insert k s) :
    m'.stored kind name = m.stored kind name := by
  have hbefore := OrderedMap.countP_values_of_find? hr fun r => decide (r.kind = kind ∧ r.name = name)
  have hafter := OrderedMap.countP_values_insert m.resources k s fun r => decide (r.kind = kind ∧ r.name = name)
  rw [hkind, hname] at hafter
  rw [stored, stored, hres, hafter, hbefore]

/-! ### Steps -/

theorem accounted_empty (project : String) : (Memory.empty project).Accounted :=
  ⟨wellKeyed_empty project, fun _ _ => rfl⟩

private theorem Accounted.of_eq (h : m.Accounted) (hres : m'.resources = m.resources)
    (happlied : m'.applied = m.applied) : m'.Accounted := by
  refine ⟨h.keyed.of_resources_eq hres, fun kind name => ?_⟩
  have hstored : m'.stored kind name = m.stored kind name := by rw [stored, stored, hres]
  rw [happlied, hstored]
  exact h.balance kind name

private theorem Accounted.create (h : m.Accounted) (hk : m.resources.find? r.key = none) :
    ((m.log (.insert r.kind r.name)).seed r).Accounted := by
  refine ⟨WellKeyed.seed (m := m.log (.insert r.kind r.name)) h.keyed r, fun kind name => ?_⟩
  have hstored : ((m.log (.insert r.kind r.name)).seed r).stored kind name =
      m.stored kind name + if r.kind = kind ∧ r.name = name then 1 else 0 :=
    stored_seed (m := m.log (.insert r.kind r.name)) hk
  have happlied : ((m.log (.insert r.kind r.name)).seed r).applied = m.applied ++ [.insert r.kind r.name] := rfl
  have hbalance := h.balance kind name
  rw [hstored, happlied, List.count_append, List.count_append]
  by_cases hr : r.kind = kind ∧ r.name = name
  · obtain ⟨rfl, rfl⟩ := hr
    simp
    omega
  · simp [hr, hbalance]

/-- What is stored under a key is of the kind and the name that a deletion under the key enters in the journal. -/
private theorem Accounted.remove (h : m.Accounted) (hr : m.resources.find? k = some r) : (m.remove k).Accounted := by
  refine ⟨fun j s hs => ?_, fun kind name => ?_⟩
  · rw [find?_remove] at hs
    split at hs
    · exact absurd hs (by simp)
    · exact h.keyed j s hs
  · have happlied : (m.remove k).applied = m.applied ++ [.delete r.kind r.name] := by
      rw [h.keyed.kind_eq hr, h.keyed.name_eq hr]
      rfl
    have hstored : m.stored kind name = (m.remove k).stored kind name +
        if r.kind = kind ∧ r.name = name then 1 else 0 := stored_remove hr
    have hbalance := h.balance kind name
    rw [happlied, List.count_append, List.count_append]
    by_cases hk : r.kind = kind ∧ r.name = name
    · obtain ⟨rfl, rfl⟩ := hk
      simp at hstored ⊢
      omega
    · simp [hk] at hstored ⊢
      omega

private theorem Accounted.removeAttached (h : m.Accounted) (zone : String) (ds : List AttachedDisk) :
    (m.removeAttached zone ds).Accounted := by
  induction ds generalizing m with
  | nil => exact h
  | cons d ds ih =>
    rw [Memory.removeAttached]
    refine ih ?_
    split
    · next hd =>
      -- Only a disk that is there goes with the instance.
      obtain ⟨s, hs⟩ := OrderedMap.contains_eq_true_iff.1 (Bool.and_eq_true_iff.1 hd).2
      exact h.remove hs
    · exact h

private theorem Accounted.removeWith (h : m.Accounted) (hr : m.resources.find? k = some r) :
    ((m.remove k).removeWith r).Accounted := by
  have hremoved := h.remove hr
  cases r with
  | «instance» i => exact hremoved.removeAttached i.zone i.disks
  | _ => exact hremoved

/-- New tags change neither the name of an instance nor how often it has been inserted and deleted. -/
private theorem Accounted.retag {i : Instance} {t : Tags} (hi : m.resources.find? k = some (.instance i))
    (hre : m.Retagged k i t m') (h : m.Accounted) : m'.Accounted := by
  refine ⟨h.keyed.retag hi hre, fun kind name => ?_⟩
  have hstored : m'.stored kind name = m.stored kind name :=
    stored_replace (s := .instance { i with tags := t }) hi rfl rfl hre.resources
  obtain ⟨es, hes, htags⟩ := hre.applied
  have hnone (e : JournalEntry) (he : ∀ n items f, e ≠ .setTags n items f) : es.count e = 0 := by
    refine List.count_eq_zero.2 fun hmem => ?_
    obtain ⟨n, items, f, rfl⟩ := htags e hmem
    exact he n items f rfl
  have hbalance := h.balance kind name
  rw [hstored, hes, List.count_append, List.count_append, hnone (.insert kind name) (by simp),
    hnone (.delete kind name) (by simp)]
  exact hbalance

theorem Accounted.apply (h : m.Accounted) (e : Effect) : (m.apply e).2.Accounted := by
  cases e with
  | create r =>
    rcases m.apply_create r with ⟨-, ha⟩ | ⟨-, k, -, ha⟩ | ⟨hn, -, ha⟩ <;> rw [ha]
    · exact h
    · exact h
    · exact h.create hn
  | delete k =>
    rcases m.apply_delete k with ⟨-, ha⟩ | ⟨r, u, -, -, ha⟩ | ⟨r, hr, -, ha⟩ <;> rw [ha]
    · exact h
    · exact h
    · exact h.removeWith hr
  | setTags k items =>
    rcases m.apply_setTags_cases k items with ⟨i, f, hi, -, hre⟩ | ⟨-, -, hq⟩
    · exact h.retag hi hre
    · exact h.of_eq hq.resources hq.applied

/-- What happens inside the platform keeps the account. -/
theorem Accounted.event (h : m.Accounted) {e : Event} (he : ¬ e.IsSeed) : (e.apply m).Accounted := by
  cases e with
  | call c =>
    refine answer_keeps (fun hq hm => hm.of_eq hq.resources hq.applied) (fun e hm => hm.apply e)
      (fun hi hre hm => hm.retag hi hre) c h
  | fault f => exact h.of_eq (f.disturbed m).resources (f.disturbed m).applied
  | seed r => exact absurd trivial he
  | seedNode zone name network group => exact absurd trivial he

theorem Accounted.after (h : m.Accounted) {es : List Event} (hes : ∀ e ∈ es, ¬ e.IsSeed) : (m.after es).Accounted :=
  after_of_forall (fun e he _ hm => hm.event (hes e he)) h

/-- On a platform that starts empty and is changed by calls only, whatever goes wrong with them, every resource is
stored under its own key, and of every kind and name as many resources are stored, over all scopes, as the journal has
insertions more than deletions. -/
theorem journal_conservation (project : String) (polls : Nat) {es : List Event} (hes : ∀ e ∈ es, ¬ e.IsSeed) :
    let m := ((Memory.empty project).withPollsUntilDone polls).after es
    (∀ kind name, m.applied.count (.insert kind name) = m.applied.count (.delete kind name) +
        m.resources.values.countP fun r => decide (r.kind = kind ∧ r.name = name)) ∧
      ∀ k r, m.resources.find? k = some r → k = resourceKey r.kind r.scope r.name := by
  intro m
  have hempty : ((Memory.empty project).withPollsUntilDone polls).Accounted :=
    (accounted_empty project).of_eq rfl rfl
  have hm : m.Accounted := hempty.after hes
  exact ⟨hm.balance, fun k r hr => (hm.keyed k r hr).symm⟩

private def fetchOf (n : Nat) : Event :=
  .call (.operation ⟨operationName n, "", .insert, .zone "zone-a", ⟨.disk, "web-1", "", .zone "zone-a", none⟩⟩)

/-- A disk is asked for twice, and the first of them goes with its instance before the second one is made. -/
def turnover : List Event :=
  [.fault (.dropInsert "net"), .call (.insert .global (.network ⟨"net", "10.0.0.0/8", none⟩)),
    .fault (.dropInsert "web-1"), .call (.insert (.zone "zone-a") (.disk ⟨"web-1", 10, "debian"⟩)),
    .call (.insert (.zone "zone-a") (.disk ⟨"web-1", 10, "debian"⟩)), .fault (.dropInsert "web-1"),
    .call (.insert (.zone "zone-a") (.instance ⟨"web-1", "f1-micro", "web-1", "net", false, .empty⟩)),
    .call (.delete .instance (.zone "zone-a") "web-1"), fetchOf 2, fetchOf 1]

theorem journal_conservation_of_turnover :
    let m := ((Memory.empty "project").withPollsUntilDone 1).after turnover
    (∀ e ∈ turnover, ¬ e.IsSeed) ∧ m.applied.count (.insert .disk "web-1") = 2 ∧
      m.applied.count (.delete .disk "web-1") = 1 ∧
      m.resources.values.countP (fun r => decide (r.kind = .disk ∧ r.name = "web-1")) = 1 := by
  intro m
  have hes : ∀ e ∈ turnover, ¬ e.IsSeed := by simp [turnover, fetchOf, Event.IsSeed]
  have hinserted : m.applied.count (.insert .disk "web-1") = 2 := by rfl
  have hdeleted : m.applied.count (.delete .disk "web-1") = 1 := by rfl
  have hbalance : m.applied.count (.insert .disk "web-1") = m.applied.count (.delete .disk "web-1") +
      m.resources.values.countP fun r => decide (r.kind = .disk ∧ r.name = "web-1") :=
    (journal_conservation "project" 1 hes).1 .disk "web-1"
  exact ⟨hes, hinserted, hdeleted, by omega⟩

end Memory

end Fleet
