import Fleet.Group

/-!
# The report of a launch

A report is a fold over the results of the nodes in the order in which they ended. It has an entry for each of them:
the instance of a node that came up, the name and the failure of one that did not.
-/

namespace Fleet

/-- The entry in a report of a node that did not come up. -/
def FailedNode.of? : String × Except Failure Instance → Option FailedNode
  | (_, .ok _) => none
  | (n, .error f) => some ⟨n, f⟩

variable {rs : List (String × Except Failure Instance)}

private theorem foldl_report {f : LaunchReport → String × Except Failure Instance → LaunchReport}
    (hok : ∀ report n i, f report (n, .ok i) = report.addSuccess i)
    (herror : ∀ report n x, f report (n, .error x) = report.addFailure n x)
    (rs : List (String × Except Failure Instance)) (report : LaunchReport) :
    (rs.foldl f report).created = report.created ++ rs.filterMap (fun r => r.2.toOption) ∧
      (rs.foldl f report).failed = report.failed ++ rs.filterMap FailedNode.of? := by
  induction rs generalizing report with
  | nil => simp
  | cons r rs ih =>
    rw [List.foldl_cons]
    obtain ⟨hcreated, hfailed⟩ := ih (f report r)
    obtain ⟨n, g | i⟩ := r
    · rw [herror] at hcreated hfailed ⊢
      constructor
      · simpa [LaunchReport.addFailure, Except.toOption] using hcreated
      · simpa [LaunchReport.addFailure, FailedNode.of?] using hfailed
    · rw [hok] at hcreated hfailed ⊢
      constructor
      · simpa [LaunchReport.addSuccess, Except.toOption] using hcreated
      · rw [List.filterMap_cons_none rfl]
        exact hfailed

/-- The report lists the instances that came up in the order in which they did. -/
theorem created_launchReport (rs : List (String × Except Failure Instance)) :
    (Manager.launchReport rs).created = rs.filterMap fun r => r.2.toOption := by
  unfold Manager.launchReport
  rw [(foldl_report (fun _ _ _ => by rfl) (fun _ _ _ => by rfl) rs .empty).1]
  rfl

theorem failed_launchReport (rs : List (String × Except Failure Instance)) :
    (Manager.launchReport rs).failed = rs.filterMap FailedNode.of? := by
  unfold Manager.launchReport
  rw [(foldl_report (fun _ _ _ => by rfl) (fun _ _ _ => by rfl) rs .empty).2]
  rfl

private theorem foldl_shared {f : LaunchReport → String × Except Failure Instance → LaunchReport}
    (hok : ∀ report n i, f report (n, .ok i) = report.addSuccess i)
    (herror : ∀ report n x, f report (n, .error x) = report.addFailure n x)
    (rs : List (String × Except Failure Instance)) (report : LaunchReport) :
    (rs.foldl f report).shared = report.shared := by
  induction rs generalizing report with
  | nil => rfl
  | cons r rs ih =>
    rw [List.foldl_cons, ih]
    obtain ⟨n, x | i⟩ := r
    · rw [herror]
      rfl
    · rw [hok]
      rfl

/-- Of networks there is nothing to report yet. -/
theorem shared_launchReport (rs : List (String × Except Failure Instance)) : (Manager.launchReport rs).shared = [] := by
  unfold Manager.launchReport
  exact foldl_shared (fun _ _ _ => by rfl) (fun _ _ _ => by rfl) rs .empty

theorem mem_created_launchReport {i : Instance} :
    i ∈ (Manager.launchReport rs).created ↔ ∃ n, (n, .ok i) ∈ rs := by
  rw [created_launchReport, List.mem_filterMap]
  constructor
  · rintro ⟨⟨n, f | j⟩, hm, hj⟩
    · exact absurd hj (by simp [Except.toOption])
    · cases hj
      exact ⟨n, hm⟩
  · rintro ⟨n, hm⟩
    exact ⟨_, hm, rfl⟩

theorem mem_failed_launchReport {x : FailedNode} :
    x ∈ (Manager.launchReport rs).failed ↔ (x.name, .error x.failure) ∈ rs := by
  rw [failed_launchReport, List.mem_filterMap]
  constructor
  · rintro ⟨⟨n, f | i⟩, hm, hx⟩
    · cases hx
      exact hm
    · exact absurd hx (by simp [FailedNode.of?])
  · intro hm
    exact ⟨_, hm, rfl⟩

/-- Every node is reported on once. -/
theorem length_launchReport (rs : List (String × Except Failure Instance)) :
    (Manager.launchReport rs).created.length + (Manager.launchReport rs).failed.length = rs.length := by
  rw [created_launchReport, failed_launchReport]
  induction rs with
  | nil => rfl
  | cons r rs ih =>
    obtain ⟨n, f | i⟩ := r
    · have hfailed : FailedNode.of? (n, .error f) = some ⟨n, f⟩ := rfl
      rw [List.filterMap_cons_none rfl, List.filterMap_cons_some hfailed, List.length_cons, List.length_cons]
      omega
    · have hcreated : ((n, .ok i) :: rs : List (String × Except Failure Instance)).filterMap (fun r => r.2.toOption) =
          i :: rs.filterMap fun r => r.2.toOption := rfl
      rw [hcreated, List.filterMap_cons_none rfl, List.length_cons, List.length_cons]
      omega

end Fleet
