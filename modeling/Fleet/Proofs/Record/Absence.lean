import Fleet.Proofs.Record.Adoption
import Fleet.Proofs.Record.Undertaking

/-!
# Lost operations and missing resources

That a resource is missing can be told when its deletion is refused, and from the first error of the operation that
deletes it (`Client.Carried.missing_iff`). When the platform has no record of the operation, this tells nothing about
the resource: the operation is lost, and that is the result (`TellsLoss`). So a deletion that finds nothing to delete
has been told so (`deleteIfExists_told`).
-/

namespace Fleet

variable {σ α β : Type}

/-- Where the platform says that it has no record of an operation, the result is that this operation is lost. -/
def TellsLoss (r : Except Failure α) (es : List (Exchange Cloud)) : Prop :=
  ∀ t h f, ⟨t, .operation h, .error f⟩ ∈ es → f.isNotFound = true → r = .error (.lost h.name)

section TellsLoss

variable {r : Except Failure α} {es es' : List (Exchange Cloud)}

theorem tellsLoss_of_ne (r : Except Failure α) (hes : ∀ e ∈ es, ∀ h, e.query ≠ .operation h) : TellsLoss r es :=
  fun _ h _ hmem _ => absurd rfl (hes _ hmem h)

theorem TellsLoss.append (hr' : TellsLoss r es') (hr : TellsLoss r es) : TellsLoss r (es' ++ es) :=
  fun t h f hmem => (List.mem_append.1 hmem).elim (hr' t h f) (hr t h f)

/-- What is made of an outcome may be another result, but not for a lost operation. -/
theorem TellsLoss.trans {o : Except Failure β} (ho : TellsLoss o es)
    (hr : ∀ name, o = .error (.lost name) → r = .error (.lost name)) : TellsLoss r es :=
  fun t h f hmem hf => hr h.name (ho t h f hmem hf)

end TellsLoss

namespace Client

open Action

variable {limit : Nat} {call : Call} {r : Except Failure Summary} {es polls submission : List (Exchange Cloud)}

private theorem ne_transport_of_isNotFound {f : Failure} (hf : f.isNotFound = true) (m : String) :
    f ≠ .transport m := by
  rintro rfl
  exact absurd hf Bool.false_ne_true

private theorem not_givesUp_of_isNotFound {f : Failure} (hf : f.isNotFound = true) : ¬ f.GivesUp := by
  intro hgives
  cases f with
  | transportExhausted | timeout | lost => exact absurd hf Bool.false_ne_true
  | _ => exact hgives

/-- That the platform has no record of an operation decides about the wait for it. -/
private theorem tellsLoss_of_verdict
    (hr : ∀ t h f, ⟨t, .operation h, .error f⟩ ∈ es → (∀ m, f ≠ .transport m) → Verdict h (.error f) r) :
    TellsLoss r es := by
  intro t h f hmem hf
  rw [(hr t h f hmem (ne_transport_of_isNotFound hf)).eq_error, if_pos hf]

theorem Followed.tellsLoss {h : OperationHandle} (hw : Followed limit h r es) : TellsLoss r es :=
  tellsLoss_of_verdict fun _ _ _ hmem hreached =>
    hw.verdict hmem (fun m hm => hreached m (Except.error.inj hm)) fun _ => nofun

theorem Carried.tellsLoss (hc : Carried limit call r polls submission) (hcall : ∀ h, call ≠ .operation h) :
    TellsLoss r (polls ++ submission) :=
  tellsLoss_of_verdict fun _ _ _ hmem hreached =>
    hc.verdict hcall hmem (fun m hm => hreached m (Except.error.inj hm)) fun _ => nofun

/-- A change begins with a request for it. -/
private theorem Carried.begins (hc : Carried limit call r polls submission) :
    ∃ later e, polls ++ submission = later ++ [e] ∧ e.query = call := by
  obtain ⟨a, ha⟩ := hc.request
  have hne : submission ≠ [] := by
    cases ha <;> exact List.cons_ne_nil _ _
  have hlast : submission.dropLast ++ [submission.getLast hne] = submission := List.dropLast_concat_getLast hne
  refine ⟨polls ++ submission.dropLast, submission.getLast hne, ?_, ha.query_eq _ (List.getLast_mem hne)⟩
  rw [List.append_assoc, hlast]

/-- There is nothing to change when the request is refused for this reason, or the first error of the operation says so,
and not otherwise. -/
theorem Carried.missing_iff (hc : Carried limit call r polls submission) (hcall : ∀ h, call ≠ .operation h) :
    (∃ f, r = .error f ∧ f.isNotFound = true) ↔
      (∃ t f, ⟨t, call, .error f⟩ ∈ polls ++ submission ∧ f.isNotFound = true) ∨
        Showed call (fun _ o => ∃ x, o.primaryError? = some x ∧ x.code = .notFound) (polls ++ submission) := by
  constructor
  · rintro ⟨f, rfl, hf⟩
    have hknown : ¬ f.GivesUp := not_givesUp_of_isNotFound hf
    cases hc with
    | refused ha =>
      rcases ha.sent.answered with ⟨t, hmem⟩ | ⟨n, m, hnm⟩
      · exact .inl ⟨t, f, hmem, hf⟩
      · cases hnm
        exact absurd trivial hknown
    | accepted ha hv hw =>
      obtain ⟨t, hmem⟩ := ha.mem_of_ok
      obtain ⟨t', hrefused | ⟨o, x, hmem', hdone, hx, rfl⟩⟩ := hw.mem_of_error hknown
      · -- Then the operation would be lost.
        cases hw.tellsLoss _ _ _ hrefused hf
        exact absurd trivial hknown
      · have hcode : x.code = .notFound := by simpa [Failure.isNotFound, Failure.code?] using hf
        exact .inr ⟨t, _, _, t', o, List.mem_append_right _ hmem, hv, List.mem_append_left _ hmem', hdone, x, hx, hcode⟩
  · rintro (⟨t, f, hmem, hf⟩ | ⟨t, v, h, t', o, -, -, ho, hdone, x, hx, hcode⟩)
    · exact ⟨f, hc.error_of_refused hcall hmem (ne_transport_of_isNotFound hf), hf⟩
    · have hr : Verdict h (.ok o) r := hc.verdict hcall ho (by simp) fun o' ho' => Except.ok.inj ho' ▸ hdone
      refine ⟨_, (hr.eq_settled hdone).trans (settled_eq_error_iff.2 ⟨x, hx, rfl⟩), ?_⟩
      simp [Failure.isNotFound, Failure.code?, hcode]

/-! ### Deletions -/

private theorem existed_eq_true_iff {o : Except Failure Summary} : existed o = .ok true ↔ ∃ v, o = .ok v := by
  cases o with
  | ok v => simp [existed]
  | error f => cases hf : f.isNotFound <;> simp [existed, hf]

private theorem existed_eq_false_iff {o : Except Failure Summary} :
    existed o = .ok false ↔ ∃ f, o = .error f ∧ f.isNotFound = true := by
  cases o with
  | ok v => simp [existed]
  | error f => cases hf : f.isNotFound <;> simp [existed, hf]

/-! ### Lost operations -/

private theorem tellsLoss_resolved {limit : Nat} {kind : Kind} {scope : Scope} {name : String}
    {harmless : Failure → Prop} {o : Except Failure Summary} {r : Except Failure kind.Record}
    {reads : List (Exchange Cloud)} (hc : Carried limit call o polls submission) (hcall : ∀ h, call ≠ .operation h)
    (hr : Resolved limit kind scope name harmless o r reads) (hlost : ∀ name, ¬ harmless (.lost name)) :
    TellsLoss r (reads ++ (polls ++ submission)) := by
  have hreads : ∀ e ∈ reads, ∀ h, e.query ≠ .operation h := fun e he h hq => nomatch (hr.query_eq e he).symm.trans hq
  refine (tellsLoss_of_ne r hreads).append ((hc.tellsLoss hcall).trans fun name ho => ?_)
  subst ho
  exact (hr.of_not_harmless (hlost name)).1

private theorem always_create_tellsLoss (c : Client) (kind : Kind) (scope : Scope) (spec : ResourceSpec) :
    (c.create kind scope spec).run.Always TellsLoss := by
  by_cases hkind : spec.kind = kind
  · refine (c.always_create_resolved scope hkind).mono fun r es hr => ?_
    obtain ⟨o, reads, polls, submission, rfl, hc, hr⟩ := hr
    exact tellsLoss_resolved hc (fun h => nofun) hr fun name h => nomatch h.1
  · refine (c.always_create_of_ne scope hkind).mono fun r es hr => ?_
    exact tellsLoss_of_ne r fun e he => absurd (hr.2 ▸ he) List.not_mem_nil

private theorem always_ensure_tellsLoss (c : Client) (kind : Kind) (scope : Scope) (name : String) (spec : ResourceSpec) :
    (c.ensure kind scope name spec).run.Always TellsLoss := by
  unfold ensure ensureNoting
  refine Program.always_bind.2 (Program.always_bind.2 ((c.always_fetch? kind scope name).mono fun r es hr => ?_))
  have hes : ∀ e ∈ es, ∀ h, e.query ≠ .operation h := fun e he h hq => nomatch (hr e he).symm.trans hq
  rcases r with f | _ | a
  · exact Program.always_done.2 (Program.always_done.2 (tellsLoss_of_ne _ hes))
  · refine Program.always_bind.2 ((c.always_createShared_resolved kind scope name spec).mono fun r es' hr => ?_)
    obtain ⟨o, reads, polls, submission, rfl, hc, hr⟩ := hr
    have hcreated : TellsLoss r (reads ++ (polls ++ submission)) :=
      tellsLoss_resolved hc (fun h => nofun) hr fun name h => nomatch h
    exact Program.always_done.2 (Program.always_done.2 (hcreated.append (tellsLoss_of_ne r hes)))
  · exact Program.always_done.2 (Program.always_done.2 (tellsLoss_of_ne _ hes))

end Client

/-- The operations of a client that wait for one operation of the platform. -/
def Undertaking.waits : Undertaking → Bool
  | .awaitDone _ => true
  | .awaitDoneWithin _ _ => true
  | .create _ _ _ => true
  | .delete _ _ _ => true
  | .deleteIfExists _ _ _ => true
  | .update _ _ _ _ => true
  | .ensure _ _ _ _ => true
  | _ => false

/-- A lost operation is the result of whatever has waited for it. -/
private theorem Manager.undertake_tellsLoss [Service Cloud σ] (mgr : Manager) {u : Undertaking} (hu : u.waits = true)
    (w : World Cloud σ) :
    ∃ es, (mgr.undertake u w).2.record = es ++ w.record ∧ TellsLoss (mgr.undertake u w).1 es := by
  let c := mgr.client
  cases u with
  | awaitDone h => exact ((c.always_awaitDone_followed h).mono fun _ _ hw => hw.tellsLoss).run w
  | awaitDoneWithin h timeoutMs =>
    exact ((c.always_awaitDoneWithin_followed h timeoutMs).mono fun _ _ hw => hw.tellsLoss).run w
  | create kind scope spec => exact (c.always_create_tellsLoss kind scope spec).run w
  | delete kind scope name =>
    refine ((c.always_delete_carried kind scope name).mono fun r es hr => ?_).run w
    obtain ⟨o, polls, submission, rfl, hc, rfl⟩ := hr
    exact (hc.tellsLoss fun h => nofun).trans fun name ho => by rw [ho]; rfl
  | deleteIfExists kind scope name =>
    refine ((c.always_deleteIfExists_carried kind scope name).mono fun r es hr => ?_).run w
    obtain ⟨o, polls, submission, rfl, hc, rfl⟩ := hr
    exact (hc.tellsLoss fun h => nofun).trans fun name ho => by rw [ho]; rfl
  | update kind scope name tags =>
    refine ((c.always_update_carried kind scope name tags).mono fun r es hr => ?_).run w
    obtain ⟨polls, submission, rfl, hc⟩ := hr
    exact hc.tellsLoss fun h => nofun
  | ensure kind scope name spec => exact (c.always_ensure_tellsLoss kind scope name spec).run w
  | _ => exact nomatch hu

/-- A deletion is asked for at once. It tells that there was a resource when its operation is seen done without errors,
and that there was none when the platform has said so, and not otherwise. A lost operation is never taken for a missing
resource, nor for a success. -/
theorem deleteIfExists_told [Service Cloud σ] (mgr : Manager) (w : World Cloud σ) :
    (∀ kind scope name,
      let r := (mgr.undertake (.deleteIfExists kind scope name) w).1
      ∃ es, (mgr.undertake (.deleteIfExists kind scope name) w).2.record = es ++ w.record ∧
        (∃ later e, es = later ++ [e] ∧ e.query = .delete kind scope name) ∧
        (r = .ok true ↔ Client.Showed (.delete kind scope name) (fun _ o => o.errors = []) es) ∧
        (r = .ok false ↔ (∃ t f, ⟨t, .delete kind scope name, .error f⟩ ∈ es ∧ f.isNotFound = true) ∨
          Client.Showed (.delete kind scope name) (fun _ o => ∃ x, o.primaryError? = some x ∧ x.code = .notFound) es)) ∧
    ∀ u : Undertaking, u.waits = true →
      ∃ es, (mgr.undertake u w).2.record = es ++ w.record ∧ TellsLoss (mgr.undertake u w).1 es := by
  refine ⟨fun kind scope name => ?_, fun u hu => mgr.undertake_tellsLoss hu w⟩
  obtain ⟨es, hes, o, polls, submission, rfl, hc, hr⟩ := (mgr.client.always_deleteIfExists_carried kind scope name).run w
  have hcall : ∀ h, Call.delete kind scope name ≠ .operation h := fun h => nofun
  refine ⟨_, hes, hc.begins, ?_, ?_⟩
  · rw [← hc.ok_iff hcall, ← Client.existed_eq_true_iff, ← hr]
    rfl
  · rw [← hc.missing_iff hcall, ← Client.existed_eq_false_iff, ← hr]
    rfl

/-- The deletion is accepted, and then the platform has no record of the operation. -/
def Script.amnesic : Script := .ofReplies [.accept, .failure (.rejected .notFound "no such operation")]

theorem deleteIfExists_told_amnesic :
    let run := (Client.standard.deleteIfExists .network .global "net").run.run (World.start Script.amnesic 0)
    run.1 = .error (.lost "op-1") ∧ TellsLoss run.1 run.2.record := by
  intro run
  have hr : run.1 = .error (.lost "op-1") := by decide +kernel
  obtain ⟨es, hes, hlost⟩ := (deleteIfExists_told (Manager.ofClient .standard) (World.start Script.amnesic 0)).2
    (.deleteIfExists .network .global "net") rfl
  have hrecord : run.2.record = es := hes.trans (List.append_nil es)
  exact ⟨hr, hrecord ▸ hlost⟩

end Fleet
