import Fleet.Proofs.Record.Answers
import Fleet.Reclaim
import Fleet.Teardown

/-!
# Deletions one after the other

A deletion has finished when the platform has said that the operation is done without errors, or that there is nothing
to delete (`Target.Finished`). A client that deletes several resources goes on to the next one only when the last one
has finished (`InTurn`); so it deletes the boot disk of a node after the node's instance (`always_destroy`).
-/

namespace Fleet

/-- A resource that is to be deleted. -/
structure Target where
  kind : Kind
  scope : Scope
  name : String

namespace Target

/-- The request to delete the resource. -/
abbrev call (t : Target) : Call := .delete t.kind t.scope t.name

/-- The exchanges of one deletion: the request, and questions for the operation as which it was accepted. -/
def Deletes (t : Target) (es : List (Exchange Cloud)) : Prop :=
  ∀ e ∈ es, e.query = t.call ∨ ∃ s h, e.query = .operation h ∧ ⟨s, t.call, .ok h⟩ ∈ es

/-- The platform has said, when it was asked to delete the resource, that there is none; or it has accepted the request
and said later that the operation is done, without errors or with the first error that there is none. -/
def Finished (t : Target) (es : List (Exchange Cloud)) : Prop :=
  (∃ s f, ⟨s, t.call, .error f⟩ ∈ es ∧ f.isNotFound = true) ∨
    ∃ later earlier s s' h o, es = later ++ earlier ∧ ⟨s, t.call, .ok h⟩ ∈ earlier ∧ ⟨s', .operation h, .ok o⟩ ∈ later ∧
      o.isDone = true ∧ ∀ x, o.primaryError? = some x → x.code = .notFound

end Target

/-- Resources are deleted one after the other, each of them when the deletion of the one before has finished. The truth
value tells whether all deletions have finished. The latest exchange comes first. -/
inductive InTurn : List Target → Bool → List (Exchange Cloud) → Prop
  | nil : InTurn [] true []
  /-- This deletion has not finished, and no other one is asked for. -/
  | stopped {t : Target} {ts : List Target} {es : List (Exchange Cloud)} (hd : t.Deletes es) (hf : ¬ t.Finished es) :
      InTurn (t :: ts) false es
  | next {t : Target} {ts : List Target} {all : Bool} {es es' : List (Exchange Cloud)} (hd : t.Deletes es)
      (hf : t.Finished es) (h : InTurn ts all es') : InTurn (t :: ts) all (es' ++ es)

/-- The firewalls that are deleted with a network. -/
def firewallTargets (fs : List Firewall) : List Target := fs.map fun f => ⟨.firewall, .global, f.name⟩

/-- What is deleted with a node: the instance, and then its boot disk unless it is to be kept. -/
def Instance.targets (i : Instance) : List Target :=
  ⟨.instance, .zone i.zone, i.name⟩ ::
    if i.keepsBootDisk then [] else [⟨.disk, .zone i.zone, i.bootDiskName⟩]

namespace Client

variable {t : Target} {es es' : List (Exchange Cloud)}

/-! ### One deletion -/

private theorem Sent.mem_of_ok {call : Call} {v : call.Value} (hs : Sent call (.ok v) es) :
    (∃ s, ⟨s, call, .ok v⟩ ∈ es) ∧ ∀ s f, ⟨s, call, .error f⟩ ∈ es → ∃ m, f = .transport m := by
  obtain ⟨s, es', rfl, hes'⟩ := hs.eq_cons_of_ok
  refine ⟨⟨s, List.mem_cons_self⟩, fun s' f hf => ?_⟩
  rcases List.mem_cons.1 hf with hf | hf
  · cases hf
  · obtain ⟨s'', m, hm⟩ := hes' _ hf
    cases hm
    exact ⟨m, rfl⟩

private theorem Sent.of_error {call : Call} {f : Failure} (hs : Sent call (.error f) es) :
    (∀ s v, ⟨s, call, .ok v⟩ ∉ es) ∧
      ∀ s g, ⟨s, call, .error g⟩ ∈ es → g = f ∨ g.isNotFound = false := by
  obtain ⟨s, a, es', rfl, hes', hra⟩ := hs
  -- All attempts but the last one were lost.
  have hlost : ∀ e ∈ es', (∀ s v, e ≠ ⟨s, call, .ok v⟩) ∧ ∀ s g, e = ⟨s, call, .error g⟩ → g.isNotFound = false := by
    intro e he
    obtain ⟨s', m, rfl⟩ := hes' e he
    refine ⟨fun s v h => (by cases h), fun s g h => ?_⟩
    cases h
    rfl
  constructor
  · intro s' v hv
    rcases List.mem_cons.1 hv with hv | hv
    · rcases hra with rfl | ⟨n, m, -, rfl⟩
      · cases hv
      · cases hv
    · exact (hlost _ hv).1 _ _ rfl
  · intro s' g hg
    rcases List.mem_cons.1 hg with hg | hg
    · rcases hra with rfl | ⟨n, m, -, rfl⟩
      · cases hg
        exact .inl rfl
      · cases hg
        exact .inr rfl
    · exact .inr ((hlost _ hg).2 _ _ rfl)

/-- The outcome of a deletion after which there is nothing left to delete. -/
private def Ends {α : Type} : Except Failure α → Prop
  | .ok _ => True
  | .error f => f.isNotFound = true

private theorem ends_settled_iff {h : OperationHandle} {o : Operation} :
    Ends (settled h o) ↔ ∀ x, o.primaryError? = some x → x.code = .notFound := by
  unfold settled
  cases o.primaryError? with
  | none => simp [Ends]
  | some x => simp [Ends, Failure.isNotFound, Failure.code?]

private theorem Sent.finished_iff {f : Failure} (hs : Sent t.call (.error f) es) :
    t.Finished es ↔ f.isNotFound = true := by
  obtain ⟨hnone, herror⟩ := hs.of_error
  constructor
  · rintro (⟨s, g, hg, hmissing⟩ | ⟨later, earlier, s, s', h, o, rfl, hmem, -⟩)
    · rcases herror s g hg with rfl | hfound
      · exact hmissing
      · exact absurd (hmissing.symm.trans hfound) (by simp)
    · exact absurd (List.mem_append_right _ hmem) (hnone s h)
  · intro hf
    rcases hs.answered with ⟨s, hmem⟩ | ⟨n, m, hnm⟩
    · exact .inl ⟨s, f, hmem, hf⟩
    · cases hnm
      exact absurd hf Bool.false_ne_true

/-- The request has been accepted, and the operation has been waited for. -/
private theorem Waited.finished_iff {h : OperationHandle} {r : Except Failure Summary}
    (hs : Sent t.call (.ok h) es) (hw : Waited h r es') : t.Finished (es' ++ es) ↔ Ends r := by
  obtain ⟨⟨s, haccepted⟩, herror⟩ := hs.mem_of_ok
  constructor
  · rintro (⟨s', g, hg, hmissing⟩ | ⟨later, earlier, s₁, s₂, h', o, heq, -, hs₂, ho, hcode⟩)
    · -- Before it was accepted, the request was only lost.
      rcases List.mem_append.1 hg with hg | hg
      · exact absurd (hw.query_eq _ hg) (by simp)
      · obtain ⟨m, rfl⟩ := herror s' g hg
        exact absurd hmissing Bool.false_ne_true
    · have hmem : (⟨s₂, .operation h', .ok o⟩ : Exchange Cloud) ∈ es' ++ es := heq ▸ List.mem_append_left _ hs₂
      rcases List.mem_append.1 hmem with hmem | hmem
      · obtain ⟨-, rfl⟩ := hw.of_isDone hmem ho
        exact ends_settled_iff.2 hcode
      · exact absurd (hs.query_eq _ hmem) (by simp)
  · intro hends
    cases hw with
    | settled s' ho hes =>
      exact .inr ⟨_, es, s, s', h, _, rfl, haccepted, List.mem_cons_self, ho, ends_settled_iff.1 hends⟩
    | refused s' hf hes => exact absurd (hends.symm.trans hf) (by simp)
    | lost hf hmissing hes => exact absurd (hends.symm.trans hmissing) (by simp)

private theorem Carried.deletes {limit : Nat} {r : Except Failure Summary} {polls submission : List (Exchange Cloud)}
    (hc : Carried limit t.call r polls submission) : t.Deletes (polls ++ submission) := by
  cases hc with
  | refused ha => exact fun e he => .inl (ha.query_eq e he)
  | @accepted h _ _ _ _ ha hv hw =>
    cases hv
    obtain ⟨s, haccepted⟩ := ha.mem_of_ok
    intro e he
    rcases List.mem_append.1 he with he | he
    · exact .inr ⟨s, h, hw.query_eq e he, List.mem_append_right _ haccepted⟩
    · exact .inl (ha.query_eq e he)

private theorem Carried.finished_iff {limit : Nat} {r : Except Failure Summary}
    {polls submission : List (Exchange Cloud)} (hc : Carried limit t.call r polls submission) :
    t.Finished (polls ++ submission) ↔ Ends r := by
  cases hc with
  | refused ha => exact ha.sent.finished_iff
  | accepted ha hv hw =>
    cases hv
    exact hw.waited.finished_iff ha.sent

private theorem ends_iff_isOk (o : Except Failure Summary) : Ends o ↔ (existed o).isOk = true := by
  cases o with
  | ok v => exact ⟨fun _ => rfl, fun _ => trivial⟩
  | error f => cases hf : f.isNotFound <;> simp [Ends, existed, hf, Except.isOk, Except.toBool]

/-- A deletion has finished when it succeeds, also because there is nothing to delete. -/
theorem always_deleteIfExists_finished (c : Client) (t : Target) :
    (c.deleteIfExists t.kind t.scope t.name).run.Always fun r es =>
      t.Deletes es ∧ (t.Finished es ↔ r.isOk = true) := by
  refine (c.always_deleteIfExists_carried t.kind t.scope t.name).mono fun r es hr => ?_
  obtain ⟨o, polls, submission, rfl, hc, rfl⟩ := hr
  exact ⟨hc.deletes, hc.finished_iff.trans (ends_iff_isOk o)⟩

/-! ### Several deletions -/

/-- One more resource is deleted before others. -/
private theorem always_deleteIfExists_inTurn {α : Type} (c : Client) (t : Target) {ts : List Target}
    {k : Bool → Action α} (hk : ∀ b, (k b).run.Always fun r es => InTurn ts r.isOk es) :
    (c.deleteIfExists t.kind t.scope t.name >>= k).run.Always fun r es => InTurn (t :: ts) r.isOk es := by
  refine Action.always_bind ((always_deleteIfExists_finished c t).mono fun r es hr => ?_)
  obtain ⟨hdel, hiff⟩ := hr
  cases r with
  | error f => exact .stopped hdel fun h => absurd (hiff.1 h) (by simp [Except.isOk, Except.toBool])
  | ok found => exact (hk found).mono fun r' es' h => .next hdel (hiff.2 rfl) h

theorem always_deleteFirewalls_inTurn (c : Client) (fs : List Firewall) :
    (c.deleteFirewalls fs).run.Always fun r es => InTurn (firewallTargets fs) r.isOk es := by
  induction fs with
  | nil => exact Action.always_pure .nil
  | cons f fs ih =>
    refine always_deleteIfExists_inTurn c ⟨.firewall, .global, f.name⟩ fun found => ?_
    refine Action.always_bind (ih.mono fun r es hr => ?_)
    cases r with
    | error g => exact hr
    | ok more => exact Action.always_pure hr

/-- The teardown of a node deletes its resources one after the other, and succeeds when all deletions have finished. -/
theorem always_destroy (c : Client) (i : Instance) :
    (c.destroy i).run.Always fun r es => InTurn i.targets r.isOk es := by
  unfold destroy Instance.targets
  refine always_deleteIfExists_inTurn c ⟨.instance, .zone i.zone, i.name⟩ fun found => ?_
  cases hkeep : i.keepsBootDisk with
  | true => exact Action.always_pure .nil
  | false =>
    refine always_deleteIfExists_inTurn c ⟨.disk, .zone i.zone, i.bootDiskName⟩ fun found => ?_
    exact Action.always_pure .nil

end Client

end Fleet
