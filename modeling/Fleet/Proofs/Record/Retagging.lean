import Fleet.Proofs.Record.Following
import Fleet.Proofs.Record.Reclaim
import Fleet.Provision

/-!
# One further attempt after a conflict

An instance gets the wanted tags by a request that is made right after the instance was read (`TagRequest`): it bears
the fingerprint that was read, and the tags that were read, followed by the ones that are missing (`Tags.Extends`). Only
a conflict is followed by a further attempt, and only once (`setTags_retries`).
-/

namespace Fleet

variable {σ : Type}

/-! ### Merged tags -/

/-- The tags are those of `old` and then some of the wanted ones, each once, so that no wanted one is missing. The
fingerprint is that of `old`. -/
structure Tags.Extends (tags old : Tags) (wanted : List String) : Prop where
  fingerprint_eq : tags.fingerprint = old.fingerprint
  items_eq : ∃ added, tags.items = old.items ++ added ∧ added.Nodup ∧ ∀ t ∈ added, t ∈ wanted ∧ t ∉ old.items
  covers : ∀ t ∈ wanted, t ∈ tags.items

private theorem nodup_eraseDups (l : List String) : l.eraseDups.Nodup := by
  cases l with
  | nil => simp
  | cons t l =>
    rw [List.eraseDups_cons]
    exact List.nodup_cons.2 ⟨by simp [List.mem_eraseDups], nodup_eraseDups _⟩
termination_by l.length
decreasing_by exact Nat.lt_succ_of_le (List.length_filter_le ..)

theorem Tags.extends_merged (old : Tags) (wanted : List String) :
    Extends ⟨merged old.items wanted, old.fingerprint⟩ old wanted := by
  refine ⟨rfl, ⟨_, merged_eq old.items wanted, nodup_eraseDups _, fun t ht => ?_⟩, fun t ht => mem_merged.2 (.inr ht)⟩
  simpa using List.mem_eraseDups.1 ht

/-! ### Attempts -/

theorem Failure.isReason_of_isConflict {f : Failure} (hf : f.isConflict = true) : f.IsReason := by
  cases f with
  | conflict resource m => exact ⟨id, nofun, rfl⟩
  | rejected | operationFailed => exact .of_code (eq_of_beq hf) (by decide)
  | _ => exact absurd hf (by simp [Failure.isConflict, Failure.code?])

variable (limit : Nat) (zone : Scope) (name : String) (wanted : List String)

/-- A request to change the tags of an instance, made right after the instance was read, with the outcome `o`. The latest
exchange comes first. When the outcome is a conflict, the platform has told so: it has refused the request, or to tell
of the operation, or the operation was done with this error. -/
inductive TagRequest : Except Failure Summary → List (Exchange Cloud) → Prop
  | mk {i : Instance} {tags : Tags} {o : Except Failure Summary} {read submission polls : List (Exchange Cloud)}
      (hread : Client.Fetched limit .instance zone name (.ok i) read) (hmissing : ∃ t ∈ wanted, t ∉ i.tags.items)
      (htags : tags.Extends i.tags wanted)
      (hrequest : Client.Carried limit (.setTags .instance zone name tags) o polls submission)
      (htold : ∀ f, o = .error f → f.isConflict = true →
        Client.Blamed (.setTags .instance zone name tags) f (polls ++ submission)) :
      TagRequest o (polls ++ submission ++ read)

/-- An attempt to give an instance the tags ends with the instance, or with the conflict that kept it from getting
them. Other failures are what the attempt ends with, and nothing more is asked. -/
inductive TagAttempt : Except Failure (Instance ⊕ Failure) → List (Exchange Cloud) → Prop
  /-- The instance could not be read, or it has the tags. -/
  | unasked {r : Except Failure Instance} {es : List (Exchange Cloud)}
      (hread : Client.Fetched limit .instance zone name r es) (hall : ∀ i, r = .ok i → ∀ t ∈ wanted, t ∈ i.tags.items) :
      TagAttempt (r.map .inl) es
  | done {v : Summary} {r : Except Failure Instance} {es es' : List (Exchange Cloud)}
      (h : TagRequest limit zone name wanted (.ok v) es) (hread : Client.Fetched limit .instance zone name r es') :
      TagAttempt (r.map .inl) (es' ++ es)
  | conflict {f : Failure} {es : List (Exchange Cloud)} (h : TagRequest limit zone name wanted (.error f) es)
      (hf : f.isConflict = true) : TagAttempt (.ok (.inr f)) es
  | failed {f : Failure} {es : List (Exchange Cloud)} (h : TagRequest limit zone name wanted (.error f) es)
      (hf : f.isConflict = false) : TagAttempt (.error f) es

/-- The attempts to give an instance the tags, with the result `r`. -/
inductive Retagging : Except Failure Instance → List (Exchange Cloud) → Prop
  | once {r : Except Failure Instance} {es : List (Exchange Cloud)}
      (h : TagAttempt limit zone name wanted (r.map .inl) es) : Retagging r es
  | again {f : Failure} {r : Except Failure Instance} {es es' : List (Exchange Cloud)}
      (h : TagAttempt limit zone name wanted (.ok (.inr f)) es)
      (h' : TagAttempt limit zone name wanted (r.map .inl) es') : Retagging r (es' ++ es)
  /-- A second conflict is not met by a third attempt. -/
  | conflict {f f' : Failure} {es es' : List (Exchange Cloud)} (h : TagAttempt limit zone name wanted (.ok (.inr f)) es)
      (h' : TagAttempt limit zone name wanted (.ok (.inr f')) es') :
      Retagging (.error (.conflict name f'.message)) (es' ++ es)

namespace Client

variable {zone name wanted}

private theorem tagRequest_of_carried {limit : Nat} {i : Instance} {o : Except Failure Summary}
    {read submission polls : List (Exchange Cloud)} (hread : Fetched limit .instance zone name (.ok i) read)
    (hmissing : ¬ i.tags.containsAll wanted = true)
    (hc : Carried limit (.setTags .instance zone name ⟨Tags.merged i.tags.items wanted, i.tags.fingerprint⟩) o polls
      submission) : TagRequest limit zone name wanted o (polls ++ submission ++ read) := by
  refine .mk hread ?_ (Tags.extends_merged i.tags wanted) hc fun f hf hconflict => ?_
  · simpa [Tags.containsAll] using hmissing
  · exact (hc.error_iff (by simp) (Failure.isReason_of_isConflict hconflict)).1 hf

private theorem always_setTagsOnce_attempt (c : Client) (zone : Scope) (name : String) (wanted : List String) :
    (c.setTagsOnce zone name wanted).run.Always (TagAttempt c.retry.limit zone name wanted) := by
  unfold setTagsOnce
  refine Action.always_bind ((c.always_fetch_fetched .instance zone name).mono fun r read hread => ?_)
  cases r with
  | error f => exact .unasked hread fun i => nofun
  | ok i =>
    by_cases hall : i.tags.containsAll wanted = true
    · simp only [hall, if_true]
      refine Action.always_pure (TagAttempt.unasked hread fun j hj => ?_)
      cases hj
      exact Tags.containsAll_iff.1 hall
    simp only [hall]
    refine Action.always_bind (Action.always_outcome ((c.always_update_carried .instance zone name _).mono
      fun o es ho => ?_))
    obtain ⟨polls, submission, rfl, hc⟩ := ho
    have hrequest := tagRequest_of_carried hread hall hc
    cases o with
    | error f =>
      show (if f.isConflict = true then pure (.inr f) else throw f : Action (Instance ⊕ Failure)).run.Always _
      split
      · next hf => exact Action.always_pure (.conflict hrequest hf)
      · next hf => exact Action.always_throw (.failed hrequest (Bool.eq_false_iff.2 hf))
    | ok v =>
      refine Action.always_bind ((c.always_fetch_fetched .instance zone name).mono fun r es hr => ?_)
      have hdone : TagAttempt c.retry.limit zone name wanted (r.map .inl) (es ++ (polls ++ submission) ++ read) := by
        rw [List.append_assoc]
        exact .done hrequest hr
      cases r with
      | error f => exact hdone
      | ok j => exact Action.always_pure hdone

theorem always_setTags_retagging (c : Client) (zone : Scope) (name : String) (wanted : List String) :
    (c.setTags zone name wanted).run.Always (Retagging c.retry.limit zone name wanted) := by
  unfold setTags
  refine Action.always_bind ((c.always_setTagsOnce_attempt zone name wanted).mono fun r es h => ?_)
  rcases r with f | i | f
  · exact .once h
  · exact Action.always_pure (Retagging.once h)
  · refine Action.always_bind ((c.always_setTagsOnce_attempt zone name wanted).mono fun r es' h' => ?_)
    rcases r with g | i | g
    · exact .again h h'
    · exact Action.always_pure (Retagging.again h h')
    · exact Action.always_throw (Retagging.conflict h h')

end Client

/-- Whatever the platform answers, an instance is given the tags by one attempt, or by two when the first one has met a
conflict. -/
theorem setTags_retries [Service Cloud σ] (c : Client) (zone : Scope) (name : String) (wanted : List String)
    (w : World Cloud σ) :
    ∃ es, ((c.setTags zone name wanted).run.run w).2.record = es ++ w.record ∧
      Retagging c.retry.limit zone name wanted ((c.setTags zone name wanted).run.run w).1 es :=
  (c.always_setTags_retagging zone name wanted).run w

/-- The change is accepted, but the platform refuses to tell of the operation because of some conflict. -/
def Script.contradictory : Script :=
  let untagged := Script.node "zone-a" "web-1" "net" "web-1-boot"
  .ofReplies [.resource (some (.instance untagged)), .accept, .failure (.rejected .conditionNotMet "busy"),
    .resource (some (.instance untagged)), .accept, .progress .done [],
    .resource (some (.instance { untagged with tags := ⟨["http"], none⟩ }))]

/-- Whether the platform says that there is a conflict, by refusing the change or by an operation that is done. -/
def Exchange.showsConflict : Exchange Cloud → Bool
  | ⟨_, .setTags _ _ _ _, .error f⟩ => f.isConflict
  | ⟨_, .operation _, .ok o⟩ => o.isDone && o.primaryError?.any fun x => x.code == .conditionNotMet
  | _ => false

/-- A further attempt may also be made when no change was refused and no operation was done because of a conflict. -/
theorem setTags_retries_contradicted :
    let es := ((Client.standard.setTags (.zone "zone-a") "web-1" ["http"]).run.run
      (World.start Script.contradictory 0)).2.record
    (es.filter fun e => e.query = .setTags .instance (.zone "zone-a") "web-1" ⟨["http"], none⟩).length = 2 ∧
      ∀ e ∈ es, e.showsConflict = false := by
  decide +kernel

end Fleet
