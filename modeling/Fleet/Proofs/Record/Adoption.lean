import Fleet.Proofs.Record.Following
import Fleet.Proofs.Record.Reclaim

/-!
# Taking over what exists

After a request to create a resource the resource is read, when the request has succeeded and also when it has failed
harmlessly; other failures are the result (`Client.Resolved`). That the resource exists already is harmless for
`create` only when the request had to be sent more than once: then an earlier attempt may have come through
(`create_adopts`).
-/

namespace Fleet

variable {σ : Type}

namespace Client

/-- What comes of a request to create a resource that had the outcome `o`: the result `r` and the exchanges that are
made for it. -/
inductive Resolved (limit : Nat) (kind : Kind) (scope : Scope) (name : String) (harmless : Failure → Prop) :
    Except Failure Summary → Except Failure kind.Record → List (Exchange Cloud) → Prop
  | read {o : Except Failure Summary} {r : Except Failure kind.Record} {es : List (Exchange Cloud)}
      (ho : ∀ f, o = .error f → harmless f) (hr : Fetched limit kind scope name r es) :
      Resolved limit kind scope name harmless o r es
  | failed {f : Failure} (hf : ¬ harmless f) : Resolved limit kind scope name harmless (.error f) (.error f) []

variable {limit : Nat} {kind : Kind} {scope : Scope} {name : String} {harmless : Failure → Prop}
  {o : Except Failure Summary} {r : Except Failure kind.Record} {es : List (Exchange Cloud)}

theorem Resolved.query_eq (h : Resolved limit kind scope name harmless o r es) :
    ∀ e ∈ es, e.query = .get kind scope name := by
  cases h with
  | read _ hr => exact hr.query_eq
  | failed _ => simp

theorem Resolved.of_ok {v : Summary} (h : Resolved limit kind scope name harmless (.ok v) r es) :
    Fetched limit kind scope name r es := by
  cases h with
  | read _ hr => exact hr

theorem Resolved.of_harmless {f : Failure} (h : Resolved limit kind scope name harmless (.error f) r es)
    (hf : harmless f) : Fetched limit kind scope name r es := by
  cases h with
  | read _ hr => exact hr
  | failed hnot => exact absurd hf hnot

theorem Resolved.of_not_harmless {f : Failure} (h : Resolved limit kind scope name harmless (.error f) r es)
    (hf : ¬ harmless f) : r = .error f ∧ es = [] := by
  cases h with
  | read ho _ => exact absurd (ho f rfl) hf
  | failed _ => exact ⟨rfl, rfl⟩

private theorem always_resolved (c : Client) (kind : Kind) (scope : Scope) (name : String) (harmless : Failure → Prop)
    [DecidablePred harmless] (o : Except Failure Summary) :
    (match o with
      | .ok _ => c.fetch kind scope name
      | .error f => if harmless f then c.fetch kind scope name else throw f : Action kind.Record).run.Always
        (Resolved c.retry.limit kind scope name harmless o) := by
  cases o with
  | ok v => exact (c.always_fetch_fetched kind scope name).mono fun r es hr => .read (fun f => nofun) hr
  | error f =>
    by_cases hf : harmless f
    · simp only [if_pos hf]
      refine (c.always_fetch_fetched kind scope name).mono fun r es hr => .read (fun g hg => ?_) hr
      cases hg
      exact hf
    · simp only [if_neg hf]
      exact Action.always_throw (.failed hf)

/-- A request for a resource of another kind is not made. -/
theorem always_create_of_ne (c : Client) {kind : Kind} (scope : Scope) {spec : ResourceSpec} (hkind : spec.kind ≠ kind) :
    (c.create kind scope spec).run.Always fun r es => r = .error (.wrongKind kind spec.kind) ∧ es = [] := by
  unfold create
  rw [if_pos hkind]
  exact Action.always_bind (Action.always_throw ⟨rfl, rfl⟩)

/-- What exists is taken over when the request was sent more than once. -/
theorem always_create_resolved (c : Client) {kind : Kind} (scope : Scope) {spec : ResourceSpec}
    (hkind : spec.kind = kind) :
    (c.create kind scope spec).run.Always fun r es => ∃ o reads polls submission, es = reads ++ (polls ++ submission) ∧
      Carried c.retry.limit (.insert scope spec) o polls submission ∧
      Resolved c.retry.limit kind scope spec.name (fun f => f.isAlreadyExists = true ∧ 1 < submission.length) o r
        reads := by
  unfold create
  rw [if_neg fun h => h hkind]
  refine Action.always_lift ((always_retryCounted_request c.retry (.insert scope spec)).mono fun x submission hx => ?_)
  obtain ⟨submitted, attempts⟩ := x
  obtain ⟨hrequest, rfl⟩ := hx
  -- The rest depends on the outcome of the request only.
  cases submitted with
  | error f =>
    refine Action.always_bind (Action.always_pure ?_)
    exact (always_resolved c kind scope spec.name (fun f => f.isAlreadyExists = true ∧ 1 < submission.length)
      (.error f)).mono fun r reads hr => ⟨.error f, reads, [], submission, by simp, .refused hrequest, hr⟩
  | ok h =>
    refine Action.always_bind (Action.always_outcome ((c.always_awaitDone_followed h).mono fun o polls hw => ?_))
    exact (always_resolved c kind scope spec.name (fun f => f.isAlreadyExists = true ∧ 1 < submission.length)
      o).mono fun r reads hr => ⟨o, reads, polls, submission, by simp, .accepted hrequest rfl hw, hr⟩

/-- What exists is taken over when it may be made by others. -/
theorem always_createShared_resolved (c : Client) (kind : Kind) (scope : Scope) (name : String) (spec : ResourceSpec) :
    (c.createShared kind scope name spec).run.Always fun r es =>
      ∃ o reads polls submission, es = reads ++ (polls ++ submission) ∧
        Carried c.retry.limit (.insert scope spec) o polls submission ∧
        Resolved c.retry.limit kind scope name (fun f => f.isAlreadyExists = true) o r reads := by
  have hcreated := c.always_carried (c.always_send_request (.insert scope spec)) (fun _ _ h => h)
    fun h _ hr => ⟨h, rfl, hr⟩
  refine Action.always_bind (Action.always_outcome (hcreated.mono fun o es ho => ?_))
  obtain ⟨polls, submission, rfl, hcarried⟩ := ho
  exact (always_resolved c kind scope name (fun f => f.isAlreadyExists = true) o).mono fun r reads hr =>
    ⟨o, reads, polls, submission, rfl, hcarried, hr⟩

end Client

/-- How a resource is created: `submission` are the requests for it, `polls` the questions for the operation, and `reads`
those for the resource. The outcome of the change is `o`, and the result is `r`. -/
structure Adoption (limit : Nat) (kind : Kind) (scope : Scope) (spec : ResourceSpec) (o : Except Failure Summary)
    (r : Except Failure kind.Record) (reads polls submission : List (Exchange Cloud)) : Prop where
  carried : Client.Carried limit (.insert scope spec) o polls submission
  /-- The attempts are counted. -/
  attempts : ((reads ++ (polls ++ submission)).filter fun e => e.query = .insert scope spec) = submission
  /-- After a single attempt, what exists was made by somebody else. -/
  foreign : ∀ f, o = .error f → f.isAlreadyExists = true → submission.length = 1 → r = .error f ∧ reads = []
  taken : ∀ f, o = .error f → f.isAlreadyExists = true → 1 < submission.length →
    Client.Fetched limit kind scope spec.name r reads
  failed : ∀ f, o = .error f → f.isAlreadyExists = false → r = .error f ∧ reads = []
  ok_iff : ∀ v, r = .ok v ↔
    (Client.Showed (.insert scope spec) (fun _ x => x.errors = []) (polls ++ submission) ∨
      1 < submission.length ∧
        ∃ f, f.isAlreadyExists = true ∧ Client.Blamed (.insert scope spec) f (polls ++ submission)) ∧
      ∃ t earlier, reads = ⟨t, .get kind scope spec.name, .ok (some (.ofRecord kind v))⟩ :: earlier

private theorem adoption_of_resolved {limit : Nat} {kind : Kind} {scope : Scope} {spec : ResourceSpec}
    {o : Except Failure Summary} {r : Except Failure kind.Record} {reads polls submission : List (Exchange Cloud)}
    (hc : Client.Carried limit (.insert scope spec) o polls submission)
    (hr : Client.Resolved limit kind scope spec.name (fun f => f.isAlreadyExists = true ∧ 1 < submission.length) o r
      reads) : Adoption limit kind scope spec o r reads polls submission := by
  have hcall : ∀ h, Call.insert scope spec ≠ .operation h := fun h => nofun
  refine ⟨hc, ?_, ?_, ?_, ?_, fun v => ⟨?_, ?_⟩⟩
  · -- What is asked after the requests is another question.
    have hreads : (reads.filter fun e => e.query = .insert scope spec) = [] := by
      refine List.filter_eq_nil_iff.2 fun e he => ?_
      simp [hr.query_eq e he]
    rw [List.filter_append, hreads, List.nil_append, hc.filter_eq hcall]
  · rintro f rfl - hone
    exact hr.of_not_harmless fun h => absurd h.2 (by omega)
  · rintro f rfl hexists hmore
    exact hr.of_harmless ⟨hexists, hmore⟩
  · rintro f rfl hnot
    exact hr.of_not_harmless fun h => absurd (h.1.symm.trans hnot) (by simp)
  · rintro rfl
    cases hr with
    | read ho hfetched =>
      refine ⟨?_, (hfetched.ok_iff v).1 rfl⟩
      cases o with
      | ok s => exact .inl ((hc.ok_iff hcall).1 ⟨s, rfl⟩)
      | error f =>
        obtain ⟨hexists, hmore⟩ := ho f rfl
        have hreason : f.IsReason := Failure.isReason_of_isAlreadyExists hexists
        exact .inr ⟨hmore, f, hexists, (hc.error_iff hcall hreason).1 rfl⟩
  · rintro ⟨hgranted, hread⟩
    have hfetched : Client.Fetched limit kind scope spec.name r reads := by
      rcases hgranted with hdone | ⟨hmore, f, hexists, hblamed⟩
      · obtain ⟨s, rfl⟩ := (hc.ok_iff hcall).2 hdone
        exact hr.of_ok
      · have hreason : f.IsReason := Failure.isReason_of_isAlreadyExists hexists
        obtain rfl := (hc.error_iff hcall hreason).2 hblamed
        exact hr.of_harmless ⟨hexists, hmore⟩
    exact (hfetched.ok_iff v).2 hread

/-- A resource that exists already is taken over when the request was sent more than once, and any other failure of the
request is the result. A request for a resource of another kind is not made. -/
theorem create_adopts [Service Cloud σ] (c : Client) (kind : Kind) (scope : Scope) (spec : ResourceSpec)
    (w : World Cloud σ) :
    let r := ((c.create kind scope spec).run.run w).1
    ∃ es, ((c.create kind scope spec).run.run w).2.record = es ++ w.record ∧
      (spec.kind ≠ kind → r = .error (.wrongKind kind spec.kind) ∧ es = []) ∧
      (spec.kind = kind → ∃ o reads polls submission, es = reads ++ (polls ++ submission) ∧
        Adoption c.retry.limit kind scope spec o r reads polls submission) := by
  by_cases hkind : spec.kind = kind
  · obtain ⟨es, hes, o, reads, polls, submission, rfl, hcarried, hresolved⟩ :=
      (c.always_create_resolved scope hkind).run w
    refine ⟨_, hes, fun hne => absurd hkind hne, fun _ => ?_⟩
    exact ⟨o, reads, polls, submission, rfl, adoption_of_resolved hcarried hresolved⟩
  · obtain ⟨es, hes, hr, hnone⟩ := (c.always_create_of_ne scope hkind).run w
    exact ⟨es, hes, fun _ => ⟨hr, hnone⟩, fun h => absurd h hkind⟩

/-- A network is created, and the platform answers as the script says. -/
def Script.createNetwork (s : Script) : Except Failure Network × World Cloud Script :=
  (Client.standard.create .network .global (.network ⟨"net", "10.0.0.0/8", none⟩)).run.run (World.start s 0)

/-- The network that the scripts answer with. -/
def Script.network : Network := ⟨"net", "networks/net", none, none, none⟩

/-- The first request is not answered but comes through, so that the second one is refused. -/
def Script.resent : Script := .ofReplies
  [.failure (.transport "connection reset"), .failure (.rejected .alreadyExists "already exists"),
    .resource (some (.network Script.network))]

theorem create_adopts_resent : Script.resent.createNetwork.1 = .ok Script.network ∧
    ∃ o reads polls submission, Script.resent.createNetwork.2.record = reads ++ (polls ++ submission) ∧
      submission.length = 2 ∧ Adoption Client.standard.retry.limit .network .global
        (.network ⟨"net", "10.0.0.0/8", none⟩) o (.ok Script.network) reads polls submission := by
  have hr : Script.resent.createNetwork.1 = .ok Script.network := by decide +kernel
  have hcount : (Script.resent.createNetwork.2.record.filter fun e =>
      e.query = .insert .global (.network ⟨"net", "10.0.0.0/8", none⟩)).length = 2 := by decide +kernel
  obtain ⟨es, hes, -, hadopts⟩ := create_adopts .standard .network .global (.network ⟨"net", "10.0.0.0/8", none⟩)
    (World.start Script.resent 0)
  obtain ⟨o, reads, polls, submission, rfl, h⟩ := hadopts rfl
  have hrecord : Script.resent.createNetwork.2.record = reads ++ (polls ++ submission) :=
    hes.trans (List.append_nil _)
  rw [hrecord, h.attempts] at hcount
  exact ⟨hr, o, reads, polls, submission, hrecord, hcount, hr ▸ h⟩

/-- The second request is accepted, and the platform refuses to tell of the operation, for another reason than usual. -/
def Script.misinformed : Script := .ofReplies
  [.failure (.transport "connection reset"), .accept, .failure (.rejected .alreadyExists "already exists"),
    .resource (some (.network Script.network))]

/-- Whether a request to create a resource is refused because the resource exists. -/
def Exchange.refusesExisting : Exchange Cloud → Bool
  | ⟨_, .insert _ _, .error f⟩ => f.isAlreadyExists
  | _ => false

/-- Whether a snapshot shows an operation that is done. -/
def Exchange.showsDone : Exchange Cloud → Bool
  | ⟨_, .operation _, .ok o⟩ => o.isDone
  | _ => false

/-- A resource may be taken over although no request was refused because it exists, and no operation was done. -/
theorem create_adopts_misinformed : Script.misinformed.createNetwork.1 = .ok Script.network ∧
    ∀ e ∈ Script.misinformed.createNetwork.2.record, e.refusesExisting = false ∧ e.showsDone = false :=
  ⟨by decide +kernel, by decide +kernel⟩

end Fleet
