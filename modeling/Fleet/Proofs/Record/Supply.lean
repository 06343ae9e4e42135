import Fleet.Proofs.Record.Adoption
import Fleet.Proofs.Record.Answers
import Fleet.Proofs.Record.Trace

/-!
# Resources that are obtained

A client obtains a resource by reading it at last (`Supply.Obtained`). Before that, the resource was found there, or it
was created by an operation that was done without errors, or the platform has said that it exists already. The last is
good enough where the resource is shared with others, and where the request was sent more than once, so that an earlier
one may have come through.
-/

namespace Fleet

/-- A resource that is needed: the request that creates it, and whether it is shared with others. -/
structure Supply (kind : Kind) where
  scope : Scope
  spec : ResourceSpec
  shared : Bool

namespace Supply

variable {kind : Kind}

/-- The question for the resource. -/
abbrev get (p : Supply kind) : Call := .get kind p.scope p.spec.name

/-- The request to create the resource. -/
abbrev insert (p : Supply kind) : Call := .insert p.scope p.spec

/-- How a client obtains the resource. -/
def action (p : Supply kind) (c : Client) : Action kind.Record :=
  if p.shared then c.ensure kind p.scope p.spec.name p.spec else c.create kind p.scope p.spec

/-- Nothing is asked but for the resource, for its creation and for the operation that creates it. -/
def Requests (p : Supply kind) (es : List (Exchange Cloud)) : Prop :=
  ∀ e ∈ es, e.query = p.get ∨ e.query = p.insert ∨ ∃ t h, e.query = .operation h ∧ ⟨t, p.insert, .ok h⟩ ∈ es

/-- The request was accepted, and later the operation was done without errors. -/
def Confirmed (p : Supply kind) (es : List (Exchange Cloud)) : Prop :=
  ∃ later earlier t t' h o, es = later ++ earlier ∧ ⟨t, p.insert, .ok h⟩ ∈ earlier ∧ ⟨t', .operation h, .ok o⟩ ∈ later ∧
    o.isDone = true ∧ o.errors = []

/-- The platform has said that the resource exists already: to the request, or when it was asked for the operation as
which the request was accepted, or as the first error of that operation. -/
def Existed (p : Supply kind) (es : List (Exchange Cloud)) : Prop :=
  (∃ t f, ⟨t, p.insert, .error f⟩ ∈ es ∧ f.isAlreadyExists = true) ∨
    ∃ later earlier t t' h, es = later ++ earlier ∧ ⟨t, p.insert, .ok h⟩ ∈ earlier ∧
      ((∃ f, ⟨t', .operation h, .error f⟩ ∈ later ∧ f.isAlreadyExists = true) ∨
        ∃ o x, ⟨t', .operation h, .ok o⟩ ∈ later ∧ o.isDone = true ∧ o.primaryError? = some x ∧
          x.code = .alreadyExists)

/-- It does no harm that the resource exists already. -/
def Tolerates (p : Supply kind) (es : List (Exchange Cloud)) : Prop :=
  p.shared = true ∨ 1 < (es.filter fun e => e.query = p.insert).length

/-- The resource was created, or it does no harm that it existed. -/
def Granted (p : Supply kind) (es : List (Exchange Cloud)) : Prop :=
  p.Confirmed es ∨ p.Existed es ∧ p.Tolerates es

/-- The resource is the answer to the last question. Before that, it was found by asking alone, or granted. -/
def Obtained (p : Supply kind) (a : kind.Record) (es : List (Exchange Cloud)) : Prop :=
  p.Requests es ∧ ∃ t earlier, es = ⟨t, p.get, .ok (some (.ofRecord kind a))⟩ :: earlier ∧
    (p.shared = true ∧ (∀ e ∈ earlier, e.query = p.get) ∨ p.Granted earlier)

/-- The client has failed to obtain the resource. -/
def Failed (p : Supply kind) (c : Client) (f : Failure) (es : List (Exchange Cloud)) : Prop :=
  p.Requests es ∧ ∃ t t', (p.action c).run.Trace t (.error f) es t'

variable {p : Supply kind} {es es' : List (Exchange Cloud)}

private theorem requests_of_get (h : ∀ e ∈ es, e.query = p.get) : p.Requests es := fun e he => .inl (h e he)

private theorem Requests.append (h : p.Requests es) (h' : p.Requests es') : p.Requests (es' ++ es) := by
  intro e he
  rcases List.mem_append.1 he with he | he
  · rcases h' e he with hq | hq | ⟨t, o, hq, hmem⟩
    · exact .inl hq
    · exact .inr (.inl hq)
    · exact .inr (.inr ⟨t, o, hq, List.mem_append_left _ hmem⟩)
  · rcases h e he with hq | hq | ⟨t, o, hq, hmem⟩
    · exact .inl hq
    · exact .inr (.inl hq)
    · exact .inr (.inr ⟨t, o, hq, List.mem_append_right _ hmem⟩)

private theorem Confirmed.of_infix (h : p.Confirmed es) (hi : es <:+: es') : p.Confirmed es' := by
  obtain ⟨later, earlier, t, t', o, x, rfl, hmem, hmem', hx⟩ := h
  obtain ⟨l, r, rfl⟩ := hi
  have hsplit : l ++ (later ++ earlier) ++ r = (l ++ later) ++ (earlier ++ r) := by simp only [List.append_assoc]
  exact ⟨_, _, t, t', o, x, hsplit, List.mem_append_left _ hmem, List.mem_append_right _ hmem', hx⟩

private theorem Existed.of_infix (h : p.Existed es) (hi : es <:+: es') : p.Existed es' := by
  rcases h with ⟨t, f, hmem, hf⟩ | ⟨later, earlier, t, t', o, rfl, hmem, hmem'⟩
  · exact .inl ⟨t, f, hi.subset hmem, hf⟩
  · obtain ⟨l, r, rfl⟩ := hi
    have hsplit : l ++ (later ++ earlier) ++ r = (l ++ later) ++ (earlier ++ r) := by simp only [List.append_assoc]
    refine .inr ⟨_, _, t, t', o, hsplit, List.mem_append_left _ hmem, ?_⟩
    rcases hmem' with ⟨f, hmem', hf⟩ | ⟨x, y, hmem', hx⟩
    · exact .inl ⟨f, List.mem_append_right _ hmem', hf⟩
    · exact .inr ⟨x, y, List.mem_append_right _ hmem', hx⟩

private theorem Granted.of_infix (h : p.Granted es) (hi : es <:+: es') : p.Granted es' := by
  rcases h with hc | ⟨he, ht⟩
  · exact .inl (hc.of_infix hi)
  · refine .inr ⟨he.of_infix hi, ht.imp_right fun hlt => ?_⟩
    exact Nat.lt_of_lt_of_le hlt (hi.sublist.filter _).length_le

/-! ### Requests to create a resource -/

/-- What is known of a request with the outcome `r`, when it has been waited for. -/
private structure Made (p : Supply kind) (r : Except Failure Summary) (es : List (Exchange Cloud)) : Prop where
  requests : p.Requests es
  confirmed : ∀ v, r = .ok v → p.Confirmed es
  existed : ∀ f, r = .error f → f.isAlreadyExists = true → p.Existed es

private theorem made_of_refused {f : Failure} (hs : Client.Sent p.insert (.error f) es) : Made p (.error f) es := by
  refine ⟨fun e he => .inr (.inl (hs.query_eq e he)), fun v h => (by cases h), fun g hg hexists => ?_⟩
  cases hg
  rcases hs.answered with ⟨t, hmem⟩ | ⟨n, m, hnm⟩
  · exact .inl ⟨t, f, hmem, hexists⟩
  · cases hnm
    exact absurd hexists (by simp [Failure.isAlreadyExists, Failure.code?])

private theorem made_of_waited {h : OperationHandle} {r : Except Failure Summary}
    (hs : Client.Sent p.insert (.ok h) es) (hw : Client.Waited h r es') : Made p r (es' ++ es) := by
  obtain ⟨t, lost, hes, -⟩ := hs.eq_cons_of_ok
  have haccepted : ⟨t, p.insert, .ok h⟩ ∈ es := hes ▸ List.mem_cons_self
  -- An operation that is done tells by its errors whether the resource was made.
  refine ⟨fun e he => ?_, fun v hv => ?_, fun f hf hexists => ?_⟩
  · rcases List.mem_append.1 he with he | he
    · exact .inr (.inr ⟨t, h, hw.query_eq e he, List.mem_append_right _ haccepted⟩)
    · exact .inr (.inl (hs.query_eq e he))
  · cases hw with
    | @settled t' o ho es' hes' =>
      have herrors : o.primaryError? = none := by
        unfold Client.settled at hv
        cases hx : o.primaryError? with
        | none => rfl
        | some x =>
          rw [hx] at hv
          cases hv
      exact ⟨_, es, t, t', h, o, rfl, haccepted, List.mem_cons_self, ho, List.head?_eq_none_iff.1 herrors⟩
    | refused t' hmissing hes' => cases hv
    | lost hcode hmissing hes' => cases hv
  · cases hw with
    | @settled t' o ho es' hes' =>
      unfold Client.settled at hf
      cases hx : o.primaryError? with
      | none =>
        rw [hx] at hf
        cases hf
      | some x =>
        rw [hx] at hf
        cases hf
        have hcode : x.code = .alreadyExists := by simpa [Failure.isAlreadyExists, Failure.code?] using hexists
        exact .inr ⟨_, es, t, t', h, rfl, haccepted, .inr ⟨o, x, List.mem_cons_self, ho, hx, hcode⟩⟩
    | refused t' hmissing hes' =>
      cases hf
      exact .inr ⟨_, es, t, t', h, rfl, haccepted, .inl ⟨f, List.mem_cons_self, hexists⟩⟩
    | lost hcode hmissing hes' =>
      cases hf
      exact absurd hexists (by simp [Failure.isAlreadyExists, hcode])

private theorem made_of_carried {limit : Nat} {r : Except Failure Summary} {polls submission : List (Exchange Cloud)}
    (hc : Client.Carried limit p.insert r polls submission) : Made p r (polls ++ submission) := by
  cases hc with
  | refused ha => exact made_of_refused ha.sent
  | accepted ha hv hw =>
    cases hv
    exact made_of_waited ha.sent hw.waited

/-! ### Obtaining resources -/

/-- What is known of the exchanges of an action with the outcome `r`. -/
private structure Ends (p : Supply kind) (r : Except Failure kind.Record) (es : List (Exchange Cloud)) : Prop where
  requests : p.Requests es
  obtained : ∀ a, r = .ok a → p.Obtained a es

private theorem Ends.of_failed {f : Failure} (h : p.Requests es) : Ends p (.error f) es := ⟨h, fun a ha => by cases ha⟩

/-- The resource is read after it was granted. -/
private theorem ends_of_resolved {limit : Nat} {harmless : Failure → Prop} {o : Except Failure Summary}
    {r : Except Failure kind.Record} {reads polls submission : List (Exchange Cloud)}
    (hc : Client.Carried limit p.insert o polls submission)
    (hr : Client.Resolved limit kind p.scope p.spec.name harmless o r reads)
    (hharmless : ∀ f, harmless f → f.isAlreadyExists = true ∧ p.Tolerates (polls ++ submission)) :
    Ends p r (reads ++ (polls ++ submission)) := by
  have hmade : Made p o (polls ++ submission) := made_of_carried hc
  cases hr with
  | failed _ => exact .of_failed hmade.requests
  | read ho hfetched =>
    have hgranted : p.Granted (polls ++ submission) := by
      cases o with
      | ok v => exact .inl (hmade.confirmed v rfl)
      | error f =>
        obtain ⟨hexists, htolerates⟩ := hharmless f (ho f rfl)
        exact .inr ⟨hmade.existed f rfl hexists, htolerates⟩
    have hrequests : p.Requests (reads ++ (polls ++ submission)) :=
      hmade.requests.append (requests_of_get hfetched.query_eq)
    refine ⟨hrequests, fun a ha => ⟨hrequests, ?_⟩⟩
    obtain ⟨t, before, rfl⟩ := (hfetched.ok_iff a).1 ha
    exact ⟨t, before ++ (polls ++ submission), rfl, .inr (hgranted.of_infix (List.suffix_append before _).isInfix)⟩

/-- What was asked before does not matter when it was only whether the resource is there. -/
private theorem Ends.after_get {r : Except Failure kind.Record} (h : Ends p r es') (hes : ∀ e ∈ es, e.query = p.get) :
    Ends p r (es' ++ es) := by
  have hrequests : p.Requests (es' ++ es) := (requests_of_get hes).append h.requests
  refine ⟨hrequests, fun a ha => ⟨hrequests, ?_⟩⟩
  obtain ⟨-, t, before, rfl, ⟨hshared, hfound⟩ | hgranted⟩ := h.obtained a ha
  · exact ⟨t, before ++ es, rfl, .inl ⟨hshared, fun e he => (List.mem_append.1 he).elim (hfound e) (hes e)⟩⟩
  · exact ⟨t, before ++ es, rfl, .inr (hgranted.of_infix (List.prefix_append before es).isInfix)⟩

private theorem always_createShared_ends (c : Client) (p : Supply kind) (hshared : p.shared = true) :
    (c.createShared kind p.scope p.spec.name p.spec).run.Always (Ends p) := by
  refine (c.always_createShared_resolved kind p.scope p.spec.name p.spec).mono fun r es hr => ?_
  obtain ⟨o, reads, polls, submission, rfl, hc, hr⟩ := hr
  exact ends_of_resolved hc hr fun f hf => ⟨hf, .inl hshared⟩

private theorem always_ensure_ends (c : Client) (p : Supply kind) (hshared : p.shared = true) :
    (c.ensure kind p.scope p.spec.name p.spec).run.Always (Ends p) := by
  unfold Client.ensure Client.ensureNoting
  refine Program.always_bind.2 (Program.always_bind.2
    ((c.always_fetch?_read kind p.scope p.spec.name).mono fun r es hr => ?_))
  obtain ⟨hquery, hread⟩ := hr
  have hrequests : p.Requests es := requests_of_get hquery
  rcases r with f | _ | a
  · exact Program.always_done.2 (Program.always_done.2 (.of_failed hrequests))
  · refine Program.always_bind.2 ((always_createShared_ends c p hshared).mono fun r es' hr => ?_)
    exact Program.always_done.2 (Program.always_done.2 (hr.after_get hquery))
  · refine Program.always_done.2 (Program.always_done.2 ⟨hrequests, fun a' ha => ⟨hrequests, ?_⟩⟩)
    cases ha
    obtain ⟨t, before, rfl⟩ := hread a rfl
    exact ⟨t, before, rfl, .inl ⟨hshared, fun e he => hquery e (List.mem_cons_of_mem _ he)⟩⟩

private theorem always_create_ends (c : Client) (p : Supply kind) :
    (c.create kind p.scope p.spec).run.Always (Ends p) := by
  by_cases hkind : p.spec.kind = kind
  · refine (c.always_create_resolved p.scope hkind).mono fun r es hr => ?_
    obtain ⟨o, reads, polls, submission, rfl, hc, hr⟩ := hr
    -- A resource that exists is taken when one of the earlier requests may have created it.
    refine ends_of_resolved hc hr fun f hf => ⟨hf.1, .inr ?_⟩
    rw [hc.filter_eq fun h => nofun]
    exact hf.2
  · refine (c.always_create_of_ne p.scope hkind).mono fun r es hr => ?_
    obtain ⟨rfl, rfl⟩ := hr
    exact .of_failed fun e he => absurd he List.not_mem_nil

private theorem always_action_ends (c : Client) (p : Supply kind) : (p.action c).run.Always (Ends p) := by
  unfold action
  by_cases hshared : p.shared = true
  · rw [if_pos hshared]
    exact always_ensure_ends c p hshared
  · rw [if_neg hshared]
    exact always_create_ends c p

variable {c : Client} {t t' : Nat}

/-- A run that succeeds has obtained the resource. -/
theorem obtained_of_trace {a : kind.Record} (h : (p.action c).run.Trace t (.ok a) es t') : p.Obtained a es :=
  ((always_action_ends c p).trace h).obtained a rfl

theorem failed_of_trace {f : Failure} (h : (p.action c).run.Trace t (.error f) es t') : p.Failed c f es :=
  ⟨((always_action_ends c p).trace h).requests, t, t', h⟩

end Supply

end Fleet
