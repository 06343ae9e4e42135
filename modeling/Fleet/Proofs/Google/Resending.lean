import Fleet.Google.Platform
import Fleet.Proofs.Record.Submission

/-!
# Changes that are sent again over HTTP

The request of a change is sent again after a lost connection and after a refusal that passes (`Google.judge`), each
time the same and a limited number of times (`Google.Submission`). Whatever a server replies, an operation on a single
resource sends the request of its change in this way, and nothing but GETs after it (`Google.undertake_resends`).
-/

namespace Fleet

/-! ### What a server gives to requests one after the other -/

namespace Http.Server

/-- What the request gets that is sent after `k` other ones; nothing when the connection fails. -/
def delivery (s : Server) (k : Nat) : Option Response :=
  if s.reachable then
    match s.replies[k]? with
    | some (.response x) => some x
    | some .dropped => none
    | none => some .nothing
  else none

/-- The requests that get through of those that are sent. -/
def through (s : Server) (rs : List Request) : List Request := if s.reachable then rs else []

variable (s : Server) (r : Request)

theorem send_fst : (s.send r).1 = s.delivery 0 := by
  obtain ⟨reachable, replies, received⟩ := s
  cases reachable
  · rfl
  · rcases replies with _ | ⟨x | _, rest⟩ <;> rfl

theorem delivery_send (k : Nat) : (s.send r).2.delivery k = s.delivery (k + 1) := by
  obtain ⟨reachable, replies, received⟩ := s
  cases reachable
  · rfl
  · rcases replies with _ | ⟨x | _, rest⟩ <;> rfl

theorem reachable_send : (s.send r).2.reachable = s.reachable := by
  obtain ⟨reachable, replies, received⟩ := s
  cases reachable
  · rfl
  · rcases replies with _ | ⟨x | _, rest⟩ <;> rfl

theorem received_send : (s.send r).2.received = s.received ++ s.through [r] := by
  obtain ⟨reachable, replies, received⟩ := s
  cases reachable
  · exact (List.append_nil received).symm
  · rcases replies with _ | ⟨x | _, rest⟩ <;> rfl

/-- The server after requests, the first one first. -/
def sendAll (s : Server) (rs : List Request) : Server := rs.foldl (fun s r => (s.send r).2) s

theorem sendAll_append (rs rs' : List Request) : s.sendAll (rs ++ rs') = (s.sendAll rs).sendAll rs' :=
  List.foldl_append

theorem delivery_sendAll (rs : List Request) (k : Nat) : (s.sendAll rs).delivery k = s.delivery (rs.length + k) := by
  induction rs generalizing s with
  | nil => rw [List.length_nil, Nat.zero_add, sendAll, List.foldl_nil]
  | cons r rs ih => rw [sendAll, List.foldl_cons, ← sendAll, ih, delivery_send, List.length_cons, Nat.add_right_comm]

theorem received_sendAll (rs : List Request) : (s.sendAll rs).received = s.received ++ s.through rs := by
  induction rs generalizing s with
  | nil =>
    unfold through
    split <;> exact (List.append_nil _).symm
  | cons r rs ih =>
    rw [sendAll, List.foldl_cons, ← sendAll, ih, received_send, List.append_assoc, through, through, through,
      reachable_send]
    split <;> rfl

end Http.Server

namespace Google

open Http (Response)

/-! ### What is made of a response -/

/-- What the response to a request for a change amounts to. -/
inductive Judgement
  /-- The request is worth another attempt. -/
  | again
  /-- The request is refused or its response cannot be read. -/
  | refused (code : ErrorCode)
  | accepted (report : OperationReport)

/-- The status and the first reason of a refusal: those of its body, or else the status of the response. -/
def effective (x : Response) : Nat × String :=
  match (Json.parse? x.body).bind errorEnvelope? with
  | some e => (e.code, (e.errors.head?.map (·.1)).getD "")
  | none => (x.status, "")

/-- A lost connection, too many requests and errors of the server pass. Every other refusal is final, with a code that
follows from the effective status and the first reason; and so is an answer that cannot be read. -/
def judge : Option Response → Judgement
  | none => .again
  | some x =>
    if x.isSuccess then
      match (Json.parse? x.body).bind operationReport? with
      | some p => .accepted p
      | none => .refused (.other "http")
    else if (effective x).1 = 429 ∨ 500 ≤ (effective x).1 then .again
    else .refused (ApiFailure.codeOf (effective x).1 (effective x).2)

/-- The outcome of one attempt is as the response is judged. -/
def Judgement.Meets {α : Type} : Judgement → Except Failure α → Prop
  | .again, o => ∃ m, o = .error (.transport m)
  | .refused code, o => ∃ m, o = .error (.rejected code m)
  | .accepted _, o => ∃ v, o = .ok v

theorem Judgement.Meets.again_of_transport {α : Type} {j : Judgement} {m : String}
    (h : j.Meets (.error (.transport m) : Except Failure α)) : j = .again := by
  cases j with
  | again => rfl
  | refused code =>
    obtain ⟨_, h⟩ := h
    exact nomatch h
  | accepted p =>
    obtain ⟨_, h⟩ := h
    exact nomatch h

/-- A refusal has the effective status and the first reason of its response. -/
theorem refusal_eq (x : Response) : ∃ m, Api.refusal x = .refused (effective x).1 (effective x).2 m := by
  unfold Api.refusal effective
  cases (Json.parse? x.body).bind errorEnvelope? with
  | none => exact ⟨Http.reasonPhrase x.status, rfl⟩
  | some e =>
    dsimp only
    rcases e.errors.head? with _ | ⟨reason, message⟩
    · exact ⟨if e.message = "" then "" else e.message, rfl⟩
    · exact ⟨if e.message = "" then message else e.message, rfl⟩

private theorem meets_refused (status : Nat) (reason m : String) {α : Type} :
    Judgement.Meets (if status = 429 ∨ 500 ≤ status then .again else .refused (ApiFailure.codeOf status reason))
      (.error (ApiFailure.refused status reason m).toFailure : Except Failure α) := by
  unfold ApiFailure.toFailure
  by_cases hpasses : status = 429 ∨ 500 ≤ status
  · rw [if_pos hpasses, if_pos (by simpa [ApiFailure.isTransient] using hpasses)]
    exact ⟨_, rfl⟩
  · rw [if_neg hpasses, if_neg (by simpa [ApiFailure.isTransient] using hpasses)]
    exact ⟨m, rfl⟩

/-! ### One attempt -/

namespace Api

/-- The project after requests to its server, the first one first. -/
def afterAll (a : Api) (rs : List Http.Request) : Api := { a with server := a.server.sendAll rs }

theorem afterAll_append (a : Api) (rs rs' : List Http.Request) : a.afterAll (rs ++ rs') = (a.afterAll rs).afterAll rs' := by
  rw [afterAll, a.server.sendAll_append]
  rfl

theorem delivery_afterAll (a : Api) (rs : List Http.Request) (k : Nat) :
    (a.afterAll rs).server.delivery k = a.server.delivery (rs.length + k) := a.server.delivery_sendAll rs k

theorem received_afterAll (a : Api) (rs : List Http.Request) :
    (a.afterAll rs).server.received = a.server.received ++ a.server.through rs := a.server.received_sendAll rs

/-- The request that asks for a change, if it can be made out. -/
def changeRequest? (a : Api) : Call → Option Http.Request
  | .insert scope spec => a.request? .post (a.collectionUrl spec.kind scope) none (some (payload spec))
  | .delete kind scope name => a.request? .delete (a.resourceUrl kind scope name) none none
  | .setTags kind scope name tags =>
    a.request? .post (a.resourceUrl kind scope name ++ "/setTags") none (some (tagsPayload tags))
  | _ => none

section Exchange

variable {α : Type} (a : Api) (method : Http.Method) (url : String) (pageToken : Option String) (body : Option Json)
  (read : Json → Option α)

theorem exchange_of_none (h : a.request? method url pageToken body = none) :
    a.exchange method url pageToken body read = (.error (.exchange "builder error"), a) := by
  rw [exchange, h]

theorem exchange_of_some {q : Http.Request} (h : a.request? method url pageToken body = some q) :
    a.exchange method url pageToken body read =
      (match a.server.delivery 0 with
        | none => .error (.connection ("error sending request for url (" ++ q.url.text ++ ")"))
        | some x => received read x, a.afterAll [q]) := by
  rw [exchange, h, ← a.server.send_fst q, show a.afterAll [q] = { a with server := (a.server.send q).2 } from rfl]
  dsimp only
  rcases a.server.send q with ⟨_ | x, s⟩ <;> rfl

end Exchange

section Mutate

variable (a : Api) (method : Http.Method) (url : String) (body : Option Json) (kind : Kind) (name : String)
  (scope : Scope)

private theorem mutate_of_none (h : a.request? method url none body = none) :
    a.mutate method url body kind name scope = (.error (.rejected (.other "http") "builder error"), a) := by
  rw [mutate, a.exchange_of_none _ _ _ _ _ h]
  rfl

private theorem mutate_of_some {q : Http.Request} (h : a.request? method url none body = some q) :
    ∃ o, a.mutate method url body kind name scope = (o, a.afterAll [q]) ∧
      (judge (a.server.delivery 0)).Meets o := by
  rw [mutate, a.exchange_of_some _ _ _ _ _ h]
  refine ⟨_, rfl, ?_⟩
  cases a.server.delivery 0 with
  | none => exact ⟨_, rfl⟩
  | some x =>
    dsimp only [judge, received]
    by_cases hsuccess : x.isSuccess = true
    · rw [if_pos hsuccess, if_pos hsuccess]
      cases (Json.parse? x.body).bind operationReport? with
      | none => exact ⟨_, rfl⟩
      | some p => exact ⟨_, rfl⟩
    · rw [if_neg hsuccess, if_neg hsuccess]
      obtain ⟨m, hm⟩ := refusal_eq x
      rw [hm]
      exact meets_refused _ _ m

end Mutate

/-! ### The answers to calls -/

section Answer

variable {call : Call} (a : Api)

theorem changeRequest?_congr {a' : Api} (h : a'.config = a.config) (call : Call) :
    a'.changeRequest? call = a.changeRequest? call := by
  obtain ⟨config, server⟩ := a
  obtain ⟨config', server'⟩ := a'
  obtain rfl : config' = config := h
  rfl

theorem answer_of_none (hchange : call.isMutation = true) (h : a.changeRequest? call = none) :
    answer call a = (.error (.rejected (.other "http") "builder error"), a) := by
  cases call with
  | insert | delete | setTags =>
    rw [answer]
    exact a.mutate_of_none _ _ _ _ _ _ h
  | _ => exact absurd hchange Bool.false_ne_true

theorem answer_of_some (hchange : call.isMutation = true) {q : Http.Request} (h : a.changeRequest? call = some q) :
    ∃ o, answer call a = (o, a.afterAll [q]) ∧ (judge (a.server.delivery 0)).Meets o := by
  cases call with
  | insert | delete | setTags =>
    rw [answer]
    exact a.mutate_of_some _ _ _ _ _ _ h
  | _ => exact absurd hchange Bool.false_ne_true

end Answer

theorem method_of_request? {a : Api} {method : Http.Method} {url : String} {pageToken : Option String}
    {body : Option Json} {q : Http.Request} (h : a.request? method url pageToken body = some q) : q.method = method := by
  unfold request? at h
  cases hu : Url.ofText? url with
  | none => simp [hu] at h
  | some u =>
    simp only [hu, Option.bind_eq_bind, Option.bind_some] at h
    split at h
    · exact nomatch h
    · cases h
      rfl

/-- No change is asked for by a GET. -/
theorem method_ne_get {call : Call} {a : Api} {q : Http.Request} (h : a.changeRequest? call = some q) :
    q.method ≠ .get := by
  have hchange {method : Http.Method} {url : String} {body : Option Json} (hmethod : method ≠ .get)
      (hq : a.request? method url none body = some q) : q.method ≠ .get := (method_of_request? hq).symm ▸ hmethod
  cases call with
  | insert | delete | setTags =>
    rw [changeRequest?] at h
    exact hchange Http.Method.noConfusion h
  | _ => exact nomatch h

/-- Only GETs have come in between. -/
def OnlyReads (a a' : Api) : Prop := ∃ rs, a'.server.received = a.server.received ++ rs ∧ ∀ r ∈ rs, r.method = .get

theorem OnlyReads.refl (a : Api) : a.OnlyReads a := ⟨[], (List.append_nil _).symm, by simp⟩

theorem OnlyReads.trans {a a' a'' : Api} (h : a.OnlyReads a') (h' : a'.OnlyReads a'') : a.OnlyReads a'' := by
  obtain ⟨rs, hrs, hget⟩ := h
  obtain ⟨rs', hrs', hget'⟩ := h'
  refine ⟨rs ++ rs', by rw [hrs', hrs, List.append_assoc], fun r hr => ?_⟩
  exact (List.mem_append.1 hr).elim (hget r) (hget' r)

section Reads

variable {α : Type} (a : Api) (url : String) (read : Json → Option α)

private theorem exchange_reads (pageToken : Option String) (body : Option Json) :
    a.OnlyReads (a.exchange .get url pageToken body read).2 := by
  cases h : a.request? .get url pageToken body with
  | none =>
    rw [a.exchange_of_none _ _ _ _ _ h]
    exact .refl a
  | some q =>
    rw [a.exchange_of_some _ _ _ _ _ h]
    refine ⟨a.server.through [q], a.server.received_send q, fun r hr => ?_⟩
    unfold Http.Server.through at hr
    split at hr
    · rw [List.mem_singleton.1 hr]
      exact method_of_request? h
    · exact absurd hr List.not_mem_nil

private theorem pagesFrom_reads (read : Json → Option Page) (token : Option String) (fuel : Nat) :
    a.OnlyReads (pagesFrom url read token fuel a).2 := by
  induction fuel generalizing a token with
  | zero => exact .refl a
  | succ fuel ih =>
    have hfirst := a.exchange_reads url read token none
    unfold pagesFrom
    generalize a.exchange .get url token none read = x at hfirst
    obtain ⟨f | p, a'⟩ := x
    · exact hfirst
    · dsimp only
      split
      · exact hfirst
      · exact hfirst
      · exact hfirst.trans (ih _ _)

theorem answer_reads {call : Call} (hread : call.isMutation = false) : a.OnlyReads (answer call a).2 := by
  cases call with
  | get kind scope name =>
    have hread := a.exchange_reads (a.resourceUrl kind scope name) (Json.asSound Json.depthLimit) none none
    rw [answer, get]
    generalize a.exchange _ _ _ _ _ = x at hread ⊢
    exact hread
  | list kind filter =>
    rw [answer, list]
    obtain ⟨url, read⟩ := a.listing kind filter.scope
    have hread : a.OnlyReads (a.pages url read).2 := a.pagesFrom_reads url read none _
    dsimp only
    generalize a.pages url read = x at hread ⊢
    exact hread
  | operation h =>
    have hread := a.exchange_reads h.selfLink operationReport? none none
    rw [answer, operation]
    generalize a.exchange _ _ _ _ _ = x at hread ⊢
    exact hread
  | _ => exact absurd hread.symm Bool.false_ne_true

end Reads

end Api

/-! ### One call again and again -/

section Served

variable {a a' : Api} {es : List (Exchange Cloud)} {call : Call} {q : Http.Request}

/-- Calls for which no request can be made out leave the server alone. -/
private theorem served_of_none (h : Served a es a') (hes : ∀ e ∈ es, e.query = call) (hchange : call.isMutation = true)
    (hq : a.changeRequest? call = none) :
    a' = a ∧ ∀ e ∈ es, (Judgement.refused (.other "http")).Meets e.answer := by
  induction h with
  | nil => exact ⟨rfl, by simp⟩
  | @cons _ a' _ t c ih =>
    obtain ⟨rfl, hanswers⟩ := ih fun e he => hes e (List.mem_cons_of_mem _ he)
    obtain rfl : c = call := hes _ List.mem_cons_self
    have hanswer := a'.answer_of_none hchange hq
    exact ⟨congrArg Prod.snd hanswer, List.forall_mem_cons.2 ⟨⟨_, congrArg Prod.fst hanswer⟩, hanswers⟩⟩

/-- Between `a` and `a'`, the request `q` is sent for each of the exchanges, and the outcome of each of them is as its
response is judged. -/
private structure Resent (a : Api) (q : Http.Request) (es : List (Exchange Cloud)) (a' : Api) : Prop where
  state : a' = a.afterAll (List.replicate es.length q)
  answers : ∀ later e earlier, es = later ++ e :: earlier → (judge (a.server.delivery earlier.length)).Meets e.answer

private theorem Resent.received (h : Resent a q es a') :
    a'.server.received = a.server.received ++ a.server.through (List.replicate es.length q) := by
  rw [h.state, Api.received_afterAll]

private theorem served_resent (h : Served a es a') (hes : ∀ e ∈ es, e.query = call) (hchange : call.isMutation = true)
    (hq : a.changeRequest? call = some q) : Resent a q es a' := by
  induction h with
  | nil => exact ⟨rfl, fun later e earlier hnil => absurd hnil (by simp)⟩
  | @cons es a' _ t c ih =>
    obtain ⟨rfl, hanswers⟩ := ih fun e he => hes e (List.mem_cons_of_mem _ he)
    obtain rfl : c = call := hes _ List.mem_cons_self
    -- The request is made out of the configuration, which has not changed.
    have hq' : (a.afterAll (List.replicate es.length q)).changeRequest? c = some q := (a.changeRequest?_congr rfl c).trans hq
    obtain ⟨o, hanswer, hmeets⟩ := Api.answer_of_some _ hchange hq'
    rw [a.delivery_afterAll, List.length_replicate] at hmeets
    have hfst : (Service.answer c (a.afterAll (List.replicate es.length q))).1 = o := congrArg Prod.fst hanswer
    have hsnd := congrArg Prod.snd hanswer
    refine ⟨?_, fun later e earlier hsplit => ?_⟩
    · rw [List.length_cons, List.replicate_succ', Api.afterAll_append]
      exact hsnd
    · rcases later with _ | ⟨e', later⟩
      · obtain ⟨rfl, rfl⟩ := List.cons.inj hsplit
        rw [← hfst] at hmeets
        exact hmeets
      · obtain ⟨-, rfl⟩ := List.cons.inj hsplit
        exact hanswers later e earlier rfl

/-- Calls that change nothing send nothing but GETs. -/
private theorem served_reads (h : Served a es a') (hes : ∀ e ∈ es, e.query.isMutation = false) : a.OnlyReads a' := by
  induction h with
  | nil => exact .refl a
  | @cons _ a' _ t c ih =>
    have hbefore := ih fun e he => hes e (List.mem_cons_of_mem _ he)
    exact hbefore.trans (a'.answer_reads (hes _ List.mem_cons_self))

end Served

/-! ### Changes -/

/-- The request of a change is sent to the server `n` times, with the outcome `o`. -/
structure Submission {α : Type} (limit : Nat) (s : Http.Server) (n : Nat) (o : Except Failure α) : Prop where
  pos : 0 < n
  le : n ≤ limit
  /-- Before it is sent again, what is delivered is worth another attempt. -/
  again : ∀ k, k + 1 < n → judge (s.delivery k) = .again
  exhausted : judge (s.delivery (n - 1)) = .again → n = limit ∧ ∃ m, o = .error (.transportExhausted limit m)
  refused : ∀ code, judge (s.delivery (n - 1)) = .refused code → ∃ m, o = .error (.rejected code m)
  accepted : ∀ p, judge (s.delivery (n - 1)) = .accepted p → ∃ v, o = .ok v

private theorem exists_split_of_lt {α : Type} {l : List α} {k : Nat} (hk : k < l.length) :
    ∃ later e earlier, l = later ++ e :: earlier ∧ earlier.length = k := by
  have hi : l.length - 1 - k < l.length := by omega
  refine ⟨l.take (l.length - 1 - k), l[l.length - 1 - k], l.drop (l.length - 1 - k + 1), ?_, ?_⟩
  · rw [← List.drop_eq_getElem_cons hi, List.take_append_drop]
  · rw [List.length_drop]
    omega

/-- All exchanges of a request but the latest have failed in transport. -/
private theorem judge_of_lost {a a' : Api} {q : Http.Request} {call : Call} {e : Exchange Cloud}
    {lost : List (Exchange Cloud)} (hres : Resent a q (e :: lost) a')
    (hlost : ∀ e ∈ lost, ∃ s m, e = ⟨s, call, .error (.transport m)⟩) {k : Nat} (hk : k < lost.length) :
    judge (a.server.delivery k) = .again := by
  obtain ⟨later, x, earlier, rfl, rfl⟩ := exists_split_of_lt hk
  have hmeets := hres.answers (e :: later) x earlier rfl
  obtain ⟨s, m, rfl⟩ := hlost x (List.mem_append_right _ List.mem_cons_self)
  exact hmeets.again_of_transport

private theorem submission_of_resent {limit : Nat} {call : Call} {o : Except Failure call.Value} {a a' : Api}
    {q : Http.Request} {es : List (Exchange Cloud)} (h : Request limit call o es) (hres : Resent a q es a') :
    Submission limit a.server es.length o := by
  cases h with
  | @answered t _ lost ho hlost hlimit =>
    have hmeets : (judge (a.server.delivery lost.length)).Meets o := hres.answers [] _ lost rfl
    refine ⟨Nat.succ_pos _, hlimit, fun k hk => judge_of_lost hres hlost (Nat.lt_of_succ_lt_succ hk),
      fun hagain => ?_, fun code hrefused => ?_, fun p haccepted => ?_⟩
    · rw [show judge (a.server.delivery lost.length) = .again from hagain] at hmeets
      obtain ⟨m, rfl⟩ := hmeets
      exact absurd rfl (ho m)
    · rwa [show judge (a.server.delivery lost.length) = .refused code from hrefused] at hmeets
    · rwa [show judge (a.server.delivery lost.length) = .accepted p from haccepted] at hmeets
  | @givenUp t m lost hlost hlimit =>
    have hmeets := hres.answers [] _ lost rfl
    have hagain : judge (a.server.delivery lost.length) = .again := hmeets.again_of_transport
    refine ⟨Nat.succ_pos _, Nat.le_of_eq hlimit, fun k hk => judge_of_lost hres hlost (Nat.lt_of_succ_lt_succ hk),
      fun _ => ⟨hlimit, m, rfl⟩, fun code hrefused => ?_, fun p haccepted => ?_⟩
    · exact nomatch hagain.symm.trans hrefused
    · exact nomatch hagain.symm.trans haccepted

/-- What an operation that asks for the change of a single resource does, from the world `w` to `w'`, with the result
`r`: it sends the request `q` of the change `n` times with the outcome `o`, and after that `reads`. -/
structure Resends (limit : Nat) (u : Undertaking) (call : Call) (q : Http.Request) (w : World Cloud Api) (n : Nat)
    (o : Except Failure call.Value) (reads : List Http.Request) (r : Except Failure u.Value) (w' : World Cloud Api) :
    Prop where
  submission : Submission limit w.service.server n o
  changes : q.method ≠ .get
  received : w'.service.server.received =
    w.service.server.received ++ w.service.server.through (List.replicate n q) ++ reads
  only_reads : ∀ x ∈ reads, x.method = .get
  /-- There is one call to the platform for each time that the request is sent. -/
  record : ∃ later calls, w'.record = later ++ calls ++ w.record ∧ calls.length = n ∧ (∀ e ∈ calls, e.query = call) ∧
    ∀ e ∈ later, e.query.isMutation = false
  failed : ∀ f x, o = .error f → u.afterFailure? n f = some x → r = x ∧ reads = []
  exhausted : judge (w.service.server.delivery (n - 1)) = .again → ∃ m, r = .error (.transportExhausted limit m)

/-- A call without a request is refused at the first attempt. -/
private theorem unsent_of_request {limit : Nat} {call : Call} {o : Except Failure call.Value}
    {es : List (Exchange Cloud)} (h : Request limit call o es) (hes : ∀ e ∈ es, (Judgement.refused (.other "http")).Meets e.answer) :
    ∃ m, o = .error (.rejected (.other "http") m) := by
  cases h with
  | answered _ _ _ => exact hes _ List.mem_cons_self
  | givenUp _ _ =>
    obtain ⟨_, hlast⟩ := hes _ List.mem_cons_self
    exact nomatch hlast

/-- Whatever the server replies, the request of a change is sent at most as often as the policy permits, each time the
same, and again only after a lost connection or a refusal that passes; nothing but GETs is sent after it. When it is
refused for good, the code of the failure follows from the effective status and the first reason of the last response
(`judge`), and the operation ends with this failure or what it makes of it. Nothing is sent when the request cannot be
made out. -/
theorem undertake_resends (mgr : Manager) {u : Undertaking} {call : Call} (hu : u.change? = some call)
    {w : World Cloud Api} (hw : w.interventions = []) :
    (w.service.changeRequest? call = none →
      (∃ m, (mgr.undertake u w).1 = .error (.rejected (.other "http") m)) ∧
        (mgr.undertake u w).2.service = w.service) ∧
    ∀ q, w.service.changeRequest? call = some q → ∃ n o reads,
      Resends mgr.client.retry.limit u call q w n o reads (mgr.undertake u w).1 (mgr.undertake u w).2 := by
  obtain ⟨es, hes, o, calls, later, rfl, hsubmits⟩ := mgr.undertake_submits hu w
  obtain ⟨p, hp⟩ := mgr.exists_program_of_change (σ := Api) hu
  obtain ⟨es, hes', hserved, -⟩ := p.run_served hw
  rw [← hp] at hes' hserved
  obtain rfl := List.append_cancel_right (hes'.symm.trans hes)
  generalize (mgr.undertake u w).1 = r, (mgr.undertake u w).2 = w' at hes hserved hsubmits ⊢
  obtain ⟨a, hcalls, hlater⟩ := hserved.split
  have hchange := Undertaking.isMutation_of_change? hu
  have hquery := hsubmits.request.query_eq
  obtain ⟨reads, hreads, hget⟩ := served_reads hlater hsubmits.unchanging
  -- When the submission has failed for good, nothing more is asked.
  have hfailed {f : Failure} {x : Except Failure u.Value} (ho : o = .error f)
      (hx : u.afterFailure? calls.length f = some x) : r = x ∧ w'.service = a := by
    obtain ⟨rfl, rfl⟩ := hsubmits.failed f x ho hx
    cases hlater
    exact ⟨rfl, rfl⟩
  refine ⟨fun hq => ?_, fun q hq => ?_⟩
  · obtain ⟨rfl, hanswers⟩ := served_of_none hcalls hquery hchange hq
    obtain ⟨m, rfl⟩ := unsent_of_request hsubmits.request hanswers
    obtain ⟨hr, hsame⟩ := hfailed rfl (u.afterFailure?_eq _ rfl rfl)
    exact ⟨⟨m, hr⟩, hsame⟩
  · have hres := served_resent hcalls hquery hchange hq
    have hsubmission := submission_of_resent hsubmits.request hres
    rw [hres.received] at hreads
    refine ⟨calls.length, o, reads, ?_⟩
    refine {
      submission := hsubmission
      changes := Api.method_ne_get hq
      received := hreads
      only_reads := hget
      record := ⟨later, calls, hes, rfl, hquery, hsubmits.unchanging⟩
      failed := fun f x ho hx => ?_
      exhausted := fun hagain => ?_ }
    · obtain ⟨hr, hsame⟩ := hfailed ho hx
      rw [hsame, hres.received] at hreads
      exact ⟨hr, List.self_eq_append_right.1 hreads⟩
    · obtain ⟨-, m, ho⟩ := hsubmission.exhausted hagain
      exact ⟨m, (hfailed ho (u.afterFailure?_eq _ rfl rfl)).1⟩

/-- A server that is overloaded at first, as the status or the body of its response says, and does not find the resource
then. -/
def overloaded : Api :=
  ⟨.ofProject "project" "token", .ofReplies [.response ⟨503, ""⟩,
    .response ⟨400, Json.compact (.object [("error", .object [("code", .nat 429)])])⟩, .response .nothing]⟩

theorem undertake_resends_of_overloaded :
    let u := Undertaking.deleteIfExists .network .global "net"
    let w := World.start overloaded 0
    let run := (Manager.ofClient .standard).undertake u w
    ∃ q o reads, overloaded.changeRequest? (.delete .network .global "net") = some q ∧
      Resends 3 u (.delete .network .global "net") q w 3 o reads run.1 run.2 := by
  intro u w run
  have hmethods : run.2.service.server.received.map (·.method) = [.delete, .delete, .delete] := by decide +kernel
  have hsome : (w.service.changeRequest? (.delete .network .global "net")).isSome = true := by decide +kernel
  obtain ⟨q, hq⟩ := Option.isSome_iff_exists.1 hsome
  obtain ⟨n, o, reads, hresends⟩ := (undertake_resends (Manager.ofClient .standard) (u := u) rfl (w := w) rfl).2 q hq
  have hreceived : run.2.service.server.received = List.replicate n q ++ reads := hresends.received
  rw [hreceived, List.map_append] at hmethods
  have hnone : reads = [] := List.eq_nil_iff_forall_not_mem.2 fun x hx => by
    have hdelete : x.method ∈ [Http.Method.delete, .delete, .delete] :=
      hmethods ▸ List.mem_append_right _ (List.mem_map_of_mem hx)
    rw [hresends.only_reads x hx] at hdelete
    exact absurd hdelete (by decide)
  have hn : n = 3 := by
    rw [hnone] at hmethods
    simpa using congrArg List.length hmethods
  subst hn
  exact ⟨q, o, reads, hq, hresends⟩

end Google

end Fleet
