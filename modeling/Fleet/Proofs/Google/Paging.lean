import Fleet.Proofs.Google.Resending
import Fleet.Proofs.Http.Query

/-!
# Listings of several pages

A listing asks for the first page and then, by its token, for each page that the one before it announces
(`Google.Begins`). Nothing is lost and nothing comes twice: the result has the resources of all pages in the order of
the pages, and a page or an item that fails leaves no result (`Google.Listed`). A client attempts a listing again as a
whole, and what the attempts before have got does not matter (`Google.Relisted`).
-/

namespace Fleet

namespace Http.Request

/-- The request for the page with a token. -/
def withToken (q : Request) (t : String) : Request := { q with url := q.url.withParameter "pageToken" t }

/-- The request for the page with a token, or for the first one. -/
private def forPage (q : Request) (token : Option String) : Request := token.elim q q.withToken

end Http.Request

namespace Google

open Http (Response)

/-! ### Pages -/

/-- The token for the next page; an empty one means the same as none. -/
def Page.token? (p : Page) : Option String := p.next.filter (· ≠ "")

/-- The page in a response. -/
def pageIn? (read : Json → Option Page) : Option Response → Option Page
  | some x => if x.isSuccess then (Json.parse? x.body).bind read else none
  | none => none

/-- The scopes of a page whose items are listed by scope, in the order of the page. -/
def pageScopes? (j : Json) : Option (List (String × Json)) := do
  let r ← Json.record? pageFields j
  r.defaulted "items" [] (Json.asMembers (Json.asSound itemDepth))

/-- Scopes in the order of the bytes of their names. Of scopes with the same name the last one counts. -/
structure InOrder (scopes entries : List (String × Json)) : Prop where
  increasing : entries.Pairwise fun e e' => Text.bytes e.1 < Text.bytes e'.1
  mem_iff : ∀ name j, (name, j) ∈ entries ↔ scopes.reverse.lookup name = some j

theorem aggregatedPage?_items {collection : String} {j : Json} {p : Page} (h : aggregatedPage? collection j = some p) :
    ∃ scopes entries, pageScopes? j = some scopes ∧ InOrder scopes entries ∧
      p.items = entries.flatMap fun e => scopedItems collection e.2 := by
  simp only [aggregatedPage?, Option.bind_eq_bind, Option.bind_eq_some_iff] at h
  obtain ⟨r, hr, scopes, hscopes, next, -, h⟩ := h
  cases h
  refine ⟨scopes, (OrderedMap.ofList scopes).entries, ?_, ⟨?_, fun name j => ?_⟩, ?_⟩
  · simp only [pageScopes?, Option.bind_eq_bind, hr, Option.bind_some, hscopes]
  · exact (OrderedMap.ofList scopes).increasing.imp fun h => Text.bytes_lt_of_lt (of_decide_eq_true h)
  · rw [OrderedMap.mem_entries_iff, OrderedMap.find?_ofList]
  · rw [OrderedMap.values, List.flatMap_map]

/-! ### One attempt -/

namespace Api

/-- The request for the first page of a listing, if it can be made out. -/
def listRequest? (a : Api) (kind : Kind) (filter : Filter) : Option Http.Request :=
  a.request? .get (a.listing kind filter.scope).1 none none

/-- The page that a listing finds in what is delivered after `k` requests. -/
def pageAt? (a : Api) (kind : Kind) (filter : Filter) (k : Nat) : Option Page :=
  pageIn? (a.listing kind filter.scope).2 (a.server.delivery k)

end Api

/-- What is delivered are pages one after the other, each with a token for the next one. -/
structure Leads (read : Json → Option Page) (s : Http.Server) (ps : List Page) (tokens : List String) : Prop where
  pages : ∀ k (h : k < ps.length), pageIn? read (s.delivery k) = some ps[k]
  tokens : ps.map Page.token? = tokens.map some

/-- A listing starts with the request `q` and finds the pages `ps`, after which there are further ones. -/
structure Begins (a : Api) (kind : Kind) (filter : Filter) (q : Http.Request) (ps : List Page)
    (tokens : List String) : Prop extends Leads (a.listing kind filter.scope).2 a.server ps tokens where
  request : a.listRequest? kind filter = some q

/-- The outcome of a listing that has found all pages. -/
structure Gathers (kind : Kind) (filter : Filter) (ps : List Page) (o : Except Failure (List Resource)) : Prop where
  whole : ∀ rs : List Resource, (ps.flatMap Page.items).map (resource? kind) = rs.map some →
    o = .ok (rs.filter filter.admits)
  unread : ∀ j ∈ ps.flatMap Page.items, resource? kind j = none → o = .error Api.unreadable

/-- A listing with the outcome `o` leads from `a` to `a'`. -/
structure Listed (kind : Kind) (filter : Filter) (a : Api) (o : Except Failure (List Resource)) (a' : Api) : Prop where
  method : ∀ q, a.listRequest? kind filter = some q → q.method = .get
  unsent : a.listRequest? kind filter = none → a' = a ∧ ∃ m, o = .error (.rejected (.other "http") m)
  /-- After some pages that lead on there is one that does not, or one that fails. -/
  ends : ∀ q, a.listRequest? kind filter = some q → ∃ ps tokens, Begins a kind filter q ps tokens ∧
    ∀ p, a.pageAt? kind filter ps.length = some p → p.token? = none
  /-- All pages are found. -/
  complete : ∀ q ps tokens last, Begins a kind filter q ps tokens → a.pageAt? kind filter ps.length = some last →
    last.token? = none → a' = a.afterAll (q :: tokens.map q.withToken) ∧
      a'.server.received = a.server.received ++ q :: tokens.map q.withToken ∧ Gathers kind filter (ps ++ [last]) o
  /-- A page fails. -/
  broken : ∀ q ps tokens, Begins a kind filter q ps tokens → a.pageAt? kind filter ps.length = none →
    a' = a.afterAll (q :: tokens.map q.withToken) ∧ ∃ f, o = .error f ∧
      ((∃ m, f = .transport m) ↔ judge (a.server.delivery ps.length) = .again)
  kind_eq : ∀ rs, o = .ok rs → ∀ r ∈ rs, r.kind = kind
  /-- The next listing starts with the same request. -/
  request : a'.listRequest? kind filter = a.listRequest? kind filter

/-- At most `n` listings one after the other, each but the last broken by a failure that passes. The outcome is that of
the last one alone, and that the client gives up after `limit` attempts when it has failed like the others. -/
inductive Relisted (limit : Nat) (kind : Kind) (filter : Filter) :
    Nat → Api → Except Failure (List Resource) → Api → Prop
  | last {n : Nat} {a a' : Api} {o : Except Failure (List Resource)} (h : Listed kind filter a o a')
      (ho : ∀ m, o ≠ .error (.transport m)) : Relisted limit kind filter (n + 1) a o a'
  | givenUp {a a' : Api} {m : String} (h : Listed kind filter a (.error (.transport m)) a') :
      Relisted limit kind filter 1 a (.error (.transportExhausted limit m)) a'
  | again {n : Nat} {a a' a'' : Api} {m : String} {o : Except Failure (List Resource)}
      (h : Listed kind filter a (.error (.transport m)) a') (h' : Relisted limit kind filter n a' o a'') :
      Relisted limit kind filter (n + 1) a o a''

/-! ### Page after page -/

section Pages

variable {a : Api} {url : String} {read : Json → Option Page} {q : Http.Request} {p : Page}

/-- The token takes no part in whether a request can be made out. -/
private theorem request?_forPage (method : Http.Method) (body : Option Json) (token : Option String) :
    a.request? method url token body = (a.request? method url none body).map (·.forPage token) := by
  unfold Api.request?
  cases Url.ofText? url with
  | none => rfl
  | some u =>
    simp only [Option.bind_eq_bind, Option.bind_some]
    split
    · rfl
    · cases token <;> rfl

private theorem exchange_of_page (token : Option String) (hq : a.request? .get url none none = some q)
    (hp : pageIn? read (a.server.delivery 0) = some p) :
    a.exchange .get url token none read = (.ok p, a.afterAll [q.forPage token]) := by
  rw [a.exchange_of_some _ _ _ _ _ ((request?_forPage _ _ token).trans (congrArg _ hq))]
  cases hx : a.server.delivery 0 with
  | none =>
    rw [hx] at hp
    exact nomatch hp
  | some x =>
    rw [hx, pageIn?] at hp
    split at hp
    · next hsuccess =>
      dsimp only [Api.received]
      rw [if_pos hsuccess, hp]
    · exact nomatch hp

private theorem exchange_of_broken (token : Option String) (hq : a.request? .get url none none = some q)
    (hp : pageIn? read (a.server.delivery 0) = none) :
    ∃ f, a.exchange .get url token none read = (.error f, a.afterAll [q.forPage token]) ∧
      (f.isTransient = true ↔ judge (a.server.delivery 0) = .again) := by
  rw [a.exchange_of_some _ _ _ _ _ ((request?_forPage _ _ token).trans (congrArg _ hq))]
  cases hx : a.server.delivery 0 with
  | none => exact ⟨_, rfl, iff_of_true rfl rfl⟩
  | some x =>
    rw [hx, pageIn?] at hp
    dsimp only [Api.received, judge]
    split at hp
    · next hsuccess =>
      rw [if_pos hsuccess, if_pos hsuccess, hp]
      refine ⟨_, rfl, iff_of_false Bool.false_ne_true ?_⟩
      split <;> exact Judgement.noConfusion
    · next hfailed =>
      obtain ⟨m, hm⟩ := refusal_eq x
      rw [if_neg hfailed, if_neg hfailed, hm]
      refine ⟨_, rfl, ?_⟩
      by_cases hpasses : (effective x).1 = 429 ∨ 500 ≤ (effective x).1
      · rw [if_pos hpasses]
        exact iff_of_true (by simpa [ApiFailure.isTransient] using hpasses) rfl
      · rw [if_neg hpasses]
        exact iff_of_false (by simpa [ApiFailure.isTransient] using hpasses) Judgement.noConfusion

private theorem pagesFrom_of_error {a' : Api} {f : ApiFailure} {token : Option String} {fuel : Nat}
    (h : a.exchange .get url token none read = (.error f, a')) :
    Api.pagesFrom url read token (fuel + 1) a = (.error f, a') := by
  rw [Api.pagesFrom, h]

private theorem pagesFrom_of_last {a' : Api} {token : Option String} {fuel : Nat}
    (h : a.exchange .get url token none read = (.ok p, a')) (hp : p.token? = none) :
    Api.pagesFrom url read token (fuel + 1) a = (.ok p.items, a') := by
  rw [Api.pagesFrom, h]
  dsimp only
  split
  · rfl
  · rfl
  · next t ht hnext => exact absurd (by simpa [Page.token?, hnext] using hp) ht

private theorem pagesFrom_of_next {a' : Api} {token : Option String} {fuel : Nat} {t : String}
    (h : a.exchange .get url token none read = (.ok p, a')) (hp : p.token? = some t) :
    Api.pagesFrom url read token (fuel + 1) a = ((Api.pagesFrom url read (some t) fuel a').1.map (p.items ++ ·),
      (Api.pagesFrom url read (some t) fuel a').2) := by
  rw [Api.pagesFrom, h]
  dsimp only
  split
  · next hnext => simp [Page.token?, hnext] at hp
  · next hnext => simp [Page.token?, hnext] at hp
  · next t' ht' hnext =>
    obtain ⟨rfl, -⟩ : t' = t ∧ t ≠ "" := by simpa [Page.token?, hnext] using hp
    rfl

private theorem delivery_afterOne (r : Http.Request) (k : Nat) :
    (a.afterAll [r]).server.delivery k = a.server.delivery (k + 1) := by
  rw [a.delivery_afterAll, List.length_singleton, Nat.add_comm]

/-- The pages after the first one are those that are delivered after its request. -/
private theorem Leads.tail {ps : List Page} {t : String} {tokens : List String}
    (h : Leads read a.server (p :: ps) (t :: tokens)) (r : Http.Request) :
    pageIn? read (a.server.delivery 0) = some p ∧ p.token? = some t ∧
      Leads read (a.afterAll [r]).server ps tokens := by
  obtain ⟨ht, htokens⟩ := List.cons.inj h.tokens
  refine ⟨h.pages 0 (Nat.succ_pos _), ht, fun k hk => ?_, htokens⟩
  rw [delivery_afterOne]
  exact h.pages (k + 1) (Nat.succ_lt_succ hk)

/-- The items of the pages that a listing starts with stand before what it ends with. -/
private theorem pagesFrom_of_leads {P : Except ApiFailure (List Json) → Prop} {ps : List Page} {tokens : List String}
    (token : Option String) (fuel : Nat) (hq : a.request? .get url none none = some q)
    (h : Leads read a.server ps tokens)
    (hend : ∀ (a' : Api) token, a'.request? .get url none none = some q →
      a'.server.delivery 0 = a.server.delivery ps.length →
      ∃ e, P e ∧ Api.pagesFrom url read token (fuel + 1) a' = (e, a'.afterAll [q.forPage token])) :
    ∃ e, P e ∧ Api.pagesFrom url read token (ps.length + fuel + 1) a =
      (e.map (ps.flatMap Page.items ++ ·), a.afterAll (q.forPage token :: tokens.map q.withToken)) := by
  induction ps generalizing a tokens token with
  | nil =>
    obtain rfl : tokens = [] := List.map_eq_nil_iff.1 h.tokens.symm
    obtain ⟨e, he, hpages⟩ := hend a token hq rfl
    refine ⟨e, he, ?_⟩
    rw [List.length_nil, Nat.zero_add, hpages]
    cases e <;> rfl
  | cons p ps ih =>
    obtain _ | ⟨t, tokens⟩ := tokens
    · exact nomatch h.tokens
    obtain ⟨hp, ht, hlater⟩ := h.tail (q.forPage token)
    obtain ⟨e, he, hpages⟩ := ih (a := a.afterAll [q.forPage token]) (some t) hq hlater
      fun a' token hq hnext => hend a' token hq (hnext.trans (delivery_afterOne _ _))
    refine ⟨e, he, ?_⟩
    rw [List.length_cons, Nat.add_right_comm ps.length, pagesFrom_of_next (exchange_of_page token hq hp) ht, hpages,
      ← a.afterAll_append]
    refine Prod.ext ?_ rfl
    cases e with
    | error f => rfl
    | ok js => exact congrArg Except.ok (List.append_assoc ..).symm

/-- A page is one of the replies. -/
private theorem lt_length_of_page {s : Http.Server} {k : Nat} (h : pageIn? read (s.delivery k) = some p) :
    k < s.replies.length := by
  refine Nat.lt_of_not_le fun hk => ?_
  rw [Http.Server.delivery, List.getElem?_eq_none hk] at h
  split at h <;> exact nomatch h

private theorem reachable_of_page {s : Http.Server} {k : Nat} (h : pageIn? read (s.delivery k) = some p) :
    s.reachable = true := by
  rw [Http.Server.delivery] at h
  split at h
  · assumption
  · exact nomatch h

section Leads

variable {s : Http.Server} {ps : List Page} {tokens : List String} (h : Leads read s ps tokens)

include h

private theorem Leads.length_le : ps.length ≤ s.replies.length := by
  cases hlen : ps.length with
  | zero => exact Nat.zero_le _
  | succ k => exact lt_length_of_page (h.pages k (hlen ▸ Nat.lt_succ_self k))

private theorem Leads.concat {t : String} (hp : pageIn? read (s.delivery ps.length) = some p)
    (ht : p.token? = some t) : Leads read s (ps ++ [p]) (tokens ++ [t]) := by
  refine ⟨fun k hk => ?_, by simp [h.tokens, ht]⟩
  rw [List.length_append, List.length_singleton, Nat.lt_succ_iff_lt_or_eq] at hk
  obtain hk | rfl := hk
  · rw [List.getElem_append_left hk]
    exact h.pages k hk
  · rw [List.getElem_concat_length rfl]
    exact hp

/-- The replies come to an end, and so do the pages that lead on. -/
private theorem Leads.exists_end : ∃ ps tokens, Leads read s ps tokens ∧
    ∀ p, pageIn? read (s.delivery ps.length) = some p → p.token? = none := by
  generalize hleft : s.replies.length - ps.length = left
  induction left generalizing ps tokens with
  | zero => exact ⟨ps, tokens, h, fun p hp => absurd (lt_length_of_page hp) (by omega)⟩
  | succ left ih =>
    cases hp : pageIn? read (s.delivery ps.length) with
    | none => exact ⟨ps, tokens, h, fun p hp' => nomatch hp.symm.trans hp'⟩
    | some p =>
      cases ht : p.token? with
      | none => exact ⟨ps, tokens, h, fun p' hp' => Option.some.inj (hp.symm.trans hp') ▸ ht⟩
      | some t => exact ih (h.concat hp ht) (by rw [List.length_append, List.length_singleton]; omega)

end Leads

end Pages

/-! ### The result -/

section Outcome

variable {kind : Kind} {filter : Filter}

/-- What a listing makes of its items. -/
private def outcome (kind : Kind) (filter : Filter) : Except ApiFailure (List Json) → Except Failure (List Resource)
  | .error f => .error f.toFailure
  | .ok js =>
    match js.mapM (resource? kind) with
    | some rs => .ok (rs.filter filter.admits)
    | none => .error Api.unreadable

private theorem list_eq (a : Api) (kind : Kind) (filter : Filter) :
    a.list kind filter =
      (outcome kind filter (a.pages (a.listing kind filter.scope).1 (a.listing kind filter.scope).2).1,
        (a.pages (a.listing kind filter.scope).1 (a.listing kind filter.scope).2).2) := by
  rw [Api.list]
  obtain ⟨url, read⟩ := a.listing kind filter.scope
  dsimp only
  rcases a.pages url read with ⟨f | js, a'⟩ <;> rfl

private theorem mapM_eq_some_iff {α β : Type} {f : α → Option β} {as : List α} {bs : List β} :
    as.mapM f = some bs ↔ as.map f = bs.map some := by
  induction as generalizing bs with
  | nil => cases bs <;> simp
  | cons a as ih =>
    simp only [List.mapM_cons, List.map_cons, Option.bind_eq_bind, Option.bind_eq_some_iff]
    constructor
    · rintro ⟨b, hb, bs', hbs', h⟩
      cases h
      rw [List.map_cons, hb, ih.1 hbs']
    · intro h
      obtain _ | ⟨b, bs⟩ := bs
      · exact nomatch h
      obtain ⟨hb, hbs⟩ := List.cons.inj h
      exact ⟨b, hb, bs, ih.2 hbs, rfl⟩

theorem kind_of_resource? {j : Json} {r : Resource} (h : resource? kind j = some r) : r.kind = kind := by
  cases kind <;>
  · obtain ⟨x, -, rfl⟩ := Option.map_eq_some_iff.1 h
    rfl

private theorem gathers_outcome (ps : List Page) :
    Gathers kind filter ps (outcome kind filter (.ok (ps.flatMap Page.items))) := by
  refine ⟨fun rs hrs => ?_, fun j hj hnone => ?_⟩
  · rw [outcome, mapM_eq_some_iff.2 hrs]
  · rw [outcome]
    split
    · next rs hrs =>
      have hread := List.mem_map_of_mem (f := resource? kind) hj
      rw [hnone, mapM_eq_some_iff.1 hrs] at hread
      simp at hread
    · rfl

private theorem kind_of_outcome {e : Except ApiFailure (List Json)} {rs : List Resource}
    (h : outcome kind filter e = .ok rs) : ∀ r ∈ rs, r.kind = kind := by
  intro r hr
  cases e with
  | error f => exact nomatch h
  | ok js =>
    rw [outcome] at h
    split at h
    · next rs' hrs' =>
      cases h
      have hread := List.mem_map_of_mem (f := some) (List.mem_filter.1 hr).1
      rw [← mapM_eq_some_iff.1 hrs'] at hread
      obtain ⟨j, -, hj⟩ := List.mem_map.1 hread
      exact kind_of_resource? hj
    · exact nomatch h

theorem ApiFailure.toFailure_eq_transport_iff (f : ApiFailure) :
    (∃ m, f.toFailure = .transport m) ↔ f.isTransient = true := by
  unfold ApiFailure.toFailure
  by_cases h : f.isTransient = true
  · rw [if_pos h]
    exact iff_of_true ⟨_, rfl⟩ h
  · rw [if_neg h]
    refine iff_of_false ?_ h
    rintro ⟨m, hm⟩
    cases f <;> exact nomatch hm

end Outcome

/-! ### What one listing does -/

section List

variable {a : Api} {kind : Kind} {filter : Filter} {q : Http.Request} {ps : List Page} {tokens : List String}

private theorem Begins.pages_of_last (h : Begins a kind filter q ps tokens) {last : Page}
    (hlast : a.pageAt? kind filter ps.length = some last) (hnone : last.token? = none) :
    a.pages (a.listing kind filter.scope).1 (a.listing kind filter.scope).2 =
      (.ok ((ps ++ [last]).flatMap Page.items), a.afterAll (q :: tokens.map q.withToken)) := by
  obtain ⟨fuel, hfuel⟩ := Nat.exists_eq_add_of_le h.toLeads.length_le
  obtain ⟨e, rfl, hpages⟩ := pagesFrom_of_leads (P := (· = .ok last.items)) none fuel h.request
    h.toLeads fun a' token hq hnext =>
      ⟨_, rfl, pagesFrom_of_last (exchange_of_page token hq ((congrArg _ hnext).trans hlast)) hnone⟩
  rw [Api.pages, hfuel, hpages, List.flatMap_append, List.flatMap_singleton]
  rfl

private theorem Begins.pages_of_broken (h : Begins a kind filter q ps tokens)
    (hbroken : a.pageAt? kind filter ps.length = none) :
    ∃ f, a.pages (a.listing kind filter.scope).1 (a.listing kind filter.scope).2 =
        (.error f, a.afterAll (q :: tokens.map q.withToken)) ∧
      (f.isTransient = true ↔ judge (a.server.delivery ps.length) = .again) := by
  obtain ⟨fuel, hfuel⟩ := Nat.exists_eq_add_of_le h.toLeads.length_le
  obtain ⟨e, ⟨f, rfl, hf⟩, hpages⟩ := pagesFrom_of_leads none fuel
    (P := fun e => ∃ f, e = .error f ∧ (f.isTransient = true ↔ judge (a.server.delivery ps.length) = .again)) h.request
    h.toLeads fun a' token hq hnext => by
      obtain ⟨f, hx, hf⟩ := exchange_of_broken token hq ((congrArg _ hnext).trans hbroken)
      rw [hnext] at hf
      exact ⟨_, ⟨f, rfl, hf⟩, pagesFrom_of_error hx⟩
  exact ⟨f, by rw [Api.pages, hfuel, hpages]; rfl, hf⟩

private theorem exists_begins (hq : a.listRequest? kind filter = some q) :
    ∃ ps tokens, Begins a kind filter q ps tokens ∧
      ∀ p, a.pageAt? kind filter ps.length = some p → p.token? = none := by
  have hnone : Leads (a.listing kind filter.scope).2 a.server [] [] := ⟨by simp, rfl⟩
  obtain ⟨ps, tokens, hleads, hend⟩ := hnone.exists_end
  exact ⟨ps, tokens, ⟨hleads, hq⟩, hend⟩

private theorem listRequest?_list (a : Api) (kind : Kind) (filter : Filter) :
    (a.list kind filter).2.listRequest? kind filter = a.listRequest? kind filter := by
  rw [list_eq]
  cases hq : a.listRequest? kind filter with
  | none =>
    rw [Api.pages, pagesFrom_of_error (a.exchange_of_none _ _ _ _ _ hq)]
    exact hq
  | some q =>
    obtain ⟨ps, tokens, h, hend⟩ := exists_begins hq
    cases hp : a.pageAt? kind filter ps.length with
    | none =>
      obtain ⟨f, hpages, -⟩ := h.pages_of_broken hp
      rw [hpages]
      exact hq
    | some p =>
      rw [h.pages_of_last hp (hend p hp)]
      exact hq

/-- Whatever the server delivers, a listing is complete or fails. -/
private theorem listed_list (a : Api) (kind : Kind) (filter : Filter) :
    Listed kind filter a (a.list kind filter).1 (a.list kind filter).2 := by
  have hrequest := listRequest?_list a kind filter
  rw [list_eq] at hrequest ⊢
  dsimp only at hrequest ⊢
  constructor
  case method => exact fun q hq => Api.method_of_request? hq
  case unsent =>
    intro hq
    rw [Api.pages, pagesFrom_of_error (a.exchange_of_none _ _ _ _ _ hq)]
    exact ⟨rfl, _, rfl⟩
  case ends => exact fun q hq => exists_begins hq
  case complete =>
    intro q ps tokens last h hlast hnone
    rw [h.pages_of_last hlast hnone]
    refine ⟨rfl, ?_, gathers_outcome _⟩
    have hreach : a.server.reachable = true := reachable_of_page hlast
    rw [a.received_afterAll, Http.Server.through, if_pos hreach]
  case broken =>
    intro q ps tokens h hbroken
    obtain ⟨f, hpages, hf⟩ := h.pages_of_broken hbroken
    rw [hpages]
    exact ⟨rfl, _, rfl, f.toFailure_eq_transport_iff.trans hf⟩
  case kind_eq => exact fun rs hrs => kind_of_outcome hrs
  case request => exact hrequest

end List

/-! ### One listing after the other -/

section Client

variable {limit n : Nat} {kind : Kind} {filter : Filter} {a a' a'' : Api} {o : Except Failure (List Resource)}

private theorem Relisted.kind_eq {rs : List Resource} (h : Relisted limit kind filter n a (.ok rs) a') :
    ∀ r ∈ rs, r.kind = kind := by
  generalize ho : (Except.ok rs : Except Failure (List Resource)) = o at h
  induction h with
  | last h _ => exact h.kind_eq rs ho.symm
  | givenUp _ => exact nomatch ho
  | again _ _ ih => exact ih ho

private theorem listed_of_served {t : Nat} {o : Except Failure (Call.list kind filter).Value}
    {es : List (Exchange Cloud)} (h : Served a ((⟨t, .list kind filter, o⟩ : Exchange Cloud) :: es) a'') :
    ∃ a', Served a es a' ∧ Listed kind filter a' o a'' := by
  generalize he : (⟨t, .list kind filter, o⟩ : Exchange Cloud) :: es = l at h
  cases h with
  | nil => exact nomatch he
  | @cons _ a' h _ q =>
    obtain ⟨hlatest, rfl⟩ := List.cons.inj he
    obtain rfl : Call.list kind filter = q := congrArg Exchange.query hlatest
    injection hlatest with _ _ hanswer
    rw [hanswer]
    exact ⟨a', h, listed_list a' kind filter⟩

/-- Listings that have failed in transport come before a listing that is attempted again. -/
private theorem relisted_of_lost {es : List (Exchange Cloud)} (h : Served a es a')
    (hes : ∀ e ∈ es, ∃ t m, e = ⟨t, .list kind filter, .error (.transport m)⟩)
    (h' : Relisted limit kind filter n a' o a'') : Relisted limit kind filter (n + es.length) a o a'' := by
  induction es generalizing n a' with
  | nil =>
    cases h
    exact h'
  | cons e es ih =>
    obtain ⟨⟨t, m, rfl⟩, hearlier⟩ := List.forall_mem_cons.1 hes
    obtain ⟨a₁, hbefore, hlisted⟩ := listed_of_served h
    rw [List.length_cons, Nat.add_comm es.length, ← Nat.add_assoc]
    exact ih hbefore hearlier (.again hlisted h')

private theorem relisted_of_request {es : List (Exchange Cloud)} {o : Except Failure (Call.list kind filter).Value}
    (h : Served a es a') (hrequest : Request limit (.list kind filter) o es) :
    Relisted limit kind filter limit a o a' := by
  cases hrequest with
  | @answered t _ lost ho hlost hlimit =>
    obtain ⟨a₁, hbefore, hlisted⟩ := listed_of_served h
    have hlast : Relisted limit kind filter (limit - (lost.length + 1) + 1 + lost.length) a o a' :=
      relisted_of_lost hbefore hlost (.last hlisted ho)
    rwa [Nat.add_right_comm, Nat.add_assoc, Nat.sub_add_cancel hlimit] at hlast
  | @givenUp t m lost hlost hlimit =>
    obtain ⟨a₁, hbefore, hlisted⟩ := listed_of_served h
    have hlast : Relisted limit kind filter (1 + lost.length) a (.error (.transportExhausted limit m)) a' :=
      relisted_of_lost hbefore hlost (.givenUp hlisted)
    rwa [Nat.add_comm, hlimit] at hlast

/-- The client returns what the platform has listed. -/
private theorem relisted_list (c : Client) {w : World Cloud Api} (hw : w.interventions = []) :
    Relisted c.retry.limit kind filter c.retry.limit w.service
      (((c.list kind filter).run.run w).1.map fun rs => rs.map (Resource.ofRecord kind))
      ((c.list kind filter).run.run w).2.service := by
  obtain ⟨es, hes, hserved, -⟩ := (c.send (.list kind filter)).run.run_served hw
  obtain ⟨es', hes', hrequest⟩ := (c.always_send_request (.list kind filter)).run w
  obtain rfl := List.append_cancel_right (hes.symm.trans hes')
  have hrelisted := relisted_of_request hserved hrequest
  rw [Client.list, Action.run_bind]
  generalize (c.send (.list kind filter)).run.run w = x at hrelisted
  obtain ⟨f | rs, w'⟩ := x
  · exact hrelisted
  · obtain ⟨as, has, hrs⟩ := Resource.mapM_ofKind? hrelisted.kind_eq
    have hresult : (ExceptT.mk (.done (rs.mapM (Resource.ofKind? kind))) : Action (List kind.Record)).run.run w' =
        (.ok as, w') := by
      rw [has]
      rfl
    dsimp only
    rw [hresult]
    dsimp only [Except.map]
    rw [hrs]
    exact hrelisted

end Client

/-- The first page is asked for by the address of the listing alone. -/
private theorem url_of_listRequest? {a : Api} {kind : Kind} {filter : Filter} {q : Http.Request}
    (h : a.listRequest? kind filter = some q) : Url.ofText? (a.listing kind filter.scope).1 = some q.url := by
  unfold Api.listRequest? Api.request? at h
  cases hurl : Url.ofText? (a.listing kind filter.scope).1 with
  | none =>
    rw [hurl] at h
    cases h
  | some u =>
    rw [hurl] at h
    simp only [Option.bind_eq_bind, Option.bind_some] at h
    split at h
    · cases h
    · cases h
      rfl

/-- A page with a disk in each of some zones. -/
private def diskPage (zones : List String) (next : String) : Json :=
  let disk (zone : String) : Json :=
    .object [("name", .str zone), ("selfLink", .str ""), ("zone", .str zone), ("sizeGb", .str "1")]
  .object [("items", .object (zones.map fun zone => (zone, .object [("disks", .arr [disk zone])]))),
    ("nextPageToken", .str next)]

/-- A server that is overloaded when the second page is asked for the first time. -/
def interrupted : Api :=
  let first := Response.mk 200 (diskPage ["b", "a"] "a/b").compact
  ⟨.ofProject "project" "token", .ofReplies [.response first, .response ⟨503, ""⟩, .response first,
    .response ⟨200, (diskPage ["a"] "").compact⟩]⟩

end Google

end Fleet
