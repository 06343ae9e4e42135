import Fleet.Google.Config
import Fleet.Google.Payload
import Fleet.Google.Response
import Fleet.Http.Server
import Fleet.Json.Printer
import Fleet.Platform.Basic

/-!
# The Google platform

Each call becomes one request to the API, and a listing as many as it has pages. A refusal is read from the
body of the response, or from its status when the body does not say.
-/

namespace Fleet

namespace Google

/-- A project together with the server that holds it. -/
structure Api where
  config : Config
  server : Http.Server

namespace Api

/-- Access to a project needs a sound configuration. -/
def ofConfig (c : Config) (s : Http.Server) : Except ApiFailure Api := c.validate.map fun _ => ⟨c, s⟩

def collectionUrl (a : Api) (kind : Kind) (scope : Scope) : String :=
  a.config.projectUrl ++ "/" ++ (if kind.isZonal then scope else .global).path ++ "/" ++ kind.collection

def resourceUrl (a : Api) (kind : Kind) (scope : Scope) (name : String) : String :=
  a.collectionUrl kind scope ++ "/" ++ name

/-- The request for an address with a token for the page, if it can be made out. -/
def request? (a : Api) (method : Http.Method) (url : String) (pageToken : Option String) (body : Option Json) :
    Option Http.Request := do
  let u ← Url.ofText? url
  let authorization := "Bearer " ++ a.config.accessToken
  if !Http.isHeaderText authorization then none
  let u := match pageToken with
    | some t => u.withParameter "pageToken" t
    | none => u
  return ⟨method, u, authorization, "application/json", body.map Json.compact⟩

/-- What a refusal says: the first of the single errors gives the reason, and the message where the body has
none. -/
def refusal (r : Http.Response) : ApiFailure :=
  match (Json.parse? r.body).bind errorEnvelope? with
  | some e =>
    let (reason, message) := e.errors.head?.getD ("", "")
    .refused e.code reason (if e.message = "" then message else e.message)
  | none => .refused r.status "" (Http.reasonPhrase r.status)

/-- Reads the response to a request for something that `read` understands. -/
def received {α : Type} (read : Json → Option α) (r : Http.Response) : Except ApiFailure α :=
  if r.isSuccess then
    match (Json.parse? r.body).bind read with
    | some x => .ok x
    | none => .error (.exchange "error decoding response body")
  else .error (refusal r)

/-- Sends a request and reads the response. -/
def exchange {α : Type} (a : Api) (method : Http.Method) (url : String) (pageToken : Option String)
    (body : Option Json) (read : Json → Option α) : Except ApiFailure α × Api :=
  match a.request? method url pageToken body with
  | none => (.error (.exchange "builder error"), a)
  | some r =>
    let (response, server) := a.server.send r
    let a := { a with server := server }
    match response with
    | none => (.error (.connection ("error sending request for url (" ++ r.url.text ++ ")")), a)
    | some x => (received read x, a)

/-- The items of all pages from a page on. The number of pages is bounded by `fuel`, of which the server's
replies leave enough. -/
def pagesFrom (url : String) (read : Json → Option Page) (token : Option String) :
    Nat → Api → Except ApiFailure (List Json) × Api
  | 0, a => (.error (.exchange "too many pages"), a)
  | fuel + 1, a =>
    match a.exchange .get url token none read with
    | (.error f, a) => (.error f, a)
    | (.ok p, a) =>
      match p.next with
      | none => (.ok p.items, a)
      -- An empty token means the same as none.
      | some "" => (.ok p.items, a)
      | some t =>
        let (more, a) := pagesFrom url read (some t) fuel a
        (more.map (p.items ++ ·), a)

/-- The items of a listing. -/
def pages (a : Api) (url : String) (read : Json → Option Page) : Except ApiFailure (List Json) × Api :=
  pagesFrom url read none (a.server.replies.length + 1) a

/-- Where a kind is listed and how a page is read: zonal resources of all scopes are listed by scope. -/
def listing (a : Api) (kind : Kind) (scope : Option Scope) : String × (Json → Option Page) :=
  match kind.isZonal, scope with
  | true, some (.zone z) => (a.collectionUrl kind (.zone z), page?)
  | true, _ => (a.config.projectUrl ++ "/aggregated/" ++ kind.collection, aggregatedPage? kind.collection)
  | false, _ => (a.collectionUrl kind .global, page?)

/-- The failure of a resource that cannot be read. -/
def unreadable : Failure := .malformed "unexpected form"

def get (a : Api) (kind : Kind) (scope : Scope) (name : String) : Except Failure (Option Resource) × Api :=
  let (r, a) := a.exchange .get (a.resourceUrl kind scope name) none none (Json.asSound Json.depthLimit)
  (match r with
    | .ok j =>
      match resource? kind j with
      | some x => .ok (some x)
      | none => .error unreadable
    -- That there is no such resource is an answer, not a failure.
    | .error (.refused 404 _ _) => .ok none
    | .error f => .error f.toFailure, a)

def list (a : Api) (kind : Kind) (filter : Filter) : Except Failure (List Resource) × Api :=
  let (url, read) := a.listing kind filter.scope
  let (items, a) := a.pages url read
  (match items with
    | .error f => .error f.toFailure
    | .ok js =>
      match js.mapM (resource? kind) with
      | some rs => .ok (rs.filter filter.admits)
      | none => .error unreadable, a)

/-- Sends a change and returns the handle of its operation. -/
def mutate (a : Api) (method : Http.Method) (url : String) (body : Option Json) (kind : Kind) (name : String)
    (scope : Scope) : Except Failure OperationHandle × Api :=
  let (r, a) := a.exchange method url none body operationReport?
  (match r with
    | .ok o => .ok (o.handle kind name scope)
    | .error f => .error f.toFailure, a)

def operation (a : Api) (h : OperationHandle) : Except Failure Operation × Api :=
  let (r, a) := a.exchange .get h.selfLink none none operationReport?
  (match r with
    | .ok o => .ok (o.snapshot h)
    | .error f => .error f.toFailure, a)

def answer : (c : Call) → Api → Except Failure c.Value × Api
  | .get kind scope name, a => a.get kind scope name
  | .list kind filter, a => a.list kind filter
  | .insert scope spec, a =>
    a.mutate .post (a.collectionUrl spec.kind scope) (some (payload spec)) spec.kind spec.name scope
  | .delete kind scope name, a => a.mutate .delete (a.resourceUrl kind scope name) none kind name scope
  | .setTags kind scope name tags, a =>
    a.mutate .post (a.resourceUrl kind scope name ++ "/setTags") (some (tagsPayload tags)) kind name scope
  | .operation h, a => a.operation h

end Api

instance : Platform Api where
  answer := Api.answer
  name := "google-compute-engine"

end Google

end Fleet
