import Fleet.Http.Url

/-!
# Requests and the server that answers them

A server answers its requests by the replies of a list, one after the other, and with an empty page that is
not found when the list is used up. A server may also be out of reach; then no request gets to it.
-/

namespace Fleet

namespace Http

inductive Method
  | get
  | post
  | delete
  deriving DecidableEq

def Method.text : Method → String
  | get => "GET"
  | post => "POST"
  | delete => "DELETE"

/-- A request as it is sent. -/
structure Request where
  method : Method
  url : Url
  authorization : String
  accept : String
  body : Option String
  deriving DecidableEq

structure Response where
  status : Nat
  body : String
  deriving DecidableEq

namespace Response

def isSuccess (r : Response) : Bool := 200 ≤ r.status && r.status < 300

/-- The answer of a server that has nothing to say. -/
def nothing : Response := ⟨404, ""⟩

end Response

/-- What becomes of a request. -/
inductive Reply
  | response (r : Response)
  /-- The connection is closed without an answer. -/
  | dropped
  deriving DecidableEq

structure Server where
  /-- Whether requests get through to the server at all. -/
  reachable : Bool
  replies : List Reply
  /-- The requests that got through. -/
  received : List Request
  deriving DecidableEq

namespace Server

/-- A server that answers by a list of replies. -/
def ofReplies (rs : List Reply) : Server := ⟨true, rs, []⟩

/-- A server that no request gets to. -/
def unreachable : Server := ⟨false, [], []⟩

/-- Sends a request; no response means that the connection failed. -/
def send (s : Server) (r : Request) : Option Response × Server :=
  if !s.reachable then (none, s)
  else
    let received := s.received ++ [r]
    match s.replies with
    | [] => (some .nothing, { s with received := received })
    | .dropped :: rest => (none, ⟨true, rest, received⟩)
    | .response x :: rest => (some x, ⟨true, rest, received⟩)

end Server

/-- The standard phrases for the status codes. -/
def reasonPhrases : List (Nat × String) :=
  [(100, "Continue"), (101, "Switching Protocols"), (102, "Processing"), (200, "OK"), (201, "Created"),
    (202, "Accepted"), (203, "Non Authoritative Information"), (204, "No Content"), (205, "Reset Content"),
    (206, "Partial Content"), (207, "Multi-Status"), (208, "Already Reported"), (226, "IM Used"),
    (300, "Multiple Choices"), (301, "Moved Permanently"), (302, "Found"), (303, "See Other"),
    (304, "Not Modified"), (305, "Use Proxy"), (307, "Temporary Redirect"), (308, "Permanent Redirect"),
    (400, "Bad Request"), (401, "Unauthorized"), (402, "Payment Required"), (403, "Forbidden"),
    (404, "Not Found"), (405, "Method Not Allowed"), (406, "Not Acceptable"),
    (407, "Proxy Authentication Required"), (408, "Request Timeout"), (409, "Conflict"), (410, "Gone"),
    (411, "Length Required"), (412, "Precondition Failed"), (413, "Payload Too Large"), (414, "URI Too Long"),
    (415, "Unsupported Media Type"), (416, "Range Not Satisfiable"), (417, "Expectation Failed"),
    (418, "I'm a teapot"), (421, "Misdirected Request"), (422, "Unprocessable Entity"), (423, "Locked"),
    (424, "Failed Dependency"), (425, "Too Early"), (426, "Upgrade Required"), (428, "Precondition Required"),
    (429, "Too Many Requests"), (431, "Request Header Fields Too Large"),
    (451, "Unavailable For Legal Reasons"), (500, "Internal Server Error"), (501, "Not Implemented"),
    (502, "Bad Gateway"), (503, "Service Unavailable"), (504, "Gateway Timeout"),
    (505, "HTTP Version Not Supported"), (506, "Variant Also Negotiates"), (507, "Insufficient Storage"),
    (508, "Loop Detected"), (510, "Not Extended"), (511, "Network Authentication Required")]

/-- The standard phrase for a status code. -/
def reasonPhrase (status : Nat) : String := (reasonPhrases.lookup status).getD "unknown error"

/-- Whether a text may be sent in a header: it holds no control characters but tabs. -/
def isHeaderText (s : String) : Bool := s.toList.all fun c => (0x20 ≤ c.toNat && c.toNat ≠ 0x7F) || c = '\t'

end Http

end Fleet
