import Fleet.Failure

/-!
# Failures of the Google API

What can go wrong between the client and the API, and what it means for the work on resources: trouble with
the connection and an overloaded server are worth another attempt, everything else is final.
-/

namespace Fleet

namespace Google

inductive ApiFailure
  | missingVariable (name : String)
  | invalidConfig (message : String)
  /-- The server could not be reached. -/
  | connection (message : String)
  /-- The request could not be made out or its answer could not be read. -/
  | exchange (message : String)
  /-- The API refused the request. -/
  | refused (status : Nat) (reason message : String)
  /-- A resource is not the JSON that it should be. -/
  | malformed (message : String)
  deriving DecidableEq

namespace ApiFailure

def message : ApiFailure → String
  | missingVariable n => "Environment variable not set: " ++ n
  | invalidConfig m => "Invalid configuration: " ++ m
  | connection m => "HTTP error: " ++ m
  | exchange m => "HTTP error: " ++ m
  | refused s r m => "API error " ++ toString s ++ " (" ++ r ++ "): " ++ m
  | malformed m => "JSON parse error: " ++ m

/-- Too many requests and errors of the server pass, and so does trouble with the connection. -/
def isTransient : ApiFailure → Bool
  | connection _ => true
  | refused s _ _ => s = 429 || 500 ≤ s
  | _ => false

/-- The code of a refusal: two statuses have their meaning whatever the reason is, otherwise the reason
decides, and the status where there is none. -/
def codeOf (status : Nat) (reason : String) : ErrorCode :=
  if status = 404 then .notFound
  else if status = 412 then .conditionNotMet
  else if reason = "" then .other (toString status)
  else .ofText reason

def toFailure (f : ApiFailure) : Failure :=
  if f.isTransient then .transport f.message
  else
    match f with
    | refused s r m => .rejected (codeOf s r) m
    | malformed m => .malformed m
    | connection m => .rejected (.other "http") m
    | exchange m => .rejected (.other "http") m
    | f => .invalidConfig f.message

end ApiFailure

end Google

end Fleet
