import Fleet.Google.Failure
import Fleet.Resource.Kind

/-!
# Access to a project

Where the API is, which project is worked on and with which token, and the full links that image and machine
type names stand for.
-/

namespace Fleet

namespace Google

structure Config where
  project : String
  accessToken : String
  apiBase : String
  timeoutMs : Nat
  deriving DecidableEq

namespace Config

def defaultApiBase : String := "https://www.googleapis.com/compute/v1"

/-- The configuration for a project at the usual place. -/
def ofProject (project accessToken : String) : Config := ⟨project, accessToken, defaultApiBase, 30000⟩

/-- The configuration that environment variables give. -/
def ofVariables? (env : String → Option String) : Except ApiFailure Config :=
  match env "GCEFLOW_PROJECT", env "GCEFLOW_ACCESS_TOKEN" with
  | none, _ => .error (.missingVariable "GCEFLOW_PROJECT")
  | _, none => .error (.missingVariable "GCEFLOW_ACCESS_TOKEN")
  | some project, some token =>
    let c := ofProject project token
    .ok { c with apiBase := (env "GCEFLOW_API_BASE").getD c.apiBase }

/-- The place of the API without slashes at its end. -/
def root (c : Config) : String := String.ofList ((c.apiBase.toList.reverse.dropWhile (· = '/')).reverse)

def projectUrl (c : Config) : String := c.root ++ "/projects/" ++ c.project

/-- Whether a text is taken for a full link. -/
def isFullLink (s : String) : Bool := "https://".toList.isPrefixOf s.toList

/-- The link of an image: a full link, `<project>/<image>`, or an image of the own project. -/
def imageLink (c : Config) (image : String) : String :=
  if isFullLink image then image
  else
    match Text.splitFirst '/' image.toList with
    | some (project, name) =>
      c.root ++ "/projects/" ++ String.ofList project ++ "/global/images/" ++ String.ofList name
    | none => c.projectUrl ++ "/global/images/" ++ image

/-- The link of a machine type: a full link, or a machine type of the zone. -/
def machineTypeLink (c : Config) (zone machineType : String) : String :=
  if isFullLink machineType then machineType
  else c.projectUrl ++ "/zones/" ++ zone ++ "/machineTypes/" ++ machineType

/-- A configuration needs a project and a token. -/
def validate (c : Config) : Except ApiFailure Unit :=
  if c.project = "" then .error (.invalidConfig "project is empty")
  else if c.accessToken = "" then .error (.invalidConfig "access token is empty")
  else .ok ()

end Config

end Google

end Fleet
