import Fleet.Google.Platform
import Fleet.Group
import Fleet.Settings.Location

/-!
# From settings to work

Settings lead to the access to a project and to the manager of its groups. The template of a launch is what
the settings say of nodes, with what the user asks for this time in its place.
-/

namespace Fleet

/-- What the user asks of the nodes of a launch instead of what is settled. -/
structure NodeOverrides where
  tags : List String
  network : Option String
  ports : List Nat
  machineType : Option String
  image : Option String
  diskSizeGb : Option Nat
  deriving DecidableEq

/-- Why work cannot begin. -/
inductive SetupFailure
  | settings (f : SettingsFailure)
  | noToken
  | api (f : Google.ApiFailure)
  /-- The user's public key cannot be read. -/
  | noKey (path : String)
  deriving DecidableEq

def SetupFailure.message : SetupFailure → String
  | settings f => f.message
  | noToken =>
    "アクセストークンがありません。gceflow.yaml の access_token または GCEFLOW_ACCESS_TOKEN を設定してください"
  | api f => f.message
  | noKey path => "公開鍵 " ++ path ++ " を読み込めません"

structure Setup where
  settings : Settings
  config : Google.Config
  manager : Manager

namespace Setup

/-- The access to the project of the settings. -/
def configOf (s : Settings) (token : String) : Google.Config :=
  let usual := Google.Config.ofProject s.project token
  { usual with apiBase := s.apiBase.getD usual.apiBase }

def ofSettings (s : Settings) : Except SetupFailure Setup := do
  match s.accessToken with
  | none => throw .noToken
  | some token =>
    let config := configOf s token
    config.validate.mapError .api
    return ⟨s, config, ⟨⟨s.retry, s.poll⟩, s.concurrency, s.networkStem⟩⟩

/-- The setup by the settings that a host has. -/
def load (h : Host) : Except SetupFailure Setup := do ofSettings (← (Settings.load h).mapError .settings)

/-- The login of new nodes, if a user and a key are settled. -/
def login (u : Setup) (h : Host) : Except SetupFailure (Option Login) :=
  match u.settings.node.loginUser, u.settings.node.publicKeyPath with
  | some user, some path =>
    match (h.look (h.expand path)).text? with
    | some key => .ok (some ⟨user, key⟩)
    | none => .error (.noKey (h.expand path))
  | _, _ => .ok none

def template (u : Setup) (h : Host) (o : NodeOverrides) : Except SetupFailure NodeTemplate := do
  let zone := u.settings.zone
  let usual := u.settings.node
  let machineType := u.config.machineTypeLink zone (o.machineType.getD usual.machineType)
  let image := u.config.imageLink (o.image.getD usual.image)
  return { NodeTemplate.plain zone machineType image with
    tags := o.tags
    diskSizeGb := o.diskSizeGb.getD usual.diskSizeGb
    externalIp := usual.externalIp
    inboundPorts := if o.ports = [] then usual.inboundPorts else o.ports
    network := o.network
    login := ← u.login h }

/-- The project as it is held by a server. -/
def world (u : Setup) (s : Http.Server) : World Cloud Google.Api := .start ⟨u.config, s⟩ 0

end Setup

end Fleet
