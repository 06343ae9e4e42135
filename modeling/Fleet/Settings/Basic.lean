import Fleet.Backoff
import Fleet.Host
import Fleet.Text.Blank

/-!
# Settings

What the user has settled once for all commands: the project and how it is reached, the pace of retries and
polls, and what nodes look like unless told otherwise.
-/

namespace Fleet

/-- What the nodes of a launch look like unless told otherwise. -/
structure NodeDefaults where
  machineType : String
  /-- An image as `<project>/<image>`, as an image of the own project, or as a full link. -/
  image : String
  diskSizeGb : Nat
  inboundPorts : List Nat
  externalIp : Bool
  loginUser : Option String
  publicKeyPath : Option String
  deriving DecidableEq

def NodeDefaults.standard : NodeDefaults where
  machineType := "f1-micro"
  image := "debian-cloud/debian-7-wheezy-v20140718"
  diskSizeGb := 10
  inboundPorts := [22]
  externalIp := true
  loginUser := none
  publicKeyPath := none

structure Settings where
  project : String
  zone : String
  accessToken : Option String
  apiBase : Option String
  /-- What the names of the groups' own networks start with. -/
  networkStem : String
  concurrency : Nat
  poll : PollPolicy
  retry : RetryPolicy
  node : NodeDefaults

/-- What can be wrong with settings that could be read. -/
inductive SettingsFault
  | emptyProject
  | emptyZone
  | noConcurrency
  | noAttempts
  | noPorts
  deriving DecidableEq

def SettingsFault.text : SettingsFault → String
  | emptyProject => "project が空です"
  | emptyZone => "zone が空です"
  | noConcurrency => "concurrency は 1 以上にしてください"
  | noAttempts => "retry.max_attempts は 1 以上にしてください"
  | noPorts => "node.inbound_ports にポートを 1 つ以上指定してください"

/-- Why there are no settings. -/
inductive SettingsFailure
  | noDirectory
  | notFound (searched : List String)
  /-- The variable that names the file names none. -/
  | pathMissing (path : String)
  | unsound (fault : SettingsFault)
  | malformed
  | inaccessible
  deriving DecidableEq

def SettingsFailure.message : SettingsFailure → String
  | noDirectory => "設定ディレクトリが見つかりません"
  | notFound searched =>
    "設定ファイルが見つかりません。以下の場所を確認しました:\n" ++
      String.intercalate "\n" (searched.map ("- " ++ ·)) ++
      "\nGCEFLOW_CONFIG_PATH 環境変数で直接指定することもできます"
  | pathMissing path => "GCEFLOW_CONFIG_PATH が存在しないファイルを指しています: " ++ path
  | unsound fault => "設定が不正です: " ++ fault.text
  | malformed => "YAML パースエラー: the document does not hold settings"
  | inaccessible => "IO エラー: the file or directory is not accessible"

namespace Settings

/-- The settings for a project that leave everything as usual. -/
def forProject (project : String) : Settings where
  project := project
  zone := "us-central1-a"
  accessToken := none
  apiBase := none
  networkStem := "gceflow"
  concurrency := 4
  poll := .standard
  retry := .standard
  node := .standard

/-- Environment variables have precedence over the file. -/
def withVariables (s : Settings) (env : Variables) : Settings :=
  { s with
    project := (env "GCEFLOW_PROJECT").getD s.project
    zone := (env "GCEFLOW_ZONE").getD s.zone
    accessToken := (env "GCEFLOW_ACCESS_TOKEN").or s.accessToken }

/-- The first thing that is wrong with the settings. -/
def fault? (s : Settings) : Option SettingsFault :=
  if Text.trim s.project = "" then some .emptyProject
  else if Text.trim s.zone = "" then some .emptyZone
  else if s.concurrency = 0 then some .noConcurrency
  else if s.retry.maxAttempts = 0 then some .noAttempts
  else if s.node.inboundPorts = [] then some .noPorts
  else none

def validate (s : Settings) : Except SettingsFailure Unit :=
  match s.fault? with
  | some fault => .error (.unsound fault)
  | none => .ok ()

end Settings

end Fleet
