import Fleet.Cli.Command
import Fleet.Cli.Output

/-!
# Running commands

A command is checked before the settings are read, and says what it is about to do before it does it. What it
printed until then stays when it fails.
-/

namespace Fleet

namespace Cli

/-- Why a command failed. -/
inductive CommandFailure
  | setup (f : SetupFailure)
  | platform (f : Failure)
  | notLaunched (count : Nat)
  | notDestroyed (count : Nat)
  | sharedNotReclaimed
  | notReclaimed (network : String)
  deriving DecidableEq

def CommandFailure.message : CommandFailure → String
  | setup f => f.message
  | platform f => f.message
  | notLaunched count => toString count ++ " 台のノードの作成に失敗しました"
  | notDestroyed count => toString count ++ " 台のノードを削除できませんでした"
  | sharedNotReclaimed => "共有リソースの回収に失敗しました"
  | notReclaimed network => "ネットワーク " ++ network ++ " の回収に失敗しました"

/-- What a command printed, and why it failed if it did. -/
structure Transcript where
  lines : List String
  failure : Option CommandFailure
  deriving DecidableEq

namespace Transcript

def done (lines : List String) : Transcript := ⟨lines, none⟩

def failed (lines : List String) (f : CommandFailure) : Transcript := ⟨lines, some f⟩

/-- The transcript of a heading followed by what comes of a result. -/
def headed {α : Type} (heading : List String) (r : Except Failure α) (rest : α → Transcript) : Transcript :=
  match r with
  | .error f => failed heading (.platform f)
  | .ok a => ⟨heading ++ (rest a).lines, (rest a).failure⟩

end Transcript

open Transcript

/-- How a command is run that has been set up. -/
structure Bench where
  host : Host
  setup : Setup
  world : World Cloud Google.Api
  paint : Paint

namespace Bench

variable (b : Bench)

def create (group : String) (count : Nat) (o : NodeOverrides) : Transcript :=
  match b.setup.template b.host o with
  | .error f => failed [] (.setup f)
  | .ok t =>
    let heading := "グループ " ++ b.paint .cyan group ++ " にノードを " ++ toString count ++ " 台作成します (" ++
      b.setup.settings.zone ++ ")"
    headed [heading] (b.setup.manager.launch group count t b.world).1 fun r =>
      ⟨launchLines b.paint r, if r.isSuccess then none else some (.notLaunched r.failed.length)⟩

def destroy (id : NodeId) : Transcript :=
  headed [b.paint .cyan id.text ++ " を削除します"] ((b.setup.manager.destroyNode id).run.run b.world).1 fun shared =>
    let nothing := if shared.isEmpty then [b.paint .dimmed "  回収対象なし"] else []
    done (("  " ++ b.paint .green "✓" ++ " " ++ id.text) :: nothing ++ shared.flatMap (networkLines b.paint))

/-- Why the teardown of a group counts as failed. -/
def teardownFailure? (r : TeardownReport) : Option CommandFailure :=
  if r.isSuccess then none
  else if r.failed.isEmpty then some .sharedNotReclaimed
  else some (.notDestroyed r.failed.length)

def destroyGroup (group : String) : Transcript :=
  headed ["グループ " ++ b.paint .cyan group ++ " を削除します"] (b.setup.manager.destroyGroup group b.world).1 fun r =>
    ⟨teardownLines b.paint r, teardownFailure? r⟩

def reclaim (network : String) : Transcript :=
  headed ["ネットワーク " ++ b.paint .cyan network ++ " を回収します"]
    ((b.setup.manager.client.reclaimNetwork network).run.run b.world).1 fun o =>
      ⟨networkLines b.paint o, if o.isFailed then some (.notReclaimed network) else none⟩

def list (group : Option String) : Transcript :=
  headed [] ((b.setup.manager.nodes group).run.run b.world).1 fun ns => done (tableLines b.paint ns)

end Bench

/-- Runs something that needs a setup. -/
def withSetup (h : Host) (s : Http.Server) (act : Bench → Transcript) : Transcript :=
  match Setup.load h with
  | .error f => failed [] (.setup f)
  | .ok u => act ⟨h, u, u.world s, .ofVariables h.env⟩

/-- Runs a command. An identifier of a node is checked before the settings are read. -/
def perform (h : Host) (s : Http.Server) : Command → Transcript
  | .version => done ["gceflow 0.3.0"]
  | .create group count o => withSetup h s fun b => b.create group count o
  | .destroy node =>
    match NodeId.ofText? node with
    | .error f => failed [] (.platform f)
    | .ok id => withSetup h s fun b => b.destroy id
  | .destroyGroup group => withSetup h s fun b => b.destroyGroup group
  | .reclaim network => withSetup h s fun b => b.reclaim network
  | .list group => withSetup h s fun b => b.list group

/-- What a call leaves behind: its exit status, its output and its complaint. -/
structure Outcome where
  status : Nat
  output : String
  complaint : String
  deriving DecidableEq

/-- How to call the commands. -/
def usage : String :=
  String.join (["Compute Engine のノードグループを作成・削除する", "", "Usage: gceflow <COMMAND>", "", "Commands:",
    "  create         グループにノードを作成",
    "  destroy        ノードを削除し、使われなくなったネットワークを回収",
    "  destroy-group  グループの全ノードを削除",
    "  reclaim        ネットワークとファイアウォールを回収（インスタンスが残っていれば何もしない）",
    "  list           ノードの一覧を表示",
    "  version        バージョンを表示"].map (· ++ "\n"))

def Transcript.outcome (t : Transcript) : Outcome :=
  let output := String.join (t.lines.map (· ++ "\n"))
  match t.failure with
  | none => ⟨0, output, ""⟩
  | some f => ⟨1, output, "Error: " ++ f.message ++ "\n"⟩

/-- Runs the command that arguments ask for. -/
def run (h : Host) (s : Http.Server) (args : List String) : Outcome :=
  match Command.read? args with
  | none => ⟨2, "", usage⟩
  | some .help => ⟨0, usage, ""⟩
  | some (.run c) => (perform h s c).outcome

end Cli

end Fleet
