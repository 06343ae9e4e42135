import Fleet.Cli.Style
import Fleet.Report

/-!
# What commands print

The lines on nodes, failures and networks, with the words that stand out painted.
-/

namespace Fleet

namespace Cli

/-- A text filled up with spaces to a width. -/
def padded (width : Nat) (s : String) : String := s ++ "".pushn ' ' (width - s.length)

/-- A duration in seconds with one decimal place. -/
def seconds (ms : Nat) : String :=
  let tenths := (ms + 50) / 100
  toString (tenths / 10) ++ "." ++ toString (tenths % 10)

def imageName (n : Node) : String := n.image.elim "-" (·.id)

/-- The line on a new node. -/
def nodeLine (paint : Paint) (n : Node) : String :=
  "  " ++ paint .green "✓" ++ " " ++ paint .bold n.id.text ++ " " ++
    paint .cyan (String.intercalate "," n.publicIps) ++ " " ++ paint .dimmed (imageName n)

def failureLine (paint : Paint) (f : FailedNode) : String :=
  "  " ++ paint .red "✗" ++ " " ++ paint .bold f.name ++ ": " ++ f.failure.message

/-- The lines on what became of a network. -/
def networkLines (paint : Paint) : NetworkOutcome → List String
  | .reclaimed network firewalls =>
    ["  " ++ paint .green "✓" ++ " ネットワーク " ++ paint .cyan network ++ " を回収しました (ファイアウォール " ++
      toString firewalls.length ++ " 件)"]
  | .inUse network remaining =>
    ["  " ++ paint .dimmed "•" ++ " ネットワーク " ++ paint .cyan network ++
      " は使用中のため残します (インスタンス " ++ toString remaining ++ " 台)"]
  | .retained network =>
    ["  " ++ paint .dimmed "•" ++ " ネットワーク " ++ paint .cyan network ++ " は回収対象なし"]
  | .failed network message =>
    ["  " ++ paint .red "✗" ++ " ネットワーク " ++ paint .cyan network ++ " の回収に失敗: " ++ message,
      "    " ++ paint .yellow "再実行:" ++ " gceflow reclaim " ++ network]

def launchLines (paint : Paint) (r : LaunchReport) : List String :=
  r.nodes.map (nodeLine paint) ++ r.failed.map (failureLine paint) ++ r.shared.flatMap (networkLines paint) ++
    ["作成 " ++ paint .green (toString r.created.length) ++ " 台、失敗 " ++
      paint .red (toString r.failed.length) ++ " 台 (" ++ seconds r.durationMs ++ "秒)"]

def teardownLines (paint : Paint) (r : TeardownReport) : List String :=
  let nothing := if r.destroyed.isEmpty && r.failed.isEmpty then [paint .dimmed "グループにノードがありません"] else []
  nothing ++ r.destroyed.map (fun name => "  " ++ paint .green "✓" ++ " " ++ name) ++
    r.failed.map (failureLine paint) ++ r.shared.flatMap (networkLines paint)

/-! ### The table of nodes -/

/-- The style of a state. -/
def statusStyle : InstanceStatus → Style
  | .running => .green
  | .provisioning => .yellow
  | .staging => .yellow
  | _ => .red

/-- A line of the table. The third cell is padded already. -/
def row (id group status privateIp publicIp image : String) : String :=
  String.intercalate " "
    [padded 36 id, padded 12 group, status, padded 16 privateIp, padded 16 publicIp, padded 28 image]

def nodeRow (paint : Paint) (n : Node) : String :=
  row n.id.text (n.group.getD "-") (paint (statusStyle n.status) (padded 12 n.status.text))
    (n.privateIps.head?.getD "-") (n.publicIps.head?.getD "-") (imageName n)

/-- The table of nodes, or a line that says that there are none. -/
def tableLines (paint : Paint) (ns : List Node) : List String :=
  if ns.isEmpty then [paint .dimmed "ノードがありません"]
  else
    paint .bold (row "NODE" "GROUP" (padded 12 "STATUS") "PRIVATE IP" "PUBLIC IP" "IMAGE") ::
      paint .dimmed ("".pushn '─' 124) :: ns.map (nodeRow paint)

end Cli

end Fleet
