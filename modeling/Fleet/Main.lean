import Fleet.Cli.Run

/-!
# The command line

Reads the surroundings, runs the command and prints what it says. There is no transport to a server here, so
that the server is out of reach.
-/

namespace Fleet

namespace Cli

/-- The variables that commands look at. -/
def variableNames : List String :=
  ["HOME", "XDG_CONFIG_HOME", "GCEFLOW_CONFIG_PATH", "GCEFLOW_PROJECT", "GCEFLOW_ZONE", "GCEFLOW_ACCESS_TOKEN",
    "CLICOLOR_FORCE", "NO_COLOR"]

/-- What is at a path that commands may look at. -/
def readEntry (path : String) : IO (String × Entry) := do
  try return (path, .file (String.fromUTF8? (← IO.FS.readBinFile path)))
  catch _ => return (path, .missing)

/-- The host with the files at the given paths. -/
def hostWith (env : Variables) (directory : String) (paths : List String) : IO Host := do
  let entries ← paths.mapM readEntry
  return ⟨env, directory, fun path => (entries.lookup path).getD .missing⟩

/-- The host as far as commands look at it: the files of settings, and the key that the settings name. -/
def thisHost : IO Host := do
  let values ← variableNames.mapM fun name => return (name, ← IO.getEnv name)
  let env : Variables := fun name => (values.lookup name).bind id
  let directory := toString (← IO.currentDir)
  let bare : Host := ⟨env, directory, fun _ => .missing⟩
  let paths := (env "GCEFLOW_CONFIG_PATH").toList ++ Settings.searchPaths directory bare.configurations?
  let h ← hostWith env directory paths
  match (Settings.load h).toOption.bind fun s => s.node.publicKeyPath with
  | none => return h
  | some key => hostWith env directory (h.expand key :: paths)

end Cli

end Fleet

def main (args : List String) : IO UInt32 := do
  let outcome := Fleet.Cli.run (← Fleet.Cli.thisHost) .unreachable args
  IO.print outcome.output
  IO.eprint outcome.complaint
  return outcome.status.toUInt32
