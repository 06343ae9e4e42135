import Fleet.Settings.Reader

/-!
# Where settings are found

A file of settings is looked for in the working directory, then in its directory `.gceflow`, and at last
among the user's configurations. A variable may name the file instead; then no other one counts.
-/

namespace Fleet

namespace Settings

/-- The names of the file, those for local use first. -/
def fileNames : List String := ["gceflow.local.yaml", ".gceflow.local.yaml", "gceflow.yaml", ".gceflow.yaml"]

/-- The places where the file is looked for, the first one first. -/
def searchPaths (dir : String) (configurations : Option String) : List String :=
  [dir, Path.join dir ".gceflow"].flatMap (fun d => fileNames.map (Path.join d)) ++
    (configurations.map fun c => Path.join (Path.join c "gceflow") "gceflow.yaml").toList

/-- The path of the file. -/
def find (h : Host) : Except SettingsFailure String :=
  match h.env "GCEFLOW_CONFIG_PATH" with
  | some path => if (h.look path).isFile then .ok path else .error (.pathMissing path)
  | none =>
    let searched := searchPaths h.directory h.configurations?
    match searched.find? fun p => (h.look p).isFile with
    | some path => .ok path
    | none => .error (.notFound searched)

/-- The settings in force: those of the file with the environment variables applied, if they are sound. -/
def load (h : Host) : Except SettingsFailure Settings := do
  let path ← find h
  match (h.look path).text? with
  | none => throw .inaccessible
  | some text =>
    let s := (← ofText text).withVariables h.env
    s.validate
    return s

/-- The directory of the user's configuration and the tree in which it is there. -/
def provideDirectory (h : Host) (t : FileTree) : Except SettingsFailure (String × FileTree) :=
  match h.configurations? with
  | none => .error .noDirectory
  | some c =>
    let path := Path.join c "gceflow"
    if t.look h.directory path = .missing then
      match t.makeDirectory? h.directory path with
      | some t => .ok (path, t)
      | none => .error .inaccessible
    else .ok (path, t)

end Settings

end Fleet
