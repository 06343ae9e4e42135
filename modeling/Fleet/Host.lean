import Fleet.Files

/-!
# The surroundings of a command

The environment variables, the working directory and the files that a command finds.
-/

namespace Fleet

/-- The values of environment variables. -/
abbrev Variables := String → Option String

structure Host where
  env : Variables
  directory : String
  look : String → Entry

namespace Host

/-- A host whose files are those of a tree. -/
def ofTree (env : Variables) (directory : String) (t : FileTree) : Host :=
  ⟨env, directory, t.look directory⟩

def home? (h : Host) : Option String := (h.env "HOME").filter (· ≠ "")

/-- Where the user's configurations are. -/
def configurations? (h : Host) : Option String :=
  match (h.env "XDG_CONFIG_HOME").filter Path.isAbsolute with
  | some path => some path
  | none => h.home?.map (Path.join · ".config")

/-- The path that a path stands for which may start in the home directory. -/
def expand (h : Host) (path : String) : String :=
  match Path.underHome? path, h.home? with
  | some rest, some home => Path.join home rest
  | _, _ => path

end Host

end Fleet
