import Fleet.Text.Segments

/-!
# Paths and files

A path is a text of names between slashes. A tree of files says what is at each path; its directories are
those that hold a file and those that were made.
-/

namespace Fleet

namespace Path

def isAbsolute (path : String) : Bool := path.startsWith "/"

/-- The path of `name` as seen from `dir`. -/
def join (dir name : String) : String :=
  if isAbsolute name || dir = "" then name
  else if dir.endsWith "/" then dir ++ name
  else dir ++ "/" ++ name

/-- The names that a path consists of; some may be empty. -/
def names (path : String) : List String := (Text.segments '/' path.toList).map String.ofList

def isIdle (name : String) : Bool := name = "" || name = "."

/-- What follows the name `~` at the start of a path, without idle names at either end. -/
def underHome? (path : String) : Option String :=
  match names path with
  | "~" :: rest =>
    let rest := ((rest.dropWhile isIdle).reverse.dropWhile isIdle).reverse
    some (String.intercalate "/" rest)
  | _ => none

end Path

/-- What is at a path. -/
inductive Entry
  | missing
  | directory
  /-- A file with its text, if it holds one. -/
  | file (text : Option String)
  deriving DecidableEq

namespace Entry

def isFile : Entry → Bool
  | file _ => true
  | _ => false

def text? : Entry → Option String
  | file text => text
  | _ => none

end Entry

/-- Files and directories by the names that lead there from the root. -/
structure FileTree where
  files : List (List String × String)
  made : List (List String)

namespace FileTree

def empty : FileTree := ⟨[], []⟩

def entryAt (t : FileTree) (place : List String) : Entry :=
  match t.files.lookup place with
  | some text => .file (some text)
  | none =>
    if place = [] || t.files.any (fun f => place.isPrefixOf f.1) || t.made.any place.isPrefixOf then .directory
    else .missing

/-- Where a name leads from a directory. -/
def stepTo (place : List String) (name : String) : List String :=
  if Path.isIdle name then place
  else if name = ".." then place.dropLast
  else place ++ [name]

/-- Follows names from a place; only directories lead on. -/
def follow? (t : FileTree) (place : List String) : List String → Option (List String)
  | [] => some place
  | name :: names => if t.entryAt place = .directory then t.follow? (stepTo place name) names else none

/-- The place where a path starts for someone in the directory `dir`. -/
def origin (dir path : String) : List String :=
  if Path.isAbsolute path then [] else (Path.names dir).filter fun n => !Path.isIdle n

/-- What is at a path for someone in the directory `dir`. -/
def look (t : FileTree) (dir path : String) : Entry :=
  if path = "" then .missing
  else (t.follow? (origin dir path) (Path.names path)).elim .missing t.entryAt

/-- Puts a file into the tree. -/
def put (t : FileTree) (dir path text : String) : FileTree :=
  let place := (Path.names path).foldl stepTo (origin dir path)
  { t with files := (place, text) :: t.files.filter fun f => f.1 != place }

/-- Makes the directories on the way that are missing; a file in the way is an obstacle. -/
def makeWay? (t : FileTree) (place : List String) : List String → Option FileTree
  | [] => some t
  | name :: names =>
    let place := stepTo place name
    match t.entryAt place with
    | .file _ => none
    | .directory => t.makeWay? place names
    | .missing => makeWay? { t with made := place :: t.made } place names

/-- Makes a directory and those that lead there. -/
def makeDirectory? (t : FileTree) (dir path : String) : Option FileTree :=
  t.makeWay? (origin dir path) (Path.names path)

end FileTree

end Fleet
