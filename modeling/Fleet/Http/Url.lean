import Fleet.Text.Numeral
import Fleet.Text.Segments

/-!
# Addresses of resources on a server

An address with the scheme `http` or `https` is brought into its standard form: the host in lowercase, the
path without dot segments, and every character that may not stand for itself written as the percent-encoded
bytes of its UTF-8 form. The standard form is what is shown, and its path and query are what is sent.
-/

namespace Fleet

structure Url where
  /-- Scheme, host and port. -/
  origin : String
  /-- The segments of the path, each preceded by a slash. -/
  path : List String
  query : Option String
  fragment : Option String
  deriving DecidableEq

namespace Url

/-! ### Percent-encoding -/

def upperHex (n : Nat) : Char := (Nat.digitChar (n % 16)).toUpper

/-- A byte as two hexadecimal digits after a percent sign. -/
def percent (b : UInt8) : List Char := ['%', upperHex (b.toNat / 16), upperHex b.toNat]

/-- The characters of a text with those that `keep` refuses percent-encoded. -/
def encode (keep : Char → Bool) (cs : List Char) : String :=
  String.ofList (cs.flatMap fun c => if keep c then [c] else (String.utf8EncodeChar c).flatMap percent)

/-- The characters that stand for themselves when they are not among `reserved`. -/
def isPlain (reserved : List Char) (c : Char) : Bool :=
  0x20 < c.toNat && c.toNat < 0x7F && !reserved.contains c

def keepsInPath : Char → Bool := isPlain ['"', '<', '>', '\x60', '#', '?', '\x7b', '\x7d']

def keepsInQuery : Char → Bool := isPlain ['"', '<', '>', '#', '\'']

def keepsInFragment : Char → Bool := isPlain ['"', '<', '>', '\x60']

/-- The form of a text in a submitted form: letters, digits and `*-._` stand for themselves, a blank is a
plus sign. -/
def formEncode (s : String) : String :=
  String.ofList (s.toList.flatMap fun c =>
    if c = ' ' then ['+']
    else if c.isAlphanum || ['*', '-', '.', '_'].contains c then [c]
    else (String.utf8EncodeChar c).flatMap percent)

/-! ### Reading -/

/-- An address is read without the blanks at its ends and without tabs and line breaks. -/
def cleaned (cs : List Char) : List Char :=
  let isEdge (c : Char) : Bool := c.toNat ≤ 0x20
  (((cs.dropWhile isEdge).reverse.dropWhile isEdge).reverse).filter fun c => !(c = '\t' || c = '\n' || c = '\r')

def isSlash (c : Char) : Bool := c = '/' || c = '\\'

/-- The part of a text before the first character that `stop` accepts, and the rest. -/
def before (stop : Char → Bool) (cs : List Char) : List Char × List Char :=
  (cs.takeWhile fun c => !stop c, cs.dropWhile fun c => !stop c)

/-- The scheme and its usual port. -/
def scheme? (cs : List Char) : Option (String × Nat × List Char) :=
  let (name, rest) := before (· = ':') cs
  match String.ofList (name.map Char.toLower), rest with
  | "http", _ :: rest => some ("http", 80, rest)
  | "https", _ :: rest => some ("https", 443, rest)
  | _, _ => none

/-- The characters that no host may have. -/
def forbiddenInHost : List Char :=
  [' ', '#', '%', '/', ':', '<', '>', '?', '@', '[', '\\', ']', '^', '\x60', '\x7b', '|', '\x7d', '"']

def host? (cs : List Char) : Option String :=
  if cs.isEmpty || cs.any (fun c => !isPlain forbiddenInHost c) then none
  else some (String.ofList (cs.map Char.toLower))

/-- The port after a colon; the usual port of the scheme is not shown. -/
def port? (usual : Nat) : List Char → Option String
  | [] => some ""
  | _ :: [] => some ""
  | _ :: ds => (Text.digitsBelow? Text.limit16 ds).map fun n => if n = usual then "" else ":" ++ toString n

/-- Host and port; what stands before an `@` tells who asks and is not part of the address. -/
def authority? (usual : Nat) (cs : List Char) : Option String := do
  let (host, port) := before (· = ':') (Text.afterLast '@' cs)
  return (← host? host) ++ (← port? usual port)

/-- Whether a segment means the same place. -/
def isHere (s : List Char) : Bool := [".", "%2e"].contains (String.ofList (s.map Char.toLower))

/-- Whether a segment means the place above. -/
def isAbove (s : List Char) : Bool := ["..", ".%2e", "%2e.", "%2e%2e"].contains (String.ofList (s.map Char.toLower))

/-- The segments of a path with the dot segments resolved; `done` holds those before, the last one first. -/
def resolve (done : List String) : List (List Char) → List String
  | [] => done.reverse
  | s :: ss =>
    -- A path that ends in a dot segment keeps a slash at its end.
    let open' (done : List String) : List String := if ss.isEmpty then "" :: done else done
    if isAbove s then resolve (open' done.tail) ss
    else if isHere s then resolve (open' done) ss
    else resolve (encode keepsInPath s :: done) ss

/-- The text after the first `mark`, and what stands before it. -/
def cutAt (mark : Char) (cs : List Char) : List Char × Option (List Char) :=
  match Text.splitFirst mark cs with
  | some (a, b) => (a, some b)
  | none => (cs, none)

/-- Reads an absolute address. -/
def ofText? (s : String) : Option Url := do
  let (scheme, usual, rest) ← scheme? (cleaned s.toList)
  -- The fragment goes first, since it may hold question marks.
  let (rest, fragment) := cutAt '#' rest
  let (rest, query) := cutAt '?' rest
  let (authority, path) := before isSlash (rest.dropWhile isSlash)
  let host ← authority? usual authority
  let segments := Text.segments '/' ((path.drop 1).map fun c => if isSlash c then '/' else c)
  return ⟨scheme ++ "://" ++ host, resolve [] segments, query.map (encode keepsInQuery),
    fragment.map (encode keepsInFragment)⟩

/-! ### Writing -/

/-- The path and the query. -/
def target (u : Url) : String :=
  String.join (u.path.map fun s => "/" ++ s) ++ (u.query.elim "" fun q => "?" ++ q)

def text (u : Url) : String := u.origin ++ u.target ++ (u.fragment.elim "" fun f => "#" ++ f)

/-- The address with a further parameter at the end of the query. -/
def withParameter (u : Url) (key value : String) : Url :=
  let pair := formEncode key ++ "=" ++ formEncode value
  { u with query := some (match u.query with
    | none => pair
    | some "" => pair
    | some q => q ++ "&" ++ pair) }

end Url

end Fleet
