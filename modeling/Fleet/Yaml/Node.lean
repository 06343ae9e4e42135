import Fleet.Yaml.Lexer

/-!
# The tree of a document

A document is one tree of scalars, sequences and mappings. An alias stands for the tree with its anchor, and
is entered there as a copy. Reading the tree takes tokens off the front of a list; its fuel is the number of
tokens, of which every collection, item and pair takes at least one.
-/

namespace Fleet

namespace Yaml

inductive Node where
  | scalar (tag : Option String) (style : ScalarStyle) (text : String)
  | sequence (items : List Node)
  | mapping (pairs : List (Node × Node))
  /-- An alias for a collection that the alias itself is part of. -/
  | cyclic
  deriving Inhabited

namespace Node

/-- What stands where nothing is written. -/
def empty : Node := scalar none .plain ""

end Node

/-- What is left of a document, and the trees of its anchors so far. A collection that is not yet complete
has none. -/
structure Pending where
  tokens : List Token
  anchors : List (String × Option Node)

abbrev Reading := StateT Pending Option

namespace Reading

def peek : Reading (Option Token) := do return (← get).tokens.head?

def skip : Reading Unit := modify fun s => { s with tokens := s.tokens.tail }

/-- Takes a token if it is there. -/
def accept (t : Token) : Reading Bool := do
  if (← peek) == some t then
    skip
    return true
  else return false

/-- Whether the next token is one of the given ones; the end counts as one. -/
def isBefore (ts : List Token) : Reading Bool := do return (← peek).all ts.contains

def setAnchor (name : Option String) (n : Option Node) : Reading Unit :=
  match name with
  | none => return
  | some name => modify fun s => { s with anchors := (name, n) :: s.anchors }

end Reading

open Reading

/-- What the handles of tags stand for. -/
abbrev TagHandles := List (String × String)

/-- The handles that every document knows. -/
def usualHandles : TagHandles := [("!", "!"), ("!!", "tag:yaml.org,2002:")]

/-- The anchor and the tag before a node. -/
structure Properties where
  anchor : Option String
  tag : Option String

namespace Properties

def isNone (p : Properties) : Bool := p.anchor.isNone && p.tag.isNone

/-- The tag that a token denotes; its handle has to be known. -/
def resolve (handles : TagHandles) (handle suffix : String) : Reading String :=
  if handle = "" then return suffix
  else
    match handles.lookup handle with
    | some stem => return stem ++ suffix
    | none => failure

/-- Reads the properties, which stand in any order. -/
def read (handles : TagHandles) : Reading Properties := do
  match ← peek with
  | some (.anchor name) =>
    skip
    match ← peek with
    | some (.tag handle suffix) =>
      skip
      return ⟨some name, ← resolve handles handle suffix⟩
    | _ => return ⟨some name, none⟩
  | some (.tag handle suffix) =>
    skip
    let t ← resolve handles handle suffix
    match ← peek with
    | some (.anchor name) =>
      skip
      return ⟨some name, t⟩
    | _ => return ⟨none, t⟩
  | _ => return ⟨none, none⟩

/-- A scalar with the properties. The tag that says nothing is left out. -/
def scalar (p : Properties) (style : ScalarStyle) (text : String) : Node :=
  .scalar (p.tag.filter (· != "!")) style text

end Properties

/-- The tree that an alias stands for. -/
def aliased (name : String) : Reading Node := do
  match (← get).anchors.lookup name with
  | some (some n) => return n
  | some none => return .cyclic
  | none => failure

/-- Reads a node, and enters it under its anchor. -/
def anchored (p : Properties) (body : Reading Node) : Reading Node := do
  -- Until the node is complete, an alias for it would make it part of itself.
  setAnchor p.anchor none
  let n ← body
  setAnchor p.anchor n
  return n

mutual

/-- Reads a node. Only a value and a key of a block may be a sequence that is not indented. -/
def node (handles : TagHandles) (fuel : Nat) (block indentless : Bool) : Reading Node :=
  match fuel with
  | 0 => failure
  | fuel + 1 => do
    if let some (.alias name) ← peek then
      skip
      return ← aliased name
    let p ← Properties.read handles
    match ← peek with
    | some (.scalar style text) =>
      skip
      anchored p (return p.scalar style text)
    | some .flowSequence =>
      skip
      anchored p (.sequence <$> flowItems handles fuel true)
    | some .flowMapping =>
      skip
      anchored p (.mapping <$> flowPairs handles fuel true)
    | t =>
      if indentless && t == some .item then anchored p (.sequence <$> indentlessItems handles fuel)
      else if block && t == some .blockSequence then
        skip
        anchored p (.sequence <$> blockItems handles fuel)
      else if block && t == some .blockMapping then
        skip
        anchored p (.mapping <$> blockPairs handles fuel)
      else if p.isNone then failure
      else anchored p (return p.scalar .plain "")

/-- Reads a node unless one of the given tokens follows. -/
def nodeUnless (handles : TagHandles) (fuel : Nat) (ts : List Token) (block indentless : Bool) : Reading Node :=
  match fuel with
  | 0 => failure
  | fuel + 1 => do
    if ← isBefore ts then return .empty else node handles fuel block indentless

/-- Reads the items of an indented sequence and its end. -/
def blockItems (handles : TagHandles) (fuel : Nat) : Reading (List Node) :=
  match fuel with
  | 0 => failure
  | fuel + 1 => do
    if ← accept .item then
      let n ← nodeUnless handles fuel [.item, .blockEnd] true false
      return n :: (← blockItems handles fuel)
    else if ← accept .blockEnd then return []
    else failure

/-- Reads the items of a sequence that is not indented. -/
def indentlessItems (handles : TagHandles) (fuel : Nat) : Reading (List Node) :=
  match fuel with
  | 0 => failure
  | fuel + 1 => do
    if ← accept .item then
      let n ← nodeUnless handles fuel [.item, .key, .value, .blockEnd] true false
      return n :: (← indentlessItems handles fuel)
    else return []

/-- Reads the pairs of a mapping in a block and its end. -/
def blockPairs (handles : TagHandles) (fuel : Nat) : Reading (List (Node × Node)) :=
  match fuel with
  | 0 => failure
  | fuel + 1 => do
    if ← accept .key then
      let k ← nodeUnless handles fuel [.key, .value, .blockEnd] true true
      let v ← if ← accept .value then nodeUnless handles fuel [.key, .value, .blockEnd] true true
        else pure .empty
      return (k, v) :: (← blockPairs handles fuel)
    else if ← accept .blockEnd then return []
    else failure

/-- Reads the items of a sequence in brackets and its end; an item may be a single pair. -/
def flowItems (handles : TagHandles) (fuel : Nat) (first : Bool) : Reading (List Node) :=
  match fuel with
  | 0 => failure
  | fuel + 1 => do
    if ← accept .flowSequenceEnd then return []
    if !first then
      if !(← accept .comma) then failure
      if ← accept .flowSequenceEnd then return []
    let n ← if ← accept .key then singlePair handles fuel else node handles fuel false false
    return n :: (← flowItems handles fuel false)

/-- Reads a mapping of one pair in a sequence. A missing key takes the mark of the value with it. -/
def singlePair (handles : TagHandles) (fuel : Nat) : Reading Node :=
  match fuel with
  | 0 => failure
  | fuel + 1 => do
    let k ← if ← isBefore [.value, .comma, .flowSequenceEnd] then
        skip
        pure .empty
      else node handles fuel false false
    let v ← if ← accept .value then nodeUnless handles fuel [.comma, .flowSequenceEnd] false false
      else pure .empty
    return .mapping [(k, v)]

/-- Reads the pairs of a mapping in braces and its end; a value may be missing with its mark. -/
def flowPairs (handles : TagHandles) (fuel : Nat) (first : Bool) : Reading (List (Node × Node)) :=
  match fuel with
  | 0 => failure
  | fuel + 1 => do
    if ← accept .flowMappingEnd then return []
    if !first then
      if !(← accept .comma) then failure
      if ← accept .flowMappingEnd then return []
    let pair ← if ← accept .key then do
        let k ← nodeUnless handles fuel [.value, .comma, .flowMappingEnd] false false
        let v ← if ← accept .value then nodeUnless handles fuel [.comma, .flowMappingEnd] false false
          else pure .empty
        pure (k, v)
      else do
        let k ← node handles fuel false false
        pure (k, .empty)
    return pair :: (← flowPairs handles fuel false)

end

/-- Reads the directives before a document; the version must be a known one, and neither it nor a handle may
be told twice. -/
def directives (version : Bool) (own : TagHandles) : List Token → Option (TagHandles × List Token)
  | .version major minor :: ts =>
    if version || major != 1 || (minor != 1 && minor != 2) then none else directives true own ts
  | .tagHandle handle stem :: ts =>
    if (own.lookup handle).isSome then none else directives version ((handle, stem) :: own) ts
  | ts => some (own, ts)

/-- The tree of a text's only document. -/
def parse? (text : String) : Option Node := do
  let ts ← tokens? text
  let (own, rest) ← directives false [] ts
  let explicit := rest.head? == some .documentStart
  -- Directives need the mark at which their document starts.
  if ts.length != rest.length && !explicit then none
  let body := if explicit then rest.tail else rest
  let handles := own ++ usualHandles
  let fuel := 4 * body.length + 2
  let (n, s) ← match explicit, body with
    | true, [] => some (.empty, ⟨[], []⟩)
    | true, .documentEnd :: _ => some (.empty, ⟨body, []⟩)
    | _, _ => (node handles fuel true false).run ⟨body, []⟩
  if s.tokens.all (· == .documentEnd) then return n else none

end Yaml

end Fleet
