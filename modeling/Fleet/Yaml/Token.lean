import Fleet.Yaml.Scalar

/-!
# Tokens

The parts of a document: its marks, names and scalars. Names of anchors and tags are read off the front of a
text and returned with the rest.
-/

namespace Fleet

namespace Yaml

inductive Token
  /-- The version of the format that the document keeps to. -/
  | version (major minor : Nat)
  /-- What a handle in the tags of the document stands for. -/
  | tagHandle (handle stem : String)
  | documentStart
  | documentEnd
  | blockSequence
  | blockMapping
  | blockEnd
  | flowSequence
  | flowSequenceEnd
  | flowMapping
  | flowMappingEnd
  /-- The dash before an item of a block. -/
  | item
  | comma
  | key
  | value
  | alias (name : String)
  | anchor (name : String)
  /-- A tag; one without a handle is written in full. -/
  | tag (handle suffix : String)
  | scalar (style : ScalarStyle) (text : String)
  deriving DecidableEq

/-- The characters of names: ASCII letters and digits, the underscore and the dash. -/
def isNameChar (c : Char) : Bool := c.isAlphanum || c == '_' || c == '-'

/-- Reads a name, and returns it with the rest. -/
def spanName (cs : List Char) : List Char × List Char := (cs.takeWhile isNameChar, cs.dropWhile isNameChar)

/-! ### Anchors -/

/-- Whether a name may end before a text. -/
def endsName : List Char → Bool
  | c :: cs => endsWord (c :: cs) || ['?', ':', ',', ']', '\x7d', '%', '@', '\u0060'].contains c
  | [] => true

/-- Reads the name of an anchor. -/
def anchorName? (cs : List Char) : Option (String × List Char) :=
  match spanName cs with
  | ([], _) => none
  | (name, rest) => if endsName rest then some (String.ofList name, rest) else none

/-! ### Tags -/

/-- The characters of tags; the separators of flow collections only where a tag is written in full. -/
def isTagChar (full : Bool) (c : Char) : Bool :=
  isNameChar c || ";/?:@&=+$.!~*\x27()".toList.contains c || (full && [',', '[', ']'].contains c)

/-- Reads the characters of a tag. A percent sign announces a byte by its two digits. -/
def tagBytes? (full : Bool) : List Char → Option (List UInt8 × List Char)
  | [] => some ([], [])
  | '%' :: a :: b :: cs => do
    let byte := (← Text.hexValue? a) * 16 + (← Text.hexValue? b)
    let (bytes, rest) ← tagBytes? full cs
    return (byte.toUInt8 :: bytes, rest)
  | c :: cs =>
    if c == '%' then none
    else if isTagChar full c then (tagBytes? full cs).map fun r => (c.toNat.toUInt8 :: r.1, r.2)
    else some ([], c :: cs)

def tagText? (full : Bool) (cs : List Char) : Option (List Char × List Char) := do
  let (bytes, rest) ← tagBytes? full cs
  let text ← String.fromUTF8? ⟨bytes.toArray⟩
  return (text.toList, rest)

/-- Reads a tag after its exclamation mark. -/
def tag? (cs : List Char) : Option (Token × List Char) :=
  match cs with
  | '<' :: cs => do
    let (uri, rest) ← tagText? true cs
    match uri, rest with
    | _ :: _, '>' :: rest => return (.tag "" (String.ofList uri), rest)
    | _, _ => none
  | cs =>
    match spanName cs with
    | (name, '!' :: cs) => do
      let (suffix, rest) ← tagText? false cs
      if suffix.isEmpty then none
      return (.tag (String.ofList ('!' :: name ++ ['!'])) (String.ofList suffix), rest)
    | _ => do
      let (suffix, rest) ← tagText? false cs
      return (if suffix.isEmpty then .tag "" "!" else .tag "!" (String.ofList suffix), rest)

/-- Whether a tag may end before a text. -/
def endsTag (flow : Bool) (cs : List Char) : Bool := endsWord cs || (flow && cs.head? == some ',')

/-! ### Directives -/

/-- Reads a number of at most nine digits. -/
def versionPart? (cs : List Char) : Option (Nat × List Char) :=
  let digits := cs.takeWhile Text.isDecimalDigit
  if digits.isEmpty || 9 < digits.length then none
  else some (Nat.ofDigitChars 10 digits 0, cs.dropWhile Text.isDecimalDigit)

def versionDirective? (cs : List Char) : Option (Token × List Char) := do
  let (major, rest) ← versionPart? (cs.dropWhile isBlank)
  match rest with
  | '.' :: rest =>
    let (minor, rest) ← versionPart? rest
    return (.version major minor, rest)
  | _ => none

/-- Reads a handle, which stands between exclamation marks or is a single one. -/
def tagHandle? (cs : List Char) : Option (String × List Char) :=
  match cs with
  | '!' :: cs =>
    match spanName cs with
    | (name, '!' :: rest) => some (String.ofList ('!' :: name ++ ['!']), rest)
    | ([], rest) => some ("!", rest)
    | _ => none
  | _ => none

def tagDirective? (cs : List Char) : Option (Token × List Char) := do
  let (handle, rest) ← tagHandle? (cs.dropWhile isBlank)
  if !startsBlank rest then none
  let (stem, rest) ← tagText? true (rest.dropWhile isBlank)
  if stem.isEmpty || !endsWord rest then none
  return (.tagHandle handle (String.ofList stem), rest)

/-- Reads a directive after its percent sign; only blanks and a comment may follow it on its line. -/
def directive? (cs : List Char) : Option (Token × List Char) := do
  let (name, rest) := spanName cs
  if !endsWord rest then none
  let (t, rest) ← match String.ofList name with
    | "YAML" => versionDirective? rest
    | "TAG" => tagDirective? rest
    | _ => none
  if isLineEnd (rest.takeWhile fun c => !isBreak c) then some (t, rest.dropWhile fun c => !isBreak c) else none

end Yaml

end Fleet
