import Fleet.Text.Numeral
import Fleet.Yaml.Gap

/-!
# Scalars

Texts are written plainly, in quotes or as blocks of lines. Each reader takes a text off the front of the
input and returns it with the rest.
-/

namespace Fleet

namespace Yaml

/-- How a scalar is written. -/
inductive ScalarStyle
  | plain
  | quoted
  /-- A block whose line breaks are kept. -/
  | literal
  /-- A block whose line breaks are folded. -/
  | folded
  deriving DecidableEq

/-! ### Plain scalars -/

/-- The marks that delimit the items of a flow collection. -/
def isFlowMark (c : Char) : Bool := c == ',' || c == '[' || c == ']' || c == '\x7b' || c == '\x7d'

/-- Whether a text begins with a mark that ends a plain scalar. -/
def endsPlain (flow : Bool) : List Char → Bool
  | ':' :: cs => endsWord cs
  | c :: _ => flow && isFlowMark c
  | [] => true

/-- Whether a text begins with a colon that is neither part of a word nor the mark of a value. -/
def isStrayColon (flow : Bool) : List Char → Bool
  | ':' :: c :: _ => flow && (isFlowMark c || c == '?')
  | _ => false

/-- A scalar that has been read, whether it ended on a later line than its last word, and the rest. -/
structure PlainScalar where
  text : List Char
  broken : Bool
  rest : List Char

/-- Reads a plain scalar. In a block its lines start at the column `indent` or later. -/
def plainScalar? (flow : Bool) (indent column : Nat) (gap : Gap) : List Char → Option PlainScalar
  | [] => some ⟨[], gap.isBroken, []⟩
  | c :: cs =>
    if isBlank c then
      if gap.isBroken && column < indent && c == '\t' then none
      else plainScalar? flow indent (column + 1) (gap.blank c) cs
    else if isBreak c then plainScalar? flow indent 0 (gap.newline c) cs
    else if !gap.isNone && (c == '#' || (!flow && column < indent) || (column == 0 && isDocumentMark (c :: cs)))
    then some ⟨[], gap.isBroken, c :: cs⟩
    else if isStrayColon flow (c :: cs) then none
    else if endsPlain flow (c :: cs) then some ⟨[], gap.isBroken, c :: cs⟩
    else (plainScalar? flow indent (column + 1) .none cs).map fun r => { r with text := gap.text ++ c :: r.text }

/-! ### Quoted scalars -/

/-- Reads a text after its opening apostrophe; two apostrophes in a row stand for one. -/
def singleQuoted? (lineStart : Bool) (gap : Gap) : List Char → Option (List Char × List Char)
  | [] => none
  | '\'' :: '\'' :: cs => (singleQuoted? false .none cs).map fun r => (gap.text ++ '\'' :: r.1, r.2)
  | '\'' :: cs => some (gap.text, cs)
  | c :: cs =>
    if isBlank c then singleQuoted? false (gap.blank c) cs
    else if isBreak c then singleQuoted? true (gap.newline c) cs
    else if lineStart && isDocumentMark (c :: cs) then none
    else (singleQuoted? false .none cs).map fun r => (gap.text ++ c :: r.1, r.2)

/-- The character that a letter stands for after a backslash. -/
def escape? (c : Char) : Option Char :=
  match c with
  | '0' => some '\x00'
  | 'a' => some '\x07'
  | 'b' => some '\x08'
  | 't' => some '\t'
  | '\t' => some '\t'
  | 'n' => some '\n'
  | 'v' => some '\x0b'
  | 'f' => some '\x0c'
  | 'r' => some '\r'
  | 'e' => some '\x1b'
  | ' ' => some ' '
  | '"' => some '"'
  | '/' => some '/'
  | '\\' => some '\\'
  | 'N' => some '\u0085'
  | '_' => some '\u00a0'
  | 'L' => some '\u2028'
  | 'P' => some '\u2029'
  | _ => none

/-- How many digits follow a letter that announces a character by its number. -/
def escapeDigits? (c : Char) : Option Nat :=
  match c with
  | 'x' => some 2
  | 'u' => some 4
  | 'U' => some 8
  | _ => none

/-- The character with a number; surrogates are none. -/
def charOf? (n : Nat) : Option Char := if n.isValidChar then some (Char.ofNat n) else none

/-- What a reader of a text in quotation marks expects next. -/
inductive Expected
  | anything
  /-- The letter after a backslash. -/
  | escape
  /-- Digits of a character's number of which there are `left + 1` to come. -/
  | digits (left value : Nat)

/-- Reads a text after its opening quotation mark. -/
def doubleQuoted? (lineStart : Bool) (gap : Gap) (next : Expected) : List Char → Option (List Char × List Char)
  | [] => none
  | c :: cs =>
    let put (x : Char) := (doubleQuoted? false .none .anything cs).map fun r => (x :: r.1, r.2)
    match next with
    | .escape =>
      if isBreak c then doubleQuoted? true (.escaped []) .anything cs
      else
        match escapeDigits? c with
        | some n => doubleQuoted? false .none (.digits (n - 1) 0) cs
        | none => (escape? c).bind put
    | .digits left value =>
      match Text.hexValue? c, left with
      | none, _ => none
      | some d, 0 => (charOf? (value * 16 + d)).bind put
      | some d, left + 1 => doubleQuoted? false .none (.digits left (value * 16 + d)) cs
    | .anything =>
      if isBlank c then doubleQuoted? false (gap.blank c) .anything cs
      else if isBreak c then doubleQuoted? true (gap.newline c) .anything cs
      else if lineStart && isDocumentMark (c :: cs) then none
      else if c == '"' then some (gap.text, cs)
      else if c == '\\' then
        (doubleQuoted? false .none .escape cs).map fun r => (gap.text ++ r.1, r.2)
      else (doubleQuoted? false .none .anything cs).map fun r => (gap.text ++ c :: r.1, r.2)

/-! ### Blocks of lines -/

/-- A line and the break at its end; the last line of an input has none. -/
structure Line where
  text : List Char
  stop : Option Char

/-- The lines of an input. -/
def linesOf : List Char → List Line
  | [] => [⟨[], none⟩]
  | c :: cs =>
    if isBreak c then ⟨[], some c⟩ :: linesOf cs
    else
      match linesOf cs with
      | [] => [⟨[c], none⟩]
      | l :: ls => ⟨c :: l.text, l.stop⟩ :: ls

def Line.chars (l : Line) : List Char := l.text ++ l.stop.toList

/-- What is kept of the breaks at the end of a block. -/
inductive Chomping
  | strip
  | clip
  | keep
  deriving DecidableEq

structure BlockHeader where
  chomping : Chomping
  /-- How far the lines of the block are indented beyond their surroundings, when it is told. -/
  indent : Option Nat

/-- The chomping that a mark asks for. -/
def chomping? (c : Char) : Option Chomping :=
  if c == '+' then some .keep else if c == '-' then some .strip else none

/-- The indentation that a digit tells; zero is none. -/
def indentDigit? (c : Char) : Option Nat :=
  if '1' ≤ c && c ≤ '9' then some (c.toNat - '0'.toNat) else none

/-- Whether nothing but blanks and a comment is left of a line. -/
def isLineEnd (cs : List Char) : Bool :=
  match cs.dropWhile isBlank with
  | [] => true
  | c :: _ => c == '#'

/-- Reads the line of a block's mark from behind the mark on. -/
def blockHeader? (cs : List Char) : Option BlockHeader :=
  match cs with
  | a :: b :: cs =>
    match chomping? a, indentDigit? a, chomping? b, indentDigit? b with
    | some k, _, _, some n => if isLineEnd cs then some ⟨k, some n⟩ else none
    | _, some n, some k, _ => if isLineEnd cs then some ⟨k, some n⟩ else none
    | some k, _, _, _ => if isLineEnd (b :: cs) then some ⟨k, none⟩ else none
    | _, some n, _, _ => if isLineEnd (b :: cs) then some ⟨.clip, some n⟩ else none
    | _, _, _, _ => if isLineEnd (a :: b :: cs) then some ⟨.clip, none⟩ else none
  | [a] =>
    match chomping? a, indentDigit? a with
    | some k, _ => some ⟨k, none⟩
    | _, some n => some ⟨.clip, some n⟩
    | _, _ => if isLineEnd [a] then some ⟨.clip, none⟩ else none
  | [] => some ⟨.clip, none⟩

def isTab (cs : List Char) : Bool := cs.head? == some '\t'

/-- The column of the deepest of the lines up to the first one with a word. Tabs do not indent. -/
def deepest? (n : Nat) : List Line → Option Nat
  | [] => some n
  | l :: ls =>
    let rest := l.text.dropWhile (· == ' ')
    let n := max n (l.text.length - rest.length)
    if isTab rest then none
    else if rest.isEmpty && l.stop.isSome then deepest? n ls
    else some n

/-- What a line is for a block whose lines start at a column. -/
inductive BlockLine
  | blank (stop : Char)
  | content (text : List Char)
  /-- The block is over. -/
  | foreign

/-- Sorts a line; a tab before the block's column is an error. -/
def BlockLine.ofLine? (column : Nat) (l : Line) : Option BlockLine :=
  let spaces := min column (l.text.takeWhile (· == ' ')).length
  let rest := l.text.drop spaces
  if spaces < column && isTab rest then none
  else if rest.isEmpty then some (l.stop.elim foreign blank)
  else if spaces = column then some (content rest)
  else some foreign

def startsBlank (cs : List Char) : Bool := cs.head?.any isBlank

/-- The breaks after the last line with content. -/
structure BlockTail where
  /-- Whether that line starts with a blank. -/
  blankStart : Bool
  /-- The break of that line. -/
  first : List Char
  /-- The breaks of the empty lines after it. -/
  others : List Char

/-- What the breaks stand for before another line. -/
def BlockTail.text (fold : Bool) (t : BlockTail) (line : List Char) : List Char :=
  if fold && t.first == ['\n'] && !t.blankStart && !startsBlank line then
    if t.others.isEmpty then [' '] else t.others
  else t.first ++ t.others

def BlockTail.chomped (k : Chomping) (t : BlockTail) : List Char :=
  match k with
  | .strip => []
  | .clip => t.first
  | .keep => t.first ++ t.others

/-- Reads the lines of a block, and returns those that come after it. -/
def blockText? (fold : Bool) (k : Chomping) (column : Nat) (t : BlockTail) :
    List Line → Option (List Char × List Line)
  | [] => some (t.chomped k, [])
  | l :: ls => do
    match ← BlockLine.ofLine? column l with
    | .blank stop => blockText? fold k column { t with others := t.others ++ [stop] } ls
    | .foreign => return (t.chomped k, l :: ls)
    | .content line =>
      let (text, rest) ← blockText? fold k column ⟨startsBlank line, l.stop.toList, []⟩ ls
      return (t.text fold line ++ line ++ text, rest)

/-- Reads a block after its mark. Its surroundings start at the column `parent`, if there are any. -/
def blockScalar? (fold : Bool) (parent : Option Nat) (cs : List Char) : Option (List Char × List Char) :=
  match linesOf cs with
  | [] => none
  | first :: ls => do
    let h ← blockHeader? first.text
    let least := parent.elim 0 (· + 1)
    -- Where the header does not tell the indentation, the first line with a word does.
    let column ← match h.indent with
      | some n => some (parent.getD 0 + n)
      | none => (deepest? 0 ls).map fun n => max n (max least 1)
    let (text, rest) ← blockText? fold h.chomping column ⟨false, [], []⟩ ls
    return (text, rest.flatMap Line.chars)

end Yaml

end Fleet
