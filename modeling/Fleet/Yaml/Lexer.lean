import Fleet.Yaml.Token

/-!
# Finding the tokens

The structure of a block is told by the columns of its lines: a mark to the right of the open blocks opens
another one, and a token to the left of some closes them. That a scalar is the key of a mapping shows only
at the colon behind it. So the lexer remembers where the last token stands that may become a key, one for
each open flow collection and one for the blocks around them, and enters the mark of the key there.
-/

namespace Fleet

namespace Yaml

/-- A place in a text. -/
structure Cursor where
  rest : List Char
  index : Nat
  line : Nat
  column : Nat

namespace Cursor

/-- The place after the next `n` characters. -/
def forward (c : Cursor) : Nat → Cursor
  | 0 => c
  | n + 1 =>
    match c.rest with
    | [] => c
    | x :: rest =>
      if isBreak x then forward ⟨rest, c.index + 1, c.line + 1, 0⟩ n
      else forward ⟨rest, c.index + 1, c.line, c.column + 1⟩ n

/-- The place where a rest of the text begins. -/
def upTo (c : Cursor) (rest : List Char) : Cursor := c.forward (c.rest.length - rest.length)

end Cursor

/-- A token that may become a key. -/
structure Candidate where
  /-- How many tokens stand before it. -/
  place : Nat
  start : Cursor
  /-- Whether its block needs a key there. -/
  required : Bool

structure Lexer where
  cursor : Cursor
  /-- The tokens so far, the last one first. -/
  tokens : List Token
  /-- The columns of the open blocks, the innermost first. -/
  blocks : List Nat
  candidate : Option Candidate
  /-- The candidates around each of the open flow collections, the innermost first. -/
  outer : List (Option Candidate)
  /-- Whether the next token may become a key. -/
  keyAllowed : Bool

/-- What the text at a place is, as far as blanks and comments are concerned. -/
inductive GapMode
  | lineStart
  | inLine
  | comment

/-- Skips blanks, comments and line breaks. Tabs are no blanks where a key may begin in a block, and after
a line break a key may begin there. -/
def skipGap (flow keyAllowed : Bool) (mode : GapMode) : List Char → Bool × List Char
  | [] => (keyAllowed, [])
  | c :: cs =>
    if isBreak c then skipGap flow (keyAllowed || !flow) .lineStart cs
    else
      match mode with
      | .comment => skipGap flow keyAllowed .comment cs
      | .lineStart =>
        if c == '\ufeff' || c == ' ' || (c == '\t' && (flow || !keyAllowed)) then
          skipGap flow keyAllowed .inLine cs
        else if c == '#' then skipGap flow keyAllowed .comment cs
        else (keyAllowed, c :: cs)
      | .inLine =>
        if c == ' ' || (c == '\t' && (flow || !keyAllowed)) then skipGap flow keyAllowed .inLine cs
        else if c == '#' then skipGap flow keyAllowed .comment cs
        else (keyAllowed, c :: cs)

namespace Lexer

def start (text : List Char) : Lexer := ⟨⟨text, 0, 0, 0⟩, [], [], none, [], true⟩

def inFlow (l : Lexer) : Bool := !l.outer.isEmpty

def push (l : Lexer) (t : Token) : Lexer := { l with tokens := t :: l.tokens }

/-- Enters tokens after the first `place` ones. -/
def enter (l : Lexer) (place : Nat) (ts : List Token) : Lexer :=
  let later := l.tokens.take (l.tokens.length - place)
  { l with tokens := later ++ ts.reverse ++ l.tokens.drop (l.tokens.length - place) }

/-- Moves on to where a rest of the text begins. -/
def upTo (l : Lexer) (rest : List Char) : Lexer := { l with cursor := l.cursor.upTo rest }

/-! ### Blocks -/

/-- Closes the blocks for which `closes` holds of their columns, from the innermost on. -/
def closeBlocks (l : Lexer) (closes : Nat → Bool) : Lexer :=
  if l.inFlow then l
  else
    { l with
      tokens := (l.blocks.takeWhile closes).map (fun _ => .blockEnd) ++ l.tokens
      blocks := l.blocks.dropWhile closes }

/-- Whether a mark at a column opens a block. -/
def opensBlock (l : Lexer) (column : Nat) : Bool := !l.inFlow && l.blocks.head?.all (· < column)

/-- Opens a block at the cursor if there is none yet. -/
def openBlock (l : Lexer) (t : Token) : Lexer :=
  if l.opensBlock l.cursor.column then { l.push t with blocks := l.cursor.column :: l.blocks } else l

/-! ### Candidates for keys -/

/-- Whether a candidate can no longer become a key: a key takes one line and at most 1024 characters. -/
def isStale (l : Lexer) (c : Candidate) : Bool :=
  c.start.line < l.cursor.line || c.start.index + 1024 < l.cursor.index

/-- Gives up a candidate that cannot become a key any more; it must not be a required one. -/
def refresh? (l : Lexer) : Option Candidate → Option (Option Candidate)
  | none => some none
  | some c => if l.isStale c then (if c.required then none else some none) else some (some c)

/-- Gives up all candidates that cannot become keys any more. -/
def refreshAll? (l : Lexer) : Option Lexer := do
  return { l with candidate := ← l.refresh? l.candidate, outer := ← l.outer.mapM l.refresh? }

/-- Gives up the candidate. -/
def dropCandidate? (l : Lexer) : Option Lexer :=
  if l.candidate.any (·.required) then none else some { l with candidate := none }

/-- Makes the token that begins at the cursor the candidate, where one is allowed. -/
def noteCandidate? (l : Lexer) : Option Lexer :=
  if l.keyAllowed then do
    -- What stands at the column of the innermost block has to be a key.
    let required := !l.inFlow && l.blocks.head? == some l.cursor.column
    return { ← l.dropCandidate? with candidate := some ⟨l.tokens.length, l.cursor, required⟩ }
  else some l

/-! ### Tokens -/

/-- Adds a token that ends where a rest of the text begins. -/
def take (l : Lexer) (t : Token) (rest : List Char) : Lexer := (l.push t).upTo rest

/-- A token of one character that cannot be a key. -/
def mark? (l : Lexer) (t : Token) (keyAllowed : Bool) (rest : List Char) : Option Lexer := do
  return { (← l.dropCandidate?).take t rest with keyAllowed := keyAllowed }

/-- A token that may become a key; none may begin right behind it. -/
def word? (l : Lexer) (t : Token) (rest : List Char) : Option Lexer := do
  return { (← l.noteCandidate?).take t rest with keyAllowed := false }

/-- A mark at the margin: all blocks end there. -/
def margin? (l : Lexer) (t : Token) (rest : List Char) : Option Lexer :=
  (l.closeBlocks fun _ => true).mark? t false rest

def openFlow? (l : Lexer) (t : Token) (rest : List Char) : Option Lexer := do
  let l ← l.noteCandidate?
  return { l.take t rest with candidate := none, outer := l.candidate :: l.outer, keyAllowed := true }

def closeFlow? (l : Lexer) (t : Token) (rest : List Char) : Option Lexer := do
  let l ← l.mark? t false rest
  match l.outer with
  | [] => return l
  | c :: outer => return { l with candidate := c, outer := outer }

/-- The dash before an item. -/
def item? (l : Lexer) (rest : List Char) : Option Lexer :=
  if l.inFlow then l.mark? .item true rest
  else if l.keyAllowed then (l.openBlock .blockSequence).mark? .item true rest
  else none

/-- The question mark before a key. -/
def key? (l : Lexer) (rest : List Char) : Option Lexer :=
  if l.inFlow then l.mark? .key false rest
  else if l.keyAllowed then (l.openBlock .blockMapping).mark? .key true rest
  else none

/-- The colon before a value. What stands before it becomes the key if it may. -/
def value? (l : Lexer) (rest : List Char) : Option Lexer :=
  match l.candidate with
  | some c =>
    -- The column of the key counts, not that of the colon.
    let opens := l.opensBlock c.start.column
    let l := l.enter c.place (if opens then [.blockMapping, .key] else [.key])
    some { l.take .value rest with
      blocks := if opens then c.start.column :: l.blocks else l.blocks
      candidate := none
      keyAllowed := false }
  | none =>
    if l.inFlow then some { l.take .value rest with keyAllowed := false }
    else if l.keyAllowed then some { (l.openBlock .blockMapping).take .value rest with keyAllowed := true }
    else none

def block? (l : Lexer) (fold : Bool) (rest : List Char) : Option Lexer := do
  let l ← l.dropCandidate?
  let (text, rest) ← blockScalar? fold l.blocks.head? rest
  return { l.take (.scalar (if fold then .folded else .literal) (String.ofList text)) rest with keyAllowed := true }

def plain? (l : Lexer) : Option Lexer := do
  let l ← l.noteCandidate?
  let indent := l.blocks.head?.elim 0 (· + 1)
  let s ← plainScalar? l.inFlow indent l.cursor.column .none l.cursor.rest
  return { l.take (.scalar .plain (String.ofList s.text)) s.rest with keyAllowed := s.broken }

/-- The marks that cannot begin a plain scalar. -/
def isIndicator (c : Char) : Bool := "-?:,[]\x7b\x7d#&*!|>\x27\x22%@\u0060".toList.contains c

/-- Whether a plain scalar begins with a text. -/
def startsPlain (flow : Bool) : List Char → Bool
  | [] => false
  | c :: cs =>
    !(endsWord [c] || isIndicator c) || (c == '-' && !cs.head?.any isBlank) ||
      (!flow && (c == '?' || c == ':') && !endsWord cs)

/-- Takes the token at the cursor. -/
def token? (l : Lexer) : Option Lexer :=
  let margin := l.cursor.column == 0
  let text := l.cursor.rest
  if margin && isDocumentMark text then
    l.margin? (if text.head? == some '-' then .documentStart else .documentEnd) (text.drop 3)
  else
    match text with
    | '%' :: cs => if margin then (directive? cs).bind fun r => l.margin? r.1 r.2 else none
    | '[' :: cs => l.openFlow? .flowSequence cs
    | '\x7b' :: cs => l.openFlow? .flowMapping cs
    | ']' :: cs => l.closeFlow? .flowSequenceEnd cs
    | '\x7d' :: cs => l.closeFlow? .flowMappingEnd cs
    | ',' :: cs => l.mark? .comma true cs
    | '-' :: cs => if endsWord cs then l.item? cs else l.plain?
    | '?' :: cs => if l.inFlow || endsWord cs then l.key? cs else l.plain?
    | ':' :: cs => if l.inFlow || endsWord cs then l.value? cs else l.plain?
    | '*' :: cs => (anchorName? cs).bind fun r => l.word? (.alias r.1) r.2
    | '&' :: cs => (anchorName? cs).bind fun r => l.word? (.anchor r.1) r.2
    | '!' :: cs => (tag? cs).bind fun r => if endsTag l.inFlow r.2 then l.word? r.1 r.2 else none
    | '\'' :: cs =>
      (singleQuoted? false .none cs).bind fun r => l.word? (.scalar .quoted (String.ofList r.1)) r.2
    | '"' :: cs =>
      (doubleQuoted? false .none .anything cs).bind fun r => l.word? (.scalar .quoted (String.ofList r.1)) r.2
    | '|' :: cs => if l.inFlow then none else l.block? false cs
    | '>' :: cs => if l.inFlow then none else l.block? true cs
    | cs => if startsPlain l.inFlow cs then l.plain? else none

/-- The lexer before its next token, with what the gap there decides. -/
def ready? (l : Lexer) : Option Lexer := do
  let mode := if l.cursor.column = 0 then .lineStart else .inLine
  let (allowed, rest) := skipGap l.inFlow l.keyAllowed mode l.cursor.rest
  let l ← { l.upTo rest with keyAllowed := allowed }.refreshAll?
  return l.closeBlocks (l.cursor.column < ·)

/-- The tokens to the end of the text. Each one takes a character, of which there are at most `fuel`. -/
def run? : Nat → Lexer → Option (List Token)
  | 0, _ => none
  | fuel + 1, l => do
    let l ← l.ready?
    if l.cursor.rest.isEmpty then
      let l ← (l.closeBlocks fun _ => true).dropCandidate?
      return l.tokens.reverse
    else (← l.token?).run? fuel

end Lexer

/-- The tokens of a text. A mark of the encoding may stand before them. -/
def tokens? (text : String) : Option (List Token) :=
  let cs := match text.toList with
    | '\ufeff' :: cs => cs
    | cs => cs
  if cs.all isAllowed then (Lexer.start (unifyBreaks cs)).run? (cs.length + 1) else none

end Yaml

end Fleet
