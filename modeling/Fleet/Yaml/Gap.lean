/-!
# Blanks, line breaks and folding

What stands between the words of a text that is spread over lines. A single break between two lines is read
as a space, and of several breaks the first one is dropped.
-/

namespace Fleet

namespace Yaml

/-- Whether a document may hold a character: there are no control characters but tabs and line breaks. -/
def isAllowed (c : Char) : Bool :=
  c == '\t' || c == '\n' || c == '\r' || c == '\u0085' || (' ' ≤ c && c ≤ '~') ||
    ('\u00a0' ≤ c && c.toNat != 0xFFFE && c.toNat != 0xFFFF)

/-- Writes each line break as a newline. Separators of lines and paragraphs are kept. -/
def unifyBreaks : List Char → List Char
  | '\r' :: '\n' :: cs => '\n' :: unifyBreaks cs
  | '\r' :: cs => '\n' :: unifyBreaks cs
  | '\u0085' :: cs => '\n' :: unifyBreaks cs
  | c :: cs => c :: unifyBreaks cs
  | [] => []

def isBlank (c : Char) : Bool := c == ' ' || c == '\t'

def isBreak (c : Char) : Bool := c == '\n' || c == '\u2028' || c == '\u2029'

/-- Whether a word ends before the given text. -/
def endsWord : List Char → Bool
  | [] => true
  | c :: _ => isBlank c || isBreak c

/-- Whether a text begins with the marks that end or begin a document, when it is the text of a line. -/
def isDocumentMark : List Char → Bool
  | '-' :: '-' :: '-' :: cs => endsWord cs
  | '.' :: '.' :: '.' :: cs => endsWord cs
  | _ => false

/-- What the breaks between two words stand for. -/
def folded : List Char → List Char
  | ['\n'] => [' ']
  | '\n' :: breaks => breaks
  | breaks => breaks

/-- The blanks and breaks since the last word. -/
inductive Gap
  /-- Blanks within a line. -/
  | inline (blanks : List Char)
  /-- Breaks; the blanks around them do not count. -/
  | lines (breaks : List Char)
  /-- Breaks after one that was escaped. -/
  | escaped (breaks : List Char)

namespace Gap

def none : Gap := inline []

/-- Whether a new line has begun. -/
def isBroken : Gap → Bool
  | inline _ => false
  | _ => true

def isNone : Gap → Bool
  | inline [] => true
  | _ => false

def blank (c : Char) : Gap → Gap
  | inline blanks => inline (blanks ++ [c])
  | g => g

def newline (c : Char) : Gap → Gap
  | inline _ => lines [c]
  | lines breaks => lines (breaks ++ [c])
  | escaped breaks => escaped (breaks ++ [c])

/-- What the gap stands for in the text. -/
def text : Gap → List Char
  | inline blanks => blanks
  | lines breaks => folded breaks
  | escaped breaks => breaks

end Gap

end Yaml

end Fleet
