/-!
# Colours

How words stand out in the output. A style is switched on and off by control sequences, and words may be
painted in it or left as they are.
-/

namespace Fleet

namespace Cli

inductive Style
  | cyan
  | green
  | red
  | yellow
  | bold
  | dimmed
  deriving DecidableEq

namespace Style

def code : Style → String
  | bold => "1"
  | dimmed => "2"
  | red => "31"
  | green => "32"
  | yellow => "33"
  | cyan => "36"

/-- The sequence that switches a style on. -/
def start (s : Style) : String := "\x1b[" ++ s.code ++ "m"

/-- The sequence that switches all styles off. -/
def reset : String := "\x1b[0m"

/-- A text in a style. The style is switched on again where the text itself switches it off. -/
def wrap (s : Style) (text : String) : String := s.start ++ text.replace reset (reset ++ s.start) ++ reset

end Style

/-- How words are painted. -/
abbrev Paint := Style → String → String

namespace Paint

def plain : Paint := fun _ text => text

def coloured : Paint := Style.wrap

/-- Output that is no terminal has colours on demand only. -/
def ofVariables (env : String → Option String) : Paint :=
  if (env "CLICOLOR_FORCE").any (· ≠ "0") && (env "NO_COLOR").isNone then coloured else plain

end Paint

end Cli

end Fleet
