/-!
# Styled text

Text for a terminal that understands the usual escape sequences. A colour is switched
back to the default colour after the text, and a weight by a full reset.
-/

namespace Lox

/-- The colours in use. -/
inductive Colour
  | red | green | yellow | cyan | grey | blue
deriving DecidableEq

/-- The number that selects a colour. -/
def Colour.code : Colour → Nat
  | red => 31
  | green => 32
  | yellow => 33
  | cyan => 36
  | grey => 90
  | blue => 94

/-- The escape sequence with a number. -/
def escapeSequence (n : Nat) : String := "\x1b[" ++ toString n ++ "m"

/-- A text between two escape sequences. -/
def styled (start stop : Nat) (text : String) : String :=
  escapeSequence start ++ text ++ escapeSequence stop

/-- A text in a colour. -/
def coloured (c : Colour) (text : String) : String := styled c.code 39 text

/-- A bold text. -/
def bold (text : String) : String := styled 1 0 text

/-- A dimmed text. -/
def dimmed (text : String) : String := styled 2 0 text

/-- A text filled up with blanks on its left. -/
def padLeft (width : Nat) (text : String) : String :=
  String.ofList (List.replicate (width - text.length) ' ') ++ text

end Lox
