import Lox.Text.Hidden

/-!
# Quoted text

Text between double quotes. There are two styles. The plain one escapes what would end
the text or break its line: the quote, the backslash and the control characters. The
legible one also escapes whatever does not show, and has short escapes for the usual
line and tab characters.
-/

namespace Lox

/-- The lower-case hexadecimal digits of a number, at least `width` of them. -/
def hex (width n : Nat) : List Char :=
  let digits := Nat.toDigits 16 n
  List.replicate (width - digits.length) '0' ++ digits

/-- A character in the plain style. -/
def escapePlain (c : Char) : List Char :=
  if c = '"' then ['\\', '"']
  else if c = '\\' then ['\\', '\\']
  else if c.toNat < 0x20 then '\\' :: 'u' :: hex 4 c.toNat
  else [c]

/-- A character in the legible style. -/
def escapeLegible (c : Char) : List Char :=
  if c = '"' then ['\\', '"']
  else if c = '\\' then ['\\', '\\']
  else if c = '\n' then ['\\', 'n']
  else if c = '\r' then ['\\', 'r']
  else if c = '\t' then ['\\', 't']
  else if c.toNat = 0 then ['\\', '0']
  else if isHidden c then ['\\', 'u', '\x7b'] ++ hex 1 c.toNat ++ ['\x7d']
  else [c]

/-- A text between quotes, in the style of `escape`. -/
def quotedBy (escape : Char → List Char) (s : String) : String :=
  String.ofList ('"' :: (s.toList.flatMap escape ++ ['"']))

/-- A text between quotes in the plain style. -/
def quoted (s : String) : String := quotedBy escapePlain s

/-- A text between quotes in the legible style. -/
def legible (s : String) : String := quotedBy escapeLegible s

end Lox
