import Lox.Error
import Lox.Text.Lines
import Lox.Token.Lexeme

/-!
# The scanner

A scanner reads lines one at a time and collects tokens. A line that is not made of
lexemes still counts as a line, and the tokens in front of the fault are kept, so that a
scanner may go on after a fault; `scan` does not, and stops at the first one.

Text may be delivered in chunks. A chunk holds one or more physical lines, with or
without its final line end, and lines are numbered through all chunks.
-/

namespace Lox

/-- Why a line is not made of lexemes. -/
inductive LexicalFault
  /-- A quote with no partner on its line. -/
  | unterminatedString
  /-- Text at which no lexeme begins, up to the end of its line. -/
  | unexpectedInput (rest : String)
deriving DecidableEq

namespace LexicalFault

/-- The words for a fault. -/
def message : LexicalFault → String
  | unterminatedString => "Unterminated string"
  | unexpectedInput rest => "Unexpected input \"" ++ rest ++ "\""

/-- The complaint about a fault. -/
def complaint (fault : LexicalFault) : Complaint := ⟨.lexical, fault.message⟩

/-- The fault in what is left of a line after its lexemes. A comment is none. -/
def ofRest? (rest : List Char) : Option LexicalFault :=
  if rest.isEmpty || startsComment rest then none
  else if rest.head? = some '"' then some unterminatedString
  else some (unexpectedInput (String.ofList rest))

end LexicalFault

/-- A scanner: the tokens so far, and the number of lines read. -/
structure Scanner where
  /-- The tokens read so far. -/
  tokens : Array Token
  /-- The number of lines read so far. -/
  line : Nat

namespace Scanner

/-- A scanner that has read nothing. -/
def new : Scanner := ⟨#[], 0⟩

/-- Reads one line: its tokens are kept, whether or not a fault comes after them. -/
def scanLine (s : Scanner) (text : List Char) : Scanner × Option (Located LexicalFault) :=
  let line := s.line + 1
  let (read, rest) := lexemes 0 text
  (⟨s.tokens ++ read.map (Lexeme.token line), line⟩,
    (LexicalFault.ofRest? rest).map (Located.atLine · line))

/-- Reads lines up to the first fault. -/
def scanLines (s : Scanner) : List (List Char) → Except (Located LexicalFault) Scanner
  | [] => .ok s
  | text :: texts =>
    match s.scanLine text with
    | (_, some fault) => .error fault
    | (s, none) => s.scanLines texts

/-- All tokens, with the end of the input after the last of them. -/
def finish (s : Scanner) : List Token :=
  s.tokens.toList ++ [⟨.eof, "", s.line⟩]

end Scanner

/-- The physical lines of a chunk. One final line feed closes the last line, and one
carriage return may end a line. -/
def chunkLines (chunk : List Char) : List (List Char) :=
  (pieces (dropFinal '\n' chunk)).map (dropFinal '\r')

/-- The tokens of a text that is delivered in chunks. -/
def scanChunks (chunks : List (List Char)) : Except (Located LexicalFault) (List Token) :=
  (Scanner.new.scanLines (chunks.flatMap chunkLines)).map Scanner.finish

/-- The tokens of a text, each of its lines being one chunk. -/
def scan (source : String) : Except (Located LexicalFault) (List Token) :=
  scanChunks (lines source.toList)

end Lox
