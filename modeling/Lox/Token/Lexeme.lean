import Lox.Text.Blank
import Lox.Token

/-!
# Lexemes

What a token may look like, and how a line is cut into lexemes. `Lexeme.first?` reads
the lexeme at the front of a text: it tries the rules of `Rule.table` in their order, and
the first rule that applies decides. So an operator of two characters stands before the one
it begins with, and the reserved words, which apply only where the word ends, before names.
A comment makes no lexeme and is looked for before all rules, since a slash is an operator.

`lexemes` cuts a whole line. It walks the characters one by one with a count of those
that belong to the lexeme just read, and so recurses on the text itself.
-/

namespace Lox

/-- A lexeme: the kind of token it makes, and its characters. -/
structure Lexeme where
  /-- The kind of token. -/
  kind : TokenKind
  /-- The characters. -/
  text : List Char
deriving DecidableEq

/-- The first character of a word: a letter of the English alphabet or an underscore. -/
def isWordStart (c : Char) : Bool := c.isAlpha || c == '_'

/-- A later character of a word, which may also be a digit. -/
def isWordChar (c : Char) : Bool := c.isAlphanum || c == '_'

namespace Lexeme

/-- A word: a name, or a reserved word that no rule has taken before. -/
def name? : List Char → Option Lexeme
  | [] => none
  | c :: cs =>
    if isWordStart c then some ⟨.identifier, c :: cs.takeWhile isWordChar⟩ else none

/-- The fraction of a number: a point that digits follow. -/
def fraction : List Char → List Char
  | '.' :: cs =>
    let digits := cs.takeWhile Char.isDigit
    if digits.isEmpty then [] else '.' :: digits
  | _ => []

/-- A number: digits, and then perhaps a fraction. -/
def number? (cs : List Char) : Option Lexeme :=
  let whole := cs.takeWhile Char.isDigit
  if whole.isEmpty then none
  else some ⟨.number, whole ++ fraction (cs.drop whole.length)⟩

/-- A string: everything from a quote to the next one. -/
def string? : List Char → Option Lexeme
  | '"' :: cs =>
    if '"' ∈ cs then some ⟨.string, '"' :: (cs.takeWhile (· != '"') ++ ['"'])⟩ else none
  | _ => none

/-- The token a lexeme makes on a line. -/
def token (line : Nat) (lexeme : Lexeme) : Token :=
  ⟨lexeme.kind, String.ofList lexeme.text, line⟩

end Lexeme

/-- A rule for the lexeme at the front of a text. -/
inductive Rule
  /-- This very text. -/
  | symbol (text : List Char) (kind : TokenKind)
  /-- This very text, with no character of a word behind it. -/
  | keyword (text : List Char) (kind : TokenKind)
  | number
  | string
  | name

namespace Rule

/-- The lexeme that a rule finds. -/
def read? : Rule → List Char → Option Lexeme
  | symbol text kind, cs => if text.isPrefixOf cs then some ⟨kind, text⟩ else none
  | keyword text kind, cs =>
    if text.isPrefixOf cs && !(cs.drop text.length).head?.any isWordChar then some ⟨kind, text⟩
    else none
  | number, cs => Lexeme.number? cs
  | string, cs => Lexeme.string? cs
  | name, cs => Lexeme.name? cs

/-- All rules, in the order in which they are tried. -/
def table : List Rule :=
  TokenKind.symbols.map (fun s => symbol s.1 s.2) ++
    TokenKind.keywords.map (fun w => keyword w.1 w.2) ++ [number, string, name]

end Rule

/-- The lexeme at the front of a text, by the first rule that applies. -/
def Lexeme.first? (cs : List Char) : Option Lexeme :=
  Rule.table.findSome? (·.read? cs)

/-- Whether a comment begins here. -/
def startsComment : List Char → Bool
  | '/' :: '/' :: _ => true
  | _ => false

/-- The lexemes of a line, after `skip` characters of it, and the rest that no lexeme
could be read from: nothing, or a comment, or a fault. -/
def lexemes : (skip : Nat) → List Char → List Lexeme × List Char
  | _, [] => ([], [])
  | skip + 1, _ :: cs => lexemes skip cs
  | 0, c :: cs =>
    if isBlank c then lexemes 0 cs
    else if startsComment (c :: cs) then ([], c :: cs)
    else match Lexeme.first? (c :: cs) with
      | none => ([], c :: cs)
      | some lexeme =>
        let (more, rest) := lexemes (lexeme.text.length - 1) cs
        (lexeme :: more, rest)

end Lox
