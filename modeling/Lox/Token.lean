/-!
# Tokens

The words of the language. A token keeps the text it was read from, and the parser
decides by its kind alone; the text matters only for names, numbers and strings.
-/

namespace Lox

/-- The kinds of token. -/
inductive TokenKind
  | leftParen | rightParen | leftBrace | rightBrace | semicolon | comma
  | minus | plus | slash | star
  | bang | bangEqual | equal | equalEqual | greater | greaterEqual | less | lessEqual
  | number | string | identifier
  | trueWord | falseWord | nilWord | varWord | printWord | ifWord | elseWord
  | forWord | whileWord | andWord | orWord | funWord | returnWord
  /-- The end of the input. -/
  | eof
deriving DecidableEq

/-- A token: its kind, the text it was read from (quotes included for a string), and the
line it stands on. -/
structure Token where
  /-- The kind. -/
  kind : TokenKind
  /-- The text. -/
  text : String
  /-- The line, counted from one. -/
  line : Nat
deriving DecidableEq

namespace TokenKind

/-- The operators and punctuation marks with their spellings. Where one spelling begins
with another, the longer one stands first. -/
def symbols : List (List Char × TokenKind) :=
  [(['('], leftParen), ([')'], rightParen), (['\x7b'], leftBrace), (['\x7d'], rightBrace),
   ([';'], semicolon), ([','], comma), (['!', '='], bangEqual), (['!'], bang),
   (['=', '='], equalEqual), (['='], equal), (['>', '='], greaterEqual), (['>'], greater),
   (['<', '='], lessEqual), (['<'], less), (['-'], minus), (['+'], plus), (['/'], slash),
   (['*'], star)]

/-- The reserved words with their spellings. -/
def keywords : List (List Char × TokenKind) :=
  [(['t', 'r', 'u', 'e'], trueWord), (['f', 'a', 'l', 's', 'e'], falseWord),
   (['n', 'i', 'l'], nilWord), (['v', 'a', 'r'], varWord),
   (['p', 'r', 'i', 'n', 't'], printWord), (['i', 'f'], ifWord),
   (['e', 'l', 's', 'e'], elseWord), (['f', 'o', 'r'], forWord),
   (['w', 'h', 'i', 'l', 'e'], whileWord), (['a', 'n', 'd'], andWord), (['o', 'r'], orWord),
   (['f', 'u', 'n'], funWord), (['r', 'e', 't', 'u', 'r', 'n'], returnWord)]

end TokenKind

end Lox
