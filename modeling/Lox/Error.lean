/-!
# Errors

Every stage reports what went wrong in its own terms: the scanner with a
`LexicalFault`, the parser with a `GrammarFault`, the evaluator with a `RuntimeFault`.
What they share is here: the kind of an error, the words for it (`Complaint`), and the
line it is reported at (`Located`), which may be filled in later but is never replaced
(`Located.withLine_of_isSome`).
-/

namespace Lox

/-- The kinds of error that are told apart when one is reported. -/
inductive ErrorKind
  /-- A piece of text that is no lexeme. -/
  | lexical
  /-- Tokens that are no program. -/
  | grammar
  /-- Assignment to a name that no enclosing scope declares. -/
  | undefinedVariable
  /-- Arithmetic or ordering on `nil`. -/
  | nilOperand
  /-- A call of something that is no function. -/
  | notCallable
  /-- A call with the wrong number of arguments. -/
  | arityMismatch
  /-- An operator applied to operands of the wrong type. -/
  | wrongType
  /-- A `return` outside every function body. -/
  | invalidReturn
  /-- Calls nested too deeply. -/
  | stackOverflow
deriving DecidableEq

namespace ErrorKind

/-- The title under which errors of a kind are reported. -/
def title : ErrorKind → String
  | lexical => "Token error"
  | grammar => "Syntax error"
  | undefinedVariable => "Undefined variable"
  | nilOperand => "Nil operand"
  | notCallable => "Not callable"
  | arityMismatch => "Arity mismatch"
  | wrongType => "Type error"
  | invalidReturn => "Invalid return"
  | stackOverflow => "Stack overflow"

/-- Whether errors of a kind are found before anything runs. -/
def isCompileTime : ErrorKind → Bool
  | lexical | grammar => true
  | _ => false

end ErrorKind

/-- What is wrong, apart from where. -/
structure Complaint where
  /-- The kind of error. -/
  kind : ErrorKind
  /-- The words for it. -/
  message : String
deriving DecidableEq

/-- Something to report, and the source line it belongs to if that is known. -/
structure Located (α : Type) where
  /-- What is to be reported. -/
  cause : α
  /-- The line, counted from one. -/
  line : Option Nat
deriving DecidableEq

namespace Located

variable {α β : Type}

/-- Something to report at a known line. -/
def atLine (cause : α) (line : Nat) : Located α := ⟨cause, some line⟩

/-- The same place, with something else to report there. -/
def map (f : α → β) (e : Located α) : Located β := ⟨f e.cause, e.line⟩

/-- Fills in the line if there is none yet. -/
def withLine (e : Located α) (line : Nat) : Located α :=
  match e.line with
  | none => ⟨e.cause, some line⟩
  | some _ => e

/-- Then there is a line. -/
theorem isSome_line_withLine (e : Located α) (line : Nat) : (e.withLine line).line.isSome := by
  cases h : e.line <;> simp [withLine, h]

/-- **A line that is known is not replaced.** -/
theorem withLine_of_isSome {e : Located α} (h : e.line.isSome) (line : Nat) :
    e.withLine line = e := by
  obtain ⟨known, hknown⟩ := Option.isSome_iff_exists.mp h
  simp only [withLine, hknown]

end Located

/-- An error as it is reported. -/
abbrev Error := Located Complaint

/-- The message, and the line if it is known. -/
def Error.text (e : Error) : String :=
  match e.line with
  | none => e.cause.message
  | some line => e.cause.message ++ " at line " ++ toString line

end Lox
