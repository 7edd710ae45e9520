import Lox.Error
import Lox.Text.Lines
import Lox.Text.Style

/-!
# Diagnostics

An error as it is shown to the author of a program: the stage it belongs to, its kind and
message, the line of the source it points at if there is such a line, and a hint where
there is a usual cause.
-/

namespace Lox

/-- Whether a text occurs in another. -/
def occursIn (needle : List Char) : List Char → Bool
  | [] => needle.isEmpty
  | c :: cs => needle.isPrefixOf (c :: cs) || occursIn needle cs

namespace Error

/-- The usual way to mend an error. -/
def hint? (e : Error) : Option String :=
  match e.cause.kind with
  | .undefinedVariable => some "Help: Declare the variable with 'var' before assigning to it."
  | .nilOperand =>
    some "Help: A variable declared without an initializer holds nil until assigned."
  | .notCallable => some "Help: Only functions declared with 'fun' can be called."
  | .arityMismatch => some "Help: Check the parameter list of the function being called."
  | .invalidReturn => some "Help: 'return' is only allowed inside a function body."
  | .stackOverflow => some "Help: Make sure every recursive function has a reachable base case."
  | .grammar =>
    if occursIn "semicolon".toList e.cause.message.toList then
      some "Help: Every statement ends with ';'."
    else none
  | .lexical =>
    if occursIn "Unterminated string".toList e.cause.message.toList then
      some "Help: Strings must be closed with '\"' on the same line."
    else none
  | .wrongType => none

/-- The line of the source that an error points at. -/
def sourceLine? (source : String) (e : Error) : Option String :=
  match e.line with
  | none | some 0 => none
  | some (i + 1) => (lines source.toList)[i]?.map String.ofList

/-- The lines in which an error is shown. -/
def diagnosticLines (source : String) (e : Error) : List String :=
  let stage := if e.cause.kind.isCompileTime then "Compile error" else "Runtime error"
  let head := bold (coloured .red stage) ++ " (" ++ e.cause.kind.title ++ "): " ++
    coloured .red e.cause.message
  let place := e.line.toList.flatMap fun line =>
    ("  --> line " ++ toString line) ::
      match e.sourceLine? source with
      | none => []
      | some text =>
        ["     |", coloured .grey (padLeft 3 (toString line) ++ " | ") ++ text, "     |"]
  head :: (place ++ e.hint?.toList.map (coloured .yellow))

/-- **An error as it is shown**, beside the source it was found in. -/
def diagnostic (source : String) (e : Error) : String :=
  String.join ((e.diagnosticLines source).map (· ++ "\n"))

end Error

end Lox
