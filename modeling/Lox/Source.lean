import Lox.Eval
import Lox.Program.Parser
import Lox.Scanner

/-!
# Running source text

From text to an answer: scanning, parsing and running, with an error of any of the three
stages reported in the same terms. A text that does not scan or parse leaves no trace in
the machine but the events of the stages it passed.
-/

namespace Lox

/-- The tokens of a text. -/
def tokensOf (source : String) : Except Error (List Token) :=
  (scan source).mapError (Located.map LexicalFault.complaint)

/-- The program that tokens make up. -/
def programOf (tokens : List Token) : Except Error (List Stmt) :=
  (parse tokens).mapError (Located.map GrammarFault.complaint)

/-- The expression that tokens make up. -/
def expressionOf (tokens : List Token) : Except Error Expr :=
  (parseExpression tokens).mapError (Located.map GrammarFault.complaint)

/-- The program of a text. -/
def compile (source : String) : Except Error (List Stmt) := do
  let tokens ← tokensOf source
  programOf tokens

/-- The event of having read a text as tokens. -/
def Event.ofTokens (tokens : List Token) : Event :=
  .scanned tokens.length ((tokens.getLast?.map Token.line).getD 0)

/-- What a run comes to: a result or an error, and the machine it leaves; nothing at all
if the fuel ran out. -/
abbrev Answer (α : Type) := Option (Except Error α × Machine)

/-- The answer that an outcome gives. -/
def Outcome.answer {α : Type} : Outcome α → Answer α
  | .done a m => some (.ok a, m)
  | .failed fault m => some (.error (fault.map RuntimeFault.complaint), m)
  | .exhausted => none

namespace Machine

/-- **Runs a text** in a scope. -/
def runText (fuel : Nat) (source : String) (s : Scope) (m : Machine) : Answer (Option Value) :=
  match tokensOf source with
  | .error e => some (.error e, m)
  | .ok tokens =>
    let m := m.note (.ofTokens tokens)
    match programOf tokens with
    | .error e => some (.error e, m)
    | .ok program =>
      (runProgram (some maxDepth) fuel program s (m.note (.parsed program.length))).answer

/-- Runs a text in a new scope that no other encloses, whose value nobody sees. -/
def runFresh (fuel : Nat) (source : String) (m : Machine) : Answer (Option Value) :=
  match tokensOf source with
  | .error e => some (.error e, m)
  | .ok tokens =>
    let m := m.note (.ofTokens tokens)
    match programOf tokens with
    | .error e => some (.error e, m)
    | .ok program =>
      let (s, m) := (m.note (.parsed program.length)).newRoot
      (runProgram (some maxDepth) fuel program s m).answer.map fun (r, m) =>
        (r.map fun _ => none, m)

/-- Evaluates a text that is one expression. -/
def evalText (fuel : Nat) (source : String) (s : Scope) (m : Machine) : Answer Value :=
  match tokensOf source with
  | .error e => some (.error e, m)
  | .ok tokens =>
    let m := m.note (.ofTokens tokens)
    match expressionOf tokens with
    | .error e => some (.error e, m)
    | .ok e => (eval (some maxDepth) fuel e s m).answer

end Machine

end Lox
