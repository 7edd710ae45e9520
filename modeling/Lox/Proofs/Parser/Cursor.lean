import Lox.Program.Parser

/-!
# Reading by places

The parser of a program takes tokens off a list that has been cut at the first end of the input, so
it cannot look behind it. The parser of this file could. It is the same recursive descent, but it
keeps the whole list, names a token by its place in it, and goes from a place to the next one or
the one after that without asking what stands there. Behind the last token there is an end of the
input at every place.

Nothing tells in advance how far such a parser goes, so every loop and every nesting has a bound of
its own, and a parser whose bound is used up says so: it has no fault to report.
-/

namespace Lox

open Lox.Parser (Place binaryJoin? logicalJoin? unquote)

namespace Cursor

/-- A reader is sent to a place: what it made of the tokens from there on, and the place behind
them. It may also find a fault, or come to the end of its bound. -/
abbrev Reader (α : Type) := Nat → Except (Option (Located GrammarFault)) (α × Nat)

variable {α : Type} (tokens : List Token)

/-! ### Single tokens -/

/-- The line of the last token. -/
def lastLine : Nat := (tokens.getLast?.map Token.line).getD 0

/-- The token at a place. -/
def token (i : Nat) : Token := tokens[i]?.getD ⟨.eof, "", lastLine tokens⟩

/-- A fault at a place. -/
def fail (fault : GrammarFault) (i : Nat) : Except (Option (Located GrammarFault)) α :=
  .error (some (.atLine fault (token tokens i).line))

/-- The bound is used up. -/
def giveUp : Except (Option (Located GrammarFault)) α := .error none

/-- The token that must stand at a landmark. -/
def expect (place : Landmark) : Reader Token := fun i =>
  if (token tokens i).kind = place.kind then .ok (token tokens i, i + 1)
  else fail tokens (.missing place) i

/-! ### Expressions -/

section Expressions

variable (nested : Reader Expr)

/-- A literal, a name, or an expression in parentheses. -/
def primary : Reader Expr := fun i =>
  match (token tokens i).kind with
  | .trueWord => .ok (.literal (.bool true), i + 1)
  | .falseWord => .ok (.literal (.bool false), i + 1)
  | .nilWord => .ok (.literal .nil, i + 1)
  | .number =>
    match Number.read? (token tokens i).text with
    | some x => .ok (.literal (.number x), i + 1)
    | none => fail tokens (.invalidNumber (token tokens i).text) i
  | .string => .ok (.literal (.string (unquote (token tokens i).text)), i + 1)
  | .identifier => .ok (.identifier (token tokens i).text (token tokens i).line, i + 1)
  | .leftParen => do
    let (inner, j) ← nested (i + 1)
    let (_, j) ← expect tokens .groupClose j
    .ok (.grouping inner, j)
  | .eof => fail tokens .noExpression i
  | _ => fail tokens (.notExpression (token tokens i).text) i

/-- One or more arguments with commas between them, at most `room` of them. -/
def argumentList : (room : Nat) → Reader (List Expr)
  | 0, i => fail tokens .tooManyArguments i
  | room + 1, i => do
    let (arg, j) ← nested i
    if (token tokens j).kind = .comma then
      let (args, j) ← argumentList room (j + 1)
      .ok (arg :: args, j)
    else .ok ([arg], j)

/-- The arguments of a call, up to and including the closing parenthesis. -/
def arguments : Reader (List Expr) := fun i =>
  if (token tokens i).kind = .rightParen then .ok ([], i + 1)
  else do
    let (args, j) ← argumentList tokens nested maxArity i
    let (_, j) ← expect tokens .argumentsClose j
    .ok (args, j)

/-- The calls that follow a callee. -/
def calls : (n : Nat) → Expr → Reader Expr
  | 0, _, _ => giveUp
  | n + 1, callee, i =>
    if (token tokens i).kind = .leftParen then do
      let (args, j) ← arguments tokens nested (i + 1)
      calls n (.call callee args (token tokens i).line) j
    else .ok (callee, i)

/-- A primary expression and the calls after it. -/
def call (n : Nat) : Reader Expr := fun i => do
  let (callee, j) ← primary tokens nested i
  calls tokens nested n callee j

/-- Any number of operators with one operand, and then a call. -/
def unary : (n : Nat) → Reader Expr
  | 0, _ => giveUp
  | n + 1, i =>
    match Parser.unaryOp? (token tokens i).kind with
    | some op => do
      let (operand, j) ← unary n (i + 1)
      .ok (.unary op operand (token tokens i).line, j)
    | none => call tokens nested (n + 1) i

/-- The operators and operands that follow a left operand, grouped to the left. -/
def operators (join? : Token → Option (Expr → Expr → Expr)) (operand : Reader Expr) :
    (n : Nat) → Expr → Reader Expr
  | 0, _, _ => giveUp
  | n + 1, left, i =>
    match join? (token tokens i) with
    | none => .ok (left, i)
    | some join => do
      let (right, j) ← operand (i + 1)
      operators join? operand n (join left right) j

/-- One level of operators that group to the left. -/
def level (join? : Token → Option (Expr → Expr → Expr)) (operand : Reader Expr) (n : Nat) :
    Reader Expr := fun i => do
  let (left, j) ← operand i
  operators tokens join? operand n left j

/-- Multiplication and division. -/
def factor (n : Nat) : Reader Expr :=
  level tokens (binaryJoin? Parser.factorOp?) (unary tokens nested n) n

/-- Addition and subtraction. -/
def term (n : Nat) : Reader Expr :=
  level tokens (binaryJoin? Parser.termOp?) (factor tokens nested n) n

/-- Ordering. -/
def comparison (n : Nat) : Reader Expr :=
  level tokens (binaryJoin? Parser.comparisonOp?) (term tokens nested n) n

/-- Equality. -/
def equality (n : Nat) : Reader Expr :=
  level tokens (binaryJoin? Parser.equalityOp?) (comparison tokens nested n) n

/-- Conjunction. -/
def conjunction (n : Nat) : Reader Expr :=
  level tokens (logicalJoin? .andWord .and) (equality tokens nested n) n

/-- Disjunction. -/
def disjunction (n : Nat) : Reader Expr :=
  level tokens (logicalJoin? .orWord .or) (conjunction tokens nested n) n

/-- A disjunction, which no `=` may follow. -/
def plain (n : Nat) : Reader Expr := fun i => do
  let (e, j) ← disjunction tokens nested n i
  if (token tokens j).kind = .equal then fail tokens .invalidTarget j else .ok (e, j)

/-- An assignment to a bare name, or an expression without one. -/
def assignment (n : Nat) : Reader Expr := fun i =>
  if (token tokens i).kind = .identifier ∧ (token tokens (i + 1)).kind = .equal then do
    let (value, j) ← nested (i + 2)
    .ok (.assign (token tokens i).text value (token tokens i).line, j)
  else plain tokens nested n i

end Expressions

/-- **Expressions**, read by places. -/
def expression : (n : Nat) → Reader Expr
  | 0, _ => giveUp
  | n + 1, i => assignment tokens (expression n) (n + 1) i

/-! ### Statements -/

section Statements

variable (expr : Reader Expr) (nested : Place → Reader Stmt)

/-- An expression, unless a token of the given kind stands in its place. -/
def optionalExpression (kind : TokenKind) : Reader (Option Expr) := fun i =>
  if (token tokens i).kind = kind then .ok (none, i)
  else do
    let (e, j) ← expr i
    .ok (some e, j)

/-- An expression as a statement. -/
def expressionStatement : Reader Stmt := fun i => do
  let (e, j) ← expr i
  let (_, j) ← expect tokens .expressionEnd j
  .ok (.expression e, j)

/-- What follows `print`. -/
def printStatement : Reader Stmt := fun i => do
  let (e, j) ← expr i
  let (_, j) ← expect tokens .printEnd j
  .ok (.print e, j)

/-- What follows `return`. -/
def returnStatement (line : Nat) : Reader Stmt := fun i => do
  let (value, j) ← optionalExpression tokens expr .semicolon i
  let (_, j) ← expect tokens .returnEnd j
  .ok (.ret value line, j)

/-- The initial value of a variable, if an `=` announces one. -/
def initialValue : Reader (Option Expr) := fun i =>
  if (token tokens i).kind = .equal then do
    let (e, j) ← expr (i + 1)
    .ok (some e, j)
  else .ok (none, i)

/-- What follows `var`. -/
def variableDeclaration : Reader Stmt := fun i => do
  let (name, j) ← expect tokens .variableName i
  let (initial, j) ← initialValue tokens expr j
  let (_, j) ← expect tokens .variableEnd j
  .ok (.var name.text initial, j)

/-- One or more parameters with commas between them, at most `room` of them. -/
def parameterList : (room : Nat) → Reader (List String)
  | 0, i => do
    let _ ← expect tokens .parameterName i
    fail tokens .tooManyParameters i
  | room + 1, i => do
    let (name, j) ← expect tokens .parameterName i
    if (token tokens j).kind = .comma then
      let (names, j) ← parameterList room (j + 1)
      .ok (name.text :: names, j)
    else .ok ([name.text], j)

/-- The parameters of a function, up to the closing parenthesis. -/
def parameters : Reader (List String) := fun i =>
  if (token tokens i).kind = .rightParen then .ok ([], i) else parameterList tokens maxArity i

/-- The statements of a block, and the closing brace. -/
def blockRest : (n : Nat) → Reader (List Stmt)
  | 0, _ => giveUp
  | n + 1, i =>
    if (token tokens i).kind = .rightBrace ∨ (token tokens i).kind = .eof then do
      let (_, j) ← expect tokens .blockClose i
      .ok ([], j)
    else do
      let (s, j) ← nested .body i
      let (ss, j) ← blockRest n j
      .ok (s :: ss, j)

/-- What follows `fun`. -/
def functionDeclaration (n : Nat) : Reader Stmt := fun i => do
  let (name, j) ← expect tokens .functionName i
  let (_, j) ← expect tokens .functionOpen j
  let (params, j) ← parameters tokens j
  let (_, j) ← expect tokens .parametersClose j
  let (_, j) ← expect tokens .bodyOpen j
  let (body, j) ← blockRest tokens nested n j
  .ok (.function name.text params body, j)

/-- What follows `if`. -/
def ifStatement : Reader Stmt := fun i => do
  let (_, j) ← expect tokens .ifOpen i
  let (cond, j) ← expr j
  let (_, j) ← expect tokens .ifClose j
  let (yes, j) ← nested .branch j
  if (token tokens j).kind = .elseWord then
    let (no, j) ← nested .branch (j + 1)
    .ok (.branch cond yes (some no), j)
  else .ok (.branch cond yes none, j)

/-- What follows `while`. -/
def whileStatement : Reader Stmt := fun i => do
  let (_, j) ← expect tokens .whileOpen i
  let (cond, j) ← expr j
  let (_, j) ← expect tokens .whileClose j
  let (body, j) ← nested .branch j
  .ok (.loop cond body, j)

/-- The first clause of a `for` loop, up to and including its semicolon. -/
def forInitializer : Reader (Option Stmt) := fun i =>
  match (token tokens i).kind with
  | .semicolon => .ok (none, i + 1)
  | .varWord => do
    let (s, j) ← variableDeclaration tokens expr (i + 1)
    .ok (some s, j)
  | _ => do
    let (s, j) ← expressionStatement tokens expr i
    .ok (some s, j)

/-- What follows `for`. -/
def forStatement : Reader Stmt := fun i => do
  let (_, j) ← expect tokens .forOpen i
  let (initializer, j) ← forInitializer tokens expr j
  let (cond, j) ← optionalExpression tokens expr .semicolon j
  let (_, j) ← expect tokens .forConditionEnd j
  let (increment, j) ← optionalExpression tokens expr .rightParen j
  let (_, j) ← expect tokens .forClose j
  let (body, j) ← nested .branch j
  .ok (.forLoop initializer cond increment body, j)

/-- A statement, by its first token. -/
def statementWith (n : Nat) (place : Place) : Reader Stmt := fun i =>
  match (token tokens i).kind, place with
  | .funWord, .body => functionDeclaration tokens nested n (i + 1)
  | .varWord, .body => variableDeclaration tokens expr (i + 1)
  | .leftBrace, _ => do
    let (body, j) ← blockRest tokens nested n (i + 1)
    .ok (.block body, j)
  | .ifWord, _ => ifStatement tokens expr nested (i + 1)
  | .whileWord, _ => whileStatement tokens expr nested (i + 1)
  | .forWord, _ => forStatement tokens expr nested (i + 1)
  | .returnWord, _ => returnStatement tokens expr (token tokens i).line (i + 1)
  | .printWord, _ => printStatement tokens expr (i + 1)
  | _, _ => expressionStatement tokens expr i

end Statements

/-- **Statements**, read by places. -/
def statement : (n : Nat) → Place → Reader Stmt
  | 0, _, _ => giveUp
  | n + 1, place, i =>
    statementWith tokens (expression tokens (n + 1)) (statement n) (n + 1) place i

/-- Statements up to an end of the input. -/
def statements (one : Reader Stmt) : (n i : Nat) →
    Except (Option (Located GrammarFault)) (List Stmt)
  | 0, _ => giveUp
  | n + 1, i =>
    if (token tokens i).kind = .eof then .ok []
    else do
      let (s, j) ← one i
      let ss ← statements one n j
      .ok (s :: ss)

/-! ### Whole inputs -/

/-- **The program** that a list of tokens makes up, read by places under a bound. -/
def parse (n : Nat) : Except (Option (Located GrammarFault)) (List Stmt) :=
  statements tokens (statement tokens n .body) n 0

/-- **The expression** that a list of tokens makes up, read by places under a bound. -/
def parseExpression (n : Nat) : Except (Option (Located GrammarFault)) Expr := do
  let (e, i) ← expression tokens n 0
  if (token tokens i).kind = .eof then .ok e
  else fail tokens (.trailing (token tokens i).text) i

end Cursor

end Lox
