import Lox.Number.Notation
import Lox.Program
import Lox.Program.Fault

/-!
# The parser

Recursive descent, written without recursion between the productions. A production that
needs an expression or a statement *inside* it takes the parser for it as an argument;
`expression` and `statement` then tie the knot with a bound that goes down by one for
every level of nesting. Something is always read before a nested parser is called, so
the number of tokens is bound enough: a bound of zero means that no token is left, and
then the input ends where an expression must begin.

A parser that cannot go on says why and keeps the tokens it had not read, whose first
one is where the fault lies. The first end-of-input token ends the input, whatever
follows it; a list without one ends with its last token, whose line then is the line of
the end.
-/

namespace Lox

/-- A parser that could not go on. -/
structure Stuck where
  /-- Why it could not. -/
  fault : GrammarFault
  /-- The tokens it had not read. -/
  unread : List Token

/-- A parser takes tokens from the front of a list: what it made of them, and the rest. -/
abbrev Parser (α : Type) := List Token → Except Stuck (α × List Token)

namespace Parser

/-! ### Single tokens -/

/-- The token that must stand at a landmark. -/
def expect (place : Landmark) : Parser Token
  | [] => .error ⟨.missing place, []⟩
  | t :: ts => if t.kind = place.kind then .ok (t, ts) else .error ⟨.missing place, t :: ts⟩

/-- What follows a token of the given kind, if one stands here. -/
def after? (kind : TokenKind) : List Token → Option (List Token)
  | [] => none
  | t :: ts => if t.kind = kind then some ts else none

/-! ### Operators -/

/-- The operators with one operand. -/
def unaryOp? : TokenKind → Option UnaryOp
  | .bang => some .not
  | .minus => some .negate
  | _ => none

/-- The operators of multiplication. -/
def factorOp? : TokenKind → Option BinaryOp
  | .star => some .mul
  | .slash => some .div
  | _ => none

/-- The operators of addition. -/
def termOp? : TokenKind → Option BinaryOp
  | .plus => some .add
  | .minus => some .sub
  | _ => none

/-- The operators of ordering. -/
def comparisonOp? : TokenKind → Option BinaryOp
  | .greater => some .greater
  | .greaterEqual => some .greaterEqual
  | .less => some .less
  | .lessEqual => some .lessEqual
  | _ => none

/-- The operators of equality. -/
def equalityOp? : TokenKind → Option BinaryOp
  | .equalEqual => some .equal
  | .bangEqual => some .notEqual
  | _ => none

/-- How an operator token joins its operands, for a level of binary operators. -/
def binaryJoin? (op? : TokenKind → Option BinaryOp) (t : Token) : Option (Expr → Expr → Expr) :=
  (op? t.kind).map fun op left right => .binary op left right t.line

/-- How a token joins its operands, for the level of one logical operator. -/
def logicalJoin? (kind : TokenKind) (op : LogicalOp) (t : Token) : Option (Expr → Expr → Expr) :=
  if t.kind = kind then some (.logical op) else none

/-! ### Expressions

`nested` parses an expression inside the one at hand, and `n` bounds the number of
tokens after the first. -/

section Expressions

variable (nested : Parser Expr)

/-- The text inside a pair of quotes; a text that has no such pair is taken as it is. -/
def unquote (text : String) : String :=
  match text.toList with
  | '"' :: cs => if cs.getLast? = some '"' then String.ofList cs.dropLast else text
  | _ => text

/-- A literal, a name, or an expression in parentheses. -/
def primary : Parser Expr
  | [] => .error ⟨.noExpression, []⟩
  | t :: ts =>
    match t.kind with
    | .trueWord => .ok (.literal (.bool true), ts)
    | .falseWord => .ok (.literal (.bool false), ts)
    | .nilWord => .ok (.literal .nil, ts)
    | .number =>
      match Number.read? t.text with
      | some x => .ok (.literal (.number x), ts)
      | none => .error ⟨.invalidNumber t.text, t :: ts⟩
    | .string => .ok (.literal (.string (unquote t.text)), ts)
    | .identifier => .ok (.identifier t.text t.line, ts)
    | .leftParen => do
      let (inner, ts) ← nested ts
      let (_, ts) ← expect .groupClose ts
      .ok (.grouping inner, ts)
    | _ => .error ⟨.notExpression t.text, t :: ts⟩

/-- One or more arguments with commas between them, at most `room` of them. -/
def argumentList : (room : Nat) → Parser (List Expr)
  | 0, ts => .error ⟨.tooManyArguments, ts⟩
  | room + 1, ts => do
    let (arg, ts) ← nested ts
    match after? .comma ts with
    | none => .ok ([arg], ts)
    | some ts =>
      let (args, ts) ← argumentList room ts
      .ok (arg :: args, ts)

/-- The arguments of a call, up to and including the closing parenthesis. -/
def arguments : Parser (List Expr) := fun ts =>
  match after? .rightParen ts with
  | some ts => .ok ([], ts)
  | none => do
    let (args, ts) ← argumentList nested maxArity ts
    let (_, ts) ← expect .argumentsClose ts
    .ok (args, ts)

/-- The calls that follow a callee, at most `n` of them. -/
def calls : (n : Nat) → Expr → Parser Expr
  | 0, callee, ts => .ok (callee, ts)
  | _ + 1, callee, [] => .ok (callee, [])
  | n + 1, callee, t :: ts =>
    if t.kind = .leftParen then do
      let (args, ts) ← arguments nested ts
      calls n (.call callee args t.line) ts
    else .ok (callee, t :: ts)

/-- A primary expression and the calls after it. -/
def call (n : Nat) : Parser Expr := fun ts => do
  let (callee, ts) ← primary nested ts
  calls nested n callee ts

/-- Any number of operators with one operand, and then a call. -/
def unary (n : Nat) : Parser Expr
  | [] => call nested n []
  | t :: ts =>
    match unaryOp? t.kind with
    | some op => do
      let (operand, ts) ← unary n ts
      .ok (.unary op operand t.line, ts)
    | none => call nested n (t :: ts)

/-- The operators and operands that follow a left operand, at most `n` of them, grouped
to the left. -/
def operators (join? : Token → Option (Expr → Expr → Expr)) (operand : Parser Expr) :
    (n : Nat) → Expr → Parser Expr
  | 0, left, ts => .ok (left, ts)
  | _ + 1, left, [] => .ok (left, [])
  | n + 1, left, t :: ts =>
    match join? t with
    | none => .ok (left, t :: ts)
    | some join => do
      let (right, ts) ← operand ts
      operators join? operand n (join left right) ts

/-- One level of operators that group to the left. -/
def level (join? : Token → Option (Expr → Expr → Expr)) (operand : Parser Expr) (n : Nat) :
    Parser Expr := fun ts => do
  let (left, ts) ← operand ts
  operators join? operand n left ts

/-- Multiplication and division. -/
def factor (n : Nat) : Parser Expr := level (binaryJoin? factorOp?) (unary nested n) n

/-- Addition and subtraction. -/
def term (n : Nat) : Parser Expr := level (binaryJoin? termOp?) (factor nested n) n

/-- Ordering. -/
def comparison (n : Nat) : Parser Expr := level (binaryJoin? comparisonOp?) (term nested n) n

/-- Equality. -/
def equality (n : Nat) : Parser Expr := level (binaryJoin? equalityOp?) (comparison nested n) n

/-- Conjunction. -/
def conjunction (n : Nat) : Parser Expr := level (logicalJoin? .andWord .and) (equality nested n) n

/-- Disjunction. -/
def disjunction (n : Nat) : Parser Expr := level (logicalJoin? .orWord .or) (conjunction nested n) n

/-- A disjunction, which no `=` may follow. -/
def plain (n : Nat) : Parser Expr := fun ts => do
  let (e, ts) ← disjunction nested n ts
  match after? .equal ts with
  | some _ => .error ⟨.invalidTarget, ts⟩
  | none => .ok (e, ts)

/-- An assignment to a bare name, or an expression without one. -/
def assignment (n : Nat) : Parser Expr
  | name :: eq :: ts =>
    if name.kind = .identifier ∧ eq.kind = .equal then do
      let (value, ts) ← nested ts
      .ok (.assign name.text value name.line, ts)
    else plain nested n (name :: eq :: ts)
  | ts => plain nested n ts

end Expressions

/-- **Expressions**, in a list of at most `bound` tokens. -/
def expression : (bound : Nat) → Parser Expr
  | 0, ts => .error ⟨.noExpression, ts⟩
  | n + 1, ts => assignment (expression n) n ts

/-! ### Statements

`expr` parses an expression, and `nested` a statement inside the one at hand. -/

/-- Where a statement stands: in a body, where it may be a declaration, or as the branch
of a condition or a loop, where it may not. -/
inductive Place
  | body
  | branch
deriving DecidableEq

section Statements

variable (expr : Parser Expr) (nested : Place → Parser Stmt)

/-- An expression, unless a token of the given kind stands in its place. -/
def optionalExpression (kind : TokenKind) : Parser (Option Expr) := fun ts =>
  match after? kind ts with
  | some _ => .ok (none, ts)
  | none => do
    let (e, ts) ← expr ts
    .ok (some e, ts)

/-- An expression as a statement. -/
def expressionStatement : Parser Stmt := fun ts => do
  let (e, ts) ← expr ts
  let (_, ts) ← expect .expressionEnd ts
  .ok (.expression e, ts)

/-- What follows `print`. -/
def printStatement : Parser Stmt := fun ts => do
  let (e, ts) ← expr ts
  let (_, ts) ← expect .printEnd ts
  .ok (.print e, ts)

/-- What follows `return`. -/
def returnStatement (line : Nat) : Parser Stmt := fun ts => do
  let (value, ts) ← optionalExpression expr .semicolon ts
  let (_, ts) ← expect .returnEnd ts
  .ok (.ret value line, ts)

/-- The initial value of a variable, if an `=` announces one. -/
def initialValue : Parser (Option Expr) := fun ts =>
  match after? .equal ts with
  | none => .ok (none, ts)
  | some ts => do
    let (e, ts) ← expr ts
    .ok (some e, ts)

/-- What follows `var`. -/
def variableDeclaration : Parser Stmt := fun ts => do
  let (name, ts) ← expect .variableName ts
  let (initial, ts) ← initialValue expr ts
  let (_, ts) ← expect .variableEnd ts
  .ok (.var name.text initial, ts)

/-- One or more parameters with commas between them, at most `room` of them. -/
def parameterList : (room : Nat) → Parser (List String)
  | 0, ts => do
    let _ ← expect .parameterName ts
    .error ⟨.tooManyParameters, ts⟩
  | room + 1, ts => do
    let (name, ts) ← expect .parameterName ts
    match after? .comma ts with
    | none => .ok ([name.text], ts)
    | some ts =>
      let (names, ts) ← parameterList room ts
      .ok (name.text :: names, ts)

/-- The parameters of a function, up to the closing parenthesis. -/
def parameters : Parser (List String) := fun ts =>
  match after? .rightParen ts with
  | some _ => .ok ([], ts)
  | none => parameterList maxArity ts

/-- The statements of a block, at most `n` of them, and the closing brace. -/
def blockRest : (n : Nat) → Parser (List Stmt)
  | 0, ts => .error ⟨.missing .blockClose, ts⟩
  | _ + 1, [] => .error ⟨.missing .blockClose, []⟩
  | n + 1, t :: ts =>
    if t.kind = .rightBrace then .ok ([], ts)
    else do
      let (s, ts) ← nested .body (t :: ts)
      let (ss, ts) ← blockRest n ts
      .ok (s :: ss, ts)

/-- What follows `fun`. -/
def functionDeclaration (n : Nat) : Parser Stmt := fun ts => do
  let (name, ts) ← expect .functionName ts
  let (_, ts) ← expect .functionOpen ts
  let (params, ts) ← parameters ts
  let (_, ts) ← expect .parametersClose ts
  let (_, ts) ← expect .bodyOpen ts
  let (body, ts) ← blockRest nested n ts
  .ok (.function name.text params body, ts)

/-- What follows `if`. An `else` belongs to the nearest `if` that has none. -/
def ifStatement : Parser Stmt := fun ts => do
  let (_, ts) ← expect .ifOpen ts
  let (cond, ts) ← expr ts
  let (_, ts) ← expect .ifClose ts
  let (yes, ts) ← nested .branch ts
  match after? .elseWord ts with
  | none => .ok (.branch cond yes none, ts)
  | some ts => do
    let (no, ts) ← nested .branch ts
    .ok (.branch cond yes (some no), ts)

/-- What follows `while`. -/
def whileStatement : Parser Stmt := fun ts => do
  let (_, ts) ← expect .whileOpen ts
  let (cond, ts) ← expr ts
  let (_, ts) ← expect .whileClose ts
  let (body, ts) ← nested .branch ts
  .ok (.loop cond body, ts)

/-- The first clause of a `for` loop, up to and including its semicolon. -/
def forInitializer : Parser (Option Stmt) := fun ts =>
  match after? .semicolon ts, after? .varWord ts with
  | some ts, _ => .ok (none, ts)
  | none, some ts => do
    let (s, ts) ← variableDeclaration expr ts
    .ok (some s, ts)
  | none, none => do
    let (s, ts) ← expressionStatement expr ts
    .ok (some s, ts)

/-- What follows `for`. -/
def forStatement : Parser Stmt := fun ts => do
  let (_, ts) ← expect .forOpen ts
  let (initializer, ts) ← forInitializer expr ts
  let (cond, ts) ← optionalExpression expr .semicolon ts
  let (_, ts) ← expect .forConditionEnd ts
  let (increment, ts) ← optionalExpression expr .rightParen ts
  let (_, ts) ← expect .forClose ts
  let (body, ts) ← nested .branch ts
  .ok (.forLoop initializer cond increment body, ts)

/-- A statement, by its first token. -/
def statementWith (n : Nat) (place : Place) : Parser Stmt
  | [] => expressionStatement expr []
  | t :: ts =>
    match t.kind, place with
    | .funWord, .body => functionDeclaration nested n ts
    | .varWord, .body => variableDeclaration expr ts
    | .leftBrace, _ => do
      let (body, ts) ← blockRest nested n ts
      .ok (.block body, ts)
    | .ifWord, _ => ifStatement expr nested ts
    | .whileWord, _ => whileStatement expr nested ts
    | .forWord, _ => forStatement expr nested ts
    | .returnWord, _ => returnStatement expr t.line ts
    | .printWord, _ => printStatement expr ts
    | _, _ => expressionStatement expr (t :: ts)

end Statements

/-- **Statements**, in a list of at most `bound` tokens. -/
def statement : (bound : Nat) → Place → Parser Stmt
  | 0, _, ts => .error ⟨.noExpression, ts⟩
  | n + 1, place, ts => statementWith (expression (n + 1)) (statement n) n place ts

/-- Statements up to the end of the input, at most `n` of them. -/
def statements (one : Parser Stmt) : (n : Nat) → List Token → Except Stuck (List Stmt)
  | _, [] => .ok []
  | 0, ts => .error ⟨.noExpression, ts⟩
  | n + 1, ts => do
    let (s, ts) ← one ts
    let ss ← statements one n ts
    .ok (s :: ss)

end Parser

/-! ### Whole inputs -/

/-- The tokens before the end of the input. -/
def beforeEnd (tokens : List Token) : List Token :=
  tokens.takeWhile fun t => t.kind != .eof

/-- The line on which the input ends. -/
def endLine (tokens : List Token) : Nat :=
  match tokens.find? fun t => t.kind == .eof with
  | some t => t.line
  | none => (tokens.getLast?.map Token.line).getD 0

/-- The fault of a parser, at the first token it had not read or at the end. -/
def Stuck.located (endLine : Nat) (s : Stuck) : Located GrammarFault :=
  .atLine s.fault ((s.unread.head?.map Token.line).getD endLine)

/-- **The program** that a list of tokens makes up. -/
def parse (tokens : List Token) : Except (Located GrammarFault) (List Stmt) :=
  let input := beforeEnd tokens
  let n := input.length
  (Parser.statements (Parser.statement n .body) n input).mapError (Stuck.located (endLine tokens))

/-- **The expression** that a list of tokens makes up. -/
def parseExpression (tokens : List Token) : Except (Located GrammarFault) Expr :=
  let input := beforeEnd tokens
  let whole : Except Stuck Expr := do
    let (e, rest) ← Parser.expression input.length input
    match rest with
    | [] => .ok e
    | t :: ts => .error ⟨.trailing t.text, t :: ts⟩
  whole.mapError (Stuck.located (endLine tokens))

end Lox
