/-!
# Programs

The abstract syntax: literals, operators, expressions and statements. A node whose own
operation can fail when it runs carries the line it is reported at, which is the line of
its operator, its name, its opening parenthesis or its `return`.

There is no node for a `for` loop. It is written with a block and a `while` loop, as
`Stmt.forLoop` says.
-/

namespace Lox

/-- A value written out in a program. -/
inductive Literal
  | bool (b : Bool)
  | number (x : Float)
  | string (s : String)
  | nil

/-- The operators with one operand. -/
inductive UnaryOp
  | not
  | negate
deriving DecidableEq

/-- The operators with two operands, both of which are always evaluated. -/
inductive BinaryOp
  | add | sub | mul | div
  | greater | greaterEqual | less | lessEqual
  | equal | notEqual
deriving DecidableEq

/-- The spelling of an operator. -/
def BinaryOp.symbol : BinaryOp → String
  | add => "+"
  | sub => "-"
  | mul => "*"
  | div => "/"
  | greater => ">"
  | greaterEqual => ">="
  | less => "<"
  | lessEqual => "<="
  | equal => "=="
  | notEqual => "!="

/-- The operators whose second operand is evaluated only if it matters. -/
inductive LogicalOp
  | and
  | or
deriving DecidableEq

/-- Expressions. -/
inductive Expr
  | literal (value : Literal)
  | identifier (name : String) (line : Nat)
  | grouping (inner : Expr)
  | unary (op : UnaryOp) (operand : Expr) (line : Nat)
  | binary (op : BinaryOp) (left right : Expr) (line : Nat)
  | logical (op : LogicalOp) (left right : Expr)
  | assign (name : String) (value : Expr) (line : Nat)
  | call (callee : Expr) (args : List Expr) (line : Nat)

/-- Statements and declarations. -/
inductive Stmt
  /-- Declares a variable, `nil` if there is no initial value. -/
  | var (name : String) (initial : Option Expr)
  /-- Declares a function. -/
  | function (name : String) (params : List String) (body : List Stmt)
  /-- Runs statements in a scope of their own. -/
  | block (body : List Stmt)
  /-- Runs one of two branches; the second may be missing. -/
  | branch (cond : Expr) (yes : Stmt) (no : Option Stmt)
  /-- Runs a body as long as a condition holds. -/
  | loop (cond : Expr) (body : Stmt)
  | print (value : Expr)
  /-- Leaves the function body, with `nil` if there is no value. -/
  | ret (value : Option Expr) (line : Nat)
  | expression (value : Expr)

/-- A function as it was declared. -/
structure Function where
  /-- Its name. -/
  name : String
  /-- The names of its parameters. -/
  params : List String
  /-- Its body. -/
  body : List Stmt

/-- How many arguments a function takes. -/
def Function.arity (f : Function) : Nat := f.params.length

/-- The `for` loop, all of whose three clauses may be missing: a scope of its own for the
initializer, and in it a `while` loop whose body is followed by the increment. Without a
condition the loop goes on for ever. -/
def Stmt.forLoop (initializer : Option Stmt) (cond increment : Option Expr) (body : Stmt) : Stmt :=
  let round := body :: (increment.map Stmt.expression).toList
  let loop := Stmt.loop (cond.getD (.literal (.bool true))) (.block round)
  .block (initializer.toList ++ [loop])

end Lox
