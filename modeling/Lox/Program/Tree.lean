import Lox.Number.Notation
import Lox.Program
import Lox.Text.Quoted

/-!
# Programs as trees of text

A program written out as nested lists in parentheses, one list for each node, with the
node's line after an `@` where it has one. This is a view for people who want to see how
a text was understood; it is not a text that can be read back.
-/

namespace Lox

/-- The text of a literal. -/
def Literal.tree : Literal → String
  | bool b => if b then "true" else "false"
  | number x => Number.text x
  | string s => quoted s
  | nil => "nil"

/-- The name of an operator in a tree. -/
def UnaryOp.label : UnaryOp → String
  | not => "Not"
  | negate => "Negate"

/-- The name of an operator in a tree. -/
def LogicalOp.label : LogicalOp → String
  | and => "And"
  | or => "Or"

/-- The mark of a line. -/
def lineMark (line : Nat) : String := "@" ++ toString line

/-- A node of a tree: a label and the items under it. -/
def node (label : String) (items : List String) : String :=
  "(" ++ " ".intercalate (label :: items) ++ ")"

namespace Expr

mutual

/-- The tree of an expression. -/
def tree : Expr → String
  | literal value => value.tree
  | identifier name line => node "id" [name, lineMark line]
  | grouping inner => node "group" [inner.tree]
  | unary op operand line => node "unary" [op.label, lineMark line, operand.tree]
  | binary op left right line => node op.symbol [lineMark line, left.tree, right.tree]
  | logical op left right => node op.label [left.tree, right.tree]
  | assign name value line => node "assign" [name, lineMark line, value.tree]
  | call callee args line => node "call" (lineMark line :: callee.tree :: trees args)

/-- The trees of several expressions. -/
def trees : List Expr → List String
  | [] => []
  | e :: es => e.tree :: trees es

end

end Expr

namespace Stmt

mutual

/-- The tree of a statement. -/
def tree : Stmt → String
  | var name initial => node "var" (name :: (initial.map Expr.tree).toList)
  | function name params body =>
    node "fun" (name :: ("(" ++ " ".intercalate params ++ ")") :: trees body)
  | block body => node "block" (trees body)
  | branch cond yes none => node "if" [cond.tree, yes.tree]
  | branch cond yes (some no) => node "if" [cond.tree, yes.tree, no.tree]
  | loop cond body => node "while" [cond.tree, body.tree]
  | print value => node "print" [value.tree]
  | ret value line => node "return" (lineMark line :: (value.map Expr.tree).toList)
  | expression value => node "expr" [value.tree]

/-- The trees of several statements. -/
def trees : List Stmt → List String
  | [] => []
  | s :: ss => s.tree :: trees ss

end

end Stmt

end Lox
