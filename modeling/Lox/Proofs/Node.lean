import Lox.Program
import Lox.Token

/-!
# The nodes that carry a line

Everything in a program whose own operation can fail has a line, and so do names. `Lox.Node` is
such a piece of a tree, whole, with the parts it operates on; two nodes on one line are told apart
by them. The nodes of a program are listed by `Lox.programNodes`, those in the bodies of its
functions included.

A node stands where its *lexeme* stands: its name, its operator, its opening parenthesis or its
`return`.
-/

namespace Lox

/-- **A node that carries a line.** -/
inductive Node
  | identifier (name : String) (line : Nat)
  | unary (op : UnaryOp) (operand : Expr) (line : Nat)
  | binary (op : BinaryOp) (left right : Expr) (line : Nat)
  | assign (name : String) (value : Expr) (line : Nat)
  | call (callee : Expr) (args : List Expr) (line : Nat)
  | ret (value : Option Expr) (line : Nat)

/-- The spelling of an operator. -/
def UnaryOp.symbol : UnaryOp → String
  | not => "!"
  | negate => "-"

namespace Node

/-- The line of a node. -/
def line : Node → Nat
  | identifier _ line | unary _ _ line | binary _ _ _ line | assign _ _ line | call _ _ line
  | ret _ line => line

/-- What stands in the text at the place of a node. -/
def lexeme : Node → String
  | identifier name _ => name
  | unary op _ _ => op.symbol
  | binary op _ _ _ => op.symbol
  | assign name _ _ => name
  | call .. => "("
  | ret .. => "return"

end Node

/-! ### The nodes of a tree -/

namespace Expr

mutual

/-- The nodes of an expression. -/
def nodes : Expr → List Node
  | literal _ => []
  | identifier name line => [.identifier name line]
  | grouping inner => inner.nodes
  | unary op operand line => .unary op operand line :: operand.nodes
  | binary op left right line => .binary op left right line :: (left.nodes ++ right.nodes)
  | logical _ left right => left.nodes ++ right.nodes
  | assign name value line => .assign name value line :: value.nodes
  | call callee args line => .call callee args line :: (callee.nodes ++ nodesAll args)

/-- The nodes of several expressions. -/
def nodesAll : List Expr → List Node
  | [] => []
  | e :: es => e.nodes ++ nodesAll es

end

@[simp] theorem nodesAll_eq_flatMap (es : List Expr) : nodesAll es = es.flatMap nodes := by
  induction es with
  | nil => rfl
  | cons e es ih => rw [nodesAll, ih, List.flatMap_cons]

end Expr

namespace Stmt

mutual

/-- The nodes of a statement. -/
def nodes : Stmt → List Node
  | var _ initial => initial.toList.flatMap Expr.nodes
  | function _ _ body => nodesAll body
  | block body => nodesAll body
  | branch cond yes none => cond.nodes ++ yes.nodes
  | branch cond yes (some no) => cond.nodes ++ (yes.nodes ++ no.nodes)
  | loop cond body => cond.nodes ++ body.nodes
  | print value => value.nodes
  | ret value line => .ret value line :: value.toList.flatMap Expr.nodes
  | expression value => value.nodes

/-- The nodes of several statements. -/
def nodesAll : List Stmt → List Node
  | [] => []
  | s :: ss => s.nodes ++ nodesAll ss

end

end Stmt

/-- The nodes of a program. -/
def programNodes (p : List Stmt) : List Node := p.flatMap Stmt.nodes

@[simp] theorem Stmt.nodesAll_eq (ss : List Stmt) : Stmt.nodesAll ss = programNodes ss := by
  induction ss with
  | nil => rfl
  | cons s ss ih => simp [Stmt.nodesAll, ih, programNodes]

/-! ### Sets of nodes -/

/-- All of some nodes are in a set. -/
def NodesIn (S : Node → Prop) (nodes : List Node) : Prop := ∀ node ∈ nodes, S node

namespace NodesIn

variable {S : Node → Prop} {node : Node} {xs ys : List Node}

theorem nil : NodesIn S [] := by simp [NodesIn]

theorem cons (h : S node) (hs : NodesIn S xs) : NodesIn S (node :: xs) :=
  List.forall_mem_cons.mpr ⟨h, hs⟩

theorem append (hx : NodesIn S xs) (hy : NodesIn S ys) : NodesIn S (xs ++ ys) :=
  List.forall_mem_append.mpr ⟨hx, hy⟩

theorem head (h : NodesIn S (node :: xs)) : S node := (List.forall_mem_cons.mp h).1

theorem tail (h : NodesIn S (node :: xs)) : NodesIn S xs := (List.forall_mem_cons.mp h).2

theorem left (h : NodesIn S (xs ++ ys)) : NodesIn S xs := (List.forall_mem_append.mp h).1

theorem right (h : NodesIn S (xs ++ ys)) : NodesIn S ys := (List.forall_mem_append.mp h).2

theorem mono {T : Node → Prop} (h : NodesIn S xs) (hST : ∀ node, S node → T node) :
    NodesIn T xs := fun node hnode => hST node (h node hnode)

end NodesIn

end Lox
