import Lox.Proofs.Grammar
import Lox.Proofs.Node

/-!
# Where the nodes of a program are written

Every node of a tree stands at one of the tokens that the tree is derived from, and has its line
from it: a name at the name, an operator at the operator, a call at its opening parenthesis, a
`return` at that word (`Lox.Grammar.written_program`). A token of such a kind is spelt as the
kind says, or is the name that the node keeps.
-/

namespace Lox

/-- The token of an operator. -/
def UnaryOp.kind : UnaryOp → TokenKind
  | not => .bang
  | negate => .minus

/-- The token of an operator. -/
def BinaryOp.kind : BinaryOp → TokenKind
  | add => .plus
  | sub => .minus
  | mul => .star
  | div => .slash
  | greater => .greater
  | greaterEqual => .greaterEqual
  | less => .less
  | lessEqual => .lessEqual
  | equal => .equalEqual
  | notEqual => .bangEqual

namespace Node

/-- The kind of token that a node stands at. -/
def kind : Node → TokenKind
  | identifier .. => .identifier
  | unary op .. => op.kind
  | binary op .. => op.kind
  | assign .. => .identifier
  | call .. => .leftParen
  | ret .. => .returnWord

/-- **A node stands at a token**: it has its line from it, and its name if it keeps one. -/
structure StandsAt (node : Node) (t : Token) : Prop where
  kind : t.kind = node.kind
  line : t.line = node.line
  name : node.kind = .identifier → t.text = node.lexeme

/-- A node stands at one of several tokens. -/
def StandsIn (ts : List Token) (node : Node) : Prop := ∃ t ∈ ts, node.StandsAt t

end Node

/-- Among more tokens the nodes stand all the same. -/
theorem NodesIn.among {ts us : List Token} {nodes : List Node}
    (h : NodesIn (Node.StandsIn ts) nodes) (hts : ts ⊆ us) : NodesIn (Node.StandsIn us) nodes := by
  refine h.mono fun node hnode => ?_
  obtain ⟨t, ht, hstands⟩ := hnode
  exact ⟨t, hts ht, hstands⟩

namespace Grammar

open Node (StandsIn)

/-! ### Expressions -/

theorem Atom.written {t : Token} {e : Expr} (h : Atom t e) : NodesIn (StandsIn [t]) e.nodes := by
  cases h with
  | name h => exact .cons ⟨t, List.mem_singleton_self t, h, rfl, fun _ => rfl⟩ .nil
  | _ => exact .nil

section Operators

variable {t : Token} {ts : List Token} {left right operand e : Expr} {l : Level}

theorem Joins.written (h : Joins t left right l e) (ht : t ∈ ts)
    (hl : NodesIn (StandsIn ts) left.nodes) (hr : NodesIn (StandsIn ts) right.nodes) :
    NodesIn (StandsIn ts) e.nodes := by
  have hboth := hl.append hr
  cases h with
  | or => exact hboth
  | and => exact hboth
  | equal h => exact .cons ⟨t, ht, h, rfl, nofun⟩ hboth
  | notEqual h => exact .cons ⟨t, ht, h, rfl, nofun⟩ hboth
  | greater h => exact .cons ⟨t, ht, h, rfl, nofun⟩ hboth
  | greaterEqual h => exact .cons ⟨t, ht, h, rfl, nofun⟩ hboth
  | less h => exact .cons ⟨t, ht, h, rfl, nofun⟩ hboth
  | lessEqual h => exact .cons ⟨t, ht, h, rfl, nofun⟩ hboth
  | add h => exact .cons ⟨t, ht, h, rfl, nofun⟩ hboth
  | sub h => exact .cons ⟨t, ht, h, rfl, nofun⟩ hboth
  | mul h => exact .cons ⟨t, ht, h, rfl, nofun⟩ hboth
  | div h => exact .cons ⟨t, ht, h, rfl, nofun⟩ hboth

theorem Signs.written (h : Signs t operand e) (ht : t ∈ ts)
    (ho : NodesIn (StandsIn ts) operand.nodes) : NodesIn (StandsIn ts) e.nodes := by
  cases h with
  | not h => exact .cons ⟨t, ht, h, rfl, nofun⟩ ho
  | negate h => exact .cons ⟨t, ht, h, rfl, nofun⟩ ho

end Operators

mutual

theorem Phrase.written : ∀ {l : Level} {ts : List Token} {e : Expr}, Phrase l ts e →
    NodesIn (StandsIn ts) e.nodes
  | _, _, _, .tighter _ h => h.written
  | _, _, _, @Phrase.assign name _ _ _ hname _ h =>
    .cons ⟨name, by simp, hname, rfl, fun _ => rfl⟩ (h.written.among (by simp))
  | _, _, _, .join hj _ h h' =>
    hj.written (by simp) (h.written.among (by simp)) (h'.written.among (by simp))
  | _, _, _, .sign hs h => hs.written (by simp) (h.written.among (by simp))
  | _, _, _, @Phrase.call _ _ _ _ lp _ h hlp hargs _ _ => by
    refine .cons ⟨lp, by simp, hlp, rfl, nofun⟩ (.append (h.written.among (by simp)) ?_)
    rw [Expr.nodesAll_eq_flatMap]
    exact (written_arguments hargs).among fun t ht => by simp [ht]
  | _, _, _, .atom h => h.written
  | _, _, _, .group _ h _ => h.written.among (by simp)

theorem written_arguments : ∀ {ts : List Token} {es : List Expr},
    Commas (Phrase .assignment) ts es → NodesIn (StandsIn ts) (es.flatMap Expr.nodes)
  | _, _, .none => .nil
  | _, _, .one h => by
    rw [List.flatMap_singleton]
    exact h.written
  | _, _, .more h _ hs =>
    .append (h.written.among (by simp)) ((written_arguments hs).among (by simp))

end

/-! ### Statements -/

/-- What may be missing has no nodes if it is. -/
theorem Perhaps.written {P : List Token → Expr → Prop}
    (hP : ∀ {ts e}, P ts e → NodesIn (StandsIn ts) e.nodes) {ts : List Token} {e : Option Expr}
    (h : Perhaps P ts e) : NodesIn (StandsIn ts) (e.toList.flatMap Expr.nodes) := by
  cases h with
  | absent => exact .nil
  | present h =>
    rw [Option.toList_some, List.flatMap_singleton]
    exact hP h

theorem Initial.written {ts : List Token} {e : Expr} (h : Initial ts e) :
    NodesIn (StandsIn ts) e.nodes := by
  cases h with
  | initial _ h => exact h.written.among (by simp)

theorem Variable.written {ts : List Token} {s : Stmt} (h : Variable ts s) :
    NodesIn (StandsIn ts) s.nodes := by
  cases h with
  | var _ _ h _ => exact (h.written Initial.written).among fun t ht => by simp [ht]

theorem Simple.written {ts : List Token} {s : Stmt} (h : Simple ts s) :
    NodesIn (StandsIn ts) s.nodes := by
  cases h with
  | simple h _ => exact h.written.among (by simp)

theorem Initializer.written {ts : List Token} {s : Option Stmt} (h : Initializer ts s) :
    NodesIn (StandsIn ts) (programNodes s.toList) := by
  cases h with
  | none => exact .nil
  | var h =>
    rw [programNodes, Option.toList_some, List.flatMap_singleton]
    exact h.written
  | simple h =>
    rw [programNodes, Option.toList_some, List.flatMap_singleton]
    exact h.written

/-- The nodes of a `for` loop are those of its clauses and its body. -/
theorem written_forLoop {ts : List Token} {initializer : Option Stmt} {cond increment : Option Expr}
    {body : Stmt} (hi : NodesIn (StandsIn ts) (programNodes initializer.toList))
    (hc : NodesIn (StandsIn ts) (cond.toList.flatMap Expr.nodes))
    (hn : NodesIn (StandsIn ts) (increment.toList.flatMap Expr.nodes))
    (hb : NodesIn (StandsIn ts) body.nodes) :
    NodesIn (StandsIn ts) (Stmt.forLoop initializer cond increment body).nodes := by
  have hcond : NodesIn (StandsIn ts) (cond.getD (.literal (.bool true))).nodes := by
    cases cond with
    | none => exact .nil
    | some e => simpa using hc
  have hround : NodesIn (StandsIn ts)
      (programNodes (body :: (increment.map Stmt.expression).toList)) := by
    refine .append hb ?_
    cases increment with
    | none => exact .nil
    | some e => exact hn
  rw [Stmt.forLoop, Stmt.nodes, Stmt.nodesAll_eq, programNodes, List.flatMap_append,
    List.flatMap_singleton]
  refine .append hi (.append hcond ?_)
  rw [Stmt.nodes, Stmt.nodesAll_eq]
  exact hround

mutual

theorem Declaration.written : ∀ {ts : List Token} {s : Stmt}, Declaration ts s →
    NodesIn (StandsIn ts) s.nodes
  | _, _, .function _ _ _ _ _ _ _ hbody _ => by
    rw [Stmt.nodes, Stmt.nodesAll_eq]
    exact (written_program hbody).among fun t ht => by simp [ht]
  | _, _, .var h => h.written
  | _, _, .statement h => h.written

theorem Statement.written : ∀ {ending : Ending} {ts : List Token} {s : Stmt},
    Statement ending ts s → NodesIn (StandsIn ts) s.nodes
  | _, _, _, .simple h => h.written
  | _, _, _, .print _ h _ => h.written.among fun t ht => by simp [ht]
  | _, _, _, @Statement.ret word _ _ _ hword h _ =>
    .cons ⟨word, by simp, hword, rfl, nofun⟩
      ((h.written Phrase.written).among fun t ht => by simp [ht])
  | _, _, _, .block _ hbody _ => by
    rw [Stmt.nodes, Stmt.nodesAll_eq]
    exact (written_program hbody).among fun t ht => by simp [ht]
  | _, _, _, .branch _ _ hc _ h =>
    .append (hc.written.among fun t ht => by simp [ht]) (h.written.among fun t ht => by simp [ht])
  | _, _, _, .branchElse _ _ hc _ h _ h' =>
    .append (hc.written.among fun t ht => by simp [ht])
      (.append (h.written.among fun t ht => by simp [ht])
        (h'.written.among fun t ht => by simp [ht]))
  | _, _, _, .loop _ _ hc _ h =>
    .append (hc.written.among fun t ht => by simp [ht]) (h.written.among fun t ht => by simp [ht])
  | _, _, _, .forLoop _ _ hi hc _ hn _ h =>
    written_forLoop (hi.written.among fun t ht => by simp [ht])
      ((hc.written Phrase.written).among fun t ht => by simp [ht])
      ((hn.written Phrase.written).among fun t ht => by simp [ht])
      (h.written.among fun t ht => by simp [ht])

/-- **Every node of a program stands at one of its tokens.** -/
theorem written_program : ∀ {ts : List Token} {p : List Stmt}, Sequence Declaration ts p →
    NodesIn (StandsIn ts) (programNodes p)
  | _, _, .nil => .nil
  | _, _, .cons h hs => .append (h.written.among (by simp)) ((written_program hs).among (by simp))

end

end Grammar

end Lox
