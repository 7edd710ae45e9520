import Lox.Program

/-!
# Statements inside statements

What a statement is made of, and two things that can be told from it without running it: which
statements are outside of every function body (`Lox.OwnStatement`), and which declare nothing in
the scope that they run in (`Lox.Stmt.Quiet`).
-/

namespace Lox

/-! ### Parts -/

/-- The statements that a statement is made of. -/
def Stmt.parts : Stmt → List Stmt
  | function _ _ body => body
  | block body => body
  | branch _ yes no => yes :: no.toList
  | loop _ body => [body]
  | _ => []

/-- The parts of a statement that are in the same function body as the statement. -/
def Stmt.inner : Stmt → List Stmt
  | function _ _ _ => []
  | stmt => stmt.parts

/-- **The own statements** of some statements: they and what is in them, at any nesting of blocks,
branches and loops, but outside of the function bodies. -/
inductive OwnStatement (stmts : List Stmt) : Stmt → Prop
  | here {stmt : Stmt} : stmt ∈ stmts → OwnStatement stmts stmt
  | inner {stmt part : Stmt} : OwnStatement stmts stmt → part ∈ stmt.inner → OwnStatement stmts part

theorem not_ownStatement_nil (stmt : Stmt) : ¬OwnStatement [] stmt := by
  intro h
  induction h with
  | here hmem => cases hmem
  | inner _ _ ih => exact ih

/-! ### Statements that declare nothing -/

namespace Stmt

/-- The name that a statement binds in the scope it runs in. -/
def declared? : Stmt → Option String
  | var name _ => some name
  | function name _ _ => some name
  | _ => none

mutual

/-- Whether no branch of a condition and no body of a loop is itself a declaration, anywhere in a
statement. -/
def branchesPlain : Stmt → Bool
  | function _ _ body => branchesPlainAll body
  | block body => branchesPlainAll body
  | branch _ yes none => yes.declared?.isNone && yes.branchesPlain
  | branch _ yes (some no) =>
    yes.declared?.isNone && yes.branchesPlain && (no.declared?.isNone && no.branchesPlain)
  | loop _ body => body.declared?.isNone && body.branchesPlain
  | _ => true

/-- The same for several statements. -/
def branchesPlainAll : List Stmt → Bool
  | [] => true
  | s :: ss => s.branchesPlain && branchesPlainAll ss

end

/-- A statement that binds nothing in the scope it runs in, whichever branch it takes. -/
def Quiet (stmt : Stmt) : Prop := stmt.declared? = none ∧ stmt.branchesPlain = true

theorem quiet_iff (stmt : Stmt) :
    stmt.Quiet ↔ (stmt.declared?.isNone && stmt.branchesPlain) = true := by
  rw [Bool.and_eq_true, Option.isNone_iff_eq_none, Quiet]

theorem Quiet.yes {cond : Expr} {yes : Stmt} {no : Option Stmt}
    (h : (branch cond yes no).Quiet) : yes.Quiet := by
  obtain ⟨-, h⟩ := h
  cases no with
  | none => exact (quiet_iff yes).mpr h
  | some no => exact (quiet_iff yes).mpr (Bool.and_eq_true_iff.mp h).1

theorem Quiet.no {cond : Expr} {yes no : Stmt} (h : (branch cond yes (some no)).Quiet) :
    no.Quiet := (quiet_iff no).mpr (Bool.and_eq_true_iff.mp h.2).2

theorem Quiet.body {cond : Expr} {body : Stmt} (h : (loop cond body).Quiet) : body.Quiet :=
  (quiet_iff body).mpr h.2

end Stmt

end Lox
