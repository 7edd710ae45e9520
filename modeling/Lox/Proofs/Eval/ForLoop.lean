import Lox.Proofs.Eval.Folding
import Lox.Proofs.Eval.Fuel
import Lox.Proofs.Grammar.Follow

/-!
# `for` loops

There is no node for a `for` loop; it is read as a block with a `while` loop in it. Here it gets a
meaning of its own (`Lox.ForLoop.run`): one scope, in which the initializer, the condition, the body
and the increment all run. The tree that it is read as means the same (`Lox.for_keeps_its_meaning`).

The two differ in one thing. In the tree the body and the increment are a block, so that every round
has a scope of its own, and functions made in the body keep it. That scope is never declared in: the
body of a loop is no declaration, and neither is a branch in it, so that the names it declares are
in further scopes. It is a frame that can be left out (`Lox.Folding`), round by round.
-/

namespace Lox

/-- A `for` loop as it is written. All three clauses may be missing. -/
structure ForLoop where
  /-- What is run once. -/
  initializer : Option Stmt
  /-- What is evaluated before each round. -/
  cond : Option Expr
  /-- What is evaluated after each round. -/
  increment : Option Expr
  /-- What is run in each round. -/
  body : Stmt

namespace ForLoop

/-- The tree that a loop is read as. -/
def tree (f : ForLoop) : Stmt := .forLoop f.initializer f.cond f.increment f.body

/-! ### The meaning of a loop -/

section Meaning

variable (limit : Option Nat) (fuel : Nat) (f : ForLoop) (s : Scope)

/-- Runs the initializer. -/
def start : Exec Flow :=
  match f.initializer with
  | none => pure (.normal .nil)
  | some stmt => exec limit fuel stmt s

/-- Whether there is another round. Without a condition there always is. -/
def goesOn : Exec Value :=
  match f.cond with
  | none => pure (.bool true)
  | some e => eval limit fuel e s

/-- One round: the body, and then the increment, unless the body was left with a `return`. -/
def round : Exec Flow := do
  match ← exec limit fuel f.body s with
  | .returned v => pure (.returned v)
  | .normal _ =>
    match f.increment with
    | none => pure (.normal .nil)
    | some e => do
      let _ ← eval limit fuel e s
      pure (.normal .nil)

/-- **What a `for` loop does**: it makes one scope and runs the initializer in it, and then rounds
for as long as the condition holds. -/
def run : Exec Flow := do
  let inner ← Exec.enterBlock s
  match ← f.start limit fuel inner with
  | .returned v => pure (.returned v)
  | .normal _ => runLoop (f.goesOn limit fuel inner) (f.round limit fuel inner) fuel

end Meaning

/-! ### The meaning of the tree -/

section Tree

variable (limit : Option Nat)

/-- One round as the tree has it: a block of statements, and a scope of its own. The body and the
increment have `nb` and `ni` units of fuel. -/
def blockRound (nb ni : Nat) (f : ForLoop) (s : Scope) : Exec Flow := do
  Exec.countStatement
  Exec.note (.entered (f.increment.toList.length + 1))
  let inner ← Exec.enterBlock s
  match ← exec limit nb f.body inner with
  | .returned v => pure (.returned v)
  | .normal _ =>
    match f.increment with
    | none => pure (.normal .nil)
    | some e => do
      Exec.countStatement
      let _ ← eval limit ni e inner
      pure (.normal .nil)

/-- What the tree does, its parts having fuel of their own. -/
def unfolded (ns nc nb ni rounds : Nat) (f : ForLoop) (s : Scope) : Exec Flow := do
  Exec.countStatement
  Exec.note (.entered (f.initializer.toList.length + 1))
  let inner ← Exec.enterBlock s
  match ← f.start limit ns inner with
  | .returned v => pure (.returned v)
  | .normal _ => do
    Exec.countStatement
    runLoop (f.goesOn limit nc inner) (f.blockRound limit nb ni inner) rounds

/-- The statements after the last one of a body. -/
theorem runLoop_last (cond : Exec Value) (body : Exec Flow) {last : Flow → Exec Flow}
    (hnormal : ∀ v, last (.normal v) = pure (.normal .nil))
    (hreturned : ∀ v, last (.returned v) = pure (.returned v)) (rounds : Nat) :
    runLoop cond body rounds >>= last = runLoop cond body rounds := by
  induction rounds with
  | zero => rfl
  | succ rounds ih =>
    rw [runLoop, Exec.bind_assoc]
    congr 1
    funext v
    split
    · rw [Exec.bind_assoc]
      congr 1
      funext flow
      cases flow with
      | normal w => exact ih
      | returned w => exact hreturned w
    · exact hnormal .nil

theorem eval_cond (n : Nat) (f : ForLoop) (s : Scope) :
    eval limit (n + 1) (f.cond.getD (.literal (.bool true))) s = f.goesOn limit (n + 1) s := by
  unfold goesOn
  cases f.cond <;> rfl

theorem exec_round (n : Nat) (f : ForLoop) (s : Scope) :
    exec limit (n + 2) (.block (f.body :: (f.increment.map Stmt.expression).toList)) s =
      f.blockRound limit (n + 1) n s := by
  obtain ⟨initializer, cond, increment, body⟩ := f
  cases increment with
  | none => rfl
  | some e =>
    -- what follows the increment does not look at its value
    have hlast (inner : Scope) : runBody (fun stmt => exec limit (n + 1) stmt inner)
        [.expression e] = (do
          Exec.countStatement
          let _ ← eval limit n e inner
          pure (.normal .nil)) := by
      simp only [runBody, exec, Exec.bind_assoc]
      rfl
    simp only [blockRound, ← hlast]
    rfl

theorem exec_loop (n : Nat) (f : ForLoop) (s : Scope) :
    exec limit (n + 3) (.loop (f.cond.getD (.literal (.bool true)))
        (.block (f.body :: (f.increment.map Stmt.expression).toList))) s =
      (do Exec.countStatement
          runLoop (f.goesOn limit (n + 2) s) (f.blockRound limit (n + 1) n s) (n + 2)) := by
  rw [exec, eval_cond, exec_round]

theorem exec_tree (n : Nat) (f : ForLoop) (s : Scope) :
    exec limit (n + 4) f.tree s = f.unfolded limit (n + 3) (n + 2) (n + 1) n (n + 2) s := by
  have hlast (inner : Scope) : runBody (fun stmt => exec limit (n + 3) stmt inner)
      [.loop (f.cond.getD (.literal (.bool true)))
        (.block (f.body :: (f.increment.map Stmt.expression).toList))] = (do
        Exec.countStatement
        runLoop (f.goesOn limit (n + 2) inner) (f.blockRound limit (n + 1) n inner) (n + 2)) := by
    rw [runBody, exec_loop, Exec.bind_assoc]
    congr 1
    funext _
    refine runLoop_last _ _ ?_ ?_ _
    · exact fun v => rfl
    · exact fun v => rfl
  simp only [unfolded, ← hlast]
  obtain ⟨initializer, cond, increment, body⟩ := f
  cases initializer with
  | none => rfl
  | some stmt => rfl

end Tree

/-! ### Fuel -/

section Fuel

variable {limit : Option Nat} (f : ForLoop) (s : Scope) {n n' : Nat}

theorem below_start (h : n ≤ n') : (f.start limit n s).Below (f.start limit n' s) := by
  unfold start
  split
  · exact .refl _
  · exact below_exec h _ s

theorem below_goesOn (h : n ≤ n') : (f.goesOn limit n s).Below (f.goesOn limit n' s) := by
  unfold goesOn
  split
  · exact .refl _
  · exact below_eval h _ s

theorem below_round (h : n ≤ n') : (f.round limit n s).Below (f.round limit n' s) := by
  refine (below_exec h f.body s).bind fun flow => ?_
  cases flow with
  | returned v => exact .refl _
  | normal v =>
    dsimp only
    split
    · exact .refl _
    · exact (below_eval h _ s).bind fun _ => .refl _

theorem below_run (h : n ≤ n') : (f.run limit n s).Below (f.run limit n' s) := by
  refine (Exec.Below.refl _).bind fun inner => (f.below_start inner h).bind fun flow => ?_
  cases flow with
  | returned v => exact .refl _
  | normal v => exact below_runLoop (f.below_goesOn inner h) (f.below_round inner h) h

theorem below_blockRound {nb ni nb' ni' : Nat} (hb : nb ≤ nb') (hi : ni ≤ ni') :
    (f.blockRound limit nb ni s).Below (f.blockRound limit nb' ni' s) := by
  refine (Exec.Below.refl _).bind fun _ => (Exec.Below.refl _).bind fun _ => ?_
  refine (Exec.Below.refl _).bind fun inner => (below_exec hb f.body inner).bind fun flow => ?_
  cases flow with
  | returned v => exact .refl _
  | normal v =>
    dsimp only
    split
    · exact .refl _
    · exact (Exec.Below.refl _).bind fun _ => (below_eval hi _ inner).bind fun _ => .refl _

theorem below_unfolded {ns nc nb ni rounds ns' nc' nb' ni' rounds' : Nat} (hs : ns ≤ ns')
    (hc : nc ≤ nc') (hb : nb ≤ nb') (hi : ni ≤ ni') (hrounds : rounds ≤ rounds') :
    (f.unfolded limit ns nc nb ni rounds s).Below
      (f.unfolded limit ns' nc' nb' ni' rounds' s) := by
  refine (Exec.Below.refl _).bind fun _ => (Exec.Below.refl _).bind fun _ => ?_
  refine (Exec.Below.refl _).bind fun inner => (f.below_start inner hs).bind fun flow => ?_
  cases flow with
  | returned v => exact .refl _
  | normal v =>
    refine (Exec.Below.refl _).bind fun _ => ?_
    exact below_runLoop (f.below_goesOn inner hc) (f.below_blockRound inner hb hi) hrounds

/-- **How the fuel is spent on a tree makes no difference.** -/
theorem settles_tree_iff {m : Machine} {o : Outcome Flow} :
    Settles (exec limit · f.tree s m) o ↔ Settles (fun n => f.unfolded limit n n n n n s m) o := by
  refine settles_iff_of_below (k := 4) (x := fun n => exec limit n f.tree s)
    (y := fun n => f.unfolded limit n n n n n s) (fun n => ?_) fun n => ?_
  · rw [exec_tree]
    exact f.below_unfolded s (by omega) (by omega) (by omega) (by omega) (by omega)
  · rw [exec_tree]
    exact f.below_unfolded s (by omega) (by omega) (by omega) (by omega) (by omega)

end Fuel

/-! ### One scope less -/

section Folded

open Folding Simulation

variable {limit : Option Nat} {n : Nat} (f : ForLoop) {w : Folding} {s s' : Scope}

theorem matches_start (hs : w.Keeps s s') :
    simulation.Matches w simulation.Flows (f.start limit n s) (f.start limit n s') := by
  unfold start
  split
  · exact matches_normal .nil
  · exact (matches_walk limit n).2 trivial (.inl hs)

theorem matches_goesOn (hs : w.Folds s s') :
    simulation.Matches w simulation.value (f.goesOn limit n s) (f.goesOn limit n s') := by
  unfold goesOn
  split
  · exact matches_value (.bool true)
  · exact (matches_walk limit n).1 hs

/-- **A round in a scope of its own does what a round does**, since nothing is declared there. -/
theorem matches_round (hquiet : f.body.Quiet) (hs : w.Folds s s') :
    simulation.Matches w simulation.Flows (f.blockRound limit n n s) (f.round limit n s') := by
  refine idle_countStatement.bind fun w₁ _ hw₁ _ => (idle_note rfl).bind fun w₂ _ hw₂ _ => ?_
  have hs₂ : w₂.Folds s s' := hs.mono (hw₁.trans hw₂)
  refine (idle_enterBlock hs₂).bind fun w₃ inner _ hinner => ?_
  have hbody : simulation.Suits w₃ f.body inner s' := .inr ⟨hquiet, hinner⟩
  refine ((matches_walk limit n).2 trivial hbody).bind fun w₄ flow flow' hw₄ hflow => ?_
  cases hflow with
  | returned hv => exact matches_returned hv
  | normal _ =>
    dsimp only
    split
    · exact matches_normal .nil
    · refine idle_countStatement.bind fun w₅ _ hw₅ _ => ?_
      have hinner₅ : w₅.Folds inner s' := hinner.mono (hw₄.trans hw₅)
      exact ((matches_walk limit n).1 hinner₅).bind fun _ _ _ _ _ => matches_normal .nil

/-- **The tree does what the loop does.** -/
theorem matches_run (hquiet : f.body.Quiet) (hs : w.Folds s s') :
    simulation.Matches w simulation.Flows (f.unfolded limit n n n n n s) (f.run limit n s') := by
  refine idle_countStatement.bind fun w₁ _ hw₁ _ => (idle_note rfl).bind fun w₂ _ hw₂ _ => ?_
  have hs₂ : w₂.Folds s s' := hs.mono (hw₁.trans hw₂)
  refine (matches_enterBlock (S := simulation) hs₂).bind fun w₃ inner inner' _ hinner => ?_
  refine (f.matches_start hinner).bind fun w₄ flow flow' hw₄ hflow => ?_
  cases hflow with
  | returned hv => exact matches_returned hv
  | normal _ =>
    refine idle_countStatement.bind fun w₅ _ hw₅ _ => ?_
    have hinner₅ : w₅.Folds inner inner' := hinner.1.mono (hw₄.trans hw₅)
    exact matches_runLoop (f.matches_goesOn hinner₅) (f.matches_round hquiet hinner₅) n

end Folded

end ForLoop

/-! ### Loops that are written -/

/-- **The same machine but for frames that are left out**, all of which are new: there were `n`
frames before. -/
structure Machine.SameBut (n : Nat) (w : Folding) (m m' : Machine) : Prop where
  /-- The frames that were there before are folded into themselves. -/
  old : Folding.identity n ≤ w
  folds : w.FoldsMachine m m'
  /-- The same texts were printed. -/
  texts : m'.output.map Value.text = m.output.map Value.text
  /-- The variables that were there before, and new ones beside them, have the same values. -/
  vars : ∀ t < n, ∀ name, Option.Rel w.value (Bindings.value? name (m.heap.vars t))
    (Bindings.value? name (m'.heap.vars t))

theorem Folding.FoldsMachine.sameBut {n : Nat} {w : Folding} {m m' : Machine}
    (hw : Folding.identity n ≤ w) (h : w.FoldsMachine m m') : m.SameBut n w m' :=
  ⟨hw, h, h.texts, fun _ ht => h.value? ((Folding.keeps_identity ht).mono hw)⟩

/-- **The same outcome but for frames that are left out**: the same flow with the same value, or the
same complaint about the same line. -/
inductive Outcome.SameBut (n : Nat) : Outcome Flow → Outcome Flow → Prop
  | done {w : Folding} {flow flow' : Flow} {m m' : Machine} : m.SameBut n w m' →
      Folding.simulation.Flows w flow flow' → SameBut n (.done flow m) (.done flow' m')
  | failed {w : Folding} {fault fault' : Located RuntimeFault} {m m' : Machine} :
      m.SameBut n w m' → fault'.map RuntimeFault.complaint = fault.map RuntimeFault.complaint →
      SameBut n (.failed fault m) (.failed fault' m')

/-- What ends alike from machines without frames left out is the same, if it ends. -/
theorem Simulation.Ends.sameBut {n : Nat} {o o' : Outcome Flow}
    (h : Folding.simulation.Ends (Folding.identity n) Folding.simulation.Flows o o') :
    o = .exhausted ∧ o' = .exhausted ∨ o ≠ .exhausted ∧ o' ≠ .exhausted ∧ o.SameBut n o' := by
  cases h with
  | done hw hm hflow => exact .inr ⟨nofun, nofun, .done (hm.sameBut hw) hflow⟩
  | failed hw hm hcause =>
    refine .inr ⟨nofun, nofun, .failed (hm.sameBut hw) ?_⟩
    exact congrArg (Located.mk · _) (Folding.complaint_eq hcause)
  | exhausted h => exact .inl ⟨rfl, h rfl⟩

namespace ForLoop

open Grammar

/-- **A `for` loop as it is written out**, clause by clause. -/
inductive Written : List Token → ForLoop → Prop
  | clauses {word lp rp semi : Token} {is cs ns bs : List Token} {f : ForLoop} {ending : Ending} :
      word.kind = .forWord → lp.kind = .leftParen → Initializer is f.initializer →
      Perhaps Expression cs f.cond → semi.kind = .semicolon → Perhaps Expression ns f.increment →
      rp.kind = .rightParen → Statement ending bs f.body →
      Written (word :: lp :: (is ++ (cs ++ semi :: (ns ++ rp :: bs)))) f

theorem Written.quiet {ts : List Token} {f : ForLoop} (h : Written ts f) : f.body.Quiet := by
  obtain ⟨-, -, -, -, -, -, -, hbody⟩ := h
  exact hbody.quiet

/-- **What the parser makes of a `for`** is the tree of the loop that is written there. -/
theorem exists_written {bound : Nat} {place : Parser.Place} {word : Token} {ts rest : List Token}
    {stmt : Stmt} (h : Parser.statement bound place (word :: ts) = .ok (stmt, rest))
    (hword : word.kind = .forWord) :
    ∃ us f, word :: ts = us ++ rest ∧ Written us f ∧ stmt = f.tree := by
  obtain _ | n := bound
  · cases h
  have hfor : Parser.forStatement (Parser.expression (n + 1)) (Parser.statement n) ts =
      .ok (stmt, rest) := by
    simp only [Parser.statement, Parser.statementWith, hword] at h
    exact h
  have htakes := Parser.takesStatement_forStatement (Parser.takes_expression (n + 1))
    (Parser.takes_statement n).2 hword
  obtain ⟨us, ending, hts, hstatement, -⟩ := htakes _ _ _ hfor
  refine ⟨word :: us, ?_⟩
  cases hstatement with
  | forLoop hk hlp his hcs hsemi hns hrp hbs =>
    exact ⟨⟨_, _, _, _⟩, congrArg (word :: ·) hts, .clauses hk hlp his hcs hsemi hns hrp hbs, rfl⟩
  | simple hsimple =>
    exact absurd (congrArg some hword) (hsimple.headKind?_ne [] (by decide))
  | print hk | ret hk | block hk | branch hk | branchElse hk | loop hk =>
    rw [hword] at hk
    cases hk

variable {limit : Option Nat} {f : ForLoop} {s : Scope} {m : Machine} {o o' : Outcome Flow}

/-- The tree and the loop run out of fuel together, and end in the same way. -/
theorem sameBut_run (limit : Option Nat) (hquiet : f.body.Quiet) (hm : m.WellFormed)
    (hs : s < m.heap.frames.size) (n : Nat) :
    f.unfolded limit n n n n n s m = .exhausted ∧ f.run limit n s m = .exhausted ∨
      f.unfolded limit n n n n n s m ≠ .exhausted ∧ f.run limit n s m ≠ .exhausted ∧
        (f.unfolded limit n n n n n s m).SameBut m.heap.frames.size (f.run limit n s m) := by
  have hfolds : (Folding.identity m.heap.frames.size).Folds s s := (Folding.keeps_identity hs).1
  have hmachine : (Folding.identity m.heap.frames.size).FoldsMachine m m := .identity hm
  exact (f.matches_run hquiet hfolds _ m m le_rfl hmachine).sameBut

theorem exists_settles_run (hquiet : f.body.Quiet) (hm : m.WellFormed)
    (hs : s < m.heap.frames.size) (h : Settles (exec limit · f.tree s m) o) :
    ∃ o', Settles (f.run limit · s m) o' ∧ o.SameBut m.heap.frames.size o' := by
  obtain ⟨ho, n, hn⟩ := (f.settles_tree_iff s).mp h
  have hend : f.unfolded limit n n n n n s m = o := hn n le_rfl
  obtain ⟨hexhausted, -⟩ | ⟨-, hrun, hsame⟩ := sameBut_run limit hquiet hm hs n
  · exact absurd (hend.symm.trans hexhausted) ho
  · rw [hend] at hsame
    exact ⟨_, settles_of_below (x := fun n => f.run limit n s) (f.below_run s) rfl hrun, hsame⟩

theorem exists_settles_tree (hquiet : f.body.Quiet) (hm : m.WellFormed)
    (hs : s < m.heap.frames.size) (h : Settles (f.run limit · s m) o') :
    ∃ o, Settles (exec limit · f.tree s m) o ∧ o.SameBut m.heap.frames.size o' := by
  obtain ⟨ho', n, hn⟩ := h
  have hend : f.run limit n s m = o' := hn n le_rfl
  obtain ⟨-, hexhausted⟩ | ⟨htree, -, hsame⟩ := sameBut_run limit hquiet hm hs n
  · exact absurd (hend.symm.trans hexhausted) ho'
  · rw [hend] at hsame
    refine ⟨_, (f.settles_tree_iff s).mpr ?_, hsame⟩
    exact settles_of_below (x := fun n => f.unfolded limit n n n n n s)
      (fun hle => f.below_unfolded s hle hle hle hle hle) rfl htree

end ForLoop

/-- **A `for` loop keeps its meaning.** The tree that the parser makes of it ends if and only if the
loop does that is written there, in any scope of any machine in order; and then in the same way. -/
theorem for_keeps_its_meaning {bound : Nat} {place : Parser.Place} {word : Token}
    {ts rest : List Token} {stmt : Stmt}
    (h : Parser.statement bound place (word :: ts) = .ok (stmt, rest))
    (hword : word.kind = .forWord) :
    ∃ us f, word :: ts = us ++ rest ∧ ForLoop.Written us f ∧
      ∀ limit s (m : Machine), m.WellFormed → s < m.heap.frames.size →
        (∀ o, Settles (exec limit · stmt s m) o →
          ∃ o', Settles (f.run limit · s m) o' ∧ o.SameBut m.heap.frames.size o') ∧
        ∀ o', Settles (f.run limit · s m) o' →
          ∃ o, Settles (exec limit · stmt s m) o ∧ o.SameBut m.heap.frames.size o' := by
  obtain ⟨us, f, hts, hwritten, rfl⟩ := ForLoop.exists_written h hword
  refine ⟨us, f, hts, hwritten, fun limit s m hm hs => ⟨fun o ho => ?_, fun o' ho' => ?_⟩⟩
  · exact ForLoop.exists_settles_run hwritten.quiet hm hs ho
  · exact ForLoop.exists_settles_tree hwritten.quiet hm hs ho'

/-- `for (var go = true; go; go = false) { fun f() { return go; } print f(); }`, a loop with one
round, in which a function keeps the scope of the round. -/
def onceAround : List Token :=
  [⟨.forWord, "for", 1⟩, ⟨.leftParen, "(", 1⟩, ⟨.varWord, "var", 1⟩, ⟨.identifier, "go", 1⟩,
    ⟨.equal, "=", 1⟩, ⟨.trueWord, "true", 1⟩, ⟨.semicolon, ";", 1⟩, ⟨.identifier, "go", 1⟩,
    ⟨.semicolon, ";", 1⟩, ⟨.identifier, "go", 1⟩, ⟨.equal, "=", 1⟩, ⟨.falseWord, "false", 1⟩,
    ⟨.rightParen, ")", 1⟩, ⟨.leftBrace, "\x7b", 1⟩, ⟨.funWord, "fun", 1⟩, ⟨.identifier, "f", 1⟩,
    ⟨.leftParen, "(", 1⟩, ⟨.rightParen, ")", 1⟩, ⟨.leftBrace, "\x7b", 1⟩,
    ⟨.returnWord, "return", 1⟩, ⟨.identifier, "go", 1⟩, ⟨.semicolon, ";", 1⟩,
    ⟨.rightBrace, "\x7d", 1⟩, ⟨.printWord, "print", 1⟩, ⟨.identifier, "f", 1⟩,
    ⟨.leftParen, "(", 1⟩, ⟨.rightParen, ")", 1⟩, ⟨.semicolon, ";", 1⟩, ⟨.rightBrace, "\x7d", 1⟩]

/-- The tree and the loop both end, and print the same. -/
theorem onceAround_keeps_its_meaning :
    ∃ stmt f, Parser.statement 30 .branch onceAround = .ok (stmt, []) ∧
      ForLoop.Written onceAround f ∧ ∃ flow flow' m m',
        Settles (exec none · stmt 0 Machine.new.newRoot.2) (.done flow m) ∧
        Settles (f.run none · 0 Machine.new.newRoot.2) (.done flow' m') ∧
        m.output.map Value.text = ["true"] ∧ m'.output.map Value.text = ["true"] := by
  obtain ⟨stmt, hstmt⟩ : ∃ stmt, Parser.statement 30 .branch onceAround = .ok (stmt, []) :=
    ⟨_, rfl⟩
  have hrun : (exec none 9 stmt 0 Machine.new.newRoot.2).result?.map
      (fun r => r.2.output.map Value.text) = some ["true"] := by
    cases hstmt
    cbv
  obtain ⟨⟨flow, m⟩, hresult, htexts⟩ := Option.map_eq_some_iff.mp hrun
  have hdone := Outcome.eq_done_of_result? hresult
  have hsettles : Settles (exec none · stmt 0 Machine.new.newRoot.2) (.done flow m) :=
    settles_of_below (x := fun n => exec none n stmt 0) (below_exec · stmt 0) hdone (by simp)
  obtain ⟨us, f, hus, hwritten, hmeaning⟩ := for_keeps_its_meaning hstmt rfl
  have hwhole : us = onceAround := (hus.trans (List.append_nil us)).symm
  have hm : Machine.new.newRoot.2.WellFormed := Client.Sound.new.newRoot.machine.wellFormed
  obtain ⟨o', hsettles', hsame⟩ := (hmeaning none 0 _ hm (by decide)).1 _ hsettles
  cases hsame with
  | done hsame _ =>
    exact ⟨stmt, f, hstmt, hwhole ▸ hwritten, _, _, _, _, hsettles, hsettles', htexts,
      hsame.texts.trans htexts⟩

end Lox
