import Lox.Proofs.Eval.Course

/-!
# Watching a run

The counters of a machine and the identities of its function values are numbers that a run leaves
behind, and say what has been going on only if they go along with it. Here somebody watches the run
and writes down, in order, each statement that is begun, each function body that is entered and each
function value that is made (`Lox.Watch.Deed`). The watched evaluator is the evaluator, with one
entry written where each of these is done, and it comes to the same outcome
(`Lox.Watch.outcome_walk`).
-/

namespace Lox

namespace Watch

/-! ### Computations that are watched -/

/-- What is written down of a run. -/
inductive Deed
  /-- The execution of a statement in a scope is begun, on a machine. -/
  | begun (stmt : Stmt) (s : Scope) (m : Machine)
  /-- The body of a function is entered, with a scope made for the call. -/
  | entered (f : Closure) (s : Scope)
  /-- The execution of a function statement has made a function value. -/
  | made (f : Closure)

/-- A computation on a machine, and the record of it. -/
def Run (α : Type) := Machine → Outcome α × List Deed

namespace Run

variable {α β : Type}

/-- The outcome alone. -/
def outcome (x : Run α) : Exec α := fun m => (x m).1

/-- One computation after another; what is not reached is not recorded. -/
protected def bind (x : Run α) (f : α → Run β) : Run β := fun m =>
  match x m with
  | (.done a m, ds) => ((f a m).1, ds ++ (f a m).2)
  | (.failed fault m, ds) => (.failed fault m, ds)
  | (.exhausted, ds) => (.exhausted, ds)

instance : Monad Run where
  pure a := fun m => (.done a m, [])
  bind := Run.bind

end Run

variable {α β : Type}

/-- A computation of which nothing is recorded. -/
def quietly (x : Exec α) : Run α := fun m => (x m, [])

/-- A computation of which one thing is recorded, once it is done, with the machine that it was
begun on. -/
def recording (x : Exec α) (deed : Machine → α → Deed) : Run α := fun m =>
  (x m, match x m with
    | .done a _ => [deed m a]
    | _ => [])

/-- Runs the body of a call: one call more is active until it ends. -/
def nested (body : Run α) : Run α := fun m =>
  (Exec.nested body.outcome m, (body (m.deeper 1)).2)

/-! ### The watched evaluator -/

/-- Evaluates expressions from left to right. -/
def evalAll (eval : Expr → Run Value) : List Expr → Run (List Value)
  | [] => pure []
  | e :: es => do
    let v ← eval e
    let vs ← evalAll eval es
    pure (v :: vs)

/-- Runs statements in order, up to the first `return`. -/
def runBody (run : Stmt → Run Flow) : List Stmt → Run Flow
  | [] => pure (.normal .nil)
  | s :: ss => do
    match ← run s with
    | .returned v => pure (.returned v)
    | .normal _ => runBody run ss

/-- Runs a body as long as a condition holds, for at most `rounds` rounds. -/
def runLoop (cond : Run Value) (body : Run Flow) : (rounds : Nat) → Run Flow
  | 0 => quietly Exec.exhausted
  | rounds + 1 => do
    let v ← cond
    if v.isTruthy then
      match ← body with
      | .returned v => pure (.returned v)
      | .normal _ => runLoop cond body rounds
    else pure (.normal .nil)

/-- Calls a function with the values of its arguments. -/
def invoke (limit : Option Nat) (run : Stmt → Scope → Run Flow) (f : Closure)
    (args : List Value) (line : Nat) : Run Value := do
  if args.length = f.function.arity then do
    quietly (checkDepth limit line)
    let s ← recording (enterCall f args) fun _ => .entered f
    match ← nested (runBody (fun stmt => run stmt s) f.function.body) with
    | .normal _ => pure .nil
    | .returned v => pure v
  else quietly (Exec.raise (.arityMismatch f.function args.length) line)

section Walk

variable (limit : Option Nat)

mutual

/-- **Evaluates an expression** in a scope. -/
def eval : (fuel : Nat) → Expr → Scope → Run Value
  | 0, _, _ => quietly Exec.exhausted
  | n + 1, e, s =>
    match e with
    | .literal value => pure (.ofLiteral value)
    | .identifier name _ => quietly (Exec.lookup s name)
    | .grouping inner => eval n inner s
    | .unary op operand line => do
      let v ← eval n operand s
      quietly (Exec.ofExcept line (v.unary op))
    | .binary op left right line => do
      let l ← eval n left s
      let r ← eval n right s
      quietly (Exec.ofExcept line (Value.binary op l r))
    | .logical op left right => do
      let l ← eval n left s
      if l.settles op then pure l else eval n right s
    | .assign name value line => do
      let v ← eval n value s
      quietly (Exec.assign s name v line)
      pure .nil
    | .call f args line => do
      let f ← eval n f s
      let f ← quietly (callee line f)
      let vs ← evalAll (fun arg => eval n arg s) args
      invoke limit (fun stmt scope => exec n stmt scope) f vs line

/-- **Executes a statement** in a scope. -/
def exec : (fuel : Nat) → Stmt → Scope → Run Flow
  | 0, _, _ => quietly Exec.exhausted
  | n + 1, stmt, s => do
    recording Exec.countStatement fun m _ => .begun stmt s m
    match stmt with
    | .var name none => do
      quietly (Exec.declare s name .nil)
      pure (.normal .nil)
    | .var name (some e) => do
      let v ← eval n e s
      quietly (Exec.declare s name v)
      pure (.normal .nil)
    | .function name params body => do
      quietly (Exec.note (.declared name params.length))
      let f ← recording (Exec.makeClosure ⟨name, params, body⟩ s) fun _ => .made
      quietly (Exec.declare s name (.function f))
      pure (.normal .nil)
    | .block body => do
      quietly (Exec.note (.entered body.length))
      let inner ← quietly (Exec.enterBlock s)
      runBody (fun stmt => exec n stmt inner) body
    | .branch cond yes no => do
      let v ← eval n cond s
      if v.isTruthy then exec n yes s
      else match no with
        | some no => exec n no s
        | none => pure (.normal .nil)
    | .loop cond body => runLoop (eval n cond s) (exec n body s) n
    | .print e => do
      let v ← eval n e s
      quietly (Exec.note (.printed v))
      pure (.normal .nil)
    | .ret value line => do
      let depth ← quietly (Exec.read (·.depth))
      if depth = 0 then quietly (Exec.raise .topLevelReturn line)
      else match value with
        | some e => do
          let v ← eval n e s
          pure (.returned v)
        | none => pure (.returned .nil)
    | .expression e => do
      let v ← eval n e s
      pure (.normal v)

end

/-- Runs top-level statements in order; `last` is what the one before has shown. -/
def runStatements (fuel : Nat) (s : Scope) (last : Option Value) :
    List Stmt → Run (Option Value)
  | [] => pure last
  | stmt :: rest => do
    match ← exec limit fuel stmt s with
    | .normal v => runStatements fuel s (stmt.shown v) rest
    | .returned _ => quietly fun m => .failed ⟨.topLevelReturn, none⟩ m

/-- **Runs a program** in a scope. -/
def runProgram (fuel : Nat) (program : List Stmt) (s : Scope) : Run (Option Value) := do
  quietly (Exec.modify fun m => { m with depth := 0 })
  runStatements limit fuel s none program

end Walk

/-! ### Watching changes nothing -/

section Outcome

theorem outcome_pure (a : α) : (pure a : Run α).outcome = pure a := rfl

theorem outcome_quietly (x : Exec α) : (quietly x).outcome = x := rfl

theorem outcome_recording (x : Exec α) (deed : Machine → α → Deed) :
    (recording x deed).outcome = x := rfl

theorem outcome_nested (x : Run α) : (nested x).outcome = Exec.nested x.outcome := rfl

theorem outcome_bind (x : Run α) (f : α → Run β) :
    (x >>= f).outcome = x.outcome >>= fun a => (f a).outcome := by
  funext m
  change (Run.bind x f m).1 = Exec.bind x.outcome (fun a => (f a).outcome) m
  rw [Run.bind, Exec.bind, Run.outcome]
  rcases x m with ⟨o, ds⟩
  cases o <;> rfl

theorem outcome_evalAll {ev : Expr → Run Value} {ev' : Expr → Exec Value}
    (h : ∀ e, (ev e).outcome = ev' e) (es : List Expr) :
    (evalAll ev es).outcome = Lox.evalAll ev' es := by
  induction es with
  | nil => rfl
  | cons e es ih => simp only [evalAll, Lox.evalAll, outcome_bind, h, ih, outcome_pure]

theorem outcome_runBody {run : Stmt → Run Flow} {run' : Stmt → Exec Flow}
    (h : ∀ stmt, (run stmt).outcome = run' stmt) (body : List Stmt) :
    (runBody run body).outcome = Lox.runBody run' body := by
  induction body with
  | nil => rfl
  | cons stmt body ih =>
    rw [runBody, Lox.runBody, outcome_bind, h]
    congr 1
    funext flow
    cases flow with
    | normal v => exact ih
    | returned v => rfl

theorem outcome_runLoop (cond : Run Value) (body : Run Flow) (rounds : Nat) :
    (runLoop cond body rounds).outcome = Lox.runLoop cond.outcome body.outcome rounds := by
  induction rounds with
  | zero => rfl
  | succ rounds ih =>
    rw [runLoop, Lox.runLoop, outcome_bind]
    congr 1
    funext v
    split
    · rw [outcome_bind]
      congr 1
      funext flow
      cases flow with
      | normal v => exact ih
      | returned v => rfl
    · rfl

theorem outcome_invoke {limit : Option Nat} {run : Stmt → Scope → Run Flow}
    {run' : Stmt → Scope → Exec Flow} (h : ∀ stmt s, (run stmt s).outcome = run' stmt s)
    (f : Closure) (args : List Value) (line : Nat) :
    (invoke limit run f args line).outcome = Lox.invoke limit run' f args line := by
  unfold invoke Lox.invoke
  split
  · rw [outcome_bind]
    congr 1
    funext _
    rw [outcome_bind]
    congr 1
    funext s
    rw [outcome_bind, outcome_nested, outcome_runBody fun stmt => h stmt s]
    congr 1
    funext flow
    cases flow <;> rfl
  · rfl

/-- **The watched evaluator is the evaluator**, on expressions and on statements. -/
theorem outcome_walk (limit : Option Nat) (n : Nat) :
    (∀ e s, (eval limit n e s).outcome = Lox.eval limit n e s) ∧
      ∀ stmt s, (exec limit n stmt s).outcome = Lox.exec limit n stmt s := by
  induction n with
  | zero => exact ⟨fun e s => rfl, fun stmt s => rfl⟩
  | succ n ih =>
    obtain ⟨ihe, ihs⟩ := ih
    constructor
    · intro e s
      cases e with
      | literal value => rfl
      | identifier name line => rfl
      | grouping inner => exact ihe inner s
      | unary op operand line => simp only [eval, Lox.eval, outcome_bind, ihe, outcome_quietly]
      | binary op left right line =>
        simp only [eval, Lox.eval, outcome_bind, ihe, outcome_quietly]
      | logical op left right =>
        simp only [eval, Lox.eval, outcome_bind, ihe]
        congr 1
        funext l
        split
        · rfl
        · exact ihe right s
      | assign name value line =>
        simp only [eval, Lox.eval, outcome_bind, ihe, outcome_quietly, outcome_pure]
      | call f args line =>
        have hargs := outcome_evalAll (fun arg => ihe arg s) args
        simp only [eval, eval_call, outcome_bind, ihe, outcome_quietly, hargs, outcome_invoke ihs]
    · intro stmt s
      cases stmt with
      | var name initial =>
        cases initial with
        | none => rfl
        | some e =>
          simp only [exec, Lox.exec, outcome_bind, ihe, outcome_recording, outcome_quietly,
            outcome_pure]
      | function name params body =>
        simp only [exec, Lox.exec, outcome_bind, outcome_quietly, outcome_recording, outcome_pure]
      | block body =>
        simp only [exec, Lox.exec, outcome_bind, outcome_recording, outcome_quietly,
          outcome_runBody fun stmt => ihs stmt _]
      | branch cond yes no =>
        simp only [exec, Lox.exec, outcome_bind, outcome_recording, ihe]
        congr 1
        funext _
        congr 1
        funext v
        split
        · exact ihs yes s
        · cases no with
          | none => rfl
          | some no => exact ihs no s
      | loop cond body =>
        simp only [exec, Lox.exec, outcome_bind, outcome_recording, outcome_runLoop, ihe, ihs]
      | print e =>
        simp only [exec, Lox.exec, outcome_bind, outcome_recording, ihe, outcome_quietly,
          outcome_pure]
      | ret value line =>
        simp only [exec, Lox.exec, outcome_bind, outcome_recording, outcome_quietly]
        congr 1
        funext _
        congr 1
        funext depth
        split
        · rfl
        · cases value with
          | none => rfl
          | some e => simp only [outcome_bind, ihe, outcome_pure]
      | expression e =>
        simp only [exec, Lox.exec, outcome_bind, outcome_recording, ihe, outcome_pure]

theorem outcome_runStatements (limit : Option Nat) (n : Nat) (s : Scope) (last : Option Value)
    (program : List Stmt) :
    (runStatements limit n s last program).outcome =
      Lox.runStatements limit n s last program := by
  induction program generalizing last with
  | nil => rfl
  | cons stmt rest ih =>
    rw [runStatements, Lox.runStatements, outcome_bind, (outcome_walk limit n).2]
    congr 1
    funext flow
    cases flow with
    | normal v => exact ih _
    | returned v => rfl

/-- **A program that is watched runs as it does by itself.** -/
theorem outcome_runProgram (limit : Option Nat) (n : Nat) (program : List Stmt) (s : Scope) :
    (runProgram limit n program s).outcome = Lox.runProgram limit n program s := by
  rw [runProgram, Lox.runProgram, outcome_bind]
  congr 1
  funext _
  exact outcome_runStatements limit n s none program

end Outcome

end Watch

end Lox
