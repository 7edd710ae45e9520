import Lox.Machine

/-!
# The evaluator

A tree walk over expressions and statements. Every step into a part of the tree, and
every round of a loop, takes one unit of fuel, so both functions recurse on the fuel
alone; with enough of it the answer no longer depends on it.

A statement ends normally or with a `return` under way (`Flow`). Whatever runs a
statement as a part of itself looks at the flow and hands a `return` on; only a call
takes it up.

A fault is raised with the line of its node. A call passes the faults of its body on, and
fills in its own line where one has none; `Lox.eval_call` says that each has one.

The number of calls that may be active at the same time is a parameter, `limit`; without
a limit only the fuel bounds them. Programs run under the limit `maxDepth`.
-/

namespace Lox

/-- How a statement ended. -/
inductive Flow
  /-- The next statement is due; an expression statement leaves its value. -/
  | normal (v : Value)
  /-- A `return` is on its way to the call it belongs to. -/
  | returned (v : Value)

/-! ### The parts that do not look into the tree -/

/-- Evaluates expressions from left to right. -/
def evalAll (eval : Expr → Exec Value) : List Expr → Exec (List Value)
  | [] => pure []
  | e :: es => do
    let v ← eval e
    let vs ← evalAll eval es
    pure (v :: vs)

/-- Runs statements in order, up to the first `return`. -/
def runBody (run : Stmt → Exec Flow) : List Stmt → Exec Flow
  | [] => pure (.normal .nil)
  | s :: ss => do
    match ← run s with
    | .returned v => pure (.returned v)
    | .normal _ => runBody run ss

/-- Runs a body as long as a condition holds, for at most `rounds` rounds. -/
def runLoop (cond : Exec Value) (body : Exec Flow) : (rounds : Nat) → Exec Flow
  | 0 => Exec.exhausted
  | rounds + 1 => do
    let v ← cond
    if v.isTruthy then
      match ← body with
      | .returned v => pure (.returned v)
      | .normal _ => runLoop cond body rounds
    else pure (.normal .nil)

/-- The function that a call is about. -/
def callee (line : Nat) : Value → Exec Closure
  | .function f => pure f
  | v => Exec.raise (.notCallable v) line

/-- Refuses a call if as many are active as the limit allows. -/
def checkDepth (limit : Option Nat) (line : Nat) : Exec Unit := fun m =>
  match limit with
  | none => .done () m
  | some k => if k ≤ m.depth then .failed (.atLine (.stackOverflow k) line) m else .done () m

/-- Makes the scope of a call, with the arguments in it. -/
def enterCall (f : Closure) (args : List Value) : Exec Scope := do
  let depth ← Exec.read (·.depth)
  Exec.note (.called f.function.name depth)
  Exec.modify fun m => { m with stats := { m.stats with calls := m.stats.calls + 1 } }
  let s ← Exec.enterBlock f.scope
  Exec.declareAll s (f.function.params.zip args)
  pure s

/-- Calls a function with the values of its arguments. A body that ends without a
`return` gives `nil`. -/
def invoke (limit : Option Nat) (run : Stmt → Scope → Exec Flow) (f : Closure)
    (args : List Value) (line : Nat) : Exec Value := do
  if args.length = f.function.arity then do
    checkDepth limit line
    let s ← enterCall f args
    match ← Exec.nested (runBody (fun stmt => run stmt s) f.function.body) with
    | .normal _ => pure .nil
    | .returned v => pure v
  else Exec.raise (.arityMismatch f.function args.length) line

/-! ### The walk -/

/-- The deepest nesting of calls under which programs run. -/
def maxDepth : Nat := 5000

section Walk

variable (limit : Option Nat)

mutual

/-- **Evaluates an expression** in a scope. -/
def eval : (fuel : Nat) → Expr → Scope → Exec Value
  | 0, _, _ => Exec.exhausted
  | n + 1, e, s =>
    match e with
    | .literal value => pure (.ofLiteral value)
    | .identifier name _ => Exec.lookup s name
    | .grouping inner => eval n inner s
    | .unary op operand line => do
      let v ← eval n operand s
      Exec.ofExcept line (v.unary op)
    | .binary op left right line => do
      let l ← eval n left s
      let r ← eval n right s
      Exec.ofExcept line (Value.binary op l r)
    | .logical op left right => do
      let l ← eval n left s
      if l.settles op then pure l else eval n right s
    | .assign name value line => do
      let v ← eval n value s
      Exec.assign s name v line
      pure .nil
    | .call f args line => do
      let f ← eval n f s
      let f ← callee line f
      let vs ← evalAll (fun arg => eval n arg s) args
      (invoke limit (fun stmt scope => exec n stmt scope) f vs line).withLine line

/-- **Executes a statement** in a scope. -/
def exec : (fuel : Nat) → Stmt → Scope → Exec Flow
  | 0, _, _ => Exec.exhausted
  | n + 1, stmt, s => do
    Exec.countStatement
    match stmt with
    | .var name none => do
      Exec.declare s name .nil
      pure (.normal .nil)
    | .var name (some e) => do
      let v ← eval n e s
      Exec.declare s name v
      pure (.normal .nil)
    | .function name params body => do
      Exec.note (.declared name params.length)
      let f ← Exec.makeClosure ⟨name, params, body⟩ s
      Exec.declare s name (.function f)
      pure (.normal .nil)
    | .block body => do
      Exec.note (.entered body.length)
      let inner ← Exec.enterBlock s
      runBody (fun stmt => exec n stmt inner) body
    | .branch cond yes no => do
      let v ← eval n cond s
      if v.isTruthy then exec n yes s
      else match no with
        | some no => exec n no s
        | none => pure (.normal .nil)
    | .loop cond body => runLoop (eval n cond s) (exec n body s) n
    | .print e => do
      let v ← eval n e s
      Exec.note (.printed v)
      pure (.normal .nil)
    | .ret value line => do
      let depth ← Exec.read (·.depth)
      if depth = 0 then Exec.raise .topLevelReturn line
      else match value with
        | some e => do
          let v ← eval n e s
          pure (.returned v)
        | none => pure (.returned .nil)
    | .expression e => do
      let v ← eval n e s
      pure (.normal v)

end

/-! ### Programs -/

/-- The value a top-level statement shows: that of an expression statement. -/
def Stmt.shown : Stmt → Value → Option Value
  | .expression _, v => some v
  | _, _ => none

/-- Runs top-level statements in order; `last` is what the one before has shown. -/
def runStatements (fuel : Nat) (s : Scope) (last : Option Value) :
    List Stmt → Exec (Option Value)
  | [] => pure last
  | stmt :: rest => do
    match ← exec limit fuel stmt s with
    | .normal v => runStatements fuel s (stmt.shown v) rest
    | .returned _ => fun m => .failed ⟨.topLevelReturn, none⟩ m

/-- **Runs a program** in a scope, which keeps what the program declares there. The
result is the value of the last statement if that is an expression statement. -/
def runProgram (fuel : Nat) (program : List Stmt) (s : Scope) : Exec (Option Value) := do
  Exec.modify fun m => { m with depth := 0 }
  runStatements limit fuel s none program

end Walk

end Lox
