import Lox.Proofs.Eval.Lined
import Lox.Proofs.Eval.Reaches

/-!
# Returning as a non-local exit

The evaluator hands a `return` on from statement to statement, and every statement that runs
another one has to look at how that one ended. Here stands the evaluator that `return` is meant
to have: there a `return` is an exception, which leaves everything up to the innermost call at
once, and no statement looks for it. Both are the same function, fuel by fuel
(`Lox.Unwind.walk_eq`, `Lox.Unwind.runProgram_eq`).

The exception can be left uncaught only outside every call. It is not raised there, since no
call is active there when a statement begins, and since whatever runs in front of a `return`
leaves the number of active calls alone (`Lox.Reaches.depth_eq`).
-/

namespace Lox

namespace Unwind

/-! ### Computations with an exception -/

/-- How a computation ends in which `return` is an exception. -/
inductive Ending (α : Type)
  /-- It is done. -/
  | done (a : α) (m : Machine)
  /-- It has failed. -/
  | failed (fault : Located RuntimeFault) (m : Machine)
  /-- It was left by a `return`. -/
  | left (v : Value) (m : Machine)
  /-- It was given too little fuel. -/
  | exhausted

/-- A computation in which `return` is an exception. -/
def Run (α : Type) := Machine → Ending α

namespace Run

variable {α β : Type}

/-- One computation after another; an exception skips the second. -/
protected def bind (x : Run α) (f : α → Run β) : Run β := fun m =>
  match x m with
  | .done a m => f a m
  | .failed fault m => .failed fault m
  | .left v m => .left v m
  | .exhausted => .exhausted

instance : Monad Run where
  pure a := fun m => .done a m
  bind := Run.bind

theorem bind_pure (x : Run α) : (x >>= fun a => pure a) = x := by
  funext m
  change Run.bind x (fun a => pure a) m = x m
  rw [Run.bind]
  cases x m <;> rfl

/-- Raises the exception. -/
def leave (v : Value) : Run α := fun m => .left v m

end Run

/-- The ending of a computation that raises no exception. -/
def ending {α : Type} : Outcome α → Ending α
  | .done a m => .done a m
  | .failed fault m => .failed fault m
  | .exhausted => .exhausted

/-- A computation that raises no exception. -/
def lift {α : Type} (x : Exec α) : Run α := fun m => ending (x m)

/-- **A call catches the exception**; without one its value is `nil`. The call is active until
its body ends, however it ends. -/
def catching {α : Type} (body : Run α) : Run Value := fun m =>
  match body { m with depth := m.depth + 1 } with
  | .done _ m => .done .nil { m with depth := m.depth - 1 }
  | .failed fault m => .failed fault { m with depth := m.depth - 1 }
  | .left v m => .done v { m with depth := m.depth - 1 }
  | .exhausted => .exhausted

/-! ### The evaluator without checks -/

/-- Evaluates expressions from left to right. -/
def evalAll (eval : Expr → Run Value) : List Expr → Run (List Value)
  | [] => pure []
  | e :: es => do
    let v ← eval e
    let vs ← evalAll eval es
    pure (v :: vs)

/-- Runs statements in order. -/
def runBody (run : Stmt → Run Value) : List Stmt → Run Value
  | [] => pure .nil
  | s :: ss => do
    let _ ← run s
    runBody run ss

/-- Runs a body as long as a condition holds, for at most `rounds` rounds. -/
def runLoop (cond : Run Value) (body : Run Value) : (rounds : Nat) → Run Value
  | 0 => fun _ => .exhausted
  | rounds + 1 => do
    let v ← cond
    if v.isTruthy then do
      let _ ← body
      runLoop cond body rounds
    else pure .nil

/-- Calls a function with the values of its arguments. -/
def invoke (limit : Option Nat) (run : Stmt → Scope → Run Value) (f : Closure)
    (args : List Value) (line : Nat) : Run Value := do
  if args.length = f.function.arity then do
    lift (checkDepth limit line)
    let s ← lift (enterCall f args)
    catching (runBody (fun stmt => run stmt s) f.function.body)
  else lift (Exec.raise (.arityMismatch f.function args.length) line)

section Walk

variable (limit : Option Nat)

mutual

/-- **Evaluates an expression** in a scope. -/
def eval : (fuel : Nat) → Expr → Scope → Run Value
  | 0, _, _ => fun _ => .exhausted
  | n + 1, e, s =>
    match e with
    | .literal value => pure (.ofLiteral value)
    | .identifier name _ => lift (Exec.lookup s name)
    | .grouping inner => eval n inner s
    | .unary op operand line => do
      let v ← eval n operand s
      lift (Exec.ofExcept line (v.unary op))
    | .binary op left right line => do
      let l ← eval n left s
      let r ← eval n right s
      lift (Exec.ofExcept line (Value.binary op l r))
    | .logical op left right => do
      let l ← eval n left s
      if l.settles op then pure l else eval n right s
    | .assign name value line => do
      let v ← eval n value s
      lift (Exec.assign s name v line)
      pure .nil
    | .call f args line => do
      let f ← eval n f s
      let f ← lift (callee line f)
      let vs ← evalAll (fun arg => eval n arg s) args
      invoke limit (fun stmt scope => exec n stmt scope) f vs line

/-- **Executes a statement** in a scope. An expression statement leaves its value. -/
def exec : (fuel : Nat) → Stmt → Scope → Run Value
  | 0, _, _ => fun _ => .exhausted
  | n + 1, stmt, s => do
    lift Exec.countStatement
    match stmt with
    | .var name none => do
      lift (Exec.declare s name .nil)
      pure .nil
    | .var name (some e) => do
      let v ← eval n e s
      lift (Exec.declare s name v)
      pure .nil
    | .function name params body => do
      lift (Exec.note (.declared name params.length))
      let f ← lift (Exec.makeClosure ⟨name, params, body⟩ s)
      lift (Exec.declare s name (.function f))
      pure .nil
    | .block body => do
      lift (Exec.note (.entered body.length))
      let inner ← lift (Exec.enterBlock s)
      runBody (fun stmt => exec n stmt inner) body
    | .branch cond yes no => do
      let v ← eval n cond s
      if v.isTruthy then exec n yes s
      else match no with
        | some no => exec n no s
        | none => pure .nil
    | .loop cond body => runLoop (eval n cond s) (exec n body s) n
    | .print e => do
      let v ← eval n e s
      lift (Exec.note (.printed v))
      pure .nil
    | .ret value line => do
      let depth ← lift (Exec.read (·.depth))
      if depth = 0 then lift (Exec.raise .topLevelReturn line)
      else match value with
        | some e => do
          let v ← eval n e s
          Run.leave v
        | none => Run.leave .nil
    | .expression e => eval n e s

end

/-- Runs top-level statements in order; `last` is what the one before has shown. -/
def runStatements (fuel : Nat) (s : Scope) (last : Option Value) :
    List Stmt → Run (Option Value)
  | [] => pure last
  | stmt :: rest => do
    let v ← exec limit fuel stmt s
    runStatements fuel s (stmt.shown v) rest

/-- **Runs a program** in a scope. -/
def runProgram (fuel : Nat) (program : List Stmt) (s : Scope) : Run (Option Value) := do
  lift (Exec.modify fun m => { m with depth := 0 })
  runStatements limit fuel s none program

end Walk

/-! ### From flows to endings -/

/-- The ending that a flow stands for. -/
def unwound : Outcome Flow → Ending Value
  | .done (.normal v) m => .done v m
  | .done (.returned v) m => .left v m
  | .failed fault m => .failed fault m
  | .exhausted => .exhausted

/-- A computation that hands on flows, as one that raises exceptions. -/
def unwind (x : Exec Flow) : Run Value := fun m => unwound (x m)

section Sequence

variable {α β : Type}

theorem lift_pure (a : α) : lift (pure a) = (pure a : Run α) := rfl

theorem unwind_normal (v : Value) : unwind (pure (.normal v)) = (pure v : Run Value) := rfl

theorem unwind_returned (v : Value) : unwind (pure (.returned v)) = (Run.leave v : Run Value) := rfl

theorem lift_bind (x : Exec α) (f : α → Exec β) :
    lift (x >>= f) = lift x >>= fun a => lift (f a) := by
  funext m
  change ending (Exec.bind x f m) = Run.bind (lift x) (fun a => lift (f a)) m
  cases h : x m <;> simp [Exec.bind, Run.bind, lift, h, ending]

theorem unwind_bind (x : Exec α) (f : α → Exec Flow) :
    unwind (x >>= f) = lift x >>= fun a => unwind (f a) := by
  funext m
  change unwound (Exec.bind x f m) = Run.bind (lift x) (fun a => unwind (f a)) m
  cases h : x m <;> simp [Exec.bind, Run.bind, lift, unwind, h, ending, unwound]

/-- **A flow that is handed on is an exception that nobody looks for.** -/
theorem unwind_handOn (x : Exec Flow) {f : Flow → Exec Flow}
    (hf : ∀ v, f (.returned v) = pure (.returned v)) :
    unwind (x >>= f) = unwind x >>= fun v => unwind (f (.normal v)) := by
  funext m
  change unwound (Exec.bind x f m) = Run.bind (unwind x) (fun v => unwind (f (.normal v))) m
  cases h : x m with
  | done flow m' =>
    cases flow with
    | normal v => simp [Exec.bind, Run.bind, unwind, h, unwound]
    | returned v =>
      simp only [Exec.bind, Run.bind, unwind, h, unwound, hf]
      rfl
  | failed fault m' => simp [Exec.bind, Run.bind, unwind, h, unwound]
  | exhausted => simp [Exec.bind, Run.bind, unwind, h, unwound]

/-- **A flow that a call takes up is an exception that it catches.** -/
theorem lift_takeUp (x : Exec Flow) {f : Flow → Exec Value}
    (hnormal : ∀ v, f (.normal v) = pure .nil) (hreturned : ∀ v, f (.returned v) = pure v) :
    lift (Exec.nested x >>= f) = catching (unwind x) := by
  funext m
  change ending (Exec.bind (Exec.nested x) f m) = catching (unwind x) m
  cases h : x { m with depth := m.depth + 1 } with
  | done flow m' =>
    cases flow with
    | normal v =>
      simp only [Exec.bind, Exec.nested, catching, unwind, h, unwound, hnormal]
      rfl
    | returned v =>
      simp only [Exec.bind, Exec.nested, catching, unwind, h, unwound, hreturned]
      rfl
  | failed fault m' => simp [Exec.bind, Exec.nested, catching, unwind, h, unwound, ending]
  | exhausted => simp [Exec.bind, Exec.nested, catching, unwind, h, unwound, ending]

end Sequence

/-! ### The two walks -/

theorem evalAll_eq {ev : Expr → Exec Value} {ev' : Expr → Run Value}
    (h : ∀ e, ev' e = lift (ev e)) (es : List Expr) :
    evalAll ev' es = lift (Lox.evalAll ev es) := by
  induction es with
  | nil => rfl
  | cons e es ih => simp only [evalAll, Lox.evalAll, h, ih, lift_bind, lift_pure]

theorem runBody_eq {run : Stmt → Exec Flow} {run' : Stmt → Run Value}
    (h : ∀ stmt, run' stmt = unwind (run stmt)) (body : List Stmt) :
    runBody run' body = unwind (Lox.runBody run body) := by
  induction body with
  | nil => rfl
  | cons stmt body ih =>
    rw [runBody, Lox.runBody, unwind_handOn, h, ih]
    exact fun v => rfl

theorem runLoop_eq (cond : Exec Value) (body : Exec Flow) (rounds : Nat) :
    runLoop (lift cond) (unwind body) rounds = unwind (Lox.runLoop cond body rounds) := by
  induction rounds with
  | zero => rfl
  | succ rounds ih =>
    rw [runLoop, Lox.runLoop, unwind_bind]
    congr 1
    funext v
    cases hv : v.isTruthy with
    | false => rfl
    | true =>
      simp only [if_true]
      rw [unwind_handOn, ih]
      exact fun v => rfl

theorem invoke_eq {limit : Option Nat} {run : Stmt → Scope → Exec Flow}
    {run' : Stmt → Scope → Run Value} (h : ∀ stmt s, run' stmt s = unwind (run stmt s))
    (f : Closure) (args : List Value) (line : Nat) :
    invoke limit run' f args line = lift (Lox.invoke limit run f args line) := by
  unfold invoke Lox.invoke
  split
  · rw [lift_bind]
    congr 1
    funext _
    rw [lift_bind]
    congr 1
    funext s
    -- the only place where a flow is taken up and not handed on
    rw [lift_takeUp _ (fun v => rfl) (fun v => rfl), runBody_eq fun stmt => h stmt s]
  · rfl

/-- **The two walks agree**, on expressions and on statements, at every depth. -/
theorem walk_eq (limit : Option Nat) (n : Nat) :
    (∀ e s, eval limit n e s = lift (Lox.eval limit n e s)) ∧
      ∀ stmt s, exec limit n stmt s = unwind (Lox.exec limit n stmt s) := by
  -- on the fuel, for expressions and statements at once: each of them may run the other
  induction n with
  | zero => exact ⟨fun e s => rfl, fun stmt s => rfl⟩
  | succ n ih =>
    obtain ⟨ihe, ihs⟩ := ih
    constructor
    · intro e s
      cases e with
      | literal value => rfl
      | identifier name line => rfl
      | grouping inner => exact ihe inner s
      | unary op operand line => simp only [eval, Lox.eval, ihe, lift_bind]
      | binary op left right line => simp only [eval, Lox.eval, ihe, lift_bind]
      | logical op left right =>
        simp only [eval, Lox.eval, ihe, lift_bind]
        congr 1
        funext l
        split
        · rfl
        · rfl
      | assign name value line => simp only [eval, Lox.eval, ihe, lift_bind, lift_pure]
      | call f args line =>
        have hargs := evalAll_eq (fun arg => ihe arg s) args
        simp only [eval, eval_call, lift_bind, ihe f s, hargs, invoke_eq ihs]
    · intro stmt s
      cases stmt with
      | var name initial =>
        cases initial with
        | none => simp only [exec, Lox.exec, unwind_bind, unwind_normal]
        | some e => simp only [exec, Lox.exec, ihe, unwind_bind, unwind_normal]
      | function name params body => simp only [exec, Lox.exec, unwind_bind, unwind_normal]
      | block body =>
        simp only [exec, Lox.exec, unwind_bind, ← runBody_eq fun stmt => ihs stmt _]
      | branch cond yes no =>
        simp only [exec, Lox.exec, ihe, ihs, unwind_bind]
        congr 1
        funext _
        congr 1
        funext v
        split
        · rfl
        · cases no <;> rfl
      | loop cond body => simp only [exec, Lox.exec, ihe, ihs, unwind_bind, runLoop_eq]
      | print e => simp only [exec, Lox.exec, ihe, unwind_bind, unwind_normal]
      | ret value line =>
        simp only [exec, Lox.exec, ihe, unwind_bind]
        congr 1
        funext _
        congr 1
        funext depth
        split
        · rfl
        · cases value with
          | none => rfl
          | some e => simp only [unwind_bind, unwind_returned]
      | expression e => simp only [exec, Lox.exec, ihe, unwind_bind, unwind_normal, Run.bind_pure]

/-! ### Outside every call -/

/-- A computation that comes back with a `return` only inside a call. -/
def ReturnsInCall (x : Exec Flow) : Prop :=
  ∀ (m m' : Machine) (v : Value), x m = .done (.returned v) m' → m.depth ≠ 0

section Sequence

variable {α : Type}

theorem returnsInCall_normal (v : Value) : ReturnsInCall (pure (.normal v)) := by
  rintro m m' v ⟨⟩

/-- What fails outside every call comes back only inside one. -/
theorem returnsInCall_depth {f : Nat → Exec Flow} {fault : RuntimeFault} {line : Nat}
    (hf : f 0 = Exec.raise fault line) : ReturnsInCall (Exec.read (·.depth) >>= f) := by
  intro m m' v h hdepth
  have hread : (Exec.read (·.depth) >>= f) m = f m.depth m := rfl
  rw [hread, hdepth, hf] at h
  cases h

/-- Whatever leaves the active calls alone may run in front. -/
theorem ReturnsInCall.bind {x : Exec α} {f : α → Exec Flow} (hx : x.Proceeds)
    (hf : ∀ a, ReturnsInCall (f a)) : ReturnsInCall (x >>= f) := by
  intro m m' v h
  have hleaves := hx m
  cases hxm : x m with
  | done a m₁ =>
    rw [hxm] at hleaves
    rw [Exec.bind_of_done hxm] at h
    rw [← hleaves.depth_eq]
    exact hf a _ _ _ h
  | failed fault m₁ => simp [Exec.bind_of_failed hxm] at h
  | exhausted => simp [Exec.bind_of_exhausted hxm] at h

/-- A flow that is handed on comes from inside a call. -/
theorem ReturnsInCall.handOn {x : Exec Flow} {f : Flow → Exec Flow} (hx : ReturnsInCall x)
    (hp : x.Proceeds) (hf : ∀ v, ReturnsInCall (f (.normal v))) : ReturnsInCall (x >>= f) := by
  intro m m' v h
  have hleaves := hp m
  cases hxm : x m with
  | done flow m₁ =>
    cases flow with
    | normal w =>
      rw [hxm] at hleaves
      rw [Exec.bind_of_done hxm] at h
      rw [← hleaves.depth_eq]
      exact hf w _ _ _ h
    -- whatever `f` makes of it, it was there already
    | returned w => exact hx _ _ _ hxm
  | failed fault m₁ => simp [Exec.bind_of_failed hxm] at h
  | exhausted => simp [Exec.bind_of_exhausted hxm] at h

end Sequence

theorem returnsInCall_runBody {run : Stmt → Exec Flow} (hp : ∀ stmt, (run stmt).Proceeds)
    (hrun : ∀ stmt, ReturnsInCall (run stmt)) (body : List Stmt) :
    ReturnsInCall (Lox.runBody run body) := by
  induction body with
  | nil => exact returnsInCall_normal .nil
  | cons stmt body ih => exact (hrun stmt).handOn (hp stmt) fun v => ih

theorem returnsInCall_runLoop {cond : Exec Value} {body : Exec Flow} (hcond : cond.Proceeds)
    (hp : body.Proceeds) (hbody : ReturnsInCall body) (rounds : Nat) :
    ReturnsInCall (Lox.runLoop cond body rounds) := by
  induction rounds with
  | zero => rintro m m' v ⟨⟩
  | succ rounds ih =>
    refine .bind hcond fun v => ?_
    split
    · exact hbody.handOn hp fun v => ih
    · exact returnsInCall_normal .nil

/-- **Outside every call no statement ends with a `return`.** -/
theorem returnsInCall_exec {limit : Option Nat} (n : Nat) (stmt : Stmt) (s : Scope) :
    ReturnsInCall (Lox.exec limit n stmt s) := by
  induction n generalizing stmt s with
  | zero => rintro m m' v ⟨⟩
  | succ n ih =>
    have hp : ∀ stmt s, (Lox.exec limit n stmt s).Proceeds := proceeds_exec n
    refine .bind Exec.closed_proceeds.countStatement fun _ => ?_
    cases stmt with
    | var name initial =>
      cases initial with
      | none => exact .bind (Exec.closed_proceeds.declare s name _) fun _ => returnsInCall_normal _
      | some e =>
        exact .bind (proceeds_eval n e s) fun v =>
          .bind (Exec.closed_proceeds.declare s name v) fun _ => returnsInCall_normal _
    | function name params body =>
      exact .bind (Exec.closed_proceeds.note _) fun _ =>
        .bind (Exec.closed_proceeds.makeClosure _ s) fun f =>
          .bind (Exec.closed_proceeds.declare s name _) fun _ => returnsInCall_normal _
    | block body =>
      exact .bind (Exec.closed_proceeds.note _) fun _ =>
        .bind (Exec.closed_proceeds.enterBlock s) fun inner =>
          returnsInCall_runBody (fun stmt => hp stmt inner) (fun stmt => ih stmt inner) body
    | branch cond yes no =>
      refine .bind (proceeds_eval n cond s) fun v => ?_
      split
      · exact ih yes s
      · cases no with
        | none => exact returnsInCall_normal _
        | some no => exact ih no s
    | loop cond body =>
      exact returnsInCall_runLoop (proceeds_eval n cond s) (hp body s) (ih body s) n
    | print e =>
      exact .bind (proceeds_eval n e s) fun v =>
        .bind (Exec.closed_proceeds.note _) fun _ => returnsInCall_normal _
    -- the only statement that makes a flow of its own, and it looks at the depth first
    | ret value line => exact returnsInCall_depth rfl
    | expression e => exact .bind (proceeds_eval n e s) fun v => returnsInCall_normal _

/-! ### Programs -/

/-- At the top level the exception never gets through. -/
theorem runStatements_eq {limit : Option Nat} (n : Nat) (s : Scope) (last : Option Value)
    (program : List Stmt) {m : Machine} (hm : m.depth = 0) :
    runStatements limit n s last program m =
      ending (Lox.runStatements limit n s last program m) := by
  induction program generalizing last m with
  | nil => rfl
  | cons stmt rest ih =>
    have hexec := congrFun ((walk_eq limit n).2 stmt s) m
    have hproceeds := @proceeds_exec limit n stmt s m
    change Run.bind _ _ m = ending (Exec.bind _ _ m)
    rw [Run.bind, Exec.bind, hexec, unwind]
    cases h : Lox.exec limit n stmt s m with
    | done flow m' =>
      rw [h] at hproceeds
      cases flow with
      | normal v => exact ih (stmt.shown v) (hproceeds.depth_eq.trans hm)
      -- here the two walks would differ: the one fails, the other is left
      | returned v => exact absurd hm (returnsInCall_exec n stmt s m m' v h)
    | failed fault m' => rfl
    | exhausted => rfl

theorem runProgram_eq (limit : Option Nat) (n : Nat) (program : List Stmt) (s : Scope)
    (m : Machine) : runProgram limit n program s m = ending (Lox.runProgram limit n program s m) :=
  runStatements_eq n s none program rfl

theorem ending_eq_exhausted_iff {α : Type} {o : Outcome α} :
    ending o = .exhausted ↔ o = .exhausted := by
  cases o <;> simp [ending]

/-- **Returning is a non-local exit to the innermost call.** Run by run and fuel by fuel, handing
a `return` on comes to the same as raising an exception that only a call catches: the same result
or the same fault at the same line, and the same machine, with its scopes, its counts and what it
has printed. So one of them terminates if the other does; and no exception leaves a program. -/
theorem return_exits_innermost_call (limit : Option Nat) (s : Scope) (m : Machine) :
    (∀ fuel e, eval limit fuel e s m = ending (Lox.eval limit fuel e s m)) ∧
      (∀ fuel stmt, exec limit fuel stmt s m = unwound (Lox.exec limit fuel stmt s m)) ∧
      (∀ fuel program,
        runProgram limit fuel program s m = ending (Lox.runProgram limit fuel program s m)) ∧
      ∀ program, (∃ fuel, Lox.runProgram limit fuel program s m ≠ .exhausted) ↔
        ∃ fuel, runProgram limit fuel program s m ≠ .exhausted := by
  refine ⟨fun fuel e => ?_, fun fuel stmt => ?_, fun fuel program => ?_, fun program => ?_⟩
  · exact congrFun ((walk_eq limit fuel).1 e s) m
  · exact congrFun ((walk_eq limit fuel).2 stmt s) m
  · exact runProgram_eq limit fuel program s m
  · simp only [runProgram_eq, ne_eq, ending_eq_exhausted_iff]

end Unwind

end Lox
