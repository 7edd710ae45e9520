import Lox.Proofs.Eval.Unwind
import Lox.Proofs.Node

/-!
# The course of a run

A run is one computation from its beginning to its end, and its outcome says nothing of what was
going on in between. Here a run is looked at from the inside. A `Lox.Point` is a piece of work
that has just begun, with the machine it begins on. From a point a run comes to others: to a part
of the piece of work (`Lox.Leads`), or to the body of a function that is called
(`Lox.Enters`). Everything a run comes to is *visited*, and `Lox.Visits` counts the function
bodies on the way. Since only work that is not finished stands on that way, these are the bodies
that are active.

No fuel occurs here. A run that never ends has its points just as well.

A failure has a place among the points (`Lox.blamed_runProgram`): some visited piece of work
*breaks*, which means that all it needs is there and its own operation fails, and the fault
carries the line of that piece of work and of nothing that it happened in.
-/

namespace Lox

/-! ### Points -/

/-- What a run is busy with. -/
inductive Task
  /-- An expression. -/
  | eval (e : Expr) (s : Scope)
  /-- Expressions from left to right. -/
  | evalAll (es : List Expr) (s : Scope)
  /-- A statement. -/
  | exec (stmt : Stmt) (s : Scope)
  /-- Statements in order. -/
  | body (stmts : List Stmt) (s : Scope)
  /-- The rounds of a loop that are left. -/
  | loop (cond : Expr) (body : Stmt) (s : Scope)

/-- **A point of a run**: a piece of work that begins, and the machine it begins on. -/
structure Point where
  /-- The piece of work. -/
  task : Task
  /-- The machine. -/
  machine : Machine

/-- The point at which a program begins. No call is active. -/
def Point.start (program : List Stmt) (s : Scope) (m : Machine) : Point :=
  ⟨.body program s, { m with depth := 0 }⟩

namespace Machine

/-- The machine with one statement more. -/
def counted (m : Machine) : Machine :=
  { m with stats := { m.stats with statements := m.stats.statements + 1 } }

/-- The machine with `k` more active calls. -/
def deeper (m : Machine) (k : Nat) : Machine := { m with depth := m.depth + k }

end Machine

section Points

variable (limit : Option Nat)

/-- An expression has a value, once it is given enough fuel. -/
def Evaluates (e : Expr) (s : Scope) (m : Machine) (v : Value) (m' : Machine) : Prop :=
  ∃ n, eval limit n e s m = .done v m'

/-- Several expressions have values. -/
def EvaluatesAll (es : List Expr) (s : Scope) (m : Machine) (vs : List Value) (m' : Machine) :
    Prop :=
  ∃ n, evalAll (fun e => eval limit n e s) es m = .done vs m'

/-- A statement ends. -/
def Executes (stmt : Stmt) (s : Scope) (m : Machine) (flow : Flow) (m' : Machine) : Prop :=
  ∃ n, exec limit n stmt s m = .done flow m'

/-- **A call is due**: the callee is a function, the arguments are evaluated, and there are as
many of them as the function takes. -/
def CallDue (f : Expr) (args : List Expr) (s : Scope) (m : Machine) (c : Closure)
    (vs : List Value) (m' : Machine) : Prop :=
  (∃ m₁, Evaluates limit f s m (.function c) m₁ ∧ EvaluatesAll limit args s m₁ vs m') ∧
    vs.length = c.function.arity

/-- **A piece of work comes to a part of itself**, in the same function body. What stands before
that part is finished. -/
inductive Leads : Point → Point → Prop
  | grouping {inner : Expr} {s : Scope} {m : Machine} :
      Leads ⟨.eval (.grouping inner) s, m⟩ ⟨.eval inner s, m⟩
  | operand {op : UnaryOp} {e : Expr} {line : Nat} {s : Scope} {m : Machine} :
      Leads ⟨.eval (.unary op e line) s, m⟩ ⟨.eval e s, m⟩
  | left {op : BinaryOp} {l r : Expr} {line : Nat} {s : Scope} {m : Machine} :
      Leads ⟨.eval (.binary op l r line) s, m⟩ ⟨.eval l s, m⟩
  | right {op : BinaryOp} {l r : Expr} {line : Nat} {s : Scope} {m m' : Machine} {v : Value} :
      Evaluates limit l s m v m' → Leads ⟨.eval (.binary op l r line) s, m⟩ ⟨.eval r s, m'⟩
  | first {op : LogicalOp} {l r : Expr} {s : Scope} {m : Machine} :
      Leads ⟨.eval (.logical op l r) s, m⟩ ⟨.eval l s, m⟩
  | second {op : LogicalOp} {l r : Expr} {s : Scope} {m m' : Machine} {v : Value} :
      Evaluates limit l s m v m' → v.settles op = false →
      Leads ⟨.eval (.logical op l r) s, m⟩ ⟨.eval r s, m'⟩
  | assigned {name : String} {e : Expr} {line : Nat} {s : Scope} {m : Machine} :
      Leads ⟨.eval (.assign name e line) s, m⟩ ⟨.eval e s, m⟩
  | callee {f : Expr} {args : List Expr} {line : Nat} {s : Scope} {m : Machine} :
      Leads ⟨.eval (.call f args line) s, m⟩ ⟨.eval f s, m⟩
  | arguments {f : Expr} {args : List Expr} {line : Nat} {s : Scope} {m m' : Machine}
      {c : Closure} :
      Evaluates limit f s m (.function c) m' →
      Leads ⟨.eval (.call f args line) s, m⟩ ⟨.evalAll args s, m'⟩
  | argument {e : Expr} {es : List Expr} {s : Scope} {m : Machine} :
      Leads ⟨.evalAll (e :: es) s, m⟩ ⟨.eval e s, m⟩
  | otherArguments {e : Expr} {es : List Expr} {s : Scope} {m m' : Machine} {v : Value} :
      Evaluates limit e s m v m' → Leads ⟨.evalAll (e :: es) s, m⟩ ⟨.evalAll es s, m'⟩
  | initial {name : String} {e : Expr} {s : Scope} {m : Machine} :
      Leads ⟨.exec (.var name (some e)) s, m⟩ ⟨.eval e s, m.counted⟩
  | block {body : List Stmt} {s inner : Scope} {m m' : Machine} :
      Exec.enterBlock s (m.counted.note (.entered body.length)) = .done inner m' →
      Leads ⟨.exec (.block body) s, m⟩ ⟨.body body inner, m'⟩
  | condition {cond : Expr} {yes : Stmt} {no : Option Stmt} {s : Scope} {m : Machine} :
      Leads ⟨.exec (.branch cond yes no) s, m⟩ ⟨.eval cond s, m.counted⟩
  | yes {cond : Expr} {yes : Stmt} {no : Option Stmt} {s : Scope} {m m' : Machine} {v : Value} :
      Evaluates limit cond s m.counted v m' → v.isTruthy = true →
      Leads ⟨.exec (.branch cond yes no) s, m⟩ ⟨.exec yes s, m'⟩
  | no {cond : Expr} {yes no : Stmt} {s : Scope} {m m' : Machine} {v : Value} :
      Evaluates limit cond s m.counted v m' → v.isTruthy = false →
      Leads ⟨.exec (.branch cond yes (some no)) s, m⟩ ⟨.exec no s, m'⟩
  | loop {cond : Expr} {body : Stmt} {s : Scope} {m : Machine} :
      Leads ⟨.exec (.loop cond body) s, m⟩ ⟨.loop cond body s, m.counted⟩
  | roundCondition {cond : Expr} {body : Stmt} {s : Scope} {m : Machine} :
      Leads ⟨.loop cond body s, m⟩ ⟨.eval cond s, m⟩
  | round {cond : Expr} {body : Stmt} {s : Scope} {m m' : Machine} {v : Value} :
      Evaluates limit cond s m v m' → v.isTruthy = true →
      Leads ⟨.loop cond body s, m⟩ ⟨.exec body s, m'⟩
  | otherRounds {cond : Expr} {body : Stmt} {s : Scope} {m m₁ m' : Machine} {v w : Value} :
      Evaluates limit cond s m v m₁ → v.isTruthy = true →
      Executes limit body s m₁ (.normal w) m' →
      Leads ⟨.loop cond body s, m⟩ ⟨.loop cond body s, m'⟩
  | printed {e : Expr} {s : Scope} {m : Machine} :
      Leads ⟨.exec (.print e) s, m⟩ ⟨.eval e s, m.counted⟩
  | returned {e : Expr} {line : Nat} {s : Scope} {m : Machine} : m.depth ≠ 0 →
      Leads ⟨.exec (.ret (some e) line) s, m⟩ ⟨.eval e s, m.counted⟩
  | expression {e : Expr} {s : Scope} {m : Machine} :
      Leads ⟨.exec (.expression e) s, m⟩ ⟨.eval e s, m.counted⟩
  | statement {stmt : Stmt} {stmts : List Stmt} {s : Scope} {m : Machine} :
      Leads ⟨.body (stmt :: stmts) s, m⟩ ⟨.exec stmt s, m⟩
  | otherStatements {stmt : Stmt} {stmts : List Stmt} {s : Scope} {m m' : Machine} {v : Value} :
      Executes limit stmt s m (.normal v) m' →
      Leads ⟨.body (stmt :: stmts) s, m⟩ ⟨.body stmts s, m'⟩

/-- **A call comes to the body of its function**, if the limit leaves room for it. -/
inductive Enters : Point → Point → Prop
  | body {f : Expr} {args : List Expr} {line : Nat} {s inner : Scope} {m m₁ m' : Machine}
      {c : Closure} {vs : List Value} :
      CallDue limit f args s m c vs m₁ → (∀ k, limit = some k → m₁.depth < k) →
      enterCall c vs m₁ = .done inner m' →
      Enters ⟨.eval (.call f args line) s, m⟩ ⟨.body c.function.body inner, m'.deeper 1⟩

/-- **What a run visits**, and how many function bodies are active there that were not active
when it began. -/
inductive Visits : Point → Nat → Point → Prop
  | refl (a : Point) : Visits a 0 a
  | leads {a b c : Point} {k : Nat} : Leads limit a b → Visits b k c → Visits a k c
  | enters {a b c : Point} {k : Nat} : Enters limit a b → Visits b k c → Visits a (k + 1) c

/-- **A piece of work breaks**: its parts are finished, and its own operation fails. -/
inductive Breaks : Point → Node → RuntimeFault → Machine → Prop
  | unary {op : UnaryOp} {e : Expr} {line : Nat} {s : Scope} {m m' : Machine} {v : Value}
      {fault : RuntimeFault} :
      Evaluates limit e s m v m' → v.unary op = .error fault →
      Breaks ⟨.eval (.unary op e line) s, m⟩ (.unary op e line) fault m'
  | binary {op : BinaryOp} {l r : Expr} {line : Nat} {s : Scope} {m m₁ m' : Machine}
      {v w : Value} {fault : RuntimeFault} :
      Evaluates limit l s m v m₁ → Evaluates limit r s m₁ w m' →
      Value.binary op v w = .error fault →
      Breaks ⟨.eval (.binary op l r line) s, m⟩ (.binary op l r line) fault m'
  | assign {name : String} {e : Expr} {line : Nat} {s : Scope} {m m' : Machine} {v : Value} :
      Evaluates limit e s m v m' → m'.heap.owner? s name = none →
      Breaks ⟨.eval (.assign name e line) s, m⟩ (.assign name e line) (.undefinedVariable name) m'
  /-- The callee is no function. The arguments are not looked at. -/
  | notCallable {f : Expr} {args : List Expr} {line : Nat} {s : Scope} {m m' : Machine}
      {v : Value} :
      Evaluates limit f s m v m' → (∀ c, v ≠ .function c) →
      Breaks ⟨.eval (.call f args line) s, m⟩ (.call f args line) (.notCallable v) m'
  | arity {f : Expr} {args : List Expr} {line : Nat} {s : Scope} {m m₁ m' : Machine}
      {c : Closure} {vs : List Value} :
      Evaluates limit f s m (.function c) m₁ → EvaluatesAll limit args s m₁ vs m' →
      vs.length ≠ c.function.arity →
      Breaks ⟨.eval (.call f args line) s, m⟩ (.call f args line)
        (.arityMismatch c.function vs.length) m'
  /-- The call is due, and as many calls are active as the limit allows. -/
  | overflow {f : Expr} {args : List Expr} {line k : Nat} {s : Scope} {m m' : Machine}
      {c : Closure} {vs : List Value} :
      CallDue limit f args s m c vs m' → limit = some k → k ≤ m'.depth →
      Breaks ⟨.eval (.call f args line) s, m⟩ (.call f args line) (.stackOverflow k) m'
  /-- No call is active. The value is not looked at. -/
  | ret {value : Option Expr} {line : Nat} {s : Scope} {m : Machine} : m.depth = 0 →
      Breaks ⟨.exec (.ret value line) s, m⟩ (.ret value line) .topLevelReturn m.counted

/-- **A failure is to blame on a node**: the run has visited a piece of work that broke, and it
has done nothing since but leave the bodies it was in. -/
def Blamed (a : Point) (fault : Located RuntimeFault) (m' : Machine) : Prop :=
  ∃ k b node, Visits limit a k b ∧ Breaks limit b node fault.cause (m'.deeper k) ∧
    fault.line = some node.line

end Points

variable {limit : Option Nat}

/-! ### Active calls -/

section Depth

variable {s : Scope} {m m' : Machine}

theorem Evaluates.reaches {e : Expr} {v : Value} (h : Evaluates limit e s m v m') :
    Reaches m m' := by
  obtain ⟨n, h⟩ := h
  have hleaves := @proceeds_eval limit n e s m
  rwa [h] at hleaves

theorem EvaluatesAll.reaches {es : List Expr} {vs : List Value}
    (h : EvaluatesAll limit es s m vs m') : Reaches m m' := by
  obtain ⟨n, h⟩ := h
  have hleaves := Exec.closed_proceeds.evalAll (fun e => @proceeds_eval limit n e s) es m
  rwa [h] at hleaves

theorem Executes.reaches {stmt : Stmt} {flow : Flow} (h : Executes limit stmt s m flow m') :
    Reaches m m' := by
  obtain ⟨n, h⟩ := h
  have hleaves := @proceeds_exec limit n stmt s m
  rwa [h] at hleaves

theorem CallDue.reaches {f : Expr} {args : List Expr} {c : Closure} {vs : List Value}
    (h : CallDue limit f args s m c vs m') : Reaches m m' := by
  obtain ⟨⟨m₁, hf, hargs⟩, -⟩ := h
  exact hf.reaches.trans hargs.reaches

end Depth

/-- Inside one body the active calls are as many as before. -/
theorem Leads.depth_eq {a b : Point} (h : Leads limit a b) :
    b.machine.depth = a.machine.depth := by
  cases h with
  | right h => exact h.reaches.depth_eq
  | second h => exact h.reaches.depth_eq
  | arguments h => exact h.reaches.depth_eq
  | otherArguments h => exact h.reaches.depth_eq
  | block h =>
    cases h
    rfl
  | yes h => exact h.reaches.depth_eq
  | no h => exact h.reaches.depth_eq
  | round h => exact h.reaches.depth_eq
  | otherRounds h _ h' => exact h'.reaches.depth_eq.trans h.reaches.depth_eq
  | otherStatements h => exact h.reaches.depth_eq
  | _ => rfl

/-- In the body of a call one call more is active. -/
theorem Enters.depth_eq {a b : Point} (h : Enters limit a b) :
    b.machine.depth = a.machine.depth + 1 := by
  cases h with
  | @body _ _ _ _ _ _ m₁ m' c vs hdue _ henter =>
    have hleaves := Exec.closed_proceeds.enterCall c vs m₁
    rw [henter] at hleaves
    change m'.depth + 1 = _
    rw [hleaves.depth_eq, hdue.reaches.depth_eq]

/-- **The machine counts the active bodies.** -/
theorem Visits.depth_eq {a b : Point} {k : Nat} (h : Visits limit a k b) :
    b.machine.depth = a.machine.depth + k := by
  induction h with
  | refl => rfl
  | leads h _ ih => rw [ih, h.depth_eq]
  | enters h _ ih =>
    rw [ih, h.depth_eq]
    omega

theorem Visits.trans {a b c : Point} {k l : Nat} (h : Visits limit a k b)
    (h' : Visits limit b l c) : Visits limit a (k + l) c := by
  induction h with
  | refl =>
    rw [Nat.zero_add]
    exact h'
  | leads h _ ih => exact .leads h (ih h')
  | enters h _ ih =>
    rw [Nat.add_right_comm]
    exact .enters h (ih h')

/-! ### Where a failure comes from -/

namespace Exec

variable {α β : Type}

/-- A statement is counted before anything else is done. -/
theorem countStatement_bind (f : Unit → Exec α) (m : Machine) :
    (countStatement >>= f) m = f () m.counted := rfl

/-- What fails in a statement fails in its first part, or after it. -/
theorem failed_of_counted_bind {x : Exec α} {f : α → Exec β} {m m' : Machine}
    {fault : Located RuntimeFault}
    (h : (countStatement >>= fun _ => x >>= f) m = .failed fault m') :
    x m.counted = .failed fault m' ∨
      ∃ a m₁, x m.counted = .done a m₁ ∧ f a m₁ = .failed fault m' :=
  failed_of_bind ((countStatement_bind _ m).symm.trans h)

/-- The body of a call fails as it does by itself, and is left. -/
theorem nested_of_failed {x : Exec α} {m m' : Machine} {fault : Located RuntimeFault}
    (h : x (m.deeper 1) = .failed fault m') :
    nested x m = .failed fault { m' with depth := m'.depth - 1 } := by
  unfold nested
  rw [← Machine.deeper, h]

theorem failed_of_nested {x : Exec α} {m m' : Machine} {fault : Located RuntimeFault}
    (h : nested x m = .failed fault m') :
    ∃ m₁, x (m.deeper 1) = .failed fault m₁ ∧ m' = { m₁ with depth := m₁.depth - 1 } := by
  unfold nested at h
  rw [← Machine.deeper] at h
  cases hm : x (m.deeper 1) with
  | done a m₁ => simp [hm] at h
  | failed fault₁ m₁ =>
    rw [hm] at h
    cases h
    exact ⟨m₁, rfl, rfl⟩
  | exhausted => simp [hm] at h

end Exec

section Blame

variable {a b : Point} {fault : Located RuntimeFault} {m' : Machine}

theorem Breaks.blamed {node : Node} {cause : RuntimeFault} (h : Breaks limit a node cause m') :
    Blamed limit a (.atLine cause node.line) m' :=
  ⟨0, a, node, .refl a, h, rfl⟩

/-- A failure of a part is a failure of the whole, and stays where it was. -/
theorem Leads.blamed (h : Leads limit a b) (hb : Blamed limit b fault m') :
    Blamed limit a fault m' := by
  obtain ⟨k, c, node, hvisits, hbreaks, hline⟩ := hb
  exact ⟨k, c, node, .leads h hvisits, hbreaks, hline⟩

/-- **A failure of a body leaves the call it is in**, and nothing of the call shows in it. -/
theorem Enters.blamed (h : Enters limit a b) (hdepth : m'.depth ≠ 0)
    (hb : Blamed limit b fault m') :
    Blamed limit a fault { m' with depth := m'.depth - 1 } := by
  obtain ⟨k, c, node, hvisits, hbreaks, hline⟩ := hb
  refine ⟨k + 1, c, node, .enters h hvisits, ?_, hline⟩
  have hdeeper : ({ m' with depth := m'.depth - 1 } : Machine).deeper (k + 1) = m'.deeper k := by
    have hd : m'.depth - 1 + (k + 1) = m'.depth + k := by omega
    simp [Machine.deeper, hd]
  rw [hdeeper]
  exact hbreaks

end Blame

/-! ### The walk -/

section Walk

variable {fault : Located RuntimeFault} {m m' : Machine}

theorem breaks_of_ofExcept {α : Type} {line : Nat} {r : Except RuntimeFault α}
    (h : Exec.ofExcept line r m = .failed fault m') :
    ∃ cause, r = .error cause ∧ fault = .atLine cause line ∧ m' = m := by
  cases r with
  | error cause =>
    cases h
    exact ⟨cause, rfl, rfl, rfl⟩
  | ok a => cases h

theorem failed_callee {line : Nat} {v : Value} (h : callee line v m = .failed fault m') :
    (∀ c, v ≠ .function c) ∧ fault = .atLine (.notCallable v) line ∧ m' = m := by
  cases v with
  | function c => cases h
  | _ =>
    cases h
    exact ⟨by simp, rfl, rfl⟩

theorem done_callee {line : Nat} {v : Value} {c : Closure} (h : callee line v m = .done c m') :
    v = .function c ∧ m' = m := by
  cases v with
  | function c =>
    cases h
    exact ⟨rfl, rfl⟩
  | _ => cases h

theorem blamed_evalAll {n : Nat} {s : Scope}
    (hev : ∀ {e m m'}, eval limit n e s m = .failed fault m' →
      Blamed limit ⟨.eval e s, m⟩ fault m') {es : List Expr}
    (h : evalAll (fun e => eval limit n e s) es m = .failed fault m') :
    Blamed limit ⟨.evalAll es s, m⟩ fault m' := by
  induction es generalizing m with
  | nil => cases h
  | cons e es ih =>
    obtain h | ⟨v, m₁, hv, h⟩ := Exec.failed_of_bind h
    · exact Leads.argument.blamed (hev h)
    · obtain h | ⟨vs, m₂, hvs, h⟩ := Exec.failed_of_bind h
      · exact (Leads.otherArguments ⟨n, hv⟩).blamed (ih h)
      · cases h

theorem blamed_runBody {n : Nat} {s : Scope}
    (hrun : ∀ {stmt m m'}, exec limit n stmt s m = .failed fault m' →
      Blamed limit ⟨.exec stmt s, m⟩ fault m') {body : List Stmt}
    (h : runBody (fun stmt => exec limit n stmt s) body m = .failed fault m') :
    Blamed limit ⟨.body body s, m⟩ fault m' := by
  induction body generalizing m with
  | nil => cases h
  | cons stmt body ih =>
    obtain h | ⟨flow, m₁, hflow, h⟩ := Exec.failed_of_bind h
    · exact Leads.statement.blamed (hrun h)
    · cases flow with
      | normal v => exact (Leads.otherStatements ⟨n, hflow⟩).blamed (ih h)
      | returned v => cases h

theorem blamed_runLoop {n : Nat} {s : Scope} {cond : Expr} {body : Stmt}
    (hcond : ∀ {m m'}, eval limit n cond s m = .failed fault m' →
      Blamed limit ⟨.eval cond s, m⟩ fault m')
    (hbody : ∀ {m m'}, exec limit n body s m = .failed fault m' →
      Blamed limit ⟨.exec body s, m⟩ fault m') {rounds : Nat}
    (h : runLoop (eval limit n cond s) (exec limit n body s) rounds m = .failed fault m') :
    Blamed limit ⟨.loop cond body s, m⟩ fault m' := by
  induction rounds generalizing m with
  | zero => cases h
  | succ rounds ih =>
    obtain h | ⟨v, m₁, hv, h⟩ := Exec.failed_of_bind h
    · exact Leads.roundCondition.blamed (hcond h)
    · cases htrue : v.isTruthy with
      | false =>
        rw [htrue] at h
        cases h
      | true =>
        rw [htrue, if_pos rfl] at h
        obtain h | ⟨flow, m₂, hflow, h⟩ := Exec.failed_of_bind h
        · exact (Leads.round ⟨n, hv⟩ htrue).blamed (hbody h)
        · cases flow with
          | normal w => exact (Leads.otherRounds ⟨n, hv⟩ htrue ⟨n, hflow⟩).blamed (ih h)
          | returned w => cases h

theorem failed_checkDepth {line : Nat} (h : checkDepth limit line m = .failed fault m') :
    ∃ k, limit = some k ∧ k ≤ m.depth ∧ fault = .atLine (.stackOverflow k) line ∧ m' = m := by
  cases limit with
  | none => cases h
  | some k =>
    change (if k ≤ m.depth then _ else _) = _ at h
    split at h
    · next hk =>
      cases h
      exact ⟨k, rfl, hk, rfl, rfl⟩
    · cases h

theorem done_checkDepth {line : Nat} {u : Unit} (h : checkDepth limit line m = .done u m') :
    (∀ k, limit = some k → m.depth < k) ∧ m' = m := by
  cases limit with
  | none =>
    cases h
    exact ⟨by simp, rfl⟩
  | some k =>
    change (if k ≤ m.depth then _ else _) = _ at h
    split at h
    · cases h
    · next hk =>
      cases h
      refine ⟨?_, rfl⟩
      rintro k' ⟨⟩
      exact Nat.not_le.mp hk

/-- The scope of a call is always made. -/
theorem exists_enterCall (c : Closure) (vs : List Value) (m : Machine) :
    ∃ s m', enterCall c vs m = .done s m' := by
  have hdeclare (s : Scope) (bs : List (String × Value)) (m : Machine) :
      ∃ m', Exec.declareAll s bs m = .done () m' := by
    induction bs generalizing m with
    | nil => exact ⟨m, rfl⟩
    | cons b bs ih => exact ih _
  obtain ⟨m', hm'⟩ := hdeclare m.heap.frames.size (c.function.params.zip vs) _
  exact ⟨_, _, Exec.bind_of_done hm'⟩

/-- **The failures of a call**: too many or too few arguments, no room for one more call, or a
failure of the body, which the call only passes on. -/
theorem blamed_invoke {n : Nat} {f : Expr} {args : List Expr} {s : Scope} {line : Nat}
    {c : Closure} {vs : List Value} {m₀ m₁ : Machine}
    (hrun : ∀ {stmt s m m'}, exec limit n stmt s m = .failed fault m' →
      Blamed limit ⟨.exec stmt s, m⟩ fault m')
    (hf : Evaluates limit f s m₀ (.function c) m₁) (hargs : EvaluatesAll limit args s m₁ vs m)
    (h : invoke limit (fun stmt s => exec limit n stmt s) c vs line m = .failed fault m') :
    Blamed limit ⟨.eval (.call f args line) s, m₀⟩ fault m' := by
  unfold invoke at h
  split at h
  · next harity =>
    have hdue : CallDue limit f args s m₀ c vs m := ⟨⟨m₁, hf, hargs⟩, harity⟩
    obtain hfull | ⟨_, m₂, hcheck, hcall⟩ := Exec.failed_of_bind h
    · obtain ⟨k, hlimit, hk, rfl, rfl⟩ := failed_checkDepth hfull
      exact (Breaks.overflow hdue hlimit hk).blamed
    obtain ⟨hroom, rfl⟩ := done_checkDepth hcheck
    obtain ⟨inner, m₃, henter⟩ := exists_enterCall c vs m₂
    rw [Exec.bind_of_done henter] at hcall
    obtain hcall | ⟨flow, m₄, -, hcall⟩ := Exec.failed_of_bind hcall
    · -- the body has failed one call deeper, where at least this call was active
      obtain ⟨m₅, hbody, rfl⟩ := Exec.failed_of_nested hcall
      have hdepth : m₅.depth ≠ 0 := by
        have hleaves := Exec.closed_proceeds.runBody (fun stmt => @proceeds_exec limit n stmt inner)
          c.function.body (m₃.deeper 1)
        rw [hbody] at hleaves
        rw [hleaves.depth_eq]
        exact Nat.succ_ne_zero _
      exact (Enters.body hdue hroom henter).blamed hdepth (blamed_runBody hrun hbody)
    · cases flow <;> cases hcall
  · next harity =>
    cases h
    exact (Breaks.arity hf hargs harity).blamed

/-- **Every failure is to blame on a node**, whose own operation failed. -/
theorem blamed_walk (n : Nat) :
    (∀ {e s m m' fault}, eval limit n e s m = .failed fault m' →
        Blamed limit ⟨.eval e s, m⟩ fault m') ∧
      ∀ {stmt s m m' fault}, exec limit n stmt s m = .failed fault m' →
        Blamed limit ⟨.exec stmt s, m⟩ fault m' := by
  -- on the fuel; a computation is taken apart from its front, and the first part to fail is blamed
  induction n with
  | zero =>
    constructor
    · rintro e s m m' fault ⟨⟩
    · rintro stmt s m m' fault ⟨⟩
  | succ n ih =>
    obtain ⟨ihe, ihs⟩ := ih
    constructor
    · intro e s m m' fault h
      cases e with
      | literal value => cases h
      | identifier name line => cases h
      | grouping inner => exact Leads.grouping.blamed (ihe h)
      | unary op operand line =>
        obtain h | ⟨v, m₁, hv, h⟩ := Exec.failed_of_bind h
        · exact Leads.operand.blamed (ihe h)
        · obtain ⟨cause, hcause, rfl, rfl⟩ := breaks_of_ofExcept h
          exact (Breaks.unary ⟨n, hv⟩ hcause).blamed
      | binary op left right line =>
        obtain h | ⟨v, m₁, hv, h⟩ := Exec.failed_of_bind h
        · exact Leads.left.blamed (ihe h)
        obtain h | ⟨w, m₂, hw, h⟩ := Exec.failed_of_bind h
        · exact (Leads.right ⟨n, hv⟩).blamed (ihe h)
        · obtain ⟨cause, hcause, rfl, rfl⟩ := breaks_of_ofExcept h
          exact (Breaks.binary ⟨n, hv⟩ ⟨n, hw⟩ hcause).blamed
      | logical op left right =>
        obtain h | ⟨v, m₁, hv, h⟩ := Exec.failed_of_bind h
        · exact Leads.first.blamed (ihe h)
        · cases hsettles : v.settles op with
          | true =>
            rw [hsettles] at h
            cases h
          | false =>
            rw [hsettles] at h
            exact (Leads.second ⟨n, hv⟩ hsettles).blamed (ihe h)
      | assign name value line =>
        obtain h | ⟨v, m₁, hv, h⟩ := Exec.failed_of_bind h
        · exact Leads.assigned.blamed (ihe h)
        obtain h | ⟨_, m₂, _, h⟩ := Exec.failed_of_bind h
        · unfold Exec.assign at h
          split at h
          · cases h
          · next howner =>
            cases h
            exact (Breaks.assign ⟨n, hv⟩ howner).blamed
        · cases h
      | call f args line =>
        rw [eval_call] at h
        obtain h | ⟨v, m₁, hv, h⟩ := Exec.failed_of_bind h
        · exact Leads.callee.blamed (ihe h)
        obtain hno | ⟨c, m₂, hc, hcall⟩ := Exec.failed_of_bind h
        · obtain ⟨hne, rfl, rfl⟩ := failed_callee hno
          exact (Breaks.notCallable ⟨n, hv⟩ hne).blamed
        obtain ⟨rfl, rfl⟩ := done_callee hc
        obtain hargs | ⟨vs, m₃, hvs, hcall⟩ := Exec.failed_of_bind hcall
        · exact (Leads.arguments ⟨n, hv⟩).blamed (blamed_evalAll ihe hargs)
        · exact blamed_invoke ihs ⟨n, hv⟩ ⟨n, hvs⟩ hcall
    · intro stmt s m m' fault h
      cases stmt with
      | var name initial =>
        cases initial with
        | none => cases h
        | some e =>
          obtain h | ⟨v, m₁, hv, h⟩ := Exec.failed_of_counted_bind h
          · exact Leads.initial.blamed (ihe h)
          · cases h
      | function name params body => cases h
      | block body => exact (Leads.block rfl).blamed (blamed_runBody ihs h)
      | branch cond yes no =>
        obtain h | ⟨v, m₁, hv, h⟩ := Exec.failed_of_counted_bind h
        · exact Leads.condition.blamed (ihe h)
        · cases htrue : v.isTruthy with
          | true =>
            rw [htrue, if_pos rfl] at h
            exact (Leads.yes ⟨n, hv⟩ htrue).blamed (ihs h)
          | false =>
            rw [htrue] at h
            cases no with
            | none => cases h
            | some no => exact (Leads.no ⟨n, hv⟩ htrue).blamed (ihs h)
      | loop cond body => exact Leads.loop.blamed (blamed_runLoop ihe ihs h)
      | print e =>
        obtain h | ⟨v, m₁, hv, h⟩ := Exec.failed_of_counted_bind h
        · exact Leads.printed.blamed (ihe h)
        · cases h
      | ret value line =>
        change (if m.depth = 0 then _ else _ : Exec Flow) m.counted = _ at h
        split at h
        · next hdepth =>
          cases h
          exact (Breaks.ret hdepth).blamed
        · next hdepth =>
          cases value with
          | none => cases h
          | some e =>
            obtain h | ⟨v, m₁, hv, h⟩ := Exec.failed_of_bind h
            · exact (Leads.returned hdepth).blamed (ihe h)
            · cases h
      | expression e =>
        obtain h | ⟨v, m₁, hv, h⟩ := Exec.failed_of_counted_bind h
        · exact Leads.expression.blamed (ihe h)
        · cases h

theorem blamed_runStatements {n : Nat} {s : Scope} {last : Option Value} {program : List Stmt}
    (hm : m.depth = 0) (h : runStatements limit n s last program m = .failed fault m') :
    Blamed limit ⟨.body program s, m⟩ fault m' := by
  induction program generalizing last m with
  | nil => cases h
  | cons stmt rest ih =>
    obtain h | ⟨flow, m₁, hflow, h⟩ := Exec.failed_of_bind h
    · exact Leads.statement.blamed ((blamed_walk n).2 h)
    · cases flow with
      | normal v =>
        have hexecutes : Executes limit stmt s m (.normal v) m₁ := ⟨n, hflow⟩
        exact (Leads.otherStatements hexecutes).blamed (ih (hexecutes.reaches.depth_eq.trans hm) h)
      -- the one fault without a line is never raised
      | returned v => exact absurd hm (Unwind.returnsInCall_exec n stmt s m m₁ v hflow)

/-- **Every failure of a program is to blame on a node**, and the fault has its line. -/
theorem blamed_runProgram {n : Nat} {program : List Stmt} {s : Scope}
    (h : runProgram limit n program s m = .failed fault m') :
    Blamed limit (.start program s m) fault m' :=
  blamed_runStatements rfl h

end Walk

end Lox
