import Lox.Proofs.Eval.Names
import Lox.Proofs.Eval.Invariant

/-!
# What the statistics count

The counters go up at one place of the evaluator, and what they count happens at another. That they
stay in step is an invariant of watched runs (`Lox.Watch.counting`): the record says how many
statements have been begun and how many bodies entered, and the heap how many scopes there are.
-/

namespace Lox

namespace Watch

namespace Deed

/-- The execution of a statement is begun. -/
def isStatement : Deed → Bool
  | begun _ _ _ => true
  | _ => false

/-- The execution of a block is begun. -/
def isBlock : Deed → Bool
  | begun (.block _) _ _ => true
  | _ => false

/-- A function body is entered. -/
def isCall : Deed → Bool
  | entered _ _ => true
  | _ => false

end Deed

/-- **The statistics count what happened** between two machines, as it was written down. -/
structure Counts (m : Machine) (ds : List Deed) (m' : Machine) : Prop where
  statements : m'.stats.statements = m.stats.statements + ds.countP Deed.isStatement
  calls : m'.stats.calls = m.stats.calls + ds.countP Deed.isCall
  /-- As many scopes have been counted as frames have been made. -/
  scopes : m'.stats.scopes + m.heap.frames.size = m.stats.scopes + m'.heap.frames.size
  /-- The scopes that no call was made for are those of the blocks. -/
  blocks : m'.stats.scopes + m.stats.calls =
    m.stats.scopes + m'.stats.calls + ds.countP Deed.isBlock

namespace Counts

variable {m m₁ m₂ : Machine} {ds : List Deed}

theorem refl (m : Machine) : Counts m [] m := ⟨rfl, rfl, rfl, rfl⟩

theorem trans {ds' : List Deed} (h : Counts m ds m₁) (h' : Counts m₁ ds' m₂) :
    Counts m (ds ++ ds') m₂ := by
  obtain ⟨hstatements, hcalls, hscopes, hblocks⟩ := h
  obtain ⟨hstatements', hcalls', hscopes', hblocks'⟩ := h'
  refine ⟨?_, ?_, by omega, ?_⟩ <;> rw [List.countP_append] <;> omega

/-- Nothing is counted, and nothing happens. -/
theorem quiet (h : Counts m ds m₁) (hstats : m₂.stats = m₁.stats)
    (hframes : m₂.heap.frames.size = m₁.heap.frames.size) : Counts m ds m₂ := by
  have hstep : Counts m₁ [] m₂ := by
    constructor <;> simp [hstats, hframes]
  simpa using h.trans hstep

theorem begun {stmt : Stmt} (hstmt : Plain stmt) (m : Machine) (s : Scope) :
    Counts m [.begun stmt s m] m.counted := by
  have hblock : [Deed.begun stmt s m].countP Deed.isBlock = 0 := by
    cases stmt with
    | block body => exact hstmt.elim
    | _ => rfl
  refine ⟨rfl, rfl, rfl, ?_⟩
  rw [hblock]
  rfl

/-- A block is a statement, and has a scope of its own. -/
theorem block (m : Machine) (body : List Stmt) (s : Scope) :
    Counts m [.begun (.block body) s m] ((m.counted.note (.entered body.length)).opened s) := by
  refine ⟨rfl, rfl, ?_, Nat.add_right_comm ..⟩
  rw [Machine.size_opened]
  exact Nat.add_right_comm ..

/-- So has a call. -/
theorem call (m : Machine) (f : Closure) (s : Scope) : Counts m [.entered f s] (m.called f) := by
  refine ⟨rfl, rfl, ?_, ?_⟩
  · rw [Machine.called, Machine.size_opened]
    exact Nat.add_right_comm ..
  · exact Nat.add_right_comm ..

end Counts

/-- The statistics as an invariant. Function values play no part in it. -/
def counting (m : Machine) : Invariant where
  holds := Counts m
  closure _ _ := True
  closure_mono _ _ := trivial
  depth h _ := h.quiet rfl rfl
  print h _ := h.quiet rfl rfl
  lookup _ _ _ _ _ := trivial
  declare h _ _ _ := h.quiet rfl (Heap.size_declare ..)
  begun h hstmt s := h.trans (.begun hstmt _ s)
  block h body s := h.trans (.block _ body s)
  function h _ _ := ⟨h.trans ⟨rfl, rfl, rfl, rfl⟩, trivial⟩
  call h _ := h.trans (.call ..)

/-- What was watched from a machine on, and the outcome, which is that of the evaluator: the
statistics it leaves count what was recorded. -/
def Told {α : Type} (m : Machine) (result : Outcome α × List Deed) (o : Outcome α) : Prop :=
  result.1 = o ∧ o.Leaves (Counts m result.2)

theorem told {α : Type} {x : Run α} {y : Exec α} {m : Machine} {P : List Deed → α → Prop}
    (hxy : x.outcome = y) (h : (counting m).Kept [] P x) : Told m (x m) (y m) := by
  subst hxy
  refine ⟨rfl, ?_⟩
  have hm := h [] m List.prefix_rfl (.refl m)
  unfold Run.outcome
  generalize x m = result at hm ⊢
  obtain ⟨o, ds⟩ := result
  cases o with
  | done a m' => exact hm.1
  | failed fault m' => exact hm
  | exhausted => trivial

/-- **A statement is recorded when it is begun**, before anything is done for it. -/
theorem begun_first (limit : Option Nat) (n : Nat) (stmt : Stmt) (s : Scope) (m : Machine) :
    ∃ ds, (exec limit (n + 1) stmt s m).2 = .begun stmt s m :: ds := by
  cases stmt with
  | var name initial => cases initial <;> exact ⟨_, rfl⟩
  | _ => exact ⟨_, rfl⟩

/-! ### Calls that are refused -/

section Refused

variable {limit : Option Nat} {n line : Nat} {f : Expr} {args : List Expr} {s : Scope}
  {m m₁ m₂ : Machine} {ds ds' : List Deed}

theorem bind_of_done {α β : Type} {x : Run α} {g : α → Run β} {a : α}
    (h : x m = (.done a m₁, ds)) : (x >>= g) m = ((g a m₁).1, ds ++ (g a m₁).2) := by
  change Run.bind x g m = _
  rw [Run.bind, h]

/-- What is no function is not called, and the arguments are not looked at. -/
theorem eval_call_of_not_function {v : Value} (hf : eval limit n f s m = (.done v m₁, ds))
    (hv : ∀ c, v ≠ .function c) :
    eval limit (n + 1) (.call f args line) s m =
      (.failed (.atLine (.notCallable v) line) m₁, ds) := by
  have hcallee : callee line v = Exec.raise (.notCallable v) line := by
    cases v with
    | function c => exact absurd rfl (hv c)
    | _ => rfl
  rw [eval, bind_of_done hf, hcallee]
  exact congrArg _ (List.append_nil ds)

/-- Of a call with a function and arguments, what is left is to invoke it. -/
theorem eval_call_of_function {c : Closure} {vs : List Value}
    (hf : eval limit n f s m = (.done (.function c) m₁, ds))
    (hargs : evalAll (fun arg => eval limit n arg s) args m₁ = (.done vs m₂, ds')) :
    eval limit (n + 1) (.call f args line) s m =
      ((invoke limit (fun stmt scope => exec limit n stmt scope) c vs line m₂).1,
        ds ++ (ds' ++
          (invoke limit (fun stmt scope => exec limit n stmt scope) c vs line m₂).2)) := by
  have hcallee : quietly (callee line (.function c)) m₁ = (.done c m₁, []) := rfl
  rw [eval, bind_of_done hf, bind_of_done hcallee, bind_of_done hargs]
  rfl

theorem invoke_of_arity_ne {run : Stmt → Scope → Run Flow} {c : Closure} {vs : List Value}
    (h : vs.length ≠ c.function.arity) : invoke limit run c vs line m =
      (.failed (.atLine (.arityMismatch c.function vs.length) line) m, []) := by
  rw [invoke, if_neg h]
  rfl

theorem invoke_of_limit_le {run : Stmt → Scope → Run Flow} {c : Closure} {vs : List Value} {k : Nat}
    (h : vs.length = c.function.arity) (hk : k ≤ m.depth) :
    invoke (some k) run c vs line m = (.failed (.atLine (.stackOverflow k) line) m, []) := by
  have hcheck : checkDepth (some k) line m = .failed (.atLine (.stackOverflow k) line) m :=
    if_pos hk
  rw [invoke, if_pos h]
  change Run.bind _ _ m = _
  rw [Run.bind, quietly, hcheck]

/-- **A call that is refused leaves the machine and the record as they are** when the callee and the
arguments have been evaluated: no frame is made, and neither a call nor a scope is counted. -/
structure Refuses (limit : Option Nat) (n : Nat) (f : Expr) (args : List Expr) (line : Nat)
    (s : Scope) (m : Machine) : Prop where
  notCallable : ∀ {v m₁ ds}, eval limit n f s m = (.done v m₁, ds) → (∀ c, v ≠ .function c) →
    eval limit (n + 1) (.call f args line) s m = (.failed (.atLine (.notCallable v) line) m₁, ds)
  arityMismatch : ∀ {c m₁ ds vs m₂ ds'}, eval limit n f s m = (.done (.function c) m₁, ds) →
    evalAll (fun arg => eval limit n arg s) args m₁ = (.done vs m₂, ds') →
    vs.length ≠ c.function.arity → eval limit (n + 1) (.call f args line) s m =
      (.failed (.atLine (.arityMismatch c.function vs.length) line) m₂, ds ++ ds')
  stackOverflow : ∀ {c m₁ ds vs m₂ ds' k}, eval limit n f s m = (.done (.function c) m₁, ds) →
    evalAll (fun arg => eval limit n arg s) args m₁ = (.done vs m₂, ds') →
    vs.length = c.function.arity → limit = some k → k ≤ m₂.depth →
    eval limit (n + 1) (.call f args line) s m =
      (.failed (.atLine (.stackOverflow k) line) m₂, ds ++ ds')

theorem refuses (limit : Option Nat) (n : Nat) (f : Expr) (args : List Expr) (line : Nat)
    (s : Scope) (m : Machine) : Refuses limit n f args line s m where
  notCallable := eval_call_of_not_function
  arityMismatch hf hargs hne := by
    rw [eval_call_of_function hf hargs, invoke_of_arity_ne hne, List.append_nil]
  stackOverflow hf hargs heq hlimit hk := by
    subst hlimit
    rw [eval_call_of_function hf hargs, invoke_of_limit_le heq hk, List.append_nil]

end Refused

end Watch

/-- **The statistics count exactly what happens**, in a program or an expression that ends, with a
result or with a failure. A run that is watched is the run itself; each statement is in the record
from its very beginning, whatever comes of it; the counters go up by the numbers of entries and of
frames; and a call that is refused leaves nothing behind. -/
theorem stats_count_what_happens (limit : Option Nat) (s : Scope) (m : Machine) :
    (∀ fuel program,
      Watch.Told m (Watch.runProgram limit fuel program s m) (runProgram limit fuel program s m)) ∧
      (∀ fuel e, Watch.Told m (Watch.eval limit fuel e s m) (eval limit fuel e s m)) ∧
      (∀ n stmt, ∃ ds, (Watch.exec limit (n + 1) stmt s m).2 = .begun stmt s m :: ds) ∧
      ∀ n f args line, Watch.Refuses limit n f args line s m := by
  refine ⟨fun fuel program => ?_, fun fuel e => ?_, fun n stmt => ?_, fun n f args line => ?_⟩
  · exact Watch.told (Watch.outcome_runProgram limit fuel program s)
      (Watch.Invariant.kept_runProgram limit fuel program s)
  · exact Watch.told ((Watch.outcome_walk limit fuel).1 e s)
      ((Watch.Invariant.kept_walk limit fuel).1 [] e s)
  · exact Watch.begun_first limit n stmt s m
  · exact Watch.refuses limit n f args line s m

/-- `fun f(a) { { return a; } } f(nil); f();` -/
def refusedProgram : List Stmt :=
  [.function "f" ["a"] [.block [.ret (some (.identifier "a" 1)) 1]],
    .expression (.call (.identifier "f" 2) [.literal .nil] 2),
    .expression (.call (.identifier "f" 3) [] 3)]

/-- A call that returns from inside a block, and one with too few arguments: five statements were
begun, the last of which fails, one body was entered, and there is a scope for it and for the
block. -/
theorem stats_of_refusedProgram :
    ∃ fault m,
      runProgram (some maxDepth) 9 refusedProgram 0 Machine.new.newRoot.2 = .failed fault m ∧
      m.stats = ⟨5, 1, 2⟩ ∧ Watch.Counts Machine.new.newRoot.2
        (Watch.runProgram (some maxDepth) 9 refusedProgram 0 Machine.new.newRoot.2).2 m := by
  have hfacts : (runProgram (some maxDepth) 9 refusedProgram 0 Machine.new.newRoot.2).failure?.map
      (fun r => r.2.stats) = some ⟨5, 1, 2⟩ := by cbv
  obtain ⟨⟨fault, m⟩, hfailure, hstats⟩ := Option.map_eq_some_iff.mp hfacts
  have hrun := Outcome.eq_failed_of_failure? hfailure
  obtain ⟨htold, -⟩ := stats_count_what_happens (some maxDepth) 0 Machine.new.newRoot.2
  exact ⟨fault, m, hrun, hstats, (htold 9 refusedProgram).2.of_failed hrun⟩

end Lox
