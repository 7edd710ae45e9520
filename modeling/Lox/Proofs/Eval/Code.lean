import Lox.Proofs.Eval.Course
import Lox.Proofs.Operators

/-!
# Where the code of a run comes from

A run executes the nodes of its program, and those in the bodies of functions that it finds in the
machine. It writes no code of its own: what a function value that it makes has in its body stood
in the program or in one of those bodies already. So nodes of which all have a property that the
program's nodes have and those in the machine are all that a run ever visits
(`Lox.Visits.codeIn`), and what breaks is one of them (`Lox.Breaks.mem`).
-/

namespace Lox

section Definitions

variable (S : Node → Prop)

/-- The code of a function value. -/
def Closure.CodeIn (c : Closure) : Prop := NodesIn S (programNodes c.function.body)

/-- The code of a value, if it has any. -/
abbrev Value.CodeIn : Value → Prop := Value.Within (Closure.CodeIn S)

/-- The code of what a statement ends with. -/
abbrev Flow.CodeIn : Flow → Prop := Flow.Within (Closure.CodeIn S)

/-- **The code in a machine**, in the values of all its variables. -/
def Machine.CodeIn (m : Machine) : Prop := ∀ s, ∀ b ∈ m.heap.vars s, b.2.CodeIn S

/-- A computation that brings no other code into a machine, and whose result has a property. -/
def Exec.CodeIn {α : Type} (P : α → Prop) (x : Exec α) : Prop :=
  ∀ m, m.CodeIn S → match x m with
    | .done a m' => P a ∧ m'.CodeIn S
    | .failed _ m' => m'.CodeIn S
    | .exhausted => True

/-- The code that a piece of work is about. -/
def Task.CodeIn : Task → Prop
  | .eval e _ => NodesIn S e.nodes
  | .evalAll es _ => NodesIn S (es.flatMap Expr.nodes)
  | .exec stmt _ => NodesIn S stmt.nodes
  | .body stmts _ => NodesIn S (programNodes stmts)
  | .loop cond round _ => NodesIn S cond.nodes ∧ NodesIn S round.nodes

/-- The code at a point of a run: what is to be done, and what the machine has. -/
structure Point.CodeIn (a : Point) : Prop where
  task : a.task.CodeIn S
  machine : a.machine.CodeIn S

end Definitions

variable {S : Node → Prop}

/-! ### The parts of a piece of code -/

section Parts

theorem nodesIn_initial {e : Expr} (h : NodesIn S ((some e).toList.flatMap Expr.nodes)) :
    NodesIn S e.nodes := by
  simpa using h

theorem nodesIn_arguments {f : Expr} {args : List Expr} {line : Nat}
    (h : NodesIn S (Expr.call f args line).nodes) : NodesIn S (args.flatMap Expr.nodes) := by
  rw [← Expr.nodesAll_eq_flatMap]
  exact h.tail.right

theorem nodesIn_block {body : List Stmt} (h : NodesIn S (Stmt.block body).nodes) :
    NodesIn S (programNodes body) := by
  rw [← Stmt.nodesAll_eq]
  exact h

theorem nodesIn_function {name : String} {params : List String} {body : List Stmt}
    (h : NodesIn S (Stmt.function name params body).nodes) : NodesIn S (programNodes body) := by
  rw [← Stmt.nodesAll_eq]
  exact h

theorem nodesIn_cond {cond : Expr} {yes : Stmt} {no : Option Stmt}
    (h : NodesIn S (Stmt.branch cond yes no).nodes) : NodesIn S cond.nodes := by
  cases no with
  | none => exact h.left
  | some no => exact h.left

theorem nodesIn_yes {cond : Expr} {yes : Stmt} {no : Option Stmt}
    (h : NodesIn S (Stmt.branch cond yes no).nodes) : NodesIn S yes.nodes := by
  cases no with
  | none => exact h.right
  | some no => exact h.right.left

end Parts

/-! ### Machines -/

namespace Machine

variable {m : Machine}

theorem CodeIn.mono {T : Node → Prop} (h : m.CodeIn S) (hST : ∀ node, S node → T node) :
    m.CodeIn T := fun s b hb => (h s b hb).mono fun _ hc => NodesIn.mono hc hST

theorem CodeIn.of_heap {m' : Machine} (h : m.CodeIn S) (hheap : m'.heap = m.heap) :
    m'.CodeIn S := by
  unfold CodeIn
  rw [hheap]
  exact h

theorem codeIn_new : Machine.new.CodeIn S := by
  intro s b hb
  simp [Machine.new, Heap.empty, Heap.vars] at hb

theorem CodeIn.push (h : m.CodeIn S) (parent : Option Scope) :
    ({ m with heap := (m.heap.push parent).2 } : Machine).CodeIn S := by
  intro s b hb
  rw [Heap.vars_push] at hb
  exact h s b hb

theorem CodeIn.declare (h : m.CodeIn S) (s : Scope) (name : String) {v : Value}
    (hv : v.CodeIn S) : (m.declare s name v).CodeIn S := by
  intro t b hb
  rcases Heap.mem_or_eq_of_mem_declare hb with hb | ⟨-, hb⟩
  · exact h t b hb
  · rw [hb]
    exact hv

theorem CodeIn.lookup (h : m.CodeIn S) (s : Scope) (name : String) :
    (m.heap.lookup s name).CodeIn S := by
  rcases m.heap.lookup_eq_nil_or_mem s name with hnil | ⟨o, -, hmem⟩
  · rw [hnil]
    exact Value.within_nil
  · exact h o _ hmem

end Machine

/-! ### Computations -/

namespace Exec

variable {α β : Type} {P : α → Prop} {Q : β → Prop}

theorem codeIn_pure {a : α} (h : P a) : (pure a : Exec α).CodeIn S P := fun _ hm => ⟨h, hm⟩

theorem codeIn_exhausted : (exhausted : Exec α).CodeIn S P := fun _ _ => trivial

theorem codeIn_raise (fault : RuntimeFault) (line : Nat) : (raise fault line : Exec α).CodeIn S P :=
  fun _ hm => hm

theorem codeIn_read (f : Machine → α) : (read f).CodeIn S fun _ => True :=
  fun _ hm => ⟨trivial, hm⟩

theorem codeIn_note (e : Event) : (note e).CodeIn S fun _ => True :=
  fun _ hm => ⟨trivial, hm.of_heap rfl⟩

theorem codeIn_countStatement : countStatement.CodeIn S fun _ => True :=
  fun _ hm => ⟨trivial, hm.of_heap rfl⟩

theorem codeIn_makeClosure {function : Function} (h : NodesIn S (programNodes function.body))
    (scope : Scope) : (makeClosure function scope).CodeIn S (Closure.CodeIn S) :=
  fun _ hm => ⟨h, hm.of_heap rfl⟩

theorem codeIn_lookup (s : Scope) (name : String) :
    (lookup s name).CodeIn S (Value.CodeIn S) :=
  fun _ hm => ⟨hm.lookup s name, hm⟩

theorem codeIn_declare (s : Scope) (name : String) {v : Value} (hv : v.CodeIn S) :
    (declare s name v).CodeIn S fun _ => True :=
  fun _ hm => ⟨trivial, hm.declare s name hv⟩

theorem codeIn_enterBlock (parent : Scope) : (enterBlock parent).CodeIn S fun _ => True :=
  fun _ hm => ⟨trivial, (hm.push (some parent)).of_heap rfl⟩

theorem codeIn_assign (s : Scope) (name : String) {v : Value} (line : Nat) (hv : v.CodeIn S) :
    (assign s name v line).CodeIn S fun _ => True := by
  intro m hm
  unfold assign
  split
  · next h =>
    split at h <;> cases h
    exact ⟨trivial, hm.declare _ name hv⟩
  · next h =>
    split at h <;> cases h
    exact hm
  · trivial

theorem codeIn_ofExcept (line : Nat) {r : Except RuntimeFault α} (hr : ∀ a, r = .ok a → P a) :
    (ofExcept line r).CodeIn S P := by
  cases r with
  | error fault => exact codeIn_raise fault line
  | ok a => exact codeIn_pure (hr a rfl)

theorem CodeIn.bind {x : Exec α} {f : α → Exec β} (hx : x.CodeIn S P)
    (hf : ∀ a, P a → (f a).CodeIn S Q) : (x >>= f).CodeIn S Q := by
  intro m hm
  have h := hx m hm
  cases hxm : x m with
  | done a m' =>
    rw [hxm] at h
    rw [bind_of_done hxm]
    exact hf a h.1 m' h.2
  | failed fault m' =>
    rw [hxm] at h
    rw [bind_of_failed hxm]
    exact h
  | exhausted =>
    rw [bind_of_exhausted hxm]
    trivial

theorem CodeIn.nested {x : Exec α} (hx : x.CodeIn S P) : (nested x).CodeIn S P := by
  intro m hm
  have h := hx { m with depth := m.depth + 1 } (hm.of_heap rfl)
  unfold Exec.nested
  cases hxm : x { m with depth := m.depth + 1 } with
  | done a m' =>
    rw [hxm] at h
    exact ⟨h.1, h.2.of_heap rfl⟩
  | failed fault m' =>
    rw [hxm] at h
    exact Machine.CodeIn.of_heap h rfl
  | exhausted => trivial

theorem codeIn_declareAll (s : Scope) {bs : List (String × Value)}
    (hbs : ∀ b ∈ bs, b.2.CodeIn S) : (declareAll s bs).CodeIn S fun _ => True := by
  induction bs with
  | nil => exact codeIn_pure trivial
  | cons b bs ih =>
    obtain ⟨hb, hbs⟩ := List.forall_mem_cons.mp hbs
    exact (codeIn_declare s b.1 hb).bind fun _ _ => ih hbs

end Exec

/-! ### The walk -/

section Walk

variable {limit : Option Nat}

theorem codeIn_evalAll {ev : Expr → Exec Value}
    (hev : ∀ e, NodesIn S e.nodes → (ev e).CodeIn S (Value.CodeIn S)) {es : List Expr}
    (hes : NodesIn S (es.flatMap Expr.nodes)) :
    (evalAll ev es).CodeIn S fun vs => ∀ v ∈ vs, v.CodeIn S := by
  induction es with
  | nil => exact Exec.codeIn_pure (by simp)
  | cons e es ih =>
    exact (hev e hes.left).bind fun v hv => (ih hes.right).bind fun vs hvs =>
      Exec.codeIn_pure (List.forall_mem_cons.mpr ⟨hv, hvs⟩)

theorem codeIn_runBody {run : Stmt → Exec Flow}
    (hrun : ∀ stmt, NodesIn S stmt.nodes → (run stmt).CodeIn S (Flow.CodeIn S)) {body : List Stmt}
    (hbody : NodesIn S (programNodes body)) : (runBody run body).CodeIn S (Flow.CodeIn S) := by
  induction body with
  | nil => exact Exec.codeIn_pure Value.within_nil
  | cons stmt body ih =>
    refine (hrun stmt hbody.left).bind fun flow hflow => ?_
    cases flow with
    | normal v => exact ih hbody.right
    | returned v => exact Exec.codeIn_pure hflow

theorem codeIn_runLoop {cond : Exec Value} {body : Exec Flow}
    (hcond : cond.CodeIn S (Value.CodeIn S)) (hbody : body.CodeIn S (Flow.CodeIn S))
    (rounds : Nat) : (runLoop cond body rounds).CodeIn S (Flow.CodeIn S) := by
  induction rounds with
  | zero => exact Exec.codeIn_exhausted
  | succ rounds ih =>
    refine hcond.bind fun v _ => ?_
    split
    · refine hbody.bind fun flow hflow => ?_
      cases flow with
      | normal v => exact ih
      | returned v => exact Exec.codeIn_pure hflow
    · exact Exec.codeIn_pure Value.within_nil

theorem codeIn_callee (line : Nat) {v : Value} (hv : v.CodeIn S) :
    (callee line v).CodeIn S (Closure.CodeIn S) := by
  cases v with
  | function f => exact Exec.codeIn_pure (hv f rfl)
  | _ => exact Exec.codeIn_raise _ line

theorem codeIn_checkDepth (line : Nat) : (checkDepth limit line).CodeIn S fun _ => True := by
  intro m hm
  unfold checkDepth
  cases limit with
  | none => exact ⟨trivial, hm⟩
  | some k =>
    by_cases hk : k ≤ m.depth
    · simpa [hk] using hm
    · simpa [hk] using hm

theorem codeIn_enterCall (f : Closure) {args : List Value} (hargs : ∀ v ∈ args, v.CodeIn S) :
    (enterCall f args).CodeIn S fun _ => True := by
  refine (Exec.codeIn_read _).bind fun depth _ => (Exec.codeIn_note _).bind fun _ _ => ?_
  refine Exec.CodeIn.bind (P := fun _ => True) (fun m hm => ⟨trivial, hm.of_heap rfl⟩) fun _ _ => ?_
  refine (Exec.codeIn_enterBlock _).bind fun s _ => ?_
  have hbs : ∀ b ∈ f.function.params.zip args, b.2.CodeIn S :=
    fun b hb => hargs b.2 (List.of_mem_zip hb).2
  exact (Exec.codeIn_declareAll s hbs).bind fun _ _ => Exec.codeIn_pure trivial

theorem codeIn_invoke {run : Stmt → Scope → Exec Flow}
    (hrun : ∀ stmt s, NodesIn S stmt.nodes → (run stmt s).CodeIn S (Flow.CodeIn S)) {f : Closure}
    {args : List Value} (hf : NodesIn S (programNodes f.function.body))
    (hargs : ∀ v ∈ args, v.CodeIn S) (line : Nat) :
    (invoke limit run f args line).CodeIn S (Value.CodeIn S) := by
  unfold invoke
  split
  · refine (codeIn_checkDepth line).bind fun _ _ => (codeIn_enterCall f hargs).bind fun s _ => ?_
    refine (codeIn_runBody (fun stmt => hrun stmt s) hf).nested.bind fun flow hflow => ?_
    cases flow with
    | normal v => exact Exec.codeIn_pure Value.within_nil
    | returned v => exact Exec.codeIn_pure hflow
  · exact Exec.codeIn_raise _ line

/-- **A run brings no code into a machine** but that of its own nodes. -/
theorem codeIn_walk (n : Nat) :
    (∀ e s, NodesIn S e.nodes → (eval limit n e s).CodeIn S (Value.CodeIn S)) ∧
      ∀ stmt s, NodesIn S stmt.nodes → (exec limit n stmt s).CodeIn S (Flow.CodeIn S) := by
  induction n with
  | zero => exact ⟨fun e s _ => Exec.codeIn_exhausted, fun stmt s _ => Exec.codeIn_exhausted⟩
  | succ n ih =>
    obtain ⟨ihe, ihs⟩ := ih
    constructor
    · intro e s h
      cases e with
      | literal value => exact Exec.codeIn_pure (Value.within_ofLiteral value)
      | identifier name line => exact Exec.codeIn_lookup s name
      | grouping inner => exact ihe inner s h
      | unary op operand line =>
        exact (ihe operand s h.tail).bind fun v _ =>
          Exec.codeIn_ofExcept line fun _ => Value.within_of_unary
      | binary op left right line =>
        exact (ihe left s h.tail.left).bind fun l _ => (ihe right s h.tail.right).bind fun r _ =>
          Exec.codeIn_ofExcept line fun _ => Value.within_of_binary
      | logical op left right =>
        refine (ihe left s h.left).bind fun l hl => ?_
        split
        · exact Exec.codeIn_pure hl
        · exact ihe right s h.right
      | assign name value line =>
        exact (ihe value s h.tail).bind fun v hv =>
          (Exec.codeIn_assign s name line hv).bind fun _ _ => Exec.codeIn_pure Value.within_nil
      | call f args line =>
        rw [eval_call]
        exact (ihe f s h.tail.left).bind fun v hv => (codeIn_callee line hv).bind fun c hc =>
          (codeIn_evalAll (fun arg => ihe arg s) (nodesIn_arguments h)).bind fun vs hvs =>
            codeIn_invoke ihs hc hvs line
    · intro stmt s h
      refine Exec.codeIn_countStatement.bind fun _ _ => ?_
      cases stmt with
      | var name initial =>
        cases initial with
        | none =>
          exact (Exec.codeIn_declare s name Value.within_nil).bind fun _ _ =>
            Exec.codeIn_pure Value.within_nil
        | some e =>
          exact (ihe e s (nodesIn_initial h)).bind fun v hv =>
            (Exec.codeIn_declare s name hv).bind fun _ _ => Exec.codeIn_pure Value.within_nil
      | function name params body =>
        refine (Exec.codeIn_note _).bind fun _ _ =>
          (Exec.codeIn_makeClosure (nodesIn_function h) s).bind fun c hc => ?_
        exact (Exec.codeIn_declare s name (Value.within_function hc)).bind fun _ _ =>
          Exec.codeIn_pure Value.within_nil
      | block body =>
        exact (Exec.codeIn_note _).bind fun _ _ => (Exec.codeIn_enterBlock s).bind fun inner _ =>
          codeIn_runBody (fun stmt => ihs stmt inner) (nodesIn_block h)
      | branch cond yes no =>
        refine (ihe cond s (nodesIn_cond h)).bind fun v _ => ?_
        split
        · exact ihs yes s (nodesIn_yes h)
        · cases no with
          | none => exact Exec.codeIn_pure Value.within_nil
          | some no => exact ihs no s h.right.right
      | loop cond body => exact codeIn_runLoop (ihe cond s h.left) (ihs body s h.right) n
      | print e =>
        exact (ihe e s h).bind fun v _ => (Exec.codeIn_note _).bind fun _ _ =>
          Exec.codeIn_pure Value.within_nil
      | ret value line =>
        refine (Exec.codeIn_read _).bind fun depth _ => ?_
        split
        · exact Exec.codeIn_raise _ line
        · cases value with
          | none => exact Exec.codeIn_pure Value.within_nil
          | some e =>
            exact (ihe e s (nodesIn_initial h.tail)).bind fun v hv => Exec.codeIn_pure hv
      | expression e => exact (ihe e s h).bind fun v hv => Exec.codeIn_pure hv

end Walk

/-! ### Along a run -/

section Course

variable {limit : Option Nat} {s : Scope} {m m' : Machine}

theorem Evaluates.codeIn {e : Expr} {v : Value} (h : Evaluates limit e s m v m')
    (he : NodesIn S e.nodes) (hm : m.CodeIn S) : v.CodeIn S ∧ m'.CodeIn S := by
  obtain ⟨n, h⟩ := h
  have hkept := (@codeIn_walk S limit n).1 e s he m hm
  rwa [h] at hkept

theorem EvaluatesAll.codeIn {es : List Expr} {vs : List Value}
    (h : EvaluatesAll limit es s m vs m') (hes : NodesIn S (es.flatMap Expr.nodes))
    (hm : m.CodeIn S) : (∀ v ∈ vs, v.CodeIn S) ∧ m'.CodeIn S := by
  obtain ⟨n, h⟩ := h
  have hkept := codeIn_evalAll (fun e => (@codeIn_walk S limit n).1 e s) hes m hm
  rwa [h] at hkept

theorem Executes.codeIn {stmt : Stmt} {flow : Flow} (h : Executes limit stmt s m flow m')
    (hstmt : NodesIn S stmt.nodes) (hm : m.CodeIn S) : m'.CodeIn S := by
  obtain ⟨n, h⟩ := h
  have hkept := (@codeIn_walk S limit n).2 stmt s hstmt m hm
  rw [h] at hkept
  exact hkept.2

/-- A part of a piece of work has no other code than the whole. -/
theorem Leads.codeIn {a b : Point} (h : Leads limit a b) (ha : a.CodeIn S) : b.CodeIn S := by
  obtain ⟨htask, hm⟩ := ha
  have hcounted : a.machine.counted.CodeIn S := hm.of_heap rfl
  cases h with
  | grouping => exact ⟨htask, hm⟩
  | operand => exact ⟨htask.tail, hm⟩
  | left => exact ⟨htask.tail.left, hm⟩
  | right h => exact ⟨htask.tail.right, (h.codeIn htask.tail.left hm).2⟩
  | first => exact ⟨htask.left, hm⟩
  | second h => exact ⟨htask.right, (h.codeIn htask.left hm).2⟩
  | assigned => exact ⟨htask.tail, hm⟩
  | callee => exact ⟨htask.tail.left, hm⟩
  | arguments h => exact ⟨nodesIn_arguments htask, (h.codeIn htask.tail.left hm).2⟩
  | argument => exact ⟨htask.left, hm⟩
  | otherArguments h => exact ⟨htask.right, (h.codeIn htask.left hm).2⟩
  | initial => exact ⟨nodesIn_initial htask, hcounted⟩
  | @block body s _ m _ h =>
    have hnoted : (m.counted.note (.entered body.length)).CodeIn S := hcounted.of_heap rfl
    have hkept := Exec.codeIn_enterBlock s _ hnoted
    rw [h] at hkept
    exact ⟨nodesIn_block htask, hkept.2⟩
  | condition => exact ⟨nodesIn_cond htask, hcounted⟩
  | yes h => exact ⟨nodesIn_yes htask, (h.codeIn (nodesIn_cond htask) hcounted).2⟩
  | no h => exact ⟨htask.right.right, (h.codeIn htask.left hcounted).2⟩
  | loop => exact ⟨⟨htask.left, htask.right⟩, hcounted⟩
  | roundCondition => exact ⟨htask.1, hm⟩
  | round h => exact ⟨htask.2, (h.codeIn htask.1 hm).2⟩
  | otherRounds h _ h' => exact ⟨htask, h'.codeIn htask.2 (h.codeIn htask.1 hm).2⟩
  | printed => exact ⟨htask, hcounted⟩
  | returned => exact ⟨nodesIn_initial htask.tail, hcounted⟩
  | expression => exact ⟨htask, hcounted⟩
  | statement => exact ⟨htask.left, hm⟩
  | otherStatements h => exact ⟨htask.right, h.codeIn htask.left hm⟩

/-- The body of a function that is called was in the machine. -/
theorem Enters.codeIn {a b : Point} (h : Enters limit a b) (ha : a.CodeIn S) : b.CodeIn S := by
  obtain ⟨htask, hm⟩ := ha
  cases h with
  | @body f args line s inner m m₁ m' c vs hdue _ henter =>
    obtain ⟨⟨m₂, hf, hargs⟩, -⟩ := hdue
    obtain ⟨hc, hm₂⟩ := hf.codeIn htask.tail.left hm
    obtain ⟨hvs, hm₁⟩ := hargs.codeIn (nodesIn_arguments htask) hm₂
    have hkept := codeIn_enterCall c hvs m₁ hm₁
    rw [henter] at hkept
    exact ⟨hc c rfl, hkept.2.of_heap rfl⟩

/-- **A run visits no other code** than what it begins with. -/
theorem Visits.codeIn {a b : Point} {k : Nat} (h : Visits limit a k b) (ha : a.CodeIn S) :
    b.CodeIn S := by
  induction h with
  | refl => exact ha
  | leads h _ ih => exact ih (h.codeIn ha)
  | enters h _ ih => exact ih (h.codeIn ha)

theorem Breaks.mem {a : Point} {node : Node} {cause : RuntimeFault}
    (h : Breaks limit a node cause m') (ha : a.task.CodeIn S) : S node := by
  cases h with
  | unary => exact ha.head
  | binary => exact ha.head
  | assign => exact ha.head
  | notCallable => exact ha.head
  | arity => exact ha.head
  | overflow => exact ha.head
  | ret => exact ha.head

/-- **A run of a program brings no code into a machine** but that of the program, however it
ends. -/
theorem codeIn_runProgram (limit : Option Nat) (fuel : Nat) {program : List Stmt}
    (hprogram : NodesIn S (programNodes program)) (s : Scope) :
    (runProgram limit fuel program s).CodeIn S fun _ => True := by
  have hrun (last : Option Value) :
      (runStatements limit fuel s last program).CodeIn S fun _ => True := by
    induction program generalizing last with
    | nil => exact Exec.codeIn_pure trivial
    | cons stmt program ih =>
      refine ((@codeIn_walk S limit fuel).2 stmt s hprogram.left).bind fun flow _ => ?_
      cases flow with
      | normal v => exact ih hprogram.right _
      | returned v => exact fun _ hm => hm
  exact Exec.CodeIn.bind (P := fun _ => True) (fun m hm => ⟨trivial, hm.of_heap rfl⟩)
    fun _ _ => hrun none

end Course

end Lox
