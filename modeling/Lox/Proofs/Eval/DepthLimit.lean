import Lox.Proofs.Eval.Course
import Lox.Proofs.Operators

/-!
# The limit on nested calls

Programs run under a limit on the number of calls that may be active at the same time. The limit
shows in nothing else. A run that does not overflow is, step for step, the run without a limit
(`Lox.unlimits_runProgram`). A run that overflows is the run without a limit up to the call for
which there is no room: that one goes on and enters the call.

The comparison is fuel by fuel, and it is made once, on computations: one of them *unlimits*
another if it comes to the same wherever the other does not overflow. That an overflow cuts a run
short needs no comparison at all, since `Lox.blamed_runProgram` says where it has happened, and
everything in front of that place is finished, hence the same without the limit.
-/

namespace Lox

/-! ### Computations that may overflow -/

/-- The computation has failed for want of room for a call. -/
def Outcome.Overflows {α : Type} (o : Outcome α) : Prop :=
  ∃ k line m, o = .failed ⟨.stackOverflow k, line⟩ m

/-- **One computation unlimits another**: it comes to the same, unless the other overflows. -/
def Unlimits {α : Type} (x y : Exec α) : Prop := ∀ m, (x m).Overflows ∨ y m = x m

section Sequence

variable {α β : Type}

theorem unlimits_self (x : Exec α) : Unlimits x x := fun _ => .inr rfl

theorem Unlimits.bind {x y : Exec α} {f g : α → Exec β} (hx : Unlimits x y)
    (hf : ∀ a, Unlimits (f a) (g a)) : Unlimits (x >>= f) (y >>= g) := by
  intro m
  obtain ⟨k, line, m', h⟩ | h := hx m
  · exact .inl ⟨k, line, m', Exec.bind_of_failed h⟩
  · cases hm : x m with
    | done a m' =>
      rw [hm] at h
      rw [Exec.bind_of_done hm, Exec.bind_of_done h]
      exact hf a m'
    | failed fault m' =>
      rw [hm] at h
      rw [Exec.bind_of_failed hm, Exec.bind_of_failed h]
      exact .inr rfl
    | exhausted =>
      rw [hm] at h
      rw [Exec.bind_of_exhausted hm, Exec.bind_of_exhausted h]
      exact .inr rfl

theorem Unlimits.nested {x y : Exec α} (hx : Unlimits x y) :
    Unlimits (Exec.nested x) (Exec.nested y) := by
  intro m
  unfold Exec.nested
  obtain ⟨k, line, m', h⟩ | h := hx { m with depth := m.depth + 1 }
  · exact .inl ⟨k, line, { m' with depth := m'.depth - 1 }, by rw [h]⟩
  · exact .inr (by rw [h])

end Sequence

section Walk

variable {limit : Option Nat}

theorem unlimits_evalAll {ev ev' : Expr → Exec Value} (hev : ∀ e, Unlimits (ev e) (ev' e))
    (es : List Expr) : Unlimits (evalAll ev es) (evalAll ev' es) := by
  induction es with
  | nil => exact unlimits_self _
  | cons e es ih => exact (hev e).bind fun v => ih.bind fun vs => unlimits_self _

theorem unlimits_runBody {run run' : Stmt → Exec Flow}
    (hrun : ∀ stmt, Unlimits (run stmt) (run' stmt)) (body : List Stmt) :
    Unlimits (runBody run body) (runBody run' body) := by
  induction body with
  | nil => exact unlimits_self _
  | cons stmt body ih =>
    refine (hrun stmt).bind fun flow => ?_
    cases flow with
    | normal v => exact ih
    | returned v => exact unlimits_self _

theorem unlimits_runLoop {cond cond' : Exec Value} {body body' : Exec Flow}
    (hcond : Unlimits cond cond') (hbody : Unlimits body body') (rounds : Nat) :
    Unlimits (runLoop cond body rounds) (runLoop cond' body' rounds) := by
  induction rounds with
  | zero => exact unlimits_self _
  | succ rounds ih =>
    refine hcond.bind fun v => ?_
    split
    · refine hbody.bind fun flow => ?_
      cases flow with
      | normal v => exact ih
      | returned v => exact unlimits_self _
    · exact unlimits_self _

/-- The only place where the limit is looked at. -/
theorem unlimits_checkDepth (line : Nat) :
    Unlimits (checkDepth limit line) (checkDepth none line) := by
  intro m
  cases limit with
  | none => exact .inr rfl
  | some k =>
    change Outcome.Overflows (if k ≤ m.depth then _ else _) ∨
      Outcome.done () m = if k ≤ m.depth then _ else _
    split
    · exact .inl ⟨k, some line, m, rfl⟩
    · exact .inr rfl

theorem unlimits_invoke {run run' : Stmt → Scope → Exec Flow}
    (hrun : ∀ stmt s, Unlimits (run stmt s) (run' stmt s)) (f : Closure) (args : List Value)
    (line : Nat) : Unlimits (invoke limit run f args line) (invoke none run' f args line) := by
  unfold invoke
  split
  · refine (unlimits_checkDepth line).bind fun _ => (unlimits_self _).bind fun s => ?_
    refine (unlimits_runBody (fun stmt => hrun stmt s) _).nested.bind fun flow => ?_
    exact unlimits_self _
  · exact unlimits_self _

/-- **Without the limit, evaluation comes to the same**, unless there was no room for a call. -/
theorem unlimits_walk (n : Nat) : (∀ e s, Unlimits (eval limit n e s) (eval none n e s)) ∧
    ∀ stmt s, Unlimits (exec limit n stmt s) (exec none n stmt s) := by
  induction n with
  | zero => exact ⟨fun e s => unlimits_self _, fun stmt s => unlimits_self _⟩
  | succ n ih =>
    obtain ⟨ihe, ihs⟩ := ih
    constructor
    · intro e s
      cases e with
      | literal value => exact unlimits_self _
      | identifier name line => exact unlimits_self _
      | grouping inner => exact ihe inner s
      | unary op operand line => exact (ihe operand s).bind fun v => unlimits_self _
      | binary op left right line =>
        exact (ihe left s).bind fun l => (ihe right s).bind fun r => unlimits_self _
      | logical op left right =>
        refine (ihe left s).bind fun l => ?_
        split
        · exact unlimits_self _
        · exact ihe right s
      | assign name value line => exact (ihe value s).bind fun v => unlimits_self _
      | call f args line =>
        rw [eval_call, eval_call]
        exact (ihe f s).bind fun v => (unlimits_self _).bind fun c =>
          (unlimits_evalAll (fun arg => ihe arg s) args).bind fun vs =>
            unlimits_invoke ihs c vs line
    · intro stmt s
      refine (unlimits_self _).bind fun _ => ?_
      cases stmt with
      | var name initial =>
        cases initial with
        | none => exact unlimits_self _
        | some e => exact (ihe e s).bind fun v => unlimits_self _
      | function name params body => exact unlimits_self _
      | block body =>
        exact (unlimits_self _).bind fun _ => (unlimits_self _).bind fun inner =>
          unlimits_runBody (fun stmt => ihs stmt inner) body
      | branch cond yes no =>
        refine (ihe cond s).bind fun v => ?_
        split
        · exact ihs yes s
        · cases no with
          | none => exact unlimits_self _
          | some no => exact ihs no s
      | loop cond body => exact unlimits_runLoop (ihe cond s) (ihs body s) n
      | print e => exact (ihe e s).bind fun v => unlimits_self _
      | ret value line =>
        refine (unlimits_self _).bind fun depth => ?_
        split
        · exact unlimits_self _
        · cases value with
          | none => exact unlimits_self _
          | some e => exact (ihe e s).bind fun v => unlimits_self _
      | expression e => exact (ihe e s).bind fun v => unlimits_self _

theorem unlimits_runStatements (n : Nat) (s : Scope) (last : Option Value) (program : List Stmt) :
    Unlimits (runStatements limit n s last program) (runStatements none n s last program) := by
  induction program generalizing last with
  | nil => exact unlimits_self _
  | cons stmt rest ih =>
    refine ((unlimits_walk n).2 stmt s).bind fun flow => ?_
    cases flow with
    | normal v => exact ih _
    | returned v => exact unlimits_self _

theorem unlimits_runProgram (n : Nat) (program : List Stmt) (s : Scope) :
    Unlimits (runProgram limit n program s) (runProgram none n program s) :=
  (unlimits_self _).bind fun _ => unlimits_runStatements n s none program

end Walk

/-! ### Points -/

section Points

variable {limit : Option Nat}

/-- What is done under a limit is done without one. -/
theorem Unlimits.done {α : Type} {x y : Exec α} (h : Unlimits x y) {a : α} {m m' : Machine}
    (hx : x m = .done a m') : y m = .done a m' := by
  obtain ⟨k, line, m₁, hm⟩ | hm := h m
  · rw [hx] at hm
    cases hm
  · rw [hm, hx]

section Done

variable {s : Scope} {m m' : Machine}

theorem Evaluates.unlimited {e : Expr} {v : Value} (h : Evaluates limit e s m v m') :
    Evaluates none e s m v m' := by
  obtain ⟨n, h⟩ := h
  exact ⟨n, ((unlimits_walk n).1 e s).done h⟩

theorem EvaluatesAll.unlimited {es : List Expr} {vs : List Value}
    (h : EvaluatesAll limit es s m vs m') : EvaluatesAll none es s m vs m' := by
  obtain ⟨n, h⟩ := h
  exact ⟨n, (unlimits_evalAll (fun e => (unlimits_walk n).1 e s) es).done h⟩

theorem Executes.unlimited {stmt : Stmt} {flow : Flow} (h : Executes limit stmt s m flow m') :
    Executes none stmt s m flow m' := by
  obtain ⟨n, h⟩ := h
  exact ⟨n, ((unlimits_walk n).2 stmt s).done h⟩

theorem CallDue.unlimited {f : Expr} {args : List Expr} {c : Closure} {vs : List Value}
    (h : CallDue limit f args s m c vs m') : CallDue none f args s m c vs m' := by
  obtain ⟨⟨m₁, hf, hargs⟩, harity⟩ := h
  exact ⟨⟨m₁, hf.unlimited, hargs.unlimited⟩, harity⟩

end Done

theorem Leads.unlimited {a b : Point} (h : Leads limit a b) : Leads none a b := by
  cases h with
  | grouping => exact .grouping
  | operand => exact .operand
  | left => exact .left
  | right h => exact .right h.unlimited
  | first => exact .first
  | second h hv => exact .second h.unlimited hv
  | assigned => exact .assigned
  | callee => exact .callee
  | arguments h => exact .arguments h.unlimited
  | argument => exact .argument
  | otherArguments h => exact .otherArguments h.unlimited
  | initial => exact .initial
  | block h => exact .block h
  | condition => exact .condition
  | yes h hv => exact .yes h.unlimited hv
  | no h hv => exact .no h.unlimited hv
  | loop => exact .loop
  | roundCondition => exact .roundCondition
  | round h hv => exact .round h.unlimited hv
  | otherRounds h hv h' => exact .otherRounds h.unlimited hv h'.unlimited
  | printed => exact .printed
  | returned h => exact .returned h
  | expression => exact .expression
  | statement => exact .statement
  | otherStatements h => exact .otherStatements h.unlimited

/-- Without a limit there is room for every call that is due. -/
theorem CallDue.enters {f : Expr} {args : List Expr} {s : Scope} {m m' : Machine} {c : Closure}
    {vs : List Value} (h : CallDue none f args s m c vs m') (line : Nat) :
    ∃ inner m₁, enterCall c vs m' = .done inner m₁ ∧
      Enters none ⟨.eval (.call f args line) s, m⟩ ⟨.body c.function.body inner, m₁.deeper 1⟩ := by
  obtain ⟨inner, m₁, henter⟩ := exists_enterCall c vs m'
  exact ⟨inner, m₁, henter, .body h (by simp) henter⟩

theorem Enters.unlimited {a b : Point} (h : Enters limit a b) : Enters none a b := by
  cases h with
  | body hdue _ henter => exact .body hdue.unlimited (by simp) henter

/-- **Whatever is visited under a limit is visited without one.** -/
theorem Visits.unlimited {a b : Point} {k : Nat} (h : Visits limit a k b) :
    Visits none a k b := by
  induction h with
  | refl => exact .refl _
  | leads h _ ih => exact .leads h.unlimited ih
  | enters h _ ih => exact .enters h.unlimited ih

/-- A call is entered only where the limit leaves room for it. -/
theorem Enters.depth_lt {k : Nat} {a b : Point} (h : Enters (some k) a b) :
    a.machine.depth < k := by
  cases h with
  | @body _ _ _ _ _ m m₁ _ _ _ hdue hroom _ =>
    change m.depth < k
    rw [← hdue.reaches.depth_eq]
    exact hroom k rfl

/-- **No more calls are active than the limit allows**, if it was so in the beginning. -/
theorem Visits.depth_le {k j : Nat} {a b : Point} (h : Visits (some k) a j b)
    (ha : a.machine.depth ≤ k) : b.machine.depth ≤ k := by
  induction h with
  | refl => exact ha
  | leads h _ ih =>
    rw [← h.depth_eq] at ha
    exact ih ha
  | enters h _ ih =>
    refine ih ?_
    rw [h.depth_eq]
    exact h.depth_lt

end Points

/-! ### Overflow -/

/-- **Only a call that is due overflows**, where the limit is reached. -/
theorem Breaks.callDue {limit : Option Nat} {b : Point} {node : Node} {k : Nat} {m' : Machine}
    (h : Breaks limit b node (.stackOverflow k) m') :
    ∃ f args s m c vs, b = ⟨.eval (.call f args node.line) s, m⟩ ∧
      CallDue limit f args s m c vs m' ∧ limit = some k ∧ k ≤ m'.depth := by
  cases h with
  | unary _ h => cases Value.kind_of_unary h
  | binary _ _ h => rcases Value.kind_of_binary h with h | h <;> cases h
  | overflow hdue hlimit hk => exact ⟨_, _, _, _, _, _, rfl, hdue, hlimit, hk⟩

/-- **An overflow happens at the limit**: as many calls are active as it allows, and one more is
due. The machine is left as it was then, but for the calls that were left. -/
theorem callDue_of_overflow {k j fuel : Nat} {program : List Stmt} {s : Scope} {m m' : Machine}
    {line : Option Nat}
    (h : runProgram (some k) fuel program s m = .failed ⟨.stackOverflow j, line⟩ m') :
    ∃ f args L s' m₀ c vs, j = k ∧ line = some L ∧ m'.depth = 0 ∧
      Visits none (.start program s m) k ⟨.eval (.call f args L) s', m₀⟩ ∧
      CallDue none f args s' m₀ c vs (m'.deeper k) := by
  have hdepth : m'.depth = 0 := by
    have hleaves := @proceeds_runStatements (some k) fuel s none program { m with depth := 0 }
    change Outcome.Leaves _ (runProgram (some k) fuel program s m) at hleaves
    rw [h] at hleaves
    exact hleaves.depth_eq
  obtain ⟨i, b, node, hvisits, hbreaks, hline⟩ := blamed_runProgram h
  obtain ⟨f, args, s', m₀, c, vs, rfl, hdue, hlimit, hj⟩ := hbreaks.callDue
  cases hlimit
  -- the bodies that are active are counted twice: by the machine, and along the way
  have hi : i = k := by
    have hlow : k ≤ m'.depth + i := hj
    have hhigh := hvisits.depth_le (Nat.zero_le k)
    have hcount := hvisits.depth_eq
    have hzero : (Point.start program s m).machine.depth = 0 := rfl
    omega
  subst hi
  exact ⟨f, args, node.line, s', m₀, c, vs, rfl, hline, hdepth, hvisits.unlimited, hdue.unlimited⟩

/-- **The limit on nested calls is transparent.** At every point of a run the machine counts the
function bodies that are active, and these are never more than 5000. A run that does not overflow
comes to the same without the limit, with the same machine. A run that overflows at a line is the
run without the limit up to the point where 5000 bodies are active and a call on that line is due;
and without the limit that call is entered as one more. -/
theorem depth_limit_transparent (program : List Stmt) (s : Scope) (m : Machine) :
    (∀ j b, Visits (some maxDepth) (.start program s m) j b → b.machine.depth = j ∧ j ≤ 5000) ∧
      (∀ fuel, ¬(runProgram (some maxDepth) fuel program s m).Overflows →
        runProgram none fuel program s m = runProgram (some maxDepth) fuel program s m) ∧
      ∀ fuel k line m',
        runProgram (some maxDepth) fuel program s m = .failed ⟨.stackOverflow k, line⟩ m' →
        ∃ f args L s' m₀ c vs, k = 5000 ∧ line = some L ∧ m'.depth = 0 ∧
          Visits none (.start program s m) 5000 ⟨.eval (.call f args L) s', m₀⟩ ∧
          CallDue none f args s' m₀ c vs (m'.deeper 5000) ∧
          ∃ inner m₁, enterCall c vs (m'.deeper 5000) = .done inner m₁ ∧
            Visits none (.start program s m) 5001 ⟨.body c.function.body inner, m₁.deeper 1⟩ := by
  refine ⟨fun j b h => ?_, fun fuel h => ?_, fun fuel k line m' h => ?_⟩
  · have hcount : b.machine.depth = j := h.depth_eq.trans (Nat.zero_add j)
    have hle : b.machine.depth ≤ 5000 := h.depth_le (Nat.zero_le _)
    rw [hcount] at hle
    exact ⟨hcount, hle⟩
  · exact (unlimits_runProgram fuel program s m).resolve_left h
  · obtain ⟨f, args, L, s', m₀, c, vs, hk, hline, hdepth, hvisits, hdue⟩ := callDue_of_overflow h
    obtain ⟨inner, m₁, henter, henters⟩ := hdue.enters L
    exact ⟨f, args, L, s', m₀, c, vs, hk, hline, hdepth, hvisits, hdue, inner, m₁, henter,
      hvisits.trans (.enters henters (.refl _))⟩

/-! ### A function that only calls itself -/

namespace Endless

/-- A call of the function. -/
def call : Expr := .call (.identifier "f" 1) [] 1

/-- The function, as it is bound in the first scope. -/
def closure : Closure := ⟨0, ⟨"f", [], [.expression call]⟩, 0⟩

/-- The declaration of the function, and a call of it. -/
def program : List Stmt := [.function "f" [] [.expression call], .expression call]

/-- A machine whose first scope binds the function, and a scope with nothing of its own in front
of that one. -/
def Ready (m : Machine) (s : Scope) : Prop :=
  m.heap.frames[0]? = some ⟨[("f", .function closure)], none⟩ ∧
    (s = 0 ∨ 0 < s ∧ m.heap.frames[s]? = some ⟨[], some 0⟩)

theorem Ready.lookup {m : Machine} {s : Scope} (h : Ready m s) :
    m.heap.lookup s "f" = .function closure := by
  obtain ⟨hroot, hs⟩ := h
  have hzero : m.heap.lookup 0 "f" = .function closure :=
    Heap.lookup_of_value? (by simp [Heap.vars, hroot, Bindings.value?])
  rcases hs with rfl | ⟨hpos, hs⟩
  · exact hzero
  · rw [Heap.lookup]
    simp [Heap.vars, Heap.parent?, hs, Bindings.value?, hpos, hzero]

/-- Inside a call of the function it is ready again. -/
theorem Ready.enterCall {m : Machine} {s : Scope} (h : Ready m s) :
    ∃ inner m', enterCall closure [] m = .done inner m' ∧ Ready m' inner ∧ m'.depth = m.depth := by
  obtain ⟨hroot, -⟩ := h
  obtain ⟨hsize, -⟩ := Array.getElem?_eq_some_iff.mp hroot
  refine ⟨m.heap.frames.size, _, rfl, ⟨?_, .inr ⟨hsize, ?_⟩⟩, rfl⟩
  · change (m.heap.frames.push ⟨[], some 0⟩)[0]? = _
    rw [Array.getElem?_push, if_neg (by omega), hroot]
  · change (m.heap.frames.push ⟨[], some 0⟩)[m.heap.frames.size]? = _
    rw [Array.getElem?_push, if_pos rfl]

theorem Ready.deeper {m : Machine} {s : Scope} (h : Ready m s) (k : Nat) :
    Ready (m.deeper k).counted s := h

/-- A call of the function comes to entering it. -/
theorem Ready.eval_call {limit : Option Nat} {m : Machine} {s : Scope} (h : Ready m s) (n : Nat) :
    eval limit (n + 2) call s m =
      invoke limit (fun stmt s => exec limit (n + 1) stmt s) closure [] 1 m := by
  have hcallee : eval limit (n + 1) (.identifier "f" 1) s m = .done (.function closure) m :=
    congrArg (Outcome.done · m) h.lookup
  rw [call, Lox.eval_call]
  exact Exec.bind_of_done hcallee

/-- **A function that only calls itself overflows**, whatever room there is. -/
theorem Ready.overflows {k j : Nat} {m : Machine} {s : Scope} (h : Ready m s)
    (hk : m.depth + j = k) :
    ∃ m', eval (some k) (2 * j + 2) call s m = .failed (.atLine (.stackOverflow k) 1) m' := by
  -- on the number of calls that there still is room for
  induction j generalizing m s with
  | zero =>
    have hfull : checkDepth (some k) 1 m = .failed (.atLine (.stackOverflow k) 1) m :=
      if_pos (by omega)
    refine ⟨m, ?_⟩
    rw [h.eval_call]
    exact Exec.bind_of_failed hfull
  | succ j ih =>
    have hroom : checkDepth (some k) 1 m = .done () m := if_neg (by omega)
    obtain ⟨inner, m₁, henter, hready, hdepth⟩ := h.enterCall
    have hk' : (m₁.deeper 1).counted.depth + j = k := by
      change m₁.depth + 1 + j = k
      omega
    obtain ⟨m₂, hm₂⟩ := ih (hready.deeper 1) hk'
    have hstmt : exec (some k) (2 * j + 3) (.expression call) inner (m₁.deeper 1) =
        .failed (.atLine (.stackOverflow k) 1) m₂ :=
      (Exec.countStatement_bind _ _).trans (Exec.bind_of_failed hm₂)
    have hbody : runBody (fun stmt => exec (some k) (2 * j + 3) stmt inner) closure.function.body
        (m₁.deeper 1) = .failed (.atLine (.stackOverflow k) 1) m₂ := Exec.bind_of_failed hstmt
    refine ⟨{ m₂ with depth := m₂.depth - 1 }, ?_⟩
    rw [Nat.mul_succ, h.eval_call]
    refine (Exec.bind_of_done hroom).trans ((Exec.bind_of_done henter).trans ?_)
    exact Exec.bind_of_failed (Exec.nested_of_failed hbody)

theorem overflows_program (k : Nat) :
    ∃ m', runProgram (some k) (2 * k + 3) program 0 Machine.new.newRoot.2 =
      .failed (.atLine (.stackOverflow k) 1) m' := by
  obtain ⟨m₁, hdeclared, hready, hdepth⟩ : ∃ m₁, exec (some k) (2 * k + 3)
      (.function "f" [] [.expression call]) 0 Machine.new.newRoot.2 = .done (.normal .nil) m₁ ∧
        Ready m₁.counted 0 ∧ m₁.counted.depth = 0 :=
    ⟨_, rfl, ⟨rfl, .inl rfl⟩, rfl⟩
  obtain ⟨m', hm'⟩ := hready.overflows (by rw [hdepth, Nat.zero_add])
  have hcalled : exec (some k) (2 * k + 3) (.expression call) 0 m₁ =
      .failed (.atLine (.stackOverflow k) 1) m' :=
    (Exec.countStatement_bind _ _).trans (Exec.bind_of_failed hm')
  refine ⟨m', ?_⟩
  change runStatements (some k) (2 * k + 3) 0 none program Machine.new.newRoot.2 = _
  exact (Exec.bind_of_done hdeclared).trans (Exec.bind_of_failed hcalled)

end Endless

/-- The declaration alone does not overflow, and the call that follows it does. -/
theorem endless_program_overflows :
    let m := Machine.new.newRoot.2
    ¬(runProgram (some maxDepth) 3 (Endless.program.take 1) 0 m).Overflows ∧
      runProgram none 3 (Endless.program.take 1) 0 m =
        runProgram (some maxDepth) 3 (Endless.program.take 1) 0 m ∧
      ∃ m', runProgram (some maxDepth) (2 * maxDepth + 3) Endless.program 0 m =
          .failed (.atLine (.stackOverflow 5000) 1) m' ∧
        ∃ f args s m₀,
          Visits none (.start Endless.program 0 m) 5000 ⟨.eval (.call f args 1) s, m₀⟩ := by
  intro m
  have hok : ¬(runProgram (some maxDepth) 3 (Endless.program.take 1) 0 m).Overflows := by
    rintro ⟨k, line, m', h⟩
    cases h
  obtain ⟨m', hm'⟩ := Endless.overflows_program maxDepth
  obtain ⟨f, args, L, s, m₀, c, vs, -, hline, -, hvisits, -⟩ :=
    (depth_limit_transparent Endless.program 0 m).2.2 _ _ _ _ hm'
  cases hline
  exact ⟨hok, (depth_limit_transparent _ 0 m).2.1 3 hok, m', hm', f, args, s, m₀, hvisits⟩

end Lox
