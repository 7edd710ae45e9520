import Lox.Proofs.Eval.Course
import Lox.Proofs.Eval.Fuel
import Lox.Proofs.Operators

/-!
# Where a `return` is an error

A `return` outside of every function is an error. Where it stands is a matter of the text, but the
evaluator does not look at the text: it looks at the number of active calls when it gets there.
Here the two are shown to be the same (`Lox.return_fails_exactly_outside_functions`).

What connects them is the course of a run. As long as no call is entered, a run stays among the own
statements of the program (`Lox.OwnStatement`), those outside of its function bodies; and from the
moment a call is entered, it stays among the own statements of that function until it enters the
next (`Lox.Visits.entered`). So a `return` that is come to while no call is active is one of the
program itself, and its failure is the failure of everything that it happens in, up to the program
(`Lox.Visits.fails`).
-/

namespace Lox

variable {limit : Option Nat}

/-! ### Own statements -/

/-- A piece of work on own statements. Expressions have no statements in them. -/
def Task.Of (stmts : List Stmt) : Task → Prop
  | .eval _ _ => True
  | .evalAll _ _ => True
  | .exec stmt _ => OwnStatement stmts stmt
  | .body parts _ => ∀ stmt ∈ parts, OwnStatement stmts stmt
  | .loop _ part _ => OwnStatement stmts part

/-- Inside one function body a run stays among the own statements. -/
theorem Leads.of {stmts : List Stmt} {a b : Point} (h : Leads limit a b) (ha : a.task.Of stmts) :
    b.task.Of stmts := by
  cases h with
  | block => exact fun stmt hmem => OwnStatement.inner ha hmem
  | yes => exact OwnStatement.inner ha (by simp [Stmt.inner, Stmt.parts])
  | no => exact OwnStatement.inner ha (by simp [Stmt.inner, Stmt.parts])
  | loop => exact OwnStatement.inner ha (by simp [Stmt.inner, Stmt.parts])
  | round => exact ha
  | otherRounds => exact ha
  | statement => exact ha _ List.mem_cons_self
  | otherStatements => exact fun stmt hmem => ha stmt (List.mem_cons_of_mem _ hmem)
  | _ => trivial

theorem Visits.of {stmts : List Stmt} {a b : Point} (h : Visits limit a 0 b)
    (ha : a.task.Of stmts) : b.task.Of stmts := by
  generalize hk : 0 = k at h
  induction h with
  | refl => exact ha
  | leads h _ ih => exact ih (h.of ha) hk
  | enters => cases hk

/-- **The last call that was entered**: after it a run stays in one function body. -/
theorem Visits.last_call {a b : Point} {k : Nat} (h : Visits limit a (k + 1) b) :
    ∃ p q, Visits limit a k p ∧ Enters limit p q ∧ Visits limit q 0 b := by
  generalize hj : k + 1 = j at h
  induction h generalizing k with
  | refl => cases hj
  | leads h _ ih =>
    obtain ⟨p, q, hp, hq, hb⟩ := ih hj
    exact ⟨p, q, .leads h hp, hq, hb⟩
  | @enters a b c j h hc ih =>
    obtain rfl := Nat.succ.inj hj
    cases k with
    | zero => exact ⟨a, b, .refl a, h, hc⟩
    | succ k =>
      obtain ⟨p, q, hp, hq, hb⟩ := ih rfl
      exact ⟨p, q, .enters h hp, hq, hb⟩

/-- **Inside a call a run is in the body of a function** that it has entered. -/
theorem Visits.entered {a b : Point} {k : Nat} (h : Visits limit a (k + 1) b) :
    ∃ p, ∃ c : Closure, ∃ inner m, Visits limit a k p ∧
      Enters limit p ⟨.body c.function.body inner, m⟩ ∧ b.task.Of c.function.body := by
  obtain ⟨p, q, hp, hq, hb⟩ := h.last_call
  have henters := hq
  cases hq with
  | body => exact ⟨_, _, _, _, hp, henters, hb.of fun stmt hmem => .here hmem⟩

/-! ### What fails with it -/

theorem Evaluates.settles {e : Expr} {s : Scope} {m m' : Machine} {v : Value}
    (h : Evaluates limit e s m v m') : Settles (eval limit · e s m) (.done v m') := by
  obtain ⟨n, hn⟩ := h
  exact settles_of_below (x := fun n => eval limit n e s) (below_eval · e s) hn nofun

theorem Executes.settles {stmt : Stmt} {s : Scope} {m m' : Machine} {flow : Flow}
    (h : Executes limit stmt s m flow m') : Settles (exec limit · stmt s m) (.done flow m') := by
  obtain ⟨n, hn⟩ := h
  exact settles_of_below (x := fun n => exec limit n stmt s) (below_exec · stmt s) hn nofun

/-- **A piece of work fails**, once it is given enough fuel. -/
def Point.Fails (limit : Option Nat) (fault : Located RuntimeFault) (m' : Machine) : Point → Prop
  | ⟨.eval e s, m⟩ => Settles (eval limit · e s m) (.failed fault m')
  | ⟨.evalAll es s, m⟩ =>
    Settles (fun n => evalAll (fun e => eval limit n e s) es m) (.failed fault m')
  | ⟨.exec stmt s, m⟩ => Settles (exec limit · stmt s m) (.failed fault m')
  | ⟨.body stmts s, m⟩ =>
    Settles (fun n => runBody (fun stmt => exec limit n stmt s) stmts m) (.failed fault m')
  -- of a loop some rounds are over already, so that they are counted apart from the fuel
  | ⟨.loop cond body s, m⟩ => ∃ k, ∀ n rounds, k ≤ n → k ≤ rounds →
      runLoop (eval limit n cond s) (exec limit n body s) rounds m = .failed fault m'

section Failure

variable {fault : Located RuntimeFault} {m' : Machine}

/-- A loop fails with the round that is due, if there are rounds left. -/
theorem Point.Fails.loop {cond : Expr} {body : Stmt} {s : Scope} {m : Machine}
    (h : ∃ k, ∀ n rounds, k ≤ n → k ≤ rounds →
      runLoop (eval limit n cond s) (exec limit n body s) (rounds + 1) m = .failed fault m') :
    Point.Fails limit fault m' ⟨.loop cond body s, m⟩ := by
  obtain ⟨k, hk⟩ := h
  refine ⟨k + 1, fun n rounds hn hrounds => ?_⟩
  obtain ⟨j, rfl⟩ := Nat.exists_eq_add_of_le hrounds
  rw [Nat.add_right_comm]
  exact hk n (k + j) (by omega) (by omega)

/-- The condition of a loop holds, and its body is due. -/
theorem runLoop_of_true {cond : Exec Value} {body : Exec Flow} {rounds : Nat} {m m₁ : Machine}
    {v : Value} (hv : cond m = .done v m₁) (htrue : v.isTruthy = true) :
    runLoop cond body (rounds + 1) m = (do
      match ← body with
      | .returned v => pure (.returned v)
      | .normal _ => runLoop cond body rounds : Exec Flow) m₁ := by
  refine (Exec.bind_of_done hv).trans ?_
  rw [htrue]
  rfl

/-- A statement is counted before anything else is done. -/
theorem Settles.statement {f : Nat → Unit → Exec Flow} {m : Machine} {o : Outcome Flow}
    (h : Settles (fun n => f n () m.counted) o) :
    Settles (fun n => (Exec.countStatement >>= f n) m) o := h

/-- **A failure of a part is a failure of the whole.** -/
theorem Leads.fails {a b : Point} (h : Leads limit a b) (hb : b.Fails limit fault m') :
    a.Fails limit fault m' := by
  cases h with
  | grouping => exact .of_succ hb
  | operand => exact .of_succ (.bind_failed hb)
  | left => exact .of_succ (.bind_failed hb)
  | right hl => exact .of_succ (.bind_done hl.settles (.bind_failed hb))
  | first => exact .of_succ (.bind_failed hb)
  | second hl hsettles =>
    refine .of_succ (.bind_done hl.settles ?_)
    rw [hsettles]
    exact hb
  | assigned => exact .of_succ (.bind_failed hb)
  | callee => exact .of_succ (.bind_failed hb)
  | arguments hf =>
    exact .of_succ (.bind_done hf.settles (.bind_done (.const nofun) (.bind_failed hb)))
  | argument => exact .bind_failed hb
  | otherArguments he => exact .bind_done he.settles (.bind_failed hb)
  | initial => exact .of_succ (.statement (.bind_failed hb))
  | block henter =>
    cases henter
    exact .of_succ (.statement hb)
  | condition => exact .of_succ (.statement (.bind_failed hb))
  | yes hcond htrue =>
    refine .of_succ (.statement (.bind_done hcond.settles ?_))
    rw [htrue]
    exact hb
  | no hcond hfalse =>
    refine .of_succ (.statement (.bind_done hcond.settles ?_))
    rw [hfalse]
    exact hb
  | loop =>
    obtain ⟨k, hk⟩ := hb
    exact .of_succ ⟨nofun, k, fun fuel hfuel => hk fuel fuel hfuel hfuel⟩
  | roundCondition =>
    obtain ⟨-, k, hk⟩ := hb
    exact .loop ⟨k, fun n rounds hn _ => Exec.bind_of_failed (hk n hn)⟩
  | round hcond htrue =>
    obtain ⟨-, j, hj⟩ := hcond.settles
    obtain ⟨-, k, hk⟩ := hb
    refine .loop ⟨max j k, fun n rounds hn _ => ?_⟩
    rw [runLoop_of_true (hj n (by omega)) htrue]
    exact Exec.bind_of_failed (hk n (by omega))
  | otherRounds hcond htrue hbody =>
    obtain ⟨-, i, hi⟩ := hcond.settles
    obtain ⟨-, j, hj⟩ := hbody.settles
    obtain ⟨k, hk⟩ := hb
    refine .loop ⟨max (max i j) k, fun n rounds hn hrounds => ?_⟩
    rw [runLoop_of_true (hi n (by omega)) htrue]
    exact (Exec.bind_of_done (hj n (by omega))).trans (hk n rounds (by omega) (by omega))
  | printed => exact .of_succ (.statement (.bind_failed hb))
  | returned hdepth =>
    refine .of_succ ?_
    change Settles (fun n => (if _ = 0 then _ else _ : Exec Flow) _) _
    simp only [if_neg hdepth]
    exact .bind_failed hb
  | expression => exact .of_succ (.statement (.bind_failed hb))
  | statement => exact .bind_failed hb
  | otherStatements hstmt => exact .bind_done hstmt.settles hb

/-- **A failure outside of every call is a failure of the run.** -/
theorem Visits.fails {a b : Point} (h : Visits limit a 0 b) (hb : b.Fails limit fault m') :
    a.Fails limit fault m' := by
  generalize hk : 0 = k at h
  induction h with
  | refl => exact hb
  | leads h _ ih => exact h.fails (ih hb hk)
  | enters => cases hk

/-- The statements at the top level are run as a body is. -/
theorem runStatements_of_runBody {n : Nat} {s : Scope} {last : Option Value} {program : List Stmt}
    {m : Machine} (h : runBody (fun stmt => exec limit n stmt s) program m = .failed fault m') :
    runStatements limit n s last program m = .failed fault m' := by
  induction program generalizing last m with
  | nil => cases h
  | cons stmt rest ih =>
    obtain h | ⟨flow, m₁, hflow, h⟩ := Exec.failed_of_bind h
    · exact Exec.bind_of_failed h
    · cases flow with
      | normal v => exact (Exec.bind_of_done hflow).trans (ih h)
      | returned v => cases h

/-- **What fails outside of every call fails the program.** -/
theorem Visits.settles_runProgram {program : List Stmt} {s : Scope} {m : Machine} {b : Point}
    (h : Visits limit (.start program s m) 0 b) (hb : b.Fails limit fault m') :
    Settles (runProgram limit · program s m) (.failed fault m') := by
  obtain ⟨-, n, hn⟩ : Point.Fails limit fault m' (.start program s m) := h.fails hb
  exact ⟨nofun, n, fun fuel hfuel => runStatements_of_runBody (hn fuel hfuel)⟩

end Failure

/-! ### The fault of a `return` -/

/-- **Only a `return` breaks with this fault**, and only while no call is active. -/
theorem Breaks.topLevelReturn {a : Point} {node : Node} {m' : Machine}
    (h : Breaks limit a node .topLevelReturn m') :
    ∃ value line s m, a = ⟨.exec (.ret value line) s, m⟩ ∧ node = .ret value line ∧
      m.depth = 0 := by
  generalize hcause : RuntimeFault.topLevelReturn = cause at h
  cases h with
  | unary _ h =>
    subst hcause
    cases Value.kind_of_unary h
  | binary _ _ h =>
    subst hcause
    rcases Value.kind_of_binary h with h | h <;> cases h
  | ret hdepth => exact ⟨_, _, _, _, rfl, rfl, hdepth⟩
  | _ => cases hcause

theorem Blamed.exists_line {a : Point} {fault : Located RuntimeFault} {m' : Machine}
    (h : Blamed limit a fault m') : ∃ line, fault.line = some line := by
  obtain ⟨_, _, node, -, -, hline⟩ := h
  exact ⟨node.line, hline⟩

/-- The fault of a `return` comes from a `return` that was come to while no call was active, neither
before the run nor in it. -/
theorem Blamed.topLevelReturn {a : Point} {fault : Located RuntimeFault} {m' : Machine}
    (h : Blamed limit a fault m') (hcause : fault.cause = .topLevelReturn) :
    ∃ value line s m, Visits limit a 0 ⟨.exec (.ret value line) s, m⟩ ∧
      fault.line = some line ∧ a.machine.depth = 0 := by
  obtain ⟨k, b, node, hvisits, hbreaks, hline⟩ := h
  rw [hcause] at hbreaks
  obtain ⟨value, line, s, m, rfl, rfl, hdepth⟩ := hbreaks.topLevelReturn
  have hsum : m.depth = a.machine.depth + k := hvisits.depth_eq
  obtain rfl : k = 0 := by omega
  exact ⟨value, line, s, m, hvisits, hline, by omega⟩

/-- A `return` fails while no call is active, and its value is not looked at. -/
theorem fails_ret {value : Option Expr} {line : Nat} {s : Scope} {m : Machine}
    (hdepth : m.depth = 0) :
    Point.Fails limit (.atLine .topLevelReturn line) m.counted ⟨.exec (.ret value line) s, m⟩ := by
  refine .of_succ ?_
  change Settles (fun n => (if m.depth = 0 then _ else _ : Exec Flow) m.counted) _
  simp only [if_pos hdepth]
  refine .const fun h => ?_
  cases h

/-- **A `return` fails exactly where it stands outside of every function.** This is said of any
program, in any scope of any machine.

A `return` that a run comes to outside of every call is an own statement of the program; with it
the whole run fails, at its line, and its value has not been evaluated. A `return` that a run comes
to inside a call is an own statement of a function that has been entered, and never fails in this
way. A statement that a run comes to outside of every call does not end with a `return`. So every
fault of a program has a line, and if it is that of a `return`, then that of an own statement. And
so has every fault of an expression, which never is that of a `return`. -/
theorem return_fails_exactly_outside_functions (limit : Option Nat) (program : List Stmt)
    (s : Scope) (m : Machine) :
    (∀ value line t m₁, Visits limit (.start program s m) 0 ⟨.exec (.ret value line) t, m₁⟩ →
        OwnStatement program (.ret value line) ∧
          Settles (runProgram limit · program s m)
            (.failed (.atLine .topLevelReturn line) m₁.counted)) ∧
      (∀ k value line t m₁,
        Visits limit (.start program s m) (k + 1) ⟨.exec (.ret value line) t, m₁⟩ →
        (∃ a, ∃ c : Closure, ∃ inner m₂, Visits limit (.start program s m) k a ∧
            Enters limit a ⟨.body c.function.body inner, m₂⟩ ∧
            OwnStatement c.function.body (.ret value line)) ∧
          ∀ fuel fault m₂, exec limit fuel (.ret value line) t m₁ = .failed fault m₂ →
            fault.cause ≠ .topLevelReturn) ∧
      (∀ stmt t m₁ flow m₂, Visits limit (.start program s m) 0 ⟨.exec stmt t, m₁⟩ →
        Executes limit stmt t m₁ flow m₂ → ∃ v, flow = .normal v) ∧
      (∀ fuel fault m', runProgram limit fuel program s m = .failed fault m' →
        ∃ line, fault.line = some line ∧
          (fault.cause = .topLevelReturn → ∃ value t m₁, OwnStatement program (.ret value line) ∧
            Visits limit (.start program s m) 0 ⟨.exec (.ret value line) t, m₁⟩)) ∧
      ∀ e fuel fault m', eval limit fuel e s m = .failed fault m' →
        (∃ line, fault.line = some line) ∧ fault.cause ≠ .topLevelReturn := by
  have hstart : (Point.start program s m).task.Of program := fun stmt hmem => .here hmem
  refine ⟨?_, ?_, ?_, ?_, ?_⟩
  · intro value line t m₁ hvisits
    have hdepth : m₁.depth = 0 := hvisits.depth_eq
    exact ⟨hvisits.of hstart, hvisits.settles_runProgram (fails_ret hdepth)⟩
  · intro k value line t m₁ hvisits
    obtain ⟨a, c, inner, m₂, ha, henters, hown⟩ := hvisits.entered
    refine ⟨⟨a, c, inner, m₂, ha, henters, hown⟩, fun fuel fault m₂ hfailed hcause => ?_⟩
    obtain ⟨_, _, _, _, -, -, hdepth⟩ := ((blamed_walk fuel).2 hfailed).topLevelReturn hcause
    have hsum : m₁.depth = 0 + (k + 1) := hvisits.depth_eq
    have hzero : m₁.depth = 0 := hdepth
    omega
  · rintro stmt t m₁ flow m₂ hvisits ⟨fuel, hexec⟩
    cases flow with
    | normal v => exact ⟨v, rfl⟩
    | returned v =>
      have hdepth : m₁.depth = 0 := hvisits.depth_eq
      exact absurd hdepth (Unwind.returnsInCall_exec fuel stmt t m₁ m₂ v hexec)
  · intro fuel fault m' hfailed
    have hblamed := blamed_runProgram hfailed
    obtain ⟨line, hline⟩ := hblamed.exists_line
    refine ⟨line, hline, fun hcause => ?_⟩
    obtain ⟨value, line', t, m₁, hvisits, hline', -⟩ := hblamed.topLevelReturn hcause
    cases hline.symm.trans hline'
    exact ⟨value, t, m₁, hvisits.of hstart, hvisits⟩
  · intro e fuel fault m' hfailed
    have hblamed := (blamed_walk fuel).1 hfailed
    refine ⟨hblamed.exists_line, fun hcause => ?_⟩
    -- without entering a call an expression comes to no statement at all
    obtain ⟨_, _, _, _, hvisits, -⟩ := hblamed.topLevelReturn hcause
    exact not_ownStatement_nil _ (hvisits.of trivial)

namespace LateReturn

/-- `fun f() { return "a"; }`, declared by an earlier program. -/
def function : Closure := ⟨0, ⟨"f", [], [.ret (some (.literal (.string "a"))) 1]⟩, 0⟩

def machine : Machine :=
  { Machine.new with heap := ⟨#[⟨[("f", .function function)], none⟩]⟩, made := 1 }

/-- `f()` on a line. -/
def call (line : Nat) : Expr := .call (.identifier "f" line) [] line

/-- `f(); { return f(); }` on two lines. -/
def program : List Stmt := [.expression (call 2), .block [.ret (some (call 3)) 3]]

theorem lookup_f (m : Machine) (h : m.heap = machine.heap) :
    m.heap.lookup 0 "f" = .function function := by
  rw [h]
  cbv

end LateReturn

/-- The first `return` is inside a call, the second is not, and its call is not made. -/
theorem lateReturn_fails :
    (∃ t m₁, Visits none (.start LateReturn.program 0 LateReturn.machine) 1
          ⟨.exec (.ret (some (.literal (.string "a"))) 1) t, m₁⟩ ∧
        ∀ fuel fault m₂, exec none fuel (.ret (some (.literal (.string "a"))) 1) t m₁ =
          .failed fault m₂ → fault.cause ≠ .topLevelReturn) ∧
      ∃ t m₁, Visits none (.start LateReturn.program 0 LateReturn.machine) 0
          ⟨.exec (.ret (some (LateReturn.call 3)) 3) t, m₁⟩ ∧
        Settles (runProgram none · LateReturn.program 0 LateReturn.machine)
          (.failed (.atLine .topLevelReturn 3) m₁.counted) := by
  constructor
  · have hf : Evaluates none (.identifier "f" 2) 0 LateReturn.machine.counted
        (.function LateReturn.function) LateReturn.machine.counted :=
      ⟨1, congrArg (Outcome.done · _) (LateReturn.lookup_f _ rfl)⟩
    obtain ⟨t, m₁, hvisits⟩ : ∃ t m₁, Visits none (.start LateReturn.program 0 LateReturn.machine) 1
        ⟨.exec (.ret (some (.literal (.string "a"))) 1) t, m₁⟩ :=
      ⟨_, _, .leads .statement (.leads .expression (.enters
        (.body ⟨⟨_, hf, 0, rfl⟩, rfl⟩ nofun rfl) (.leads .statement (.refl _))))⟩
    exact ⟨t, m₁, hvisits,
      ((return_fails_exactly_outside_functions none _ 0 _).2.1 0 _ 1 t m₁ hvisits).2⟩
  · have hcall : (exec none 4 (.expression (LateReturn.call 2)) 0
        LateReturn.machine).result?.map Prod.fst = some (.normal (.string "a")) := by cbv
    obtain ⟨m', hm'⟩ := Outcome.exists_done_of_result? hcall
    obtain ⟨t, m₁, hvisits⟩ : ∃ t m₁, Visits none (.start LateReturn.program 0 LateReturn.machine) 0
        ⟨.exec (.ret (some (LateReturn.call 3)) 3) t, m₁⟩ :=
      ⟨_, _, .leads (.otherStatements ⟨4, hm'⟩) (.leads .statement
        (.leads (.block rfl) (.leads .statement (.refl _))))⟩
    exact ⟨t, m₁, hvisits,
      ((return_fails_exactly_outside_functions none _ 0 _).1 _ 3 t m₁ hvisits).2⟩

end Lox
