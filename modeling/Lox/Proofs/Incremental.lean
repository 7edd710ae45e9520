import Lox.Proofs.Client
import Lox.Proofs.Session

/-!
# Running in parts

A machine that has run a program is as ready for the next one as a machine that has not. Running two
programs one after the other is the same as running them as one (`Lox.runProgram_append`), and what
a run does depends on the scopes and on nothing else that earlier runs have left
(`Lox.runProgram_restarted`).

The one thing that could be in the way is the number of active calls: a failure leaves a call in the
middle of its body, and if it was not taken off the count, a later `return` would be taken for one
in a function, and later calls would find less room. But it is, however a body ends.
-/

namespace Lox

/-! ### One program after another -/

theorem Exec.bind_pure {α : Type} (x : Exec α) : (x >>= fun a => pure a) = x := by
  funext m
  change Exec.bind x Exec.pure m = x m
  unfold Exec.bind
  cases x m <;> rfl

/-- What was shown before matters only to a program with no statements. -/
theorem runStatements_last (limit : Option Nat) (n : Nat) (s : Scope) (last : Option Value)
    (program : List Stmt) :
    runStatements limit n s last program = runStatements limit n s none program >>= fun result =>
      pure (if program.isEmpty then last else result) := by
  cases program with
  | nil => rfl
  | cons stmt rest => exact (Exec.bind_pure _).symm

/-- **A run leaves no call active.** -/
theorem depth_runProgram (limit : Option Nat) (n : Nat) (program : List Stmt) (s : Scope)
    (m : Machine) : (runProgram limit n program s m).Leaves (·.depth = 0) :=
  (reaches_runProgram limit n program s m).mono fun _ h => h.depth_eq

/-- **Two programs run one after the other as they run as one**, whether or not they fail. -/
theorem runProgram_append (limit : Option Nat) (n : Nat) (s : Scope) (p q : List Stmt) :
    runProgram limit n (p ++ q) s = runProgram limit n p s >>= fun last =>
      runProgram limit n q s >>= fun result => pure (if q.isEmpty then last else result) := by
  funext m
  have hall : runProgram limit n (p ++ q) s m =
      (runProgram limit n p s >>= fun last => runStatements limit n s last q) m := by
    change runStatements limit n s none (p ++ q) { m with depth := 0 } = _
    rw [runStatements_append]
    rfl
  rw [hall]
  cases hp : runProgram limit n p s m with
  | done last m₁ =>
    -- no call is active, so that the second program begins where the first has ended
    have hdepth : m₁ = { m₁ with depth := 0 } := by
      rw [← (depth_runProgram limit n p s m).of_done hp]
    rw [Exec.bind_of_done hp, Exec.bind_of_done hp, runStatements_last]
    nth_rewrite 1 [hdepth]
    rfl
  | failed fault m₁ => rw [Exec.bind_of_failed hp, Exec.bind_of_failed hp]
  | exhausted => rw [Exec.bind_of_exhausted hp, Exec.bind_of_exhausted hp]

/-- **What comes of two programs that are run in turn**, the second on the machine that the first
leaves, and only if the first is done. -/
inductive SettleInTurn (limit : Option Nat) (s : Scope) (p q : List Stmt) (m : Machine) :
    Outcome (Option Value) → Prop
  | firstFails {fault : Located RuntimeFault} {m₁ : Machine} :
      Settles (runProgram limit · p s m) (.failed fault m₁) →
      SettleInTurn limit s p q m (.failed fault m₁)
  | secondFails {last : Option Value} {fault : Located RuntimeFault} {m₁ m₂ : Machine} :
      Settles (runProgram limit · p s m) (.done last m₁) →
      Settles (runProgram limit · q s m₁) (.failed fault m₂) →
      SettleInTurn limit s p q m (.failed fault m₂)
  /-- The second program says what is shown, unless it has no statements. -/
  | bothDone {last result : Option Value} {m₁ m₂ : Machine} :
      Settles (runProgram limit · p s m) (.done last m₁) →
      Settles (runProgram limit · q s m₁) (.done result m₂) →
      SettleInTurn limit s p q m (.done (if q.isEmpty then last else result) m₂)

/-- **Two programs settle as one on what they settle on in turn.** -/
theorem settles_append (limit : Option Nat) (s : Scope) (p q : List Stmt) (m : Machine)
    (o : Outcome (Option Value)) :
    Settles (runProgram limit · (p ++ q) s m) o ↔ SettleInTurn limit s p q m o := by
  simp only [runProgram_append]
  constructor
  · rintro ⟨ho, n, hn⟩
    have hboth := hn n le_rfl
    beta_reduce at hboth
    subst hboth
    cases hp : runProgram limit n p s m with
    | failed fault m₁ =>
      rw [Exec.bind_of_failed hp]
      exact .firstFails (settles_runProgram hp nofun)
    | done last m₁ =>
      have hfirst := settles_runProgram hp nofun
      rw [Exec.bind_of_done hp] at ho ⊢
      cases hq : runProgram limit n q s m₁ with
      | failed fault m₂ =>
        rw [Exec.bind_of_failed hq]
        exact .secondFails hfirst (settles_runProgram hq nofun)
      | done result m₂ =>
        rw [Exec.bind_of_done hq]
        exact .bothDone hfirst (settles_runProgram hq nofun)
      | exhausted => exact absurd (Exec.bind_of_exhausted hq) ho
    | exhausted => exact absurd (Exec.bind_of_exhausted hp) ho
  · rintro (hp | ⟨hp, hq⟩ | ⟨hp, hq⟩)
    · exact hp.bind_failed
    · exact hp.bind_done hq.bind_failed
    · exact hp.bind_done (hq.bind_done (.const nofun))

/-! ### What earlier runs have left -/

/-- **What a run does depends on the scopes alone**: the counts, the events and the calls that are
active have no part in it. -/
theorem runProgram_restarted (limit : Option Nat) (n : Nat) (program : List Stmt) (s : Scope)
    (m : Machine) :
    runProgram limit n program s m =
      (runProgram limit n program s m.restarted).onMachine (·.behind m) := by
  rw [← runProgram_behind, m.restarted_behind]
  rfl

theorem eval_restarted (limit : Option Nat) (n : Nat) (e : Expr) (s : Scope) {m : Machine}
    (hm : m.depth = 0) :
    eval limit n e s m = (eval limit n e s m.restarted).onMachine (·.behind m) := by
  rw [← eval_behind, m.restarted_behind, ← hm]

/-- **No call is active between the operations of a client.** -/
theorem Client.Reached.depth_eq {c : Client} (h : c.Reached) : c.machine.depth = 0 := by
  induction h with
  | refl => rfl
  | tail _ hstep ih =>
    cases hstep with
    | assign _ _ hm =>
      obtain ⟨o, -, rfl⟩ := Machine.exists_owner_of_assign hm
      exact ih
    | run _ hrun => exact (depth_runProgram ..).of_done hrun
    | runFailed _ hrun => exact (depth_runProgram ..).of_failed hrun
    | runFresh hrun => exact (depth_runProgram ..).of_done hrun
    | runFreshFailed hrun => exact (depth_runProgram ..).of_failed hrun
    | eval _ heval => exact ((proceeds_eval _ _ _ _).of_done heval).depth_eq.trans ih
    | evalFailed _ heval => exact ((proceeds_eval _ _ _ _).of_failed heval).depth_eq.trans ih
    | restart => rfl
    | _ => exact ih

/-! ### The result -/

/-- **Running is incremental and leaves no hidden state.** Executing, evaluating and the body of a
call, where one is taken off in the end, leave as many calls active as there were, however they end;
a program may be cut in two anywhere; and neither a program nor, whatever a client has done, an
expression depends on what was counted, printed or left undone before. -/
theorem runs_leave_no_hidden_state (limit : Option Nat) (fuel : Nat) (s : Scope) :
    (∀ stmt m, (exec limit fuel stmt s m).Leaves (·.depth = m.depth)) ∧
      (∀ e m, (eval limit fuel e s m).Leaves (·.depth = m.depth)) ∧
      (∀ body (m : Machine), (runBody (exec limit fuel · s) body
        { m with depth := m.depth + 1 }).Leaves (·.depth = m.depth + 1)) ∧
      (∀ p q, runProgram limit fuel (p ++ q) s = runProgram limit fuel p s >>= fun last =>
        runProgram limit fuel q s >>= fun result => pure (if q.isEmpty then last else result)) ∧
      (∀ p q m o, Settles (runProgram limit · (p ++ q) s m) o ↔ SettleInTurn limit s p q m o) ∧
      (∀ program m, (runProgram limit fuel program s m).Leaves (·.depth = 0) ∧
        runProgram limit fuel program s m =
          (runProgram limit fuel program s m.restarted).onMachine (·.behind m)) ∧
      ∀ c : Client, c.Reached → c.machine.depth = 0 ∧
        ∀ e, eval limit fuel e s c.machine =
          (eval limit fuel e s c.machine.restarted).onMachine (·.behind c.machine) := by
  refine ⟨?_, ?_, ?_, ?_, ?_, ?_, ?_⟩
  · exact fun stmt m => (proceeds_exec fuel stmt s m).mono fun _ h => h.depth_eq
  · exact fun e m => (proceeds_eval fuel e s m).mono fun _ h => h.depth_eq
  · intro body m
    have hbody : (runBody (exec limit fuel · s) body).Proceeds :=
      Exec.closed_proceeds.runBody (fun stmt => proceeds_exec fuel stmt s) body
    exact (hbody { m with depth := m.depth + 1 }).mono fun _ h => h.depth_eq
  · exact runProgram_append limit fuel s
  · exact settles_append limit s
  · exact fun program m =>
      ⟨depth_runProgram limit fuel program s m, runProgram_restarted limit fuel program s m⟩
  · intro c hc
    exact ⟨hc.depth_eq, fun e => eval_restarted limit fuel e s hc.depth_eq⟩

/-- `fun f() { return -nil; }` and `f();` -/
def failsInside : List Stmt × List Stmt :=
  ([.function "f" [] [.ret (some (.unary .negate (.literal .nil) 1)) 1]],
    [.expression (.call (.identifier "f" 2) [] 2)])

/-- A call that fails in the body of a function leaves no call active: the two parts fail as the
whole does, and an expression evaluated after that is none the wiser. -/
theorem no_call_active_after_failure :
    ∃ fault m, runProgram (some maxDepth) 9 (failsInside.1 ++ failsInside.2) 0
        Machine.new.newRoot.2 = .failed fault m ∧
      Client.Reached ⟨m, [0], []⟩ ∧ m.depth = 0 ∧
      eval (some maxDepth) 9 (.identifier "f" 3) 0 m =
        (eval (some maxDepth) 9 (.identifier "f" 3) 0 m.restarted).onMachine (·.behind m) := by
  have hfails : (runProgram (some maxDepth) 9 (failsInside.1 ++ failsInside.2) 0
      Machine.new.newRoot.2).failure?.isSome = true := by cbv
  obtain ⟨⟨fault, m⟩, hfailure⟩ := Option.isSome_iff_exists.mp hfails
  have hrun := Outcome.eq_failed_of_failure? hfailure
  have hreached : Client.Reached ⟨m, [0], []⟩ :=
    .tail (.single .newRoot) (.runFailed List.mem_cons_self hrun)
  obtain ⟨-, -, -, -, -, -, hclient⟩ := runs_leave_no_hidden_state (some maxDepth) 9 0
  obtain ⟨hdepth, heval⟩ := hclient _ hreached
  exact ⟨fault, m, hrun, hreached, hdepth, heval (.identifier "f" 3)⟩

end Lox
