import Lox.Proofs.Eval.Walk

/-!
# Every fault has a line

A call fills in its own line where a fault of its body has none (`Lox.Exec.withLine`). Were there
such a fault, it would be reported at the call and not where it is raised. There is none: whatever
an evaluation is made of raises its faults with a line (`Lox.Exec.Lined`), and so does the
evaluation, at any depth of calls (`Lox.Exec.closed_lined`).

So a call hands on what its body has raised, as it is. `Lox.eval_call` is the equation for a call
that says this, and what is proved about calls starts from there.
-/

namespace Lox

/-- A computation whose faults all have a line. -/
def Exec.Lined {α : Type} (x : Exec α) : Prop :=
  ∀ m fault m', x m = .failed fault m' → fault.line.isSome

namespace Exec

variable {α β : Type}

theorem lined_of_done {x : Exec α} (h : ∀ m, ∃ a m', x m = .done a m') : x.Lined := by
  intro m fault m' hfailed
  obtain ⟨a, m₁, hdone⟩ := h m
  rw [hdone] at hfailed
  cases hfailed

theorem lined_raise (cause : RuntimeFault) (line : Nat) : (raise cause line : Exec α).Lined := by
  intro m fault m' h
  cases h
  rfl

theorem lined_assign (s : Scope) (name : String) (v : Value) (line : Nat) :
    (assign s name v line).Lined := by
  intro m fault m' h
  unfold assign at h
  split at h <;> cases h
  rfl

theorem Lined.bind {x : Exec α} {f : α → Exec β} (hx : x.Lined) (hf : ∀ a, (f a).Lined) :
    (x >>= f).Lined := by
  intro m fault m' h
  rcases failed_of_bind h with h | ⟨a, m₁, -, h⟩
  · exact hx m fault m' h
  · exact hf a m₁ fault m' h

theorem Lined.nested {x : Exec α} (hx : x.Lined) : (nested x).Lined := by
  intro m fault m' h
  unfold Exec.nested at h
  split at h <;> cases h
  next hfailed => exact hx _ fault _ hfailed

/-- What is passed on with a line has one. -/
theorem lined_withLine (x : Exec α) (line : Nat) : (x.withLine line).Lined := by
  intro m fault m' h
  unfold withLine at h
  split at h <;> cases h
  exact Located.isSome_line_withLine _ line

/-- **Every fault of an evaluation has a line.** -/
theorem closed_lined : Closed Lined where
  pure a := lined_of_done fun m => ⟨a, m, rfl⟩
  exhausted _ _ _ := nofun
  raise := lined_raise
  bind := .bind
  nested := .nested
  withLine line _ := lined_withLine _ line
  read f := lined_of_done fun m => ⟨f m, m, rfl⟩
  note e := lined_of_done fun m => ⟨(), m.note e, rfl⟩
  countStatement := lined_of_done fun _ => ⟨(), _, rfl⟩
  countCall := lined_of_done fun _ => ⟨(), _, rfl⟩
  enterBlock _ := lined_of_done fun _ => ⟨_, _, rfl⟩
  declare s name v := lined_of_done fun m => ⟨(), m.declare s name v, rfl⟩
  assign := lined_assign
  makeClosure _ _ := lined_of_done fun _ => ⟨_, _, rfl⟩

/-- **What has a line already is passed on as it is.** -/
theorem Lined.withLine_eq {x : Exec α} (hx : x.Lined) (line : Nat) : x.withLine line = x := by
  funext m
  unfold withLine
  cases h : x m with
  | done a m' => rfl
  | failed fault m' =>
    exact congrArg (Outcome.failed · m') (Located.withLine_of_isSome (hx m fault m' h) line)
  | exhausted => rfl

end Exec

/-- **A call hands on the faults of its body as they are.** -/
theorem eval_call (limit : Option Nat) (n : Nat) (f : Expr) (args : List Expr) (line : Nat)
    (s : Scope) : eval limit (n + 1) (.call f args line) s = (do
      let f ← eval limit n f s
      let f ← callee line f
      let vs ← evalAll (fun arg => eval limit n arg s) args
      invoke limit (fun stmt scope => exec limit n stmt scope) f vs line) := by
  have hinvoke (c : Closure) (vs : List Value) :
      (invoke limit (fun stmt scope => exec limit n stmt scope) c vs line).withLine line =
        invoke limit (fun stmt scope => exec limit n stmt scope) c vs line :=
    (Exec.closed_lined.invoke (Exec.closed_lined.walk n).2 c vs line).withLine_eq line
  rw [eval]
  simp only [hinvoke]

end Lox
