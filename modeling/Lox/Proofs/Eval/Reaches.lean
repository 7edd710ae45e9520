import Lox.Proofs.Eval.Walk

/-!
# What a run does to the machine

A run changes the machine in elementary ways, one after the other: it notes an event, counts
something, makes a scope or a function value, binds a name. The body of a call is the one thing
that is more than a chain, since it stands between an entry and an exit. `Lox.Reaches` says so
once, and an invariant of runs is proved along it, without looking into the tree again.

The first of them is the number of active calls: a run that ends, however it ends, leaves as
many calls active as it found (`Lox.Reaches.depth_eq`).
-/

namespace Lox

/-- **What evaluation can do to a machine.** -/
inductive Reaches : Machine → Machine → Prop
  | refl (m : Machine) : Reaches m m
  | trans {m₁ m₂ m₃ : Machine} : Reaches m₁ m₂ → Reaches m₂ m₃ → Reaches m₁ m₃
  | note (m : Machine) (e : Event) : Reaches m (m.note e)
  | statement (m : Machine) :
      Reaches m { m with stats := { m.stats with statements := m.stats.statements + 1 } }
  | call (m : Machine) :
      Reaches m { m with stats := { m.stats with calls := m.stats.calls + 1 } }
  | scope (m : Machine) (parent : Scope) :
      Reaches m
        (({ m with stats := { m.stats with scopes := m.stats.scopes + 1 } }).newChild parent).2
  | declare (m : Machine) (s : Scope) (name : String) (v : Value) :
      Reaches m (m.declare s name v)
  | closure (m : Machine) : Reaches m { m with made := m.made + 1 }
  /-- The body of a call, from its entry to its exit. -/
  | body {m m' : Machine} : Reaches { m with depth := m.depth + 1 } m' →
      Reaches m { m' with depth := m'.depth - 1 }

/-- **The active calls are as many as before.** -/
theorem Reaches.depth_eq {m m' : Machine} (h : Reaches m m') : m'.depth = m.depth := by
  induction h with
  | refl | note | statement | call | scope | declare | closure => rfl
  | trans _ _ ih₁ ih₂ => exact ih₂.trans ih₁
  | @body m m' _ ih =>
    change m'.depth - 1 = m.depth
    rw [ih, Nat.add_sub_cancel]

/-! ### Computations that evaluation is made of -/

/-- The machine that an outcome leaves, if it leaves one, has a property. -/
def Outcome.Leaves {α : Type} (p : Machine → Prop) : Outcome α → Prop
  | .done _ m => p m
  | .failed _ m => p m
  | .exhausted => True

theorem Outcome.Leaves.of_done {α : Type} {o : Outcome α} {p : Machine → Prop} {a : α} {m : Machine}
    (h : o.Leaves p) (ho : o = .done a m) : p m := by
  rwa [ho] at h

theorem Outcome.Leaves.of_failed {α : Type} {o : Outcome α} {p : Machine → Prop}
    {fault : Located RuntimeFault} {m : Machine} (h : o.Leaves p) (ho : o = .failed fault m) :
    p m := by
  rwa [ho] at h

/-- What a computation is done with, if it is done. -/
def Outcome.result? {α : Type} : Outcome α → Option (α × Machine)
  | .done a m => some (a, m)
  | _ => none

theorem Outcome.eq_done_of_result? {α : Type} {o : Outcome α} {a : α} {m : Machine}
    (h : o.result? = some (a, m)) : o = .done a m := by
  cases o with
  | done b m' =>
    cases h
    rfl
  | _ => cases h

theorem Outcome.exists_done_of_result? {α : Type} {o : Outcome α} {a : α}
    (h : o.result?.map Prod.fst = some a) : ∃ m, o = .done a m := by
  cases o with
  | done b m =>
    cases h
    exact ⟨m, rfl⟩
  | _ => cases h

/-- A computation that does to a machine only what evaluation can do. -/
def Exec.Proceeds {α : Type} (x : Exec α) : Prop := ∀ m, (x m).Leaves (Reaches m)

namespace Exec

variable {α β : Type}

theorem Proceeds.bind {x : Exec α} {f : α → Exec β} (hx : x.Proceeds) (hf : ∀ a, (f a).Proceeds) :
    (x >>= f).Proceeds := by
  intro m
  have h := hx m
  cases hxm : x m with
  | done a m' =>
    rw [hxm] at h
    rw [bind_of_done hxm]
    have h' := hf a m'
    cases hfm : f a m' with
    | done b m'' =>
      rw [hfm] at h'
      exact h.trans h'
    | failed fault m'' =>
      rw [hfm] at h'
      exact h.trans h'
    | exhausted => trivial
  | failed fault m' =>
    rw [hxm] at h
    rw [bind_of_failed hxm]
    exact h
  | exhausted =>
    rw [bind_of_exhausted hxm]
    trivial

theorem Proceeds.nested {x : Exec α} (hx : x.Proceeds) : (nested x).Proceeds := by
  intro m
  have h := hx { m with depth := m.depth + 1 }
  unfold Exec.nested
  cases hxm : x { m with depth := m.depth + 1 } with
  | done a m' =>
    rw [hxm] at h
    exact .body h
  | failed fault m' =>
    rw [hxm] at h
    exact .body h
  | exhausted => trivial

theorem Proceeds.withLine {x : Exec α} (hx : x.Proceeds) (line : Nat) :
    (x.withLine line).Proceeds := by
  intro m
  have h := hx m
  unfold Exec.withLine
  cases hxm : x m with
  | done a m' => rwa [hxm] at h
  | failed fault m' => rwa [hxm] at h
  | exhausted => trivial

theorem proceeds_assign (s : Scope) (name : String) (v : Value) (line : Nat) :
    (assign s name v line).Proceeds := by
  intro m
  unfold assign
  split
  · exact .declare m _ name v
  · exact .refl m

/-- **Evaluation proceeds by elementary changes.** -/
theorem closed_proceeds : Closed Proceeds where
  pure _ m := .refl m
  exhausted _ := trivial
  raise _ _ m := .refl m
  bind := .bind
  nested := .nested
  withLine line hx := hx.withLine line
  read _ m := .refl m
  note e m := .note m e
  countStatement m := .statement m
  countCall m := .call m
  enterBlock parent m := .scope m parent
  declare s name v m := .declare m s name v
  assign := proceeds_assign
  makeClosure _ _ m := .closure m

end Exec

/-! ### Runs -/

section Runs

variable {limit : Option Nat}

theorem proceeds_eval (n : Nat) (e : Expr) (s : Scope) : (eval limit n e s).Proceeds :=
  (Exec.closed_proceeds.walk n).1 e s

theorem proceeds_exec (n : Nat) (stmt : Stmt) (s : Scope) : (exec limit n stmt s).Proceeds :=
  (Exec.closed_proceeds.walk n).2 stmt s

theorem proceeds_runStatements (n : Nat) (s : Scope) (last : Option Value) (program : List Stmt) :
    (runStatements limit n s last program).Proceeds := by
  induction program generalizing last with
  | nil => exact Exec.closed_proceeds.pure last
  | cons stmt rest ih =>
    refine (proceeds_exec n stmt s).bind fun flow => ?_
    cases flow with
    | normal v => exact ih _
    | returned v => exact fun m => .refl m

/-- A program is run with no call active, whatever there was before. -/
theorem reaches_runProgram (limit : Option Nat) (n : Nat) (program : List Stmt) (s : Scope)
    (m : Machine) : (runProgram limit n program s m).Leaves (Reaches { m with depth := 0 }) :=
  proceeds_runStatements n s none program { m with depth := 0 }

end Runs

end Lox
