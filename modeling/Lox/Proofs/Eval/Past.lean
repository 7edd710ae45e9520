import Lox.Proofs.Eval.Simulation
import Mathlib.Order.CompleteBooleanAlgebra
import Mathlib.Order.CompletePartialOrder

/-!
# Fuel and past

Two things that a run is given are no part of what it does. One is its fuel: a run that ends with
some amount of it ends in the same way with any larger amount (`Lox.runProgram_add`), so that a run
that ends at all *settles* on one outcome (`Lox.Settles`). The other is the past of the machine,
what has been counted and what has happened so far. A run only adds to that, and what it adds does
not depend on it (`Lox.runProgram_behind`).

Nothing has to be proved about the tree for either of them. A machine is simulated by the same
machine with a past in front of its own and with fuel to spare.
-/

namespace Lox

variable {α β : Type}

/-! ### Machines with a past -/

/-- The machine with the past of another in front of its own: what has been counted, and what has
happened. -/
def Machine.behind (m past : Machine) : Machine :=
  { m with stats := past.stats + m.stats, events := past.events ++ m.events }

theorem Stats.zero_add (k : Stats) : Stats.zero + k = k := by
  change Stats.mk (0 + _) (0 + _) (0 + _) = _
  simp only [Nat.zero_add]

theorem Stats.add_zero (k : Stats) : k + Stats.zero = k := by
  change Stats.mk (_ + 0) (_ + 0) (_ + 0) = _
  simp only [Nat.add_zero]

theorem Stats.add_assoc (a b c : Stats) : a + b + c = a + (b + c) := by
  change Stats.mk (_ + _ + _) (_ + _ + _) (_ + _ + _) =
    Stats.mk (_ + (_ + _)) (_ + (_ + _)) (_ + (_ + _))
  simp only [Nat.add_assoc]

theorem Machine.behind_new (m : Machine) : m.behind .new = m := by
  simp only [behind, new, Stats.zero_add, Array.empty_append]

/-- The same scopes, on a machine that has done nothing else yet. -/
def Machine.restarted (m : Machine) : Machine :=
  { m with stats := .zero, depth := 0, events := #[] }

theorem Machine.restarted_behind (m : Machine) : m.restarted.behind m = { m with depth := 0 } := by
  simp only [behind, restarted, Stats.add_zero, Array.append_empty]

/-- Every machine is simulated by itself with another past, and with `k` units of fuel more. -/
def Simulation.behind (past : Machine) (k : Nat) : Simulation Unit where
  spare := k
  code _ := True
  machine _ m m' := m' = m.behind past
  scope _ s s' := s' = s
  view _ s s' := s' = s
  closure _ c d := d = c
  code_part _ _ := trivial
  scope_mono _ h := h
  view_mono _ h := h
  view_of_scope h := h
  closure_mono _ h := h
  closure_id h := by rw [h]
  closure_function h := by rw [h]
  closure_scope h := by rw [h]
  closure_code _ _ _ := trivial
  depth_eq := by
    rintro _ m _ rfl
    rfl
  depth := by
    rintro _ m _ rfl k
    rfl
  tally := by
    rintro _ m _ rfl k
    simp only [Machine.tally, Machine.behind, Stats.add_assoc]
  note := by
    rintro _ m _ e rfl _
    simp only [Machine.note, Machine.behind, Array.push_append]
  print := by
    rintro _ m _ v v' rfl hv
    rw [hv.eq fun _ _ => id]
    simp only [Machine.note, Machine.behind, Array.push_append]
  lookup := by
    rintro _ m _ _ s rfl rfl name
    exact Value.Corresponds.refl (R := fun c d => d = c) (fun _ => rfl) (m.heap.lookup s name)
  owner := by
    rintro _ m _ _ s rfl rfl name
    change Option.Rel _ (m.heap.owner? s name) (m.heap.owner? s name)
    cases m.heap.owner? s name with
    | none => exact .none
    | some o => exact .some rfl
  declare := by
    rintro _ m _ s _ v v' rfl rfl hv name
    rw [hv.eq fun _ _ => id]
    rfl
  child := by
    rintro w m _ s _ rfl rfl
    exact ⟨w, le_rfl, rfl, rfl⟩
  make := by
    rintro w m _ s _ f rfl rfl _
    exact ⟨w, le_rfl, rfl, rfl⟩

theorem copies_behind (past : Machine) (k : Nat) :
    (Simulation.behind past k).Copies (·.behind past) := ⟨id, id⟩

/-- **An expression is evaluated the same whatever the past of the machine.** -/
theorem eval_behind (limit : Option Nat) (n : Nat) (e : Expr) (s : Scope) (m past : Machine) :
    eval limit n e s (m.behind past) = (eval limit n e s m).onMachine (·.behind past) :=
  ((copies_behind past 0).eval (w := ()) limit n e rfl rfl).resolve_left fun h => h.2 rfl

/-- **A program runs the same whatever the past of the machine.** -/
theorem runProgram_behind (limit : Option Nat) (n : Nat) (program : List Stmt) (s : Scope)
    (m past : Machine) :
    runProgram limit n program s (m.behind past) =
      (runProgram limit n program s m).onMachine (·.behind past) :=
  ((copies_behind past 0).runProgram (w := ()) limit n (fun _ _ => trivial) rfl rfl).resolve_left
    fun h => h.2 rfl

/-! ### Fuel -/

/-- **A computation settles on an outcome**: it ends, and from some amount of fuel on always in
that way. -/
def Settles (x : Nat → Outcome α) (o : Outcome α) : Prop :=
  o ≠ .exhausted ∧ ∃ n, ∀ fuel, n ≤ fuel → x fuel = o

/-- **More fuel changes nothing**, once there is enough. -/
theorem runProgram_add (limit : Option Nat) (n k : Nat) (program : List Stmt) (s : Scope)
    (m : Machine) (h : runProgram limit n program s m ≠ .exhausted) :
    runProgram limit (n + k) program s m = runProgram limit n program s m := by
  have hcopy : runProgram limit n program s m = .exhausted ∧ k ≠ 0 ∨
      runProgram limit (n + k) program s (m.behind .new) =
        (runProgram limit n program s m).onMachine (·.behind .new) :=
    (copies_behind .new k).runProgram (w := ()) limit n (fun _ _ => trivial) rfl rfl
  have hnew : (Machine.behind · .new) = id := funext Machine.behind_new
  rw [m.behind_new, hnew, Outcome.onMachine_id] at hcopy
  exact hcopy.resolve_left fun h' => h h'.1

/-- A program that ends settles on how it ends. -/
theorem settles_runProgram {limit : Option Nat} {n : Nat} {program : List Stmt} {s : Scope}
    {m : Machine} {o : Outcome (Option Value)} (h : runProgram limit n program s m = o)
    (ho : o ≠ .exhausted) : Settles (runProgram limit · program s m) o := by
  refine ⟨ho, n, fun fuel hfuel => ?_⟩
  obtain ⟨k, rfl⟩ := Nat.exists_eq_add_of_le hfuel
  exact (runProgram_add limit n k program s m (h ▸ ho)).trans h

/-! ### Settling part by part -/

namespace Settles

variable {x : Nat → Exec α} {f : Nat → α → Exec β} {o : Outcome β} {m m' : Machine} {a : α}
  {fault : Located RuntimeFault}

theorem const {o : Outcome α} (ho : o ≠ .exhausted) : Settles (fun _ => o) o :=
  ⟨ho, 0, fun _ _ => rfl⟩

theorem of_succ {x : Nat → Outcome α} {o : Outcome α} (h : Settles (fun fuel => x (fuel + 1)) o) :
    Settles x o := by
  obtain ⟨ho, n, hn⟩ := h
  refine ⟨ho, n + 1, fun fuel hfuel => ?_⟩
  obtain ⟨k, rfl⟩ := Nat.exists_eq_add_of_le hfuel
  rw [Nat.add_right_comm]
  exact hn (n + k) (Nat.le_add_right n k)

theorem exists_eq {x : Nat → Outcome α} {o : Outcome α} (h : Settles x o) : ∃ fuel, x fuel = o := by
  obtain ⟨-, n, hn⟩ := h
  exact ⟨n, hn n (Nat.le_refl n)⟩

theorem bind_done (hx : Settles (x · m) (.done a m')) (hf : Settles (f · a m') o) :
    Settles (fun fuel => (x fuel >>= f fuel) m) o := by
  obtain ⟨-, n, hn⟩ := hx
  obtain ⟨ho, n', hn'⟩ := hf
  refine ⟨ho, max n n', fun fuel hfuel => ?_⟩
  exact (Exec.bind_of_done (hn fuel (by omega))).trans (hn' fuel (by omega))

theorem bind_failed (hx : Settles (x · m) (.failed fault m')) :
    Settles (fun fuel => (x fuel >>= f fuel) m) (.failed fault m') := by
  obtain ⟨-, n, hn⟩ := hx
  exact ⟨nofun, n, fun fuel hfuel => Exec.bind_of_failed (hn fuel hfuel)⟩

theorem exists_nested {o : Outcome α} (hx : Settles (x · { m with depth := m.depth + 1 }) o) :
    ∃ o, Settles (fun fuel => Exec.nested (x fuel) m) o := by
  obtain ⟨ho, n, hn⟩ := hx
  have hnested : ∀ fuel, n ≤ fuel → Exec.nested (x fuel) m =
      o.onMachine fun m => { m with depth := m.depth - 1 } := by
    intro fuel hfuel
    have hx : x fuel { m with depth := m.depth + 1 } = o := hn fuel hfuel
    unfold Exec.nested
    rw [hx]
    cases o <;> rfl
  refine ⟨_, ?_, n, hnested⟩
  cases o with
  | done a m => exact nofun
  | failed fault m => exact nofun
  | exhausted => exact absurd rfl ho

end Settles

end Lox
