import Lox.Proofs.Eval.Past

/-!
# More and less fuel

Fuel bounds a computation and is no part of what it does. A computation that is given less of it
*falls short* of one that is given more (`Lox.Exec.Below`): it runs out, or it does the same. This
is an order, and everything that computations are put together with respects it.

So two ways to spend the fuel can be compared without counting it. If each of two computations
falls short of the other, once that one has some more fuel, then they settle on the same outcomes
(`Lox.settles_iff_of_below`).
-/

namespace Lox

variable {α β : Type}

/-- **A computation falls short of another**: it runs out of fuel, or it does the same. -/
def Exec.Below (x y : Exec α) : Prop := ∀ m, x m = .exhausted ∨ x m = y m

namespace Exec

variable {x y z : Exec α}

theorem Below.refl (x : Exec α) : x.Below x := fun _ => .inr rfl

theorem Below.trans (h : x.Below y) (h' : y.Below z) : x.Below z := by
  intro m
  rcases h m with hm | hm
  · exact .inl hm
  · rw [hm]
    exact h' m

theorem exhausted_below (x : Exec α) : (exhausted : Exec α).Below x := fun _ => .inl rfl

/-- What ends with less fuel ends in the same way with more. -/
theorem Below.eq {m : Machine} {o : Outcome α} (h : x.Below y) (hx : x m = o)
    (ho : o ≠ .exhausted) : y m = o := by
  rcases h m with hm | hm
  · exact absurd (hx.symm.trans hm) ho
  · exact hm.symm.trans hx

theorem Below.bind {f g : α → Exec β} (h : x.Below y) (hf : ∀ a, (f a).Below (g a)) :
    (x >>= f).Below (y >>= g) := by
  intro m
  cases hx : x m with
  | done a m' =>
    rw [bind_of_done hx, bind_of_done (h.eq hx nofun)]
    exact hf a m'
  | failed fault m' =>
    rw [bind_of_failed hx, bind_of_failed (h.eq hx nofun)]
    exact .inr rfl
  | exhausted => exact .inl (bind_of_exhausted hx)

end Exec

/-! ### The walk -/

section Walk

variable {limit : Option Nat}

theorem below_runLoop {cond cond' : Exec Value} {body body' : Exec Flow} (hcond : cond.Below cond')
    (hbody : body.Below body') {rounds rounds' : Nat} (hrounds : rounds ≤ rounds') :
    (runLoop cond body rounds).Below (runLoop cond' body' rounds') := by
  induction rounds generalizing rounds' with
  | zero => exact Exec.exhausted_below _
  | succ rounds ih =>
    obtain ⟨k, rfl⟩ := Nat.exists_eq_add_of_le hrounds
    rw [Nat.add_right_comm]
    refine hcond.bind fun v => ?_
    split
    · refine hbody.bind fun flow => ?_
      cases flow with
      | normal w => exact ih (Nat.le_add_right rounds k)
      | returned w => exact .refl _
    · exact .refl _

/-- What is simulated by itself with fuel to spare falls short of itself with that fuel. -/
theorem below_of_ends {n k : Nat} {x : Nat → Exec α} {P : Unit → α → α → Prop}
    (hP : ∀ {w a b}, P w a b → b = a)
    (h : ∀ m, (Simulation.behind .new k).Ends () P (x n m) (x (n + k) (m.behind .new))) :
    (x n).Below (x (n + k)) := by
  intro m
  have hnew : (Machine.behind · .new) = id := funext Machine.behind_new
  have hends := (copies_behind .new k).ends (h m) hP
  rw [m.behind_new, hnew, Outcome.onMachine_id] at hends
  exact hends.imp And.left Eq.symm

/-- **Evaluation with less fuel falls short of evaluation with more.** -/
theorem below_eval {n n' : Nat} (h : n ≤ n') (e : Expr) (s : Scope) :
    (eval limit n e s).Below (eval limit n' e s) := by
  obtain ⟨k, rfl⟩ := Nat.exists_eq_add_of_le h
  exact below_of_ends (x := fun n => eval limit n e s) (copies_behind .new k).value_eq fun _ =>
    Simulation.ends_eval limit n e rfl rfl

/-- **Execution with less fuel falls short of execution with more.** -/
theorem below_exec {n n' : Nat} (h : n ≤ n') (stmt : Stmt) (s : Scope) :
    (exec limit n stmt s).Below (exec limit n' stmt s) := by
  obtain ⟨k, rfl⟩ := Nat.exists_eq_add_of_le h
  refine below_of_ends (x := fun n => exec limit n stmt s) (fun h => ?_) fun _ =>
    Simulation.ends_exec limit n trivial rfl rfl
  cases h with
  | normal h => rw [(copies_behind .new k).value_eq h]
  | returned h => rw [(copies_behind .new k).value_eq h]

end Walk

/-! ### Settling -/

section Settling

variable {x y : Nat → Exec α} {o : Outcome α} {m : Machine}

/-- A computation that ends settles on how it ends, if more fuel only adds to it. -/
theorem settles_of_below {n : Nat} (hx : ∀ {n'}, n ≤ n' → (x n).Below (x n')) (h : x n m = o)
    (ho : o ≠ .exhausted) : Settles (x · m) o :=
  ⟨ho, n, fun _ hfuel => (hx hfuel).eq h ho⟩

/-- **Two computations settle on the same outcomes** if each falls short of the other, be it with
more fuel. -/
theorem settles_iff_of_below {k : Nat} (hxy : ∀ n, (x (n + k)).Below (y (n + k)))
    (hyx : ∀ n, (y n).Below (x (n + k))) : Settles (x · m) o ↔ Settles (y · m) o := by
  constructor
  · rintro ⟨ho, n, hn⟩
    refine ⟨ho, n + k, fun fuel hfuel => ?_⟩
    obtain ⟨j, rfl⟩ := Nat.exists_eq_add_of_le hfuel
    rw [Nat.add_right_comm]
    exact (hxy (n + j)).eq (hn (n + j + k) (by omega)) ho
  · rintro ⟨ho, n, hn⟩
    refine ⟨ho, n + k, fun fuel hfuel => ?_⟩
    obtain ⟨j, rfl⟩ := Nat.exists_eq_add_of_le hfuel
    rw [Nat.add_right_comm]
    exact (hyx (n + j)).eq (hn (n + j) (by omega)) ho

end Settling

end Lox
