import Lox.Proofs.Eval.Fuel
import Lox.Proofs.Node

/-!
# Expressions that only read

An expression in which nothing is called and nothing assigned has a value and nothing else. It
always comes to an end, and the machine is afterwards what it was before, also where it fails
(`Lox.call_free_expressions_are_pure`). What it comes to is settled by the values of the names in
it, whatever else there is in the scopes.

The last of these is the one to prove first, since a result that does not depend on the machine can
be named before there is a machine. `Lox.exists_result` fixes the values of the names, finds the
result, and only then lets any machine come that gives the names these values. Not every name need
be looked up: an operand that is not evaluated has a result all the same, and it is left out where
the operands are put together.
-/

namespace Lox

/-! ### Outcomes that leave the machine alone -/

/-- A result or a fault on a machine that is as it was. -/
def Outcome.of {α : Type} (m : Machine) : Except (Located RuntimeFault) α → Outcome α
  | .ok a => .done a m
  | .error fault => .failed fault m

section Outcomes

variable {α β : Type} {m : Machine}

theorem settles_ofExcept (line : Nat) (r : Except RuntimeFault α) (m : Machine) :
    Settles (fun _ => Exec.ofExcept line r m) (.of m (r.mapError (Located.atLine · line))) := by
  cases r <;> exact .const nofun

/-- One computation after another, where the machine is the same all the time. -/
theorem Settles.bind_of {x : Nat → Exec α} {f : Nat → α → Exec β}
    {r : Except (Located RuntimeFault) α} {g : α → Except (Located RuntimeFault) β}
    (hx : Settles (x · m) (.of m r)) (hf : ∀ a, Settles (f · a m) (.of m (g a))) :
    Settles (fun fuel => (x fuel >>= f fuel) m) (.of m (r >>= g)) := by
  cases r with
  | ok a => exact hx.bind_done (hf a)
  | error fault => exact hx.bind_failed

end Outcomes

/-! ### Expressions that only read -/

/-- Whether the operation of a node changes nothing: it is neither a call nor an assignment. -/
def Node.reads : Node → Bool
  | assign .. | call .. => false
  | _ => true

namespace Expr

/-- **An expression that only reads**: there is no call and no assignment in it, at any depth. -/
def ReadsOnly (e : Expr) : Prop := NodesIn (fun node => node.reads = true) e.nodes

/-- The names that are looked up in an expression, or could be. -/
def names (e : Expr) : List String :=
  e.nodes.filterMap fun
    | .identifier name _ => some name
    | _ => none

section Parts

variable {op : BinaryOp} {lop : LogicalOp} {uop : UnaryOp} {left right operand : Expr} {line : Nat}

theorem names_unary : (unary uop operand line).names = operand.names := by
  simp [names, nodes]

theorem names_binary : (binary op left right line).names = left.names ++ right.names := by
  simp [names, nodes]

theorem names_logical : (logical lop left right).names = left.names ++ right.names := by
  simp [names, nodes]

theorem not_readsOnly_assign {name : String} {value : Expr} :
    ¬(assign name value line).ReadsOnly := by
  intro h
  exact Bool.false_ne_true (NodesIn.head h)

theorem not_readsOnly_call {callee : Expr} {args : List Expr} :
    ¬(call callee args line).ReadsOnly := by
  intro h
  exact Bool.false_ne_true (NodesIn.head h)

end Parts

/-- In a scope of a machine the names of an expression have the values that are given. -/
def Sees (look : String → Value) (e : Expr) (s : Scope) (m : Machine) : Prop :=
  ∀ name ∈ e.names, m.heap.lookup s name = look name

end Expr

/-! ### The result -/

/-- **The values of its names settle what an expression comes to**, in all scopes of all machines,
and the machine stays as it is. -/
theorem exists_result (look : String → Value) : ∀ e : Expr, e.ReadsOnly →
    ∃ r : Except (Located RuntimeFault) Value, ∀ limit s m, e.Sees look s m →
      Settles (eval limit · e s m) (.of m r)
  | .literal value, _ =>
    ⟨.ok (.ofLiteral value), fun _ _ _ _ => Settles.of_succ (.const nofun)⟩
  | .identifier name line, _ => by
    refine ⟨.ok (look name), fun limit s m hm => .of_succ ?_⟩
    rw [← hm name List.mem_cons_self]
    exact .const nofun
  | .grouping inner, he => by
    obtain ⟨r, hr⟩ := exists_result look inner he
    exact ⟨r, fun limit s m hm => .of_succ (hr limit s m hm)⟩
  | .unary op operand line, he => by
    obtain ⟨r, hr⟩ := exists_result look operand (NodesIn.tail he)
    refine ⟨r >>= fun v => (v.unary op).mapError (Located.atLine · line), fun limit s m hm => ?_⟩
    rw [Expr.Sees, Expr.names_unary] at hm
    exact .of_succ ((hr limit s m hm).bind_of fun v => settles_ofExcept line (v.unary op) m)
  | .binary op left right line, he => by
    obtain ⟨rl, hl⟩ := exists_result look left (NodesIn.tail he).left
    obtain ⟨rr, hr⟩ := exists_result look right (NodesIn.tail he).right
    refine ⟨rl >>= fun l => rr >>= fun r =>
      (Value.binary op l r).mapError (Located.atLine · line), fun limit s m hm => ?_⟩
    rw [Expr.Sees, Expr.names_binary, List.forall_mem_append] at hm
    exact .of_succ ((hl limit s m hm.1).bind_of fun l => (hr limit s m hm.2).bind_of fun r =>
      settles_ofExcept line (Value.binary op l r) m)
  | .logical op left right, he => by
    obtain ⟨rl, hl⟩ := exists_result look left (NodesIn.left he)
    obtain ⟨rr, hr⟩ := exists_result look right (NodesIn.right he)
    refine ⟨rl >>= fun l => if l.settles op then .ok l else rr, fun limit s m hm => ?_⟩
    rw [Expr.Sees, Expr.names_logical, List.forall_mem_append] at hm
    refine .of_succ ((hl limit s m hm.1).bind_of fun l => ?_)
    -- the result of the right operand is there in any case
    cases l.settles op with
    | true => exact .const nofun
    | false => exact hr limit s m hm.2
  | .assign _ _ _, he => absurd he Expr.not_readsOnly_assign
  | .call _ _ _, he => absurd he Expr.not_readsOnly_call

/-- What settles ends so with any fuel that is enough for it to end. -/
theorem Settles.eq_of_below {α : Type} {x : Nat → Exec α} {o : Outcome α} {m : Machine}
    (hx : ∀ {n n'}, n ≤ n' → (x n).Below (x n')) (h : Settles (x · m) o) (fuel : Nat) :
    x fuel m = .exhausted ∨ x fuel m = o := by
  obtain ⟨-, n, hn⟩ := h
  rw [← hn (max fuel n) (Nat.le_max_right fuel n)]
  exact hx (Nat.le_max_left fuel n) m

/-- **Expressions without calls and assignments are pure.** Such an expression comes to an end, with
a value or with a fault, and leaves the machine exactly as it was. A second evaluation after the
first comes to the same. So does the evaluation in any other scope of any other machine in which
the names of the expression have the same values. -/
theorem call_free_expressions_are_pure {e : Expr} (he : e.ReadsOnly) (limit : Option Nat)
    (s : Scope) (m : Machine) :
    ∃ r : Except (Located RuntimeFault) Value,
      Settles (eval limit · e s m) (.of m r) ∧
      (∀ fuel, eval limit fuel e s m = .exhausted ∨ eval limit fuel e s m = .of m r) ∧
      Settles (fun fuel => (eval limit fuel e s >>= fun v =>
        eval limit fuel e s >>= fun w => pure (v, w)) m) (.of m (r.map fun v => (v, v))) ∧
      ∀ limit' s' m', (∀ name ∈ e.names, m'.heap.lookup s' name = m.heap.lookup s name) →
        Settles (eval limit' · e s' m') (.of m' r) := by
  obtain ⟨r, hr⟩ := exists_result (m.heap.lookup s) e he
  have hself := hr limit s m fun _ _ => rfl
  refine ⟨r, hself, hself.eq_of_below fun h => below_eval h e s, ?_, fun limit' s' m' hm => ?_⟩
  · have htwice := hself.bind_of (f := fun fuel v => eval limit fuel e s >>= fun w => pure (v, w))
      (g := fun v => r >>= fun w => .ok (v, w)) fun v => hself.bind_of fun w => .const nofun
    have hmap : (r >>= fun v => r >>= fun w => .ok (v, w)) = r.map fun v => (v, v) := by
      cases r <;> rfl
    rwa [hmap] at htwice
  · exact hr limit' s' m' hm

/-- `a < (b or nil)` -/
def unboundOperand : Expr :=
  .binary .less (.identifier "a" 1)
    (.grouping (.logical .or (.identifier "b" 2) (.literal .nil))) 1

/-- The machine with one scope, in which `a` is a string. -/
def nothingElse : Machine where
  heap := ⟨#[⟨[("a", .string "x")], none⟩]⟩
  made := 0
  stats := .zero
  depth := 0
  events := #[]

/-- The same name in the scope of a block inside, with other names around it. -/
def muchElse : Machine where
  heap := ⟨#[⟨[("a", .bool true), ("c", .nil)], none⟩, ⟨[("a", .string "x")], some 0⟩]⟩
  made := 0
  stats := ⟨3, 0, 1⟩
  depth := 0
  events := #[]

/-- A comparison that fails on the value of a name that nothing binds fails alike wherever the other
name is the same string. -/
theorem unboundOperand_is_pure :
    let fault : Located RuntimeFault := .atLine (.nilOperand .less (.string "x") .nil) 1
    unboundOperand.ReadsOnly ∧
      (∀ name ∈ unboundOperand.names,
        muchElse.heap.lookup 1 name = nothingElse.heap.lookup 0 name) ∧
      Settles (eval none · unboundOperand 0 nothingElse) (.failed fault nothingElse) ∧
      Settles (eval none · unboundOperand 1 muchElse) (.failed fault muchElse) ∧
      fault.cause.message = "Cannot evaluate < with a nil value: x < nil." := by
  intro fault
  have he : unboundOperand.ReadsOnly := by
    unfold Expr.ReadsOnly NodesIn
    decide
  have hnames : ∀ name ∈ unboundOperand.names,
      muchElse.heap.lookup 1 name = nothingElse.heap.lookup 0 name := by
    have hlist : unboundOperand.names = ["a", "b"] := rfl
    simp only [hlist, List.forall_mem_cons]
    exact ⟨by cbv, by cbv, List.forall_mem_nil _⟩
  have hfails : eval none 5 unboundOperand 0 nothingElse = .failed fault nothingElse := by cbv
  obtain ⟨r, hr, hends, -, hother⟩ := call_free_expressions_are_pure he none 0 nothingElse
  have hfault : r = .error fault := by
    have hend := hends 5
    rw [hfails] at hend
    replace hend := hend.resolve_left fun h => by cases h
    cases r with
    | ok v => cases hend
    | error fault' =>
      cases hend
      rfl
  subst hfault
  exact ⟨he, hnames, hr, hother none 1 muchElse hnames, by decide⟩

end Lox
