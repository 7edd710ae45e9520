import Lox.Proofs.Eval.Invariant
import Lox.Proofs.Eval.TopLevelReturn
import Lox.Proofs.Ownership

/-!
# Values are handed on

A value is bound to a name, assigned, passed to a function, returned from it, printed, or selected
by `and` or `or`. None of this makes a value: what is there afterwards is the value itself, and not
one that looks like it (`Lox.HandsOn`). Of function values this can be told.

The longest way is that from a `return` to its call. It leads through all the blocks, branches and
loops in between, and each of them hands on what a part of it returns (`Lox.Leads.returns`), so that
the value of the call is the one that the `return` has found.
-/

namespace Lox

/-! ### Reading what was bound -/

namespace Heap

variable {h : Heap} {s t o : Scope} {name other : String} {v : Value}

theorem value?_declare_self (hs : s < h.frames.size) (name : String) (v : Value) :
    Bindings.value? name ((h.declare s name v).vars s) = some v := by
  rw [vars_declare hs, if_pos rfl, Bindings.value?_insert_self]

theorem value?_declare_of_ne (hs : s < h.frames.size) (hne : name ≠ other) (v : Value) :
    Bindings.value? name ((h.declare s other v).vars s) = Bindings.value? name (h.vars s) := by
  rw [vars_declare hs, if_pos rfl, Bindings.value?_insert_of_ne hne]

/-- **What is bound to a name is read from it.** -/
theorem lookup_declare_self (hs : s < h.frames.size) (name : String) (v : Value) :
    (h.declare s name v).lookup s name = v := lookup_of_value? (value?_declare_self hs name v)

theorem lt_size_of_owner? (ho : h.owner? t name = some o) : o < h.frames.size :=
  lt_size_of_mem_names (mem_names_of_owner? ho)

/-- The owner of a name is still the same when the name has a new value there. -/
theorem owner?_declare (ho : h.owner? t name = some o) (v : Value) :
    (h.declare o name v).owner? t name = some o := by
  have hsize := lt_size_of_owner? ho
  induction t using Nat.strongRecOn with
  | ind t ih =>
    by_cases ht : o = t
    · subst ht
      exact owner?_of_mem ((h.mem_names_declare o o name name v).mpr (.inr ⟨rfl, hsize, rfl⟩))
    · rw [owner?] at ho ⊢
      rw [vars_declare hsize, if_neg ht, parent?_declare]
      split at ho
      · exact absurd (Option.some.inj ho).symm ht
      · next hbound =>
        rw [if_neg hbound]
        cases hp : h.parent? t with
        | none =>
          rw [hp] at ho
          cases ho
        | some p =>
          rw [hp] at ho
          dsimp only at ho ⊢
          split at ho
          · next hlt =>
            rw [if_pos hlt]
            exact ih p hlt ho
          · cases ho

/-- **What is assigned to a name is read from it.** -/
theorem lookup_declare_owner (ho : h.owner? t name = some o) (v : Value) :
    (h.declare o name v).lookup t name = v := by
  rw [lookup_eq_owner?, owner?_declare ho v]
  simp only [value?_declare_self (lt_size_of_owner? ho), Option.getD_some]

end Heap

namespace Machine

variable {m : Machine} {s : Scope} {name : String} {v : Value}

/-- The machine with names bound to values one after the other. -/
def declareAll (m : Machine) (s : Scope) (bs : List (String × Value)) : Machine :=
  bs.foldl (fun m b => m.declare s b.1 b.2) m

theorem size_declareAll (m : Machine) (s : Scope) (bs : List (String × Value)) :
    (m.declareAll s bs).heap.frames.size = m.heap.frames.size := by
  induction bs generalizing m with
  | nil => rfl
  | cons b bs ih => exact (ih _).trans (Heap.size_declare ..)

/-- The last value that a name is bound to is read from it. -/
theorem lookup_declareAll (hs : s < m.heap.frames.size) {before after : List (String × Value)}
    (hafter : ∀ b ∈ after, name ≠ b.1) :
    (m.declareAll s (before ++ (name, v) :: after)).heap.lookup s name = v := by
  have hlater (m : Machine) (hs : s < m.heap.frames.size)
      (hv : Bindings.value? name (m.heap.vars s) = some v) :
      (m.declareAll s after).heap.lookup s name = v := by
    induction after generalizing m with
    | nil => exact Heap.lookup_of_value? hv
    | cons b after ih =>
      obtain ⟨hb, hafter⟩ := List.forall_mem_cons.mp hafter
      refine ih hafter _ (hs.trans_eq (Heap.size_declare ..).symm) ?_
      exact (Heap.value?_declare_of_ne hs hb b.2).trans hv
  have hs' : s < (m.declareAll s before).heap.frames.size := hs.trans_eq (size_declareAll ..).symm
  unfold declareAll at hlater hs' ⊢
  rw [List.foldl_append]
  exact hlater _ (hs'.trans_eq (Heap.size_declare ..).symm) (Heap.value?_declare_self hs' name v)

end Machine

theorem Exec.declareAll_eq (s : Scope) (bs : List (String × Value)) (m : Machine) :
    Exec.declareAll s bs m = .done () (m.declareAll s bs) := by
  induction bs generalizing m with
  | nil => rfl
  | cons b bs ih => exact ih _

/-- The scope of a call, and what is bound in it. -/
theorem enterCall_done (f : Closure) (args : List Value) (m : Machine) :
    enterCall f args m = .done m.heap.frames.size
      ((m.called f).declareAll m.heap.frames.size (f.function.params.zip args)) := by
  rw [enterCall_eq, Exec.bind_of_done (Exec.declareAll_eq ..)]
  rfl

/-- **A parameter is read as its argument**, if no later one has its name. -/
theorem lookup_enterCall {f : Closure} {args : List Value} {m m' : Machine} {inner : Scope}
    (h : enterCall f args m = .done inner m') {before after : List (String × Value)} {name : String}
    {v : Value} (hargs : f.function.params.zip args = before ++ (name, v) :: after)
    (hafter : ∀ b ∈ after, name ≠ b.1) : m'.heap.lookup inner name = v := by
  rw [enterCall_done, hargs] at h
  cases h
  have hsize : (m.called f).heap.frames.size = m.heap.frames.size + 1 := Machine.size_opened ..
  exact Machine.lookup_declareAll ((Nat.lt_add_one _).trans_eq hsize.symm) hafter

/-! ### The way of a returned value -/

section Returns

variable {limit : Option Nat} {v : Value} {m' : Machine} {a b : Point}

/-- **A piece of work returns a value**, once it is given enough fuel. Expressions have no `return`
in them. -/
def Point.Returns (limit : Option Nat) (v : Value) (m' : Machine) : Point → Prop
  | ⟨.exec stmt s, m⟩ => Settles (exec limit · stmt s m) (.done (.returned v) m')
  | ⟨.body stmts s, m⟩ =>
    Settles (fun n => runBody (fun stmt => exec limit n stmt s) stmts m) (.done (.returned v) m')
  | ⟨.loop cond body s, m⟩ => ∃ k, ∀ n rounds, k ≤ n → k ≤ rounds →
      runLoop (eval limit n cond s) (exec limit n body s) rounds m = .done (.returned v) m'
  | _ => False

/-- A loop that has a round to go returns what it returns from that round on. -/
theorem Point.Returns.loop {cond : Expr} {body : Stmt} {s : Scope} {m : Machine}
    (h : ∃ k, ∀ n rounds, k ≤ n → k ≤ rounds →
      runLoop (eval limit n cond s) (exec limit n body s) (rounds + 1) m =
        .done (.returned v) m') : Point.Returns limit v m' ⟨.loop cond body s, m⟩ := by
  obtain ⟨k, hk⟩ := h
  refine ⟨k + 1, fun n rounds hn hrounds => ?_⟩
  obtain ⟨j, rfl⟩ := Nat.exists_eq_add_of_le hrounds
  rw [Nat.add_right_comm]
  exact hk n (k + j) (by omega) (by omega)

/-- **What a part returns is returned by the whole.** -/
theorem Leads.returns (h : Leads limit a b) (hb : b.Returns limit v m') :
    a.Returns limit v m' := by
  cases h with
  | block henter =>
    cases henter
    exact .of_succ (.statement hb)
  | yes hcond htrue =>
    refine .of_succ (.statement (.bind_done hcond.settles ?_))
    rw [htrue]
    exact hb
  | no hcond hfalse =>
    refine .of_succ (.statement (.bind_done hcond.settles ?_))
    rw [hfalse]
    exact hb
  | loop =>
    obtain ⟨k, hk⟩ := hb
    exact .of_succ ⟨nofun, k, fun fuel hfuel => hk fuel fuel hfuel hfuel⟩
  | round hcond htrue =>
    obtain ⟨-, j, hj⟩ := hcond.settles
    obtain ⟨-, k, hk⟩ := hb
    refine .loop ⟨max j k, fun n rounds hn _ => ?_⟩
    rw [runLoop_of_true (hj n (by omega)) htrue]
    exact Exec.bind_of_done (hk n (by omega))
  | otherRounds hcond htrue hbody =>
    obtain ⟨-, i, hi⟩ := hcond.settles
    obtain ⟨-, j, hj⟩ := hbody.settles
    obtain ⟨k, hk⟩ := hb
    refine .loop ⟨max (max i j) k, fun n rounds hn hrounds => ?_⟩
    rw [runLoop_of_true (hi n (by omega)) htrue]
    exact (Exec.bind_of_done (hj n (by omega))).trans (hk n rounds (by omega) (by omega))
  | statement => exact .bind_done hb (.const nofun)
  | otherStatements hstmt => exact .bind_done hstmt.settles hb
  | _ => exact hb.elim

/-- Within one function body a returned value goes all the way up. -/
theorem Visits.returns (h : Visits limit a 0 b) (hb : b.Returns limit v m') :
    a.Returns limit v m' := by
  generalize hk : 0 = k at h
  induction h with
  | refl => exact hb
  | leads h _ ih => exact h.returns (ih hb hk)
  | enters => cases hk

theorem returns_ret {e : Expr} {line : Nat} {s : Scope} {m : Machine} (hdepth : m.depth ≠ 0)
    (he : Evaluates limit e s m.counted v m') :
    Point.Returns limit v m' ⟨.exec (.ret (some e) line) s, m⟩ := by
  refine .of_succ ?_
  change Settles (fun n => (if m.depth = 0 then _ else _ : Exec Flow) m.counted) _
  simp only [if_neg hdepth]
  exact .bind_done he.settles (.const nofun)

theorem below_evalAll {ev ev' : Expr → Exec Value} (h : ∀ e, (ev e).Below (ev' e))
    (es : List Expr) : (evalAll ev es).Below (evalAll ev' es) := by
  induction es with
  | nil => exact .refl _
  | cons e es ih => exact (h e).bind fun v => ih.bind fun vs => .refl _

theorem EvaluatesAll.settles {es : List Expr} {s : Scope} {m : Machine} {vs : List Value}
    (h : EvaluatesAll limit es s m vs m') :
    Settles (fun n => evalAll (fun e => eval limit n e s) es m) (.done vs m') := by
  obtain ⟨n, hn⟩ := h
  exact settles_of_below (x := fun n => evalAll (fun e => eval limit n e s) es)
    (fun hle => below_evalAll (fun e => below_eval hle e s) es) hn nofun

theorem Settles.nested_done {α : Type} {x : Nat → Exec α} {m : Machine} {a : α}
    (h : Settles (x · (m.deeper 1)) (.done a m')) :
    Settles (fun n => Exec.nested (x n) m) (.done a { m' with depth := m'.depth - 1 }) := by
  obtain ⟨-, n, hn⟩ := h
  refine ⟨nofun, n, fun fuel hfuel => ?_⟩
  have hx : x fuel { m with depth := m.depth + 1 } = .done a m' := hn fuel hfuel
  simp only [Exec.nested, hx]

/-- **The value of a call is what the body returns.** -/
theorem evaluates_call {f : Expr} {args : List Expr} {line : Nat} {s inner : Scope}
    {m m₁ m₂ : Machine} {c : Closure} {vs : List Value} (hdue : CallDue limit f args s m c vs m₁)
    (hroom : ∀ k, limit = some k → m₁.depth < k) (henter : enterCall c vs m₁ = .done inner m₂)
    (hbody : Point.Returns limit v m' ⟨.body c.function.body inner, m₂.deeper 1⟩) :
    Evaluates limit (.call f args line) s m v { m' with depth := m'.depth - 1 } := by
  obtain ⟨⟨m₀, hf, hargs⟩, harity⟩ := hdue
  have hcheck : checkDepth limit line m₁ = .done () m₁ := by
    unfold checkDepth
    cases limit with
    | none => rfl
    | some k => exact if_neg (Nat.not_le.mpr (hroom k rfl))
  have hinvoke : Settles (fun n => invoke limit (fun stmt s => exec limit n stmt s) c vs line m₁)
      (.done v { m' with depth := m'.depth - 1 }) := by
    unfold invoke
    simp only [if_pos harity, Exec.bind_of_done hcheck, Exec.bind_of_done henter]
    exact .bind_done (.nested_done hbody) (.const nofun)
  have hcall : Settles (fun n => eval limit n (.call f args line) s m)
      (.done v { m' with depth := m'.depth - 1 }) := by
    refine .of_succ ?_
    simp only [eval_call]
    exact .bind_done hf.settles (.bind_done (.const nofun) (.bind_done hargs.settles hinvoke))
  exact hcall.exists_eq

end Returns

/-! ### Everything that hands on values -/

/-- **Values are handed on as they are**, in a scope of a machine. -/
structure HandsOn (limit : Option Nat) (s : Scope) (m : Machine) : Prop where
  read : ∀ name line, Evaluates limit (.identifier name line) s m (m.heap.lookup s name) m
  grouped : ∀ {e v m'}, Evaluates limit e s m v m' → Evaluates limit (.grouping e) s m v m'
  /-- `and` and `or` select the left operand if it settles the matter. -/
  first : ∀ {op l r v m'}, Evaluates limit l s m v m' → v.settles op = true →
    Evaluates limit (.logical op l r) s m v m'
  /-- Otherwise they select the right one. -/
  second : ∀ {op l r w m₁ v m'}, Evaluates limit l s m w m₁ → w.settles op = false →
    Evaluates limit r s m₁ v m' → Evaluates limit (.logical op l r) s m v m'
  bound : ∀ {name e v m₁}, Evaluates limit e s m.counted v m₁ →
    ∃ m', Executes limit (.var name (some e)) s m (.normal .nil) m' ∧ m'.heap.lookup s name = v
  /-- The function value that a function statement makes is the one its name is bound to. -/
  declared : ∀ f, ∃ m', Executes limit f.statement s m (.normal .nil) m' ∧
    m'.heap.lookup s f.name = .function (m.next f s)
  assigned : ∀ {name e line v m₁ o}, Evaluates limit e s m v m₁ → m₁.heap.owner? s name = some o →
    ∃ m', Evaluates limit (.assign name e line) s m .nil m' ∧ m'.heap.lookup s name = v
  /-- Where the body of a call begins, each parameter is read as its argument. Of parameters with
  the same name it is the last one. -/
  passed : ∀ {f args line b}, Enters limit ⟨.eval (.call f args line) s, m⟩ b →
    ∃ c vs m₁ inner m', CallDue limit f args s m c vs m₁ ∧
      b = ⟨.body c.function.body inner, m'⟩ ∧
      ∀ {before after name v}, c.function.params.zip vs = before ++ (name, v) :: after →
        (∀ x ∈ after, name ≠ x.1) → m'.heap.lookup inner name = v
  /-- However deep in the body a `return` is, its value is that of the call. -/
  returned : ∀ {f args line b e l t m₁ v m'}, Enters limit ⟨.eval (.call f args line) s, m⟩ b →
    Visits limit b 0 ⟨.exec (.ret (some e) l) t, m₁⟩ → Evaluates limit e t m₁.counted v m' →
    Evaluates limit (.call f args line) s m v { m' with depth := m'.depth - 1 }
  printed : ∀ {e v m₁}, Evaluates limit e s m.counted v m₁ →
    ∃ m', Executes limit (.print e) s m (.normal .nil) m' ∧ m'.output = m₁.output ++ [v]
  shown : ∀ {e v m'}, Evaluates limit e s m.counted v m' →
    Executes limit (.expression e) s m (.normal v) m'
  /-- What is bound and assigned from outside is read as well. -/
  bound_outside : ∀ name v, (m.declare s name v).heap.lookup s name = v
  assigned_outside : ∀ {name v m'}, m.assign s name v = .ok m' → m'.heap.lookup s name = v

section HandsOn

variable {limit : Option Nat} {s t : Scope} {m m₁ m' : Machine} {v w : Value} {e l r : Expr}
  {name : String} {line line' : Nat}

theorem Evaluates.logical_of_settles {op : LogicalOp} (h : Evaluates limit l s m v m')
    (hv : v.settles op = true) : Evaluates limit (.logical op l r) s m v m' := by
  obtain ⟨n, hn⟩ := h
  refine ⟨n + 1, (Exec.bind_of_done hn).trans ?_⟩
  rw [hv]
  rfl

theorem Evaluates.logical {op : LogicalOp} (hl : Evaluates limit l s m w m₁)
    (hw : w.settles op = false) (hr : Evaluates limit r s m₁ v m') :
    Evaluates limit (.logical op l r) s m v m' := by
  have hsettles : Settles (eval limit · (.logical op l r) s m) (.done v m') := by
    refine .of_succ (.bind_done hl.settles ?_)
    rw [hw]
    exact hr.settles
  exact hsettles.exists_eq

theorem executes_var (h : Evaluates limit e s m.counted v m₁) :
    Executes limit (.var name (some e)) s m (.normal .nil) (m₁.declare s name v) := by
  obtain ⟨n, hn⟩ := h
  exact ⟨n + 1, Exec.bind_of_done hn⟩

theorem evaluates_assign {o : Scope} (h : Evaluates limit e s m v m₁)
    (ho : m₁.heap.owner? s name = some o) :
    Evaluates limit (.assign name e line) s m .nil (m₁.declare o name v) := by
  obtain ⟨n, hn⟩ := h
  refine ⟨n + 1, (Exec.bind_of_done hn).trans ?_⟩
  have hassign : Exec.assign s name v line m₁ = .done () (m₁.declare o name v) := by
    rw [Exec.assign, ho]
  exact Exec.bind_of_done hassign

theorem executes_print (h : Evaluates limit e s m.counted v m₁) :
    Executes limit (.print e) s m (.normal .nil) (m₁.note (.printed v)) := by
  obtain ⟨n, hn⟩ := h
  exact ⟨n + 1, Exec.bind_of_done hn⟩

theorem evaluates_call_of_ret {f : Expr} {args : List Expr} {b : Point}
    (henters : Enters limit ⟨.eval (.call f args line) s, m⟩ b)
    (hvisits : Visits limit b 0 ⟨.exec (.ret (some e) line') t, m₁⟩)
    (he : Evaluates limit e t m₁.counted v m') :
    Evaluates limit (.call f args line) s m v { m' with depth := m'.depth - 1 } := by
  have hdepth : m₁.depth ≠ 0 := by
    have hm₁ : m₁.depth = b.machine.depth := hvisits.depth_eq
    rw [hm₁, henters.depth_eq]
    exact Nat.succ_ne_zero _
  have hbody := hvisits.returns (returns_ret hdepth he)
  cases henters with
  | body hdue hroom henter => exact evaluates_call hdue hroom henter hbody

/-- **Values are handed on as they are.** -/
theorem handsOn (hs : s < m.heap.frames.size) : HandsOn limit s m where
  read name line := ⟨1, rfl⟩
  grouped := fun ⟨n, hn⟩ => ⟨n + 1, hn⟩
  first h hv := h.logical_of_settles hv
  second hl hw hr := hl.logical hw hr
  bound h := by
    have hs₁ := hs.trans_le h.reaches.grows.size_le
    exact ⟨_, executes_var h, Heap.lookup_declare_self hs₁ _ _⟩
  declared f := ⟨_, ⟨1, rfl⟩, Heap.lookup_declare_self hs f.name _⟩
  assigned h ho := ⟨_, evaluates_assign h ho, Heap.lookup_declare_owner ho _⟩
  passed henters := by
    cases henters with
    | body hdue _ henter =>
      exact ⟨_, _, _, _, _, hdue, rfl, fun hargs hafter => lookup_enterCall henter hargs hafter⟩
  returned := evaluates_call_of_ret
  printed h := ⟨_, executes_print h, Machine.output_print _ _⟩
  shown := fun ⟨n, hn⟩ => ⟨n + 1, Exec.bind_of_done hn⟩
  bound_outside := Heap.lookup_declare_self hs
  assigned_outside h := by
    obtain ⟨o, ho, rfl⟩ := Machine.exists_owner_of_assign h
    exact Heap.lookup_declare_owner ho _

end HandsOn

/-! ### Wherever a run comes to -/

section Points

variable {limit : Option Nat} {a b : Point} {k : Nat}

/-- The scope that a piece of work is done in. -/
def Task.scope : Task → Scope
  | .eval _ s => s
  | .evalAll _ s => s
  | .exec _ s => s
  | .body _ s => s
  | .loop _ _ s => s

/-- **A piece of work is done in a scope that exists.** -/
def Point.Placed (a : Point) : Prop := a.task.scope < a.machine.heap.frames.size

theorem Leads.placed (h : Leads limit a b) (ha : a.Placed) : b.Placed := by
  cases h with
  | right h => exact Nat.lt_of_lt_of_le ha h.reaches.grows.size_le
  | second h => exact Nat.lt_of_lt_of_le ha h.reaches.grows.size_le
  | arguments h => exact Nat.lt_of_lt_of_le ha h.reaches.grows.size_le
  | otherArguments h => exact Nat.lt_of_lt_of_le ha h.reaches.grows.size_le
  | @block body s inner m _ henter =>
    cases henter
    exact (Nat.lt_add_one _).trans_eq (m.counted.size_opened s).symm
  | yes h => exact Nat.lt_of_lt_of_le ha h.reaches.grows.size_le
  | no h => exact Nat.lt_of_lt_of_le ha h.reaches.grows.size_le
  | round h => exact Nat.lt_of_lt_of_le ha h.reaches.grows.size_le
  | otherRounds h _ h' =>
    exact Nat.lt_of_lt_of_le ha (h.reaches.trans h'.reaches).grows.size_le
  | otherStatements h => exact Nat.lt_of_lt_of_le ha h.reaches.grows.size_le
  | _ => exact ha

theorem Enters.placed (h : Enters limit a b) : b.Placed := by
  cases h with
  | @body _ _ _ _ _ _ m₁ _ c _ _ _ henter =>
    rw [enterCall_done] at henter
    cases henter
    have hsize : (m₁.called c).heap.frames.size = m₁.heap.frames.size + 1 := Machine.size_opened ..
    exact (Nat.lt_add_one _).trans_eq (hsize.symm.trans (Machine.size_declareAll ..).symm)

theorem Visits.placed (h : Visits limit a k b) (ha : a.Placed) : b.Placed := by
  induction h with
  | refl => exact ha
  | leads h _ ih => exact ih (h.placed ha)
  | enters h _ ih => exact ih h.placed

end Points

end Lox
