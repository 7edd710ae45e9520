import Lox.Proofs.Eval.Lined
import Lox.Proofs.Statement
import Mathlib.Data.List.Forall2
import Mathlib.Order.Basic

/-!
# One program on two machines

A program that runs on two machines that *correspond* does the same on both. What it means to
correspond is left open: a `Lox.Simulation` says which machines, scopes and function values do, and
has one law for each thing that a run does to a machine or reads off it. That whole runs correspond
then follows (`Lox.Simulation.ends_runProgram`), and the tree is walked for it once and for all.

More and more corresponds while the two runs go on, since both of them make scopes and functions.
So it is always said at a *stage* what corresponds, and the stages are ordered.

Three things are worth knowing. The second run may be given more fuel than the first
(`Lox.Simulation.spare`), and then it need not run out of fuel when the first one does. A simulation
of a machine by itself is nothing but an invariant of runs, which speaks about the scopes and values
that a run has in hand as well as about the machine. And two scopes in which the same is seen
(`Lox.Simulation.view`) are good enough for expressions, and for statements that declare nothing.
-/

namespace Lox

/-! ### Counts -/

/-- Counts taken together. -/
def Stats.add (a b : Stats) : Stats :=
  ⟨a.statements + b.statements, a.calls + b.calls, a.scopes + b.scopes⟩

instance : Add Stats := ⟨Stats.add⟩

/-- The machine with more counted. -/
def Machine.tally (m : Machine) (k : Stats) : Machine := { m with stats := m.stats + k }

/-! ### Values and faults that correspond -/

/-- Values correspond that are equal; functions correspond as `R` says. -/
inductive Value.Corresponds (R : Closure → Closure → Prop) : Value → Value → Prop
  | bool (b : Bool) : Corresponds R (.bool b) (.bool b)
  | number (x : Float) : Corresponds R (.number x) (.number x)
  | string (s : String) : Corresponds R (.string s) (.string s)
  | nil : Corresponds R .nil .nil
  | function {c d : Closure} : R c d → Corresponds R (.function c) (.function d)

/-- Faults correspond that are equal up to the values they are about. -/
inductive RuntimeFault.Corresponds (V : Value → Value → Prop) : RuntimeFault → RuntimeFault → Prop
  | undefinedVariable (name : String) :
      Corresponds V (.undefinedVariable name) (.undefinedVariable name)
  | nilOperand (op : BinaryOp) {l l' r r' : Value} : V l l' → V r r' →
      Corresponds V (.nilOperand op l r) (.nilOperand op l' r')
  | wrongOperands (op : BinaryOp) {l l' r r' : Value} : V l l' → V r r' →
      Corresponds V (.wrongOperands op l r) (.wrongOperands op l' r')
  | wrongOperand {v v' : Value} : V v v' → Corresponds V (.wrongOperand v) (.wrongOperand v')
  | notCallable {v v' : Value} : V v v' → Corresponds V (.notCallable v) (.notCallable v')
  | arityMismatch (f : Function) (count : Nat) :
      Corresponds V (.arityMismatch f count) (.arityMismatch f count)
  | topLevelReturn : Corresponds V .topLevelReturn .topLevelReturn
  | stackOverflow (limit : Nat) : Corresponds V (.stackOverflow limit) (.stackOverflow limit)

/-- Results of an operator correspond. -/
inductive ResultsCorrespond (V : Value → Value → Prop) :
    Except RuntimeFault Value → Except RuntimeFault Value → Prop
  | ok {v v' : Value} : V v v' → ResultsCorrespond V (.ok v) (.ok v')
  | error {fault fault' : RuntimeFault} : fault.Corresponds V fault' →
      ResultsCorrespond V (.error fault) (.error fault')

namespace Value

/-- What an operator that computes or compares makes of operands none of which is `nil`. -/
def operate (op : BinaryOp) : Value → Value → Except RuntimeFault Value
  | number x, number y => .ok (onNumbers op x y)
  | string s, string t =>
    if op = .add then .ok (string (s ++ t)) else .error (.wrongOperands op (string s) (string t))
  | l, r => .error (.wrongOperands op l r)

theorem binary_eq {op : BinaryOp} (h : ¬(op = .equal ∨ op = .notEqual)) (l r : Value) :
    binary op l r = if l.isNil || r.isNil then .error (.nilOperand op l r) else operate op l r := by
  cases op with
  | equal => exact absurd (.inl rfl) h
  | notEqual => exact absurd (.inr rfl) h
  | _ => rfl

end Value

namespace Value.Corresponds

variable {R : Closure → Closure → Prop} {v v' l l' r r' : Value}

theorem mono {R' : Closure → Closure → Prop} (h : v.Corresponds R v')
    (hR : ∀ c d, R c d → R' c d) : v.Corresponds R' v' := by
  cases h with
  | function h => exact .function (hR _ _ h)
  | _ => constructor

theorem refl (hR : ∀ c, R c c) (v : Value) : v.Corresponds R v := by
  cases v with
  | function c => exact .function (hR c)
  | _ => constructor

theorem eq (hR : ∀ c d, R c d → d = c) (h : v.Corresponds R v') : v' = v := by
  cases h with
  | function h => rw [hR _ _ h]
  | _ => rfl

theorem ofLiteral (l : Literal) : (Value.ofLiteral l).Corresponds R (.ofLiteral l) := by
  cases l <;> constructor

theorem isTruthy (h : v.Corresponds R v') : v'.isTruthy = v.isTruthy := by
  cases h <;> rfl

theorem isNil (h : v.Corresponds R v') : v'.isNil = v.isNil := by
  cases h <;> rfl

theorem settles (h : v.Corresponds R v') (op : LogicalOp) : v'.settles op = v.settles op := by
  cases op <;> simp only [Value.settles, h.isTruthy]

/-- **The language tells apart the same values on both sides.** -/
theorem equal (hR : ∀ c d, R c d → d.id = c.id) (hl : l.Corresponds R l')
    (hr : r.Corresponds R r') : l'.equal r' = l.equal r := by
  cases hl with
  | function h =>
    cases hr with
    | function h' => simp only [Value.equal, hR _ _ h, hR _ _ h']
    | _ => rfl
  | _ => cases hr <;> rfl

theorem unary (h : v.Corresponds R v') (op : UnaryOp) :
    ResultsCorrespond (Value.Corresponds R) (v.unary op) (v'.unary op) := by
  cases op with
  | not =>
    simp only [Value.unary, h.isTruthy]
    exact .ok (.bool _)
  | negate =>
    cases h with
    | number x => exact .ok (.number _)
    | function h => exact .error (.wrongOperand (.function h))
    | _ => exact .error (.wrongOperand (by constructor))

theorem onNumbers (op : BinaryOp) (x y : Float) :
    (Value.onNumbers op x y).Corresponds R (.onNumbers op x y) := by
  cases op <;> constructor

theorem operate (op : BinaryOp) (hl : l.Corresponds R l') (hr : r.Corresponds R r') :
    ResultsCorrespond (Value.Corresponds R) (Value.operate op l r) (Value.operate op l' r') := by
  have hwrong := ResultsCorrespond.error (V := Value.Corresponds R) (.wrongOperands op hl hr)
  cases hl with
  | number x =>
    cases hr with
    | number y => exact .ok (onNumbers op x y)
    | _ => exact hwrong
  | string s =>
    cases hr with
    | string t =>
      simp only [Value.operate]
      split
      · exact .ok (.string _)
      · exact hwrong
    | _ => exact hwrong
  | _ => exact hwrong

theorem binary (hR : ∀ c d, R c d → d.id = c.id) (op : BinaryOp) (hl : l.Corresponds R l')
    (hr : r.Corresponds R r') :
    ResultsCorrespond (Value.Corresponds R) (Value.binary op l r) (Value.binary op l' r') := by
  by_cases hop : op = .equal ∨ op = .notEqual
  · rcases hop with rfl | rfl
    · simp only [Value.binary, equal hR hl hr]
      exact .ok (.bool _)
    · simp only [Value.binary, equal hR hl hr]
      exact .ok (.bool _)
  · rw [Value.binary_eq hop, Value.binary_eq hop, hl.isNil, hr.isNil]
    split
    · exact .error (.nilOperand op hl hr)
    · exact operate op hl hr

end Value.Corresponds

/-! ### Simulations -/

/-- The same outcome, on another machine. -/
def Outcome.onMachine {α : Type} (F : Machine → Machine) : Outcome α → Outcome α
  | .done a m => .done a (F m)
  | .failed fault m => .failed fault (F m)
  | .exhausted => .exhausted

theorem Outcome.onMachine_id {α : Type} (o : Outcome α) : o.onMachine id = o := by
  cases o <;> rfl

/-- **A simulation**: what corresponds on two machines, at each stage of two runs. -/
structure Simulation (W : Type) [Preorder W] where
  /-- How much fuel the second run has in addition. -/
  spare : Nat
  /-- The statements that are run. -/
  code : Stmt → Prop
  /-- The machines that correspond. -/
  machine : W → Machine → Machine → Prop
  /-- The scopes that correspond. -/
  scope : W → Scope → Scope → Prop
  /-- The scopes in which the same is seen. In them nothing need be declared alike. -/
  view : W → Scope → Scope → Prop
  /-- The function values that correspond. -/
  closure : W → Closure → Closure → Prop
  code_part : ∀ {stmt part}, code stmt → part ∈ stmt.parts → code part
  scope_mono : ∀ {w w' s s'}, w ≤ w' → scope w s s' → scope w' s s'
  view_mono : ∀ {w w' s s'}, w ≤ w' → view w s s' → view w' s s'
  view_of_scope : ∀ {w s s'}, scope w s s' → view w s s'
  closure_mono : ∀ {w w' c d}, w ≤ w' → closure w c d → closure w' c d
  closure_id : ∀ {w c d}, closure w c d → d.id = c.id
  closure_function : ∀ {w c d}, closure w c d → d.function = c.function
  closure_scope : ∀ {w c d}, closure w c d → scope w c.scope d.scope
  closure_code : ∀ {w c d}, closure w c d → ∀ stmt ∈ c.function.body, code stmt
  /-- As many calls are active on both machines. -/
  depth_eq : ∀ {w m m'}, machine w m m' → m'.depth = m.depth
  depth : ∀ {w m m'}, machine w m m' → ∀ k, machine w { m with depth := k } { m' with depth := k }
  tally : ∀ {w m m'}, machine w m m' → ∀ k, machine w (m.tally k) (m'.tally k)
  note : ∀ {w m m' e}, machine w m m' → e.printed? = none → machine w (m.note e) (m'.note e)
  print : ∀ {w m m' v v'}, machine w m m' → v.Corresponds (closure w) v' →
    machine w (m.note (.printed v)) (m'.note (.printed v'))
  lookup : ∀ {w m m' s s'}, machine w m m' → view w s s' → ∀ name,
    (m.heap.lookup s name).Corresponds (closure w) (m'.heap.lookup s' name)
  /-- What owns a name can be declared in, wherever it is seen from. -/
  owner : ∀ {w m m' s s'}, machine w m m' → view w s s' → ∀ name,
    Option.Rel (scope w) (m.heap.owner? s name) (m'.heap.owner? s' name)
  declare : ∀ {w m m' s s' v v'}, machine w m m' → scope w s s' → v.Corresponds (closure w) v' →
    ∀ name, machine w (m.declare s name v) (m'.declare s' name v')
  /-- Two new scopes correspond. -/
  child : ∀ {w m m' s s'}, machine w m m' → view w s s' → ∃ w', w ≤ w' ∧
    machine w' (m.newChild s).2 (m'.newChild s').2 ∧ scope w' (m.newChild s).1 (m'.newChild s').1
  /-- Two new function values correspond. -/
  make : ∀ {w m m' s s' f}, machine w m m' → scope w s s' → (∀ stmt ∈ f.body, code stmt) →
    ∃ w', w ≤ w' ∧ machine w' { m with made := m.made + 1 } { m' with made := m'.made + 1 } ∧
      closure w' ⟨m.made, f, s⟩ ⟨m'.made, f, s'⟩

namespace Simulation

variable {W : Type} [Preorder W] (S : Simulation W)

/-- The values that correspond. -/
def value (w : W) : Value → Value → Prop := Value.Corresponds (S.closure w)

/-- The flows that correspond. -/
inductive Flows (w : W) : Flow → Flow → Prop
  | normal {v v' : Value} : S.value w v v' → Flows w (.normal v) (.normal v')
  | returned {v v' : Value} : S.value w v v' → Flows w (.returned v) (.returned v')

/-- **Two computations end alike**, from a stage on: both are done, with machines and results that
correspond, or both fail. -/
inductive Ends {α β : Type} (w : W) (P : W → α → β → Prop) : Outcome α → Outcome β → Prop
  | done {w' : W} {a : α} {b : β} {m m' : Machine} :
      w ≤ w' → S.machine w' m m' → P w' a b → Ends w P (.done a m) (.done b m')
  | failed {w' : W} {cause cause' : RuntimeFault} {line : Option Nat} {m m' : Machine} :
      w ≤ w' → S.machine w' m m' → cause.Corresponds (S.value w') cause' →
      Ends w P (.failed ⟨cause, line⟩ m) (.failed ⟨cause', line⟩ m')
  | exhausted {o : Outcome β} : (S.spare = 0 → o = .exhausted) → Ends w P .exhausted o

/-- **One computation matches another**: from a stage on, they end alike on all machines that
correspond. -/
def Matches {α β : Type} (w : W) (P : W → α → β → Prop) (x : Exec α) (y : Exec β) : Prop :=
  ∀ w₁ m m', w ≤ w₁ → S.machine w₁ m m' → S.Ends w₁ P (x m) (y m')

variable {S} {w w' : W} {α β γ δ : Type} {P : W → α → β → Prop} {Q : W → γ → δ → Prop}

theorem value_mono {v v' : Value} (hw : w ≤ w') (h : S.value w v v') : S.value w' v v' :=
  h.mono fun _ _ => S.closure_mono hw

theorem Flows.mono {flow flow' : Flow} (hw : w ≤ w') (h : S.Flows w flow flow') :
    S.Flows w' flow flow' := by
  cases h with
  | normal h => exact .normal (value_mono hw h)
  | returned h => exact .returned (value_mono hw h)

theorem Ends.mono {o : Outcome α} {o' : Outcome β} (hw : w ≤ w') (h : S.Ends w' P o o') :
    S.Ends w P o o' := by
  cases h with
  | done hw' hm h => exact .done (hw.trans hw') hm h
  | failed hw' hm h => exact .failed (hw.trans hw') hm h
  | exhausted h => exact .exhausted h

theorem Matches.later {x : Exec α} {y : Exec β} (h : S.Matches w P x y) (hw : w ≤ w') :
    S.Matches w' P x y := fun _ _ _ hw₁ hm => h _ _ _ (hw.trans hw₁) hm

/-! ### The operations -/

theorem matches_pure {a : α} {b : β} (h : ∀ w₁, w ≤ w₁ → P w₁ a b) :
    S.Matches w P (pure a) (pure b) := fun _ _ _ hw hm => .done le_rfl hm (h _ hw)

theorem matches_value {v v' : Value} (h : S.value w v v') :
    S.Matches w S.value (pure v) (pure v') := matches_pure fun _ hw => value_mono hw h

theorem matches_normal {v v' : Value} (h : S.value w v v') :
    S.Matches w S.Flows (pure (.normal v)) (pure (.normal v')) :=
  matches_pure fun _ hw => .normal (value_mono hw h)

theorem matches_returned {v v' : Value} (h : S.value w v v') :
    S.Matches w S.Flows (pure (.returned v)) (pure (.returned v')) :=
  matches_pure fun _ hw => .returned (value_mono hw h)

theorem matches_raise {cause cause' : RuntimeFault} (line : Nat)
    (h : ∀ w₁, w ≤ w₁ → cause.Corresponds (S.value w₁) cause') :
    S.Matches w P (Exec.raise cause line) (Exec.raise cause' line) :=
  fun _ _ _ hw hm => .failed le_rfl hm (h _ hw)

theorem matches_ofExcept (line : Nat) {r r' : Except RuntimeFault Value}
    (h : ∀ w₁, w ≤ w₁ → ResultsCorrespond (S.value w₁) r r') :
    S.Matches w S.value (Exec.ofExcept line r) (Exec.ofExcept line r') := by
  intro w₁ m m' hw hm
  cases h w₁ hw with
  | ok hv => exact .done le_rfl hm hv
  | error hfault => exact .failed le_rfl hm hfault

/-- What corresponds after the first parts is handed to the second parts, at a later stage. -/
theorem Matches.bind {x : Exec α} {y : Exec β} {f : α → Exec γ} {g : β → Exec δ}
    (hx : S.Matches w P x y)
    (hf : ∀ w₁ a b, w ≤ w₁ → P w₁ a b → S.Matches w₁ Q (f a) (g b)) :
    S.Matches w Q (x >>= f) (y >>= g) := by
  intro w₁ m m' hw hm
  have h := hx w₁ m m' hw hm
  generalize hxm : x m = o at h
  generalize hym : y m' = o' at h
  cases h with
  | done hw₂ hm₂ h =>
    rw [Exec.bind_of_done hxm, Exec.bind_of_done hym]
    exact (hf _ _ _ (hw.trans hw₂) h _ _ _ le_rfl hm₂).mono hw₂
  | failed hw₂ hm₂ h =>
    rw [Exec.bind_of_failed hxm, Exec.bind_of_failed hym]
    exact .failed hw₂ hm₂ h
  | exhausted h =>
    rw [Exec.bind_of_exhausted hxm]
    exact .exhausted fun hspare => Exec.bind_of_exhausted (hym.trans (h hspare))

theorem Matches.nested {x : Exec α} {y : Exec β} (hx : S.Matches w P x y) :
    S.Matches w P (Exec.nested x) (Exec.nested y) := by
  intro w₁ m m' hw hm
  have h := hx w₁ _ _ hw (S.depth hm (m.depth + 1))
  unfold Exec.nested
  rw [S.depth_eq hm]
  generalize x { m with depth := m.depth + 1 } = o at h
  generalize y { m' with depth := m.depth + 1 } = o' at h
  cases h with
  | @done w₂ a b m₂ m₂' hw₂ hm₂ h =>
    refine .done hw₂ ?_ h
    rw [S.depth_eq hm₂]
    exact S.depth hm₂ _
  | @failed w₂ cause cause' line m₂ m₂' hw₂ hm₂ h =>
    refine .failed hw₂ ?_ h
    rw [S.depth_eq hm₂]
    exact S.depth hm₂ _
  | exhausted h =>
    refine .exhausted fun hspare => ?_
    rw [h hspare]

/-- A computation with nothing in hand that only changes the machine. -/
theorem matches_modify {f g : Machine → Machine}
    (h : ∀ {w₁ m m'}, S.machine w₁ m m' → S.machine w₁ (f m) (g m')) :
    S.Matches w (fun _ _ _ => True) (Exec.modify f) (Exec.modify g) :=
  fun _ _ _ _ hm => .done le_rfl (h hm) trivial

theorem matches_countStatement :
    S.Matches w (fun _ _ _ => True) Exec.countStatement Exec.countStatement :=
  matches_modify fun hm => S.tally hm ⟨1, 0, 0⟩

theorem matches_note {e : Event} (he : e.printed? = none) :
    S.Matches w (fun _ _ _ => True) (Exec.note e) (Exec.note e) :=
  matches_modify fun hm => S.note hm he

theorem matches_print {v v' : Value} (h : S.value w v v') :
    S.Matches w (fun _ _ _ => True) (Exec.note (.printed v)) (Exec.note (.printed v')) :=
  fun _ _ _ hw hm => .done le_rfl (S.print hm (value_mono hw h)) trivial

theorem matches_depth :
    S.Matches w (fun _ j k => j = k) (Exec.read (·.depth)) (Exec.read (·.depth)) :=
  fun _ _ _ _ hm => .done le_rfl hm (S.depth_eq hm).symm

theorem matches_lookup {s s' : Scope} (hs : S.view w s s') (name : String) :
    S.Matches w S.value (Exec.lookup s name) (Exec.lookup s' name) :=
  fun _ _ _ hw hm => .done le_rfl hm (S.lookup hm (S.view_mono hw hs) name)

theorem matches_declare {s s' : Scope} {v v' : Value} (hs : S.scope w s s') (hv : S.value w v v')
    (name : String) :
    S.Matches w (fun _ _ _ => True) (Exec.declare s name v) (Exec.declare s' name v') :=
  fun _ _ _ hw hm =>
    .done le_rfl (S.declare hm (S.scope_mono hw hs) (value_mono hw hv) name) trivial

theorem matches_assign {s s' : Scope} {v v' : Value} (hs : S.view w s s') (hv : S.value w v v')
    (name : String) (line : Nat) :
    S.Matches w (fun _ _ _ => True) (Exec.assign s name v line) (Exec.assign s' name v' line) := by
  intro w₁ m m' hw hm
  have howner := S.owner hm (S.view_mono hw hs) name
  unfold Exec.assign
  generalize m.heap.owner? s name = o at howner
  generalize m'.heap.owner? s' name = o' at howner
  cases howner with
  | some ho => exact .done le_rfl (S.declare hm ho (value_mono hw hv) name) trivial
  | none => exact .failed le_rfl hm (.undefinedVariable name)

theorem matches_enterBlock {s s' : Scope} (hs : S.view w s s') :
    S.Matches w S.scope (Exec.enterBlock s) (Exec.enterBlock s') := by
  intro w₁ m m' hw hm
  obtain ⟨w₂, hw₂, hm₂, hs₂⟩ := S.child (S.tally hm ⟨0, 0, 1⟩) (S.view_mono hw hs)
  exact .done hw₂ hm₂ hs₂

theorem matches_makeClosure {f : Function} {s s' : Scope} (hf : ∀ stmt ∈ f.body, S.code stmt)
    (hs : S.scope w s s') :
    S.Matches w S.closure (Exec.makeClosure f s) (Exec.makeClosure f s') := by
  intro w₁ m m' hw hm
  obtain ⟨w₂, hw₂, hm₂, hc⟩ := S.make hm (S.scope_mono hw hs) hf
  exact .done hw₂ hm₂ hc

/-! ### The walk -/

section Walk

variable {limit : Option Nat}

theorem matches_evalAll {ev ev' : Expr → Exec Value} (hev : ∀ e, S.Matches w S.value (ev e) (ev' e))
    (es : List Expr) :
    S.Matches w (fun w => List.Forall₂ (S.value w)) (evalAll ev es) (evalAll ev' es) := by
  induction es with
  | nil => exact matches_pure fun _ _ => .nil
  | cons e es ih =>
    refine (hev e).bind fun _ v v' hw₁ hv => (ih.later hw₁).bind fun _ vs vs' hw₂ hvs => ?_
    -- the first value still corresponds when the others have been evaluated
    exact matches_pure fun _ hw₃ =>
      .cons (value_mono (hw₂.trans hw₃) hv) (hvs.imp fun _ _ => value_mono hw₃)

theorem matches_runBody {run run' : Stmt → Exec Flow}
    (hrun : ∀ stmt, S.code stmt → S.Matches w S.Flows (run stmt) (run' stmt)) {body : List Stmt}
    (hbody : ∀ stmt ∈ body, S.code stmt) :
    S.Matches w S.Flows (runBody run body) (runBody run' body) := by
  induction body with
  | nil => exact matches_normal .nil
  | cons stmt body ih =>
    obtain ⟨hstmt, hbody⟩ := List.forall_mem_cons.mp hbody
    refine (hrun stmt hstmt).bind fun _ flow flow' hw hflow => ?_
    cases hflow with
    | normal hv => exact (ih hbody).later hw
    | returned hv => exact matches_returned hv

theorem matches_runLoop {cond cond' : Exec Value} {body body' : Exec Flow}
    (hcond : S.Matches w S.value cond cond') (hbody : S.Matches w S.Flows body body')
    (rounds : Nat) :
    S.Matches w S.Flows (runLoop cond body rounds) (runLoop cond' body' (rounds + S.spare)) := by
  induction rounds with
  | zero =>
    intro w₁ m m' hw hm
    refine .exhausted fun hspare => ?_
    rw [hspare]
    rfl
  | succ rounds ih =>
    rw [Nat.add_right_comm]
    refine hcond.bind fun _ v v' hw hv => ?_
    rw [hv.isTruthy]
    split
    · refine (hbody.later hw).bind fun _ flow flow' hw' hflow => ?_
      cases hflow with
      | normal hv => exact ih.later (hw.trans hw')
      | returned hv => exact matches_returned hv
    · exact matches_normal .nil

theorem matches_callee (line : Nat) {v v' : Value} (hv : S.value w v v') :
    S.Matches w S.closure (callee line v) (callee line v') := by
  have hraise : S.Matches w S.closure (Exec.raise (.notCallable v) line)
      (Exec.raise (.notCallable v') line) :=
    matches_raise line fun _ hw => .notCallable (value_mono hw hv)
  cases hv with
  | function h => exact matches_pure fun _ hw => S.closure_mono hw h
  | _ => exact hraise

theorem matches_checkDepth (line : Nat) :
    S.Matches w (fun _ _ _ => True) (checkDepth limit line) (checkDepth limit line) := by
  intro w₁ m m' hw hm
  unfold checkDepth
  rw [S.depth_eq hm]
  split
  · exact .done le_rfl hm trivial
  · split
    · exact .failed le_rfl hm (.stackOverflow _)
    · exact .done le_rfl hm trivial

theorem matches_declareAll {s s' : Scope} (hs : S.scope w s s') (names : List String)
    {vs vs' : List Value} (hvs : List.Forall₂ (S.value w) vs vs') :
    S.Matches w (fun _ _ _ => True) (Exec.declareAll s (names.zip vs))
      (Exec.declareAll s' (names.zip vs')) := by
  induction names generalizing vs vs' with
  | nil => exact matches_pure fun _ _ => trivial
  | cons name names ih =>
    cases hvs with
    | nil => exact matches_pure fun _ _ => trivial
    | cons hv hvs =>
      exact (matches_declare hs hv name).bind fun _ _ _ hw _ => (ih hvs).later hw

theorem matches_enterCall {c d : Closure} (hc : S.closure w c d) {vs vs' : List Value}
    (hvs : List.Forall₂ (S.value w) vs vs') :
    S.Matches w S.scope (enterCall c vs) (enterCall d vs') := by
  unfold enterCall
  rw [S.closure_function hc]
  refine matches_depth.bind fun _ j k hw₁ hjk => ?_
  subst hjk
  refine (matches_note rfl).bind fun _ _ _ hw₂ _ => ?_
  refine (matches_modify fun hm => S.tally hm ⟨0, 1, 0⟩).bind fun _ _ _ hw₃ _ => ?_
  have hw := (hw₁.trans hw₂).trans hw₃
  have hview := S.view_of_scope (S.closure_scope hc)
  refine (matches_enterBlock (S.view_mono hw hview)).bind fun _ s s' hw₄ hs => ?_
  have hvs₄ := hvs.imp fun _ _ => value_mono (S := S) (hw.trans hw₄)
  refine (matches_declareAll hs _ hvs₄).bind fun _ _ _ hw₅ _ => ?_
  exact matches_pure fun _ hw₆ => S.scope_mono (hw₅.trans hw₆) hs

theorem matches_invoke {run run' : Stmt → Scope → Exec Flow} {c d : Closure} {vs vs' : List Value}
    (hrun : ∀ {w₁ stmt s s'}, S.code stmt → S.scope w₁ s s' →
      S.Matches w₁ S.Flows (run stmt s) (run' stmt s'))
    (hc : S.closure w c d) (hvs : List.Forall₂ (S.value w) vs vs') (line : Nat) :
    S.Matches w S.value (invoke limit run c vs line) (invoke limit run' d vs' line) := by
  unfold invoke
  rw [S.closure_function hc, ← hvs.length_eq]
  split
  · refine (matches_checkDepth line).bind fun _ _ _ hw₁ _ => ?_
    have hvs₁ := hvs.imp fun _ _ => value_mono (S := S) hw₁
    refine (matches_enterCall (S.closure_mono hw₁ hc) hvs₁).bind fun _ s s' _ hs => ?_
    have hbody := matches_runBody (fun stmt hstmt => hrun hstmt hs) (S.closure_code hc)
    refine hbody.nested.bind fun _ flow flow' _ hflow => ?_
    cases hflow with
    | normal hv => exact matches_value .nil
    | returned hv => exact matches_value hv
  · exact matches_raise line fun _ _ => .arityMismatch _ _

/-- A statement can run in two scopes alike: they correspond, or it declares nothing and the same is
seen in them. -/
def Suits (S : Simulation W) (w : W) (stmt : Stmt) (s s' : Scope) : Prop :=
  S.scope w s s' ∨ stmt.Quiet ∧ S.view w s s'

theorem Suits.mono {stmt : Stmt} {s s' : Scope} (hw : w ≤ w') (h : S.Suits w stmt s s') :
    S.Suits w' stmt s s' := h.imp (S.scope_mono hw) (And.imp_right (S.view_mono hw))

theorem Suits.view {stmt : Stmt} {s s' : Scope} (h : S.Suits w stmt s s') : S.view w s s' := by
  rcases h with h | ⟨-, h⟩
  · exact S.view_of_scope h
  · exact h

/-- A declaration is not quiet. -/
theorem Suits.scope {stmt : Stmt} {s s' : Scope} (h : S.Suits w stmt s s')
    (hstmt : stmt.declared? ≠ none) : S.scope w s s' := h.resolve_right fun h' => hstmt h'.1.1

/-- What a statement runs in its own scope can run there as it can. -/
theorem Suits.part {stmt part : Stmt} {s s' : Scope} (h : S.Suits w stmt s s')
    (hpart : stmt.Quiet → part.Quiet) : S.Suits w part s s' := h.imp_right (And.imp_left hpart)

/-- **Corresponding machines evaluate and execute alike.** -/
theorem matches_walk (limit : Option Nat) (n : Nat) :
    (∀ {w e s s'}, S.view w s s' →
        S.Matches w S.value (eval limit n e s) (eval limit (n + S.spare) e s')) ∧
      ∀ {w stmt s s'}, S.code stmt → S.Suits w stmt s s' →
        S.Matches w S.Flows (exec limit n stmt s) (exec limit (n + S.spare) stmt s') := by
  induction n with
  | zero =>
    -- with nothing to spare the second run has no fuel either
    constructor
    · intro w e s s' _ w₁ m m' _ _
      refine .exhausted fun hspare => ?_
      rw [hspare]
      rfl
    · intro w stmt s s' _ _ w₁ m m' _ _
      refine .exhausted fun hspare => ?_
      rw [hspare]
      rfl
  | succ n ih =>
    obtain ⟨ihe, ihs⟩ := ih
    rw [Nat.add_right_comm]
    constructor
    · intro w e s s' hs
      cases e with
      | literal value => exact matches_value (.ofLiteral value)
      | identifier name line => exact matches_lookup hs name
      | grouping inner => exact ihe hs
      | unary op operand line =>
        exact (ihe hs).bind fun _ v v' _ hv =>
          matches_ofExcept line fun _ hw => (value_mono hw hv).unary op
      | binary op left right line =>
        refine (ihe hs).bind fun _ l l' hw hl => ?_
        refine (ihe (S.view_mono hw hs)).bind fun _ r r' hw' hr => ?_
        exact matches_ofExcept line fun _ hw'' => Value.Corresponds.binary (fun _ _ => S.closure_id)
          op (value_mono (hw'.trans hw'') hl) (value_mono hw'' hr)
      | logical op left right =>
        refine (ihe hs).bind fun _ l l' hw hl => ?_
        rw [hl.settles]
        split
        · exact matches_value hl
        · exact ihe (S.view_mono hw hs)
      | assign name value line =>
        exact (ihe hs).bind fun _ v v' hw hv =>
          (matches_assign (S.view_mono hw hs) hv name line).bind fun _ _ _ _ _ =>
            matches_value .nil
      | call f args line =>
        rw [eval_call, eval_call]
        refine (ihe hs).bind fun _ v v' hw₁ hv => ?_
        refine (matches_callee line hv).bind fun _ c d hw₂ hc => ?_
        have hs₂ := S.view_mono (hw₁.trans hw₂) hs
        refine (matches_evalAll (fun arg => ihe hs₂) args).bind fun _ vs vs' hw₃ hvs => ?_
        have hrun {w₁ stmt s s'} (hstmt : S.code stmt) (hs : S.scope w₁ s s') :=
          ihs hstmt (.inl hs)
        exact matches_invoke hrun (S.closure_mono hw₃ hc) hvs line
    · intro w stmt s s' hstmt hsuits
      refine matches_countStatement.bind fun _ _ _ hw _ => ?_
      replace hsuits := hsuits.mono hw
      have hview := hsuits.view
      cases stmt with
      | var name initial =>
        have hs := hsuits.scope nofun
        cases initial with
        | none => exact (matches_declare hs .nil name).bind fun _ _ _ _ _ => matches_normal .nil
        | some e =>
          exact (ihe hview).bind fun _ v v' hw hv =>
            (matches_declare (S.scope_mono hw hs) hv name).bind fun _ _ _ _ _ => matches_normal .nil
      | function name params body =>
        refine (matches_note rfl).bind fun _ _ _ hw₁ _ => ?_
        have hbody : ∀ stmt ∈ body, S.code stmt := fun stmt hmem => S.code_part hstmt hmem
        have hs := S.scope_mono hw₁ (hsuits.scope nofun)
        refine (matches_makeClosure hbody hs).bind fun _ c d hw₂ hc => ?_
        exact (matches_declare (S.scope_mono hw₂ hs) (.function hc) name).bind fun _ _ _ _ _ =>
          matches_normal .nil
      | block body =>
        refine (matches_note rfl).bind fun _ _ _ hw₁ _ => ?_
        refine (matches_enterBlock (S.view_mono hw₁ hview)).bind fun _ inner inner' _ hinner => ?_
        exact matches_runBody (fun stmt hstmt => ihs hstmt (.inl hinner))
          fun stmt hmem => S.code_part hstmt hmem
      | branch cond yes no =>
        refine (ihe hview).bind fun _ v v' hw₁ hv => ?_
        replace hsuits := hsuits.mono hw₁
        rw [hv.isTruthy]
        split
        · exact ihs (S.code_part hstmt (by simp [Stmt.parts])) (hsuits.part Stmt.Quiet.yes)
        · cases no with
          | none => exact matches_normal .nil
          | some no =>
            exact ihs (S.code_part hstmt (by simp [Stmt.parts])) (hsuits.part Stmt.Quiet.no)
      | loop cond body =>
        have hbody := ihs (S.code_part hstmt (by simp [Stmt.parts])) (hsuits.part Stmt.Quiet.body)
        exact matches_runLoop (ihe hview) hbody n
      | print e =>
        exact (ihe hview).bind fun _ v v' _ hv =>
          (matches_print hv).bind fun _ _ _ _ _ => matches_normal .nil
      | ret value line =>
        refine matches_depth.bind fun _ j k hw₁ hjk => ?_
        subst hjk
        split
        · exact matches_raise line fun _ _ => .topLevelReturn
        · cases value with
          | none => exact matches_returned .nil
          | some e =>
            exact (ihe (S.view_mono hw₁ hview)).bind fun _ v v' _ hv => matches_returned hv
      | expression e => exact (ihe hview).bind fun _ v v' _ hv => matches_normal hv

/-! ### Programs -/

theorem shown_corresponds (stmt : Stmt) {v v' : Value} (h : S.value w v v') :
    Option.Rel (S.value w) (stmt.shown v) (stmt.shown v') := by
  cases stmt with
  | expression e => exact .some h
  | _ => exact .none

theorem matches_runStatements (n : Nat) {s s' : Scope} (hs : S.scope w s s')
    {last last' : Option Value} (hlast : ∀ w₁, w ≤ w₁ → Option.Rel (S.value w₁) last last')
    {program : List Stmt} (hprogram : ∀ stmt ∈ program, S.code stmt) :
    S.Matches w (fun w => Option.Rel (S.value w)) (runStatements limit n s last program)
      (runStatements limit (n + S.spare) s' last' program) := by
  induction program generalizing w last last' with
  | nil => exact matches_pure hlast
  | cons stmt program ih =>
    obtain ⟨hstmt, hprogram⟩ := List.forall_mem_cons.mp hprogram
    refine ((matches_walk limit n).2 hstmt (.inl hs)).bind fun _ flow flow' hw hflow => ?_
    cases hflow with
    | normal hv =>
      have hshown w₁ (hw₁ : _ ≤ w₁) := shown_corresponds stmt (value_mono hw₁ hv)
      exact ih (S.scope_mono hw hs) hshown hprogram
    | returned hv => exact fun _ _ _ _ hm => .failed le_rfl hm .topLevelReturn

variable {s s' : Scope} {m m' : Machine}

/-- **Corresponding machines evaluate an expression alike.** -/
theorem ends_eval (limit : Option Nat) (n : Nat) (e : Expr) (hs : S.scope w s s')
    (hm : S.machine w m m') :
    S.Ends w S.value (eval limit n e s m) (eval limit (n + S.spare) e s' m') :=
  (matches_walk limit n).1 (S.view_of_scope hs) _ _ _ le_rfl hm

/-- **Corresponding machines execute a statement alike.** -/
theorem ends_exec (limit : Option Nat) (n : Nat) {stmt : Stmt} (hstmt : S.code stmt)
    (hs : S.scope w s s') (hm : S.machine w m m') :
    S.Ends w S.Flows (exec limit n stmt s m) (exec limit (n + S.spare) stmt s' m') :=
  (matches_walk limit n).2 hstmt (.inl hs) _ _ _ le_rfl hm

/-- **Corresponding machines run a program alike.** -/
theorem ends_runProgram (limit : Option Nat) (n : Nat) {program : List Stmt}
    (hprogram : ∀ stmt ∈ program, S.code stmt) (hs : S.scope w s s') (hm : S.machine w m m') :
    S.Ends w (fun w => Option.Rel (S.value w)) (runProgram limit n program s m)
      (runProgram limit (n + S.spare) program s' m') := by
  have hstart := matches_modify (S := S) (w := w) (fun hm => S.depth hm 0)
  refine (hstart.bind fun _ _ _ hw _ => ?_) _ _ _ le_rfl hm
  exact matches_runStatements n (S.scope_mono hw hs) (fun _ _ => .none) hprogram

end Walk

/-! ### Copies -/

/-- **The second machine is a copy of the first**, and function values are the same on both. -/
structure Copies (S : Simulation W) (F : Machine → Machine) : Prop where
  machine : ∀ {w m m'}, S.machine w m m' → m' = F m
  closure : ∀ {w c d}, S.closure w c d → d = c

namespace Copies

variable {F : Machine → Machine} (hF : S.Copies F)

include hF

theorem value_eq {v v' : Value} (h : S.value w v v') : v' = v := h.eq fun _ _ => hF.closure

theorem fault_eq {fault fault' : RuntimeFault} (h : fault.Corresponds (S.value w) fault') :
    fault' = fault := by
  cases h with
  | nilOperand op hl hr => rw [hF.value_eq hl, hF.value_eq hr]
  | wrongOperands op hl hr => rw [hF.value_eq hl, hF.value_eq hr]
  | wrongOperand h => rw [hF.value_eq h]
  | notCallable h => rw [hF.value_eq h]
  | _ => rfl

/-- What ends alike ends in the same way, one on the copy of the machine of the other; but with
fuel to spare the second computation may go on where the first cannot. -/
theorem ends {o o' : Outcome α} {P : W → α → α → Prop} (h : S.Ends w P o o')
    (hP : ∀ {w a b}, P w a b → b = a) :
    o = .exhausted ∧ S.spare ≠ 0 ∨ o' = o.onMachine F := by
  cases h with
  | done _ hm h =>
    rw [hP h, hF.machine hm]
    exact .inr rfl
  | failed _ hm h =>
    rw [hF.fault_eq h, hF.machine hm]
    exact .inr rfl
  | exhausted h =>
    by_cases hspare : S.spare = 0
    · rw [h hspare]
      exact .inr rfl
    · exact .inl ⟨rfl, hspare⟩

theorem eval (limit : Option Nat) (n : Nat) (e : Expr) {s s' : Scope} {m m' : Machine}
    (hs : S.scope w s s') (hm : S.machine w m m') :
    Lox.eval limit n e s m = .exhausted ∧ S.spare ≠ 0 ∨
      Lox.eval limit (n + S.spare) e s' m' = (Lox.eval limit n e s m).onMachine F :=
  hF.ends (ends_eval limit n e hs hm) hF.value_eq

theorem runProgram (limit : Option Nat) (n : Nat) {program : List Stmt} {s s' : Scope}
    {m m' : Machine} (hprogram : ∀ stmt ∈ program, S.code stmt) (hs : S.scope w s s')
    (hm : S.machine w m m') :
    Lox.runProgram limit n program s m = .exhausted ∧ S.spare ≠ 0 ∨
      Lox.runProgram limit (n + S.spare) program s' m' =
        (Lox.runProgram limit n program s m).onMachine F := by
  refine hF.ends (ends_runProgram limit n hprogram hs hm) fun h => ?_
  cases h with
  | some h => rw [hF.value_eq h]
  | none => rfl

end Copies

end Simulation

end Lox
