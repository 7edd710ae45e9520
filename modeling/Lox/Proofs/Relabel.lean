import Lox.Machine
import Lox.Token

/-!
# Relabelling lines

Where a program stands in its text shows in it only as the lines of its nodes. A map of lines
acts on everything that holds nodes: expressions and statements, function values by their
bodies, and so scopes, events and whole machines.

No text and no equality of values depends on a line. So what a value looks like, whether two
values are equal, which scope owns a name, and what is said about a fault stay as they are.
-/

namespace Lox

variable (f : Nat → Nat)

/-! ### Trees -/

/-- A token at another line. -/
def Token.relabel (t : Token) : Token := { t with line := f t.line }

namespace Expr

mutual

/-- An expression with other lines. -/
def relabel : Expr → Expr
  | literal value => literal value
  | identifier name line => identifier name (f line)
  | grouping inner => grouping inner.relabel
  | unary op operand line => unary op operand.relabel (f line)
  | binary op left right line => binary op left.relabel right.relabel (f line)
  | logical op left right => logical op left.relabel right.relabel
  | assign name value line => assign name value.relabel (f line)
  | call callee args line => call callee.relabel (relabelAll args) (f line)

/-- Several expressions with other lines. -/
def relabelAll : List Expr → List Expr
  | [] => []
  | e :: es => e.relabel :: relabelAll es

end

@[simp] theorem relabelAll_eq_map (es : List Expr) : relabelAll f es = es.map (relabel f) := by
  induction es with
  | nil => rfl
  | cons e es ih => rw [relabelAll, ih, List.map_cons]

variable {f} {g : Nat → Nat}

mutual

/-- **Lines may be relabelled at once.** -/
theorem relabel_relabel : ∀ e : Expr, (e.relabel f).relabel g = e.relabel (g ∘ f)
  | literal _ => rfl
  | identifier _ _ => rfl
  | grouping inner => by rw [relabel, relabel, relabel_relabel inner, relabel]
  | unary op operand line => by
    rw [relabel, relabel, relabel_relabel operand, relabel, Function.comp_apply]
  | binary op left right line => by
    rw [relabel, relabel, relabel_relabel left, relabel_relabel right, relabel, Function.comp_apply]
  | logical op left right => by
    rw [relabel, relabel, relabel_relabel left, relabel_relabel right, relabel]
  | assign name value line => by
    rw [relabel, relabel, relabel_relabel value, relabel, Function.comp_apply]
  | call callee args line => by
    rw [relabel, relabel, relabel_relabel callee, relabelAll_relabelAll args, relabel,
      Function.comp_apply]

theorem relabelAll_relabelAll :
    ∀ es : List Expr, relabelAll g (relabelAll f es) = relabelAll (g ∘ f) es
  | [] => rfl
  | e :: es => by
    rw [relabelAll, relabelAll, relabel_relabel e, relabelAll_relabelAll es, relabelAll]

end

mutual

theorem relabel_id : ∀ e : Expr, e.relabel id = e
  | literal _ => rfl
  | identifier _ _ => rfl
  | grouping inner => by rw [relabel, relabel_id inner]
  | unary op operand line => by rw [relabel, relabel_id operand, id]
  | binary op left right line => by rw [relabel, relabel_id left, relabel_id right, id]
  | logical op left right => by rw [relabel, relabel_id left, relabel_id right]
  | assign name value line => by rw [relabel, relabel_id value, id]
  | call callee args line => by rw [relabel, relabel_id callee, relabelAll_id args, id]

theorem relabelAll_id : ∀ es : List Expr, relabelAll id es = es
  | [] => rfl
  | e :: es => by rw [relabelAll, relabel_id e, relabelAll_id es]

end

end Expr

namespace Stmt

mutual

/-- A statement with other lines. -/
def relabel : Stmt → Stmt
  | var name initial => var name (initial.map (Expr.relabel f))
  | function name params body => function name params (relabelAll body)
  | block body => block (relabelAll body)
  | branch cond yes none => branch (cond.relabel f) yes.relabel none
  | branch cond yes (some no) => branch (cond.relabel f) yes.relabel (some no.relabel)
  | loop cond body => loop (cond.relabel f) body.relabel
  | print value => print (value.relabel f)
  | ret value line => ret (value.map (Expr.relabel f)) (f line)
  | expression value => expression (value.relabel f)

/-- Several statements with other lines. -/
def relabelAll : List Stmt → List Stmt
  | [] => []
  | s :: ss => s.relabel :: relabelAll ss

end

@[simp] theorem relabelAll_eq_map (ss : List Stmt) : relabelAll f ss = ss.map (relabel f) := by
  induction ss with
  | nil => rfl
  | cons s ss ih => rw [relabelAll, ih, List.map_cons]

variable {f} {g : Nat → Nat}

theorem map_relabel_relabel (e : Option Expr) :
    (e.map (Expr.relabel f)).map (Expr.relabel g) = e.map (Expr.relabel (g ∘ f)) := by
  cases e with
  | none => rfl
  | some e => simp [Expr.relabel_relabel]

mutual

/-- **Lines may be relabelled at once.** -/
theorem relabel_relabel : ∀ s : Stmt, (s.relabel f).relabel g = s.relabel (g ∘ f)
  | var name initial => by rw [relabel, relabel, map_relabel_relabel, relabel]
  | function name params body => by rw [relabel, relabel, relabelAll_relabelAll body, relabel]
  | block body => by rw [relabel, relabel, relabelAll_relabelAll body, relabel]
  | branch cond yes none => by
    rw [relabel, relabel, Expr.relabel_relabel, relabel_relabel yes, relabel]
  | branch cond yes (some no) => by
    rw [relabel, relabel, Expr.relabel_relabel, relabel_relabel yes, relabel_relabel no, relabel]
  | loop cond body => by rw [relabel, relabel, Expr.relabel_relabel, relabel_relabel body, relabel]
  | print value => by rw [relabel, relabel, Expr.relabel_relabel, relabel]
  | ret value line => by
    rw [relabel, relabel, map_relabel_relabel, relabel, Function.comp_apply]
  | expression value => by rw [relabel, relabel, Expr.relabel_relabel, relabel]

theorem relabelAll_relabelAll :
    ∀ ss : List Stmt, relabelAll g (relabelAll f ss) = relabelAll (g ∘ f) ss
  | [] => rfl
  | s :: ss => by
    rw [relabelAll, relabelAll, relabel_relabel s, relabelAll_relabelAll ss, relabelAll]

end

theorem map_relabel_id (e : Option Expr) : e.map (Expr.relabel id) = e := by
  cases e with
  | none => rfl
  | some e => rw [Option.map_some, Expr.relabel_id]

mutual

theorem relabel_id : ∀ s : Stmt, s.relabel id = s
  | var name initial => by rw [relabel, map_relabel_id]
  | function name params body => by rw [relabel, relabelAll_id body]
  | block body => by rw [relabel, relabelAll_id body]
  | branch cond yes none => by rw [relabel, Expr.relabel_id, relabel_id yes]
  | branch cond yes (some no) => by rw [relabel, Expr.relabel_id, relabel_id yes, relabel_id no]
  | loop cond body => by rw [relabel, Expr.relabel_id, relabel_id body]
  | print value => by rw [relabel, Expr.relabel_id]
  | ret value line => by rw [relabel, map_relabel_id, id]
  | expression value => by rw [relabel, Expr.relabel_id]

theorem relabelAll_id : ∀ ss : List Stmt, relabelAll id ss = ss
  | [] => rfl
  | s :: ss => by rw [relabelAll, relabel_id s, relabelAll_id ss]

end

end Stmt

/-! ### Values -/

/-- A function with other lines in its body. -/
def Function.relabel (fn : Function) : Function := { fn with body := fn.body.map (Stmt.relabel f) }

/-- A function value with other lines in its body. -/
def Closure.relabel (c : Closure) : Closure := { c with function := c.function.relabel f }

namespace Value

/-- A value with other lines in it. -/
def relabel : Value → Value
  | function c => function (c.relabel f)
  | v => v

@[simp] theorem relabel_bool (b : Bool) : (bool b).relabel f = bool b := rfl

@[simp] theorem relabel_text (v : Value) : (v.relabel f).text = v.text := by
  cases v <;> rfl

@[simp] theorem relabel_isTruthy (v : Value) : (v.relabel f).isTruthy = v.isTruthy := by
  cases v <;> rfl

@[simp] theorem relabel_settles (op : LogicalOp) (v : Value) :
    (v.relabel f).settles op = v.settles op := by
  cases op <;> simp [settles]

@[simp] theorem relabel_ofLiteral (l : Literal) : (ofLiteral l).relabel f = ofLiteral l := by
  cases l <;> rfl

theorem relabel_relabel {f g : Nat → Nat} (v : Value) :
    (v.relabel f).relabel g = v.relabel (g ∘ f) := by
  cases v with
  | function c =>
    simp [relabel, Closure.relabel, Function.relabel, Function.comp_def, Stmt.relabel_relabel]
  | _ => rfl

/-- **Equality of values does not depend on lines.** -/
@[simp] theorem equal_relabel (v w : Value) : (v.relabel f).equal (w.relabel f) = v.equal w := by
  cases v <;> cases w <;> rfl

end Value

/-! ### Faults -/

/-- A fault about values with other lines in them. -/
def RuntimeFault.relabel : RuntimeFault → RuntimeFault
  | undefinedVariable name => undefinedVariable name
  | nilOperand op left right => nilOperand op (left.relabel f) (right.relabel f)
  | wrongOperands op left right => wrongOperands op (left.relabel f) (right.relabel f)
  | wrongOperand operand => wrongOperand (operand.relabel f)
  | notCallable callee => notCallable (callee.relabel f)
  | arityMismatch callee count => arityMismatch (callee.relabel f) count
  | topLevelReturn => topLevelReturn
  | stackOverflow limit => stackOverflow limit

/-- **Nothing that is said about a fault depends on lines.** -/
@[simp] theorem RuntimeFault.complaint_relabel (fault : RuntimeFault) :
    (fault.relabel f).complaint = fault.complaint := by
  cases fault with
  | nilOperand op left right => cases left <;> cases right <;> rfl
  | wrongOperands op left right => cases op <;> cases left <;> cases right <;> rfl
  | wrongOperand operand => cases operand <;> rfl
  | notCallable callee => cases callee <;> rfl
  | _ => rfl

/-- The result of an operator with other lines in it. -/
def relabelResult : Except RuntimeFault Value → Except RuntimeFault Value
  | .ok v => .ok (v.relabel f)
  | .error fault => .error (fault.relabel f)

theorem Value.unary_relabel (op : UnaryOp) (v : Value) :
    (v.relabel f).unary op = relabelResult f (v.unary op) := by
  cases op with
  | not => simp [unary, relabelResult]
  | negate => cases v <;> rfl

theorem Value.binary_relabel (op : BinaryOp) (l r : Value) :
    binary op (l.relabel f) (r.relabel f) = relabelResult f (binary op l r) := by
  cases op with
  | equal => simp [binary, relabelResult]
  | notEqual => simp [binary, relabelResult]
  | _ => cases l <;> cases r <;> rfl

/-! ### Scopes -/

/-- Variables whose values have other lines in them. -/
def Bindings.relabel (vars : Bindings) : Bindings := vars.map fun b => (b.1, b.2.relabel f)

theorem Bindings.value?_relabel (name : String) (vars : Bindings) :
    value? name (vars.relabel f) = (value? name vars).map (Value.relabel f) := by
  induction vars with
  | nil => rfl
  | cons b rest ih =>
    change (if b.1 = name then some (b.2.relabel f) else value? name (relabel f rest)) = _
    rw [value?, ih]
    split
    · rfl
    · rfl

theorem Bindings.insert_relabel (name : String) (v : Value) (vars : Bindings) :
    (insert name v vars).relabel f = insert name (v.relabel f) (vars.relabel f) := by
  induction vars with
  | nil => rfl
  | cons b rest ih =>
    have hcons : Bindings.relabel f (b :: rest) = (b.1, b.2.relabel f) :: relabel f rest := rfl
    rw [hcons, insert, insert]
    split
    · rfl
    · rw [← ih]
      rfl

theorem Bindings.sorted_relabel (vars : Bindings) :
    (vars.relabel f).sorted = vars.sorted.relabel f := by
  unfold sorted relabel
  rw [List.map_mergeSort]
  exact fun a _ b _ => rfl

/-- A frame whose values have other lines in them. -/
def Frame.relabel (frame : Frame) : Frame := { frame with vars := frame.vars.relabel f }

namespace Heap

/-- A heap whose values have other lines in them. -/
def relabel (h : Heap) : Heap := ⟨h.frames.map (Frame.relabel f)⟩

theorem relabel_relabel {f g : Nat → Nat} (h : Heap) :
    (h.relabel f).relabel g = h.relabel (g ∘ f) := by
  simp [relabel, Frame.relabel, Bindings.relabel, Function.comp_def, Value.relabel_relabel]

theorem vars_relabel (h : Heap) (s : Scope) : (h.relabel f).vars s = (h.vars s).relabel f := by
  unfold vars relabel
  rw [Array.getElem?_map]
  cases h.frames[s]? with
  | none => rfl
  | some frame => rfl

theorem parent?_relabel (h : Heap) (s : Scope) : (h.relabel f).parent? s = h.parent? s := by
  unfold parent? relabel
  rw [Array.getElem?_map]
  cases h.frames[s]? with
  | none => rfl
  | some frame => rfl

/-- **Which scope owns a name does not depend on lines.** -/
theorem owner?_relabel (h : Heap) (s : Scope) (name : String) :
    (h.relabel f).owner? s name = h.owner? s name := by
  -- along the chain of scopes, from younger to older ones
  induction s using Nat.strongRecOn with
  | ind s ih =>
    rw [owner?, owner?, vars_relabel, parent?_relabel, Bindings.value?_relabel, Option.isSome_map]
    split
    · rfl
    · cases h.parent? s with
      | none => rfl
      | some p =>
        by_cases hp : p < s
        · simp only [if_pos hp, ih p hp]
        · simp only [if_neg hp]

theorem lookup_relabel (h : Heap) (s : Scope) (name : String) :
    (h.relabel f).lookup s name = (h.lookup s name).relabel f := by
  rw [lookup_eq_owner?, lookup_eq_owner?, owner?_relabel]
  cases h.owner? s name with
  | none => rfl
  | some o =>
    simp only [vars_relabel, Bindings.value?_relabel]
    cases Bindings.value? name (h.vars o) with
    | none => rfl
    | some v => rfl

theorem declare_relabel (h : Heap) (s : Scope) (name : String) (v : Value) :
    (h.declare s name v).relabel f = (h.relabel f).declare s name (v.relabel f) := by
  unfold declare relabel
  congr 1
  -- frame by frame: the one that is declared in, and the others
  refine Array.ext_getElem? fun i => ?_
  rw [Array.getElem?_map, Array.getElem?_modify, Array.getElem?_modify, Array.getElem?_map]
  split
  · rw [Option.map_map, Option.map_map]
    refine congrArg (fun g => Option.map g h.frames[i]?) (funext fun frame => ?_)
    simp [Frame.relabel, Bindings.insert_relabel]
  · rfl

theorem push_relabel (h : Heap) (parent : Option Scope) :
    (h.relabel f).push parent = ((h.push parent).1, (h.push parent).2.relabel f) := by
  simp [push, relabel, Frame.relabel, Bindings.relabel]

end Heap

/-- An event that prints a value with other lines in it. -/
def Event.relabel : Event → Event
  | printed v => printed (v.relabel f)
  | e => e

theorem Event.printed?_relabel (e : Event) :
    (e.relabel f).printed? = e.printed?.map (Value.relabel f) := by
  cases e <;> rfl

end Lox
