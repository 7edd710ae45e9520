import Lox.Eval

/-!
# What operators make

A run has function values in hand that it has found in the machine or made by a declaration. All
other values it makes are no functions, since neither a literal nor an operator gives one. So what
holds of the function values in a machine holds of those in hand (`Lox.Value.Within`).

An operator is refused only on account of its operands, one of which is `nil` or of the wrong type.
So the kind of a fault tells that no operator has raised it (`Lox.Value.kind_of_unary`,
`Lox.Value.kind_of_binary`).
-/

namespace Lox

/-! ### Function values in hand -/

/-- A value that is a function only if the function has a property. -/
def Value.Within (P : Closure → Prop) (v : Value) : Prop := ∀ f, v = .function f → P f

namespace Value

variable {P Q : Closure → Prop} {v w l r : Value}

theorem Within.mono (h : v.Within P) (hPQ : ∀ f, P f → Q f) : v.Within Q :=
  fun f hf => hPQ f (h f hf)

theorem within_function {f : Closure} (h : P f) : (function f).Within P := by
  rintro _ ⟨⟩
  exact h

theorem within_nil : nil.Within P := nofun

theorem within_ofLiteral (literal : Literal) : (ofLiteral literal).Within P := by
  cases literal <;> exact nofun

theorem within_of_unary {op : UnaryOp} (h : v.unary op = .ok w) : w.Within P := by
  unfold Value.unary at h
  split at h <;> cases h <;> exact nofun

theorem within_onNumbers (op : BinaryOp) (x y : Float) : (onNumbers op x y).Within P := by
  cases op <;> exact nofun

theorem within_of_binary {op : BinaryOp} (h : Value.binary op l r = .ok w) : w.Within P := by
  unfold Value.binary at h
  split at h
  · cases h
    exact nofun
  · cases h
    exact nofun
  · split at h
    · cases h
    · split at h
      · cases h
        exact within_onNumbers _ _ _
      · split at h <;> cases h
        exact nofun
      · cases h

end Value

/-- The function values in what a statement ends with. -/
def Flow.Within (P : Closure → Prop) : Flow → Prop
  | .normal v => v.Within P
  | .returned v => v.Within P

/-! ### Operands that are refused -/

theorem Value.kind_of_unary {op : UnaryOp} {v : Value} {fault : RuntimeFault}
    (h : v.unary op = .error fault) : fault.kind = .wrongType := by
  unfold Value.unary at h
  split at h <;> cases h
  rfl

/-- An operator fails only on account of its operands. -/
theorem Value.kind_of_binary {op : BinaryOp} {l r : Value} {fault : RuntimeFault}
    (h : Value.binary op l r = .error fault) :
    fault.kind = .nilOperand ∨ fault.kind = .wrongType := by
  unfold Value.binary at h
  split at h
  · cases h
  · cases h
  · split at h
    · cases h
      exact .inl rfl
    · split at h
      · cases h
      · split at h <;> cases h
        exact .inr rfl
      · cases h
        exact .inr rfl

end Lox
