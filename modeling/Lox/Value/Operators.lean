import Lox.Error
import Lox.Value

/-!
# Operators, and what can go wrong

The operators on values, and `RuntimeFault`, the faults that a running program can
raise. A fault keeps the values it is about; its words are made when it is reported.
-/

namespace Lox

/-- Why a running program fails. -/
inductive RuntimeFault
  /-- Assignment to a name that no scope on the chain declares. -/
  | undefinedVariable (name : String)
  /-- An operator applied to `nil`. -/
  | nilOperand (op : BinaryOp) (left right : Value)
  /-- A binary operator applied to values of the wrong types. -/
  | wrongOperands (op : BinaryOp) (left right : Value)
  /-- Negation of something that is no number. -/
  | wrongOperand (operand : Value)
  /-- A call of something that is no function. -/
  | notCallable (callee : Value)
  /-- A call with the wrong number of arguments. -/
  | arityMismatch (callee : Function) (count : Nat)
  /-- A `return` outside every function body. -/
  | topLevelReturn
  /-- More calls at the same time than are allowed. -/
  | stackOverflow (limit : Nat)

namespace RuntimeFault

/-- The kind of error a fault is. -/
def kind : RuntimeFault → ErrorKind
  | undefinedVariable _ => .undefinedVariable
  | nilOperand .. => .nilOperand
  | wrongOperands .. | wrongOperand _ => .wrongType
  | notCallable _ => .notCallable
  | arityMismatch .. => .arityMismatch
  | topLevelReturn => .invalidReturn
  | stackOverflow _ => .stackOverflow

/-- The words for a fault. -/
def message : RuntimeFault → String
  | undefinedVariable name => "Undefined variable (identifier): \"" ++ name ++ "\""
  | nilOperand op left right =>
    "Cannot evaluate " ++ op.symbol ++ " with a nil value: " ++ left.text ++ " " ++ op.symbol ++
      " " ++ right.text ++ "."
  | wrongOperands .add left right =>
    "Operands of \"+\" must be two numbers or two strings, got " ++ left.typeName ++ " and " ++
      right.typeName
  | wrongOperands op left right =>
    "Operands of \"" ++ op.symbol ++ "\" must be numbers, got " ++ left.typeName ++ " and " ++
      right.typeName
  | wrongOperand operand => "Operand of \"-\" must be a number, got " ++ operand.typeName
  | notCallable callee => "Can only call functions, got " ++ callee.typeName
  | arityMismatch callee count =>
    "Function '" ++ callee.name ++ "' expected " ++ toString callee.arity ++ " args, got " ++
      toString count
  | topLevelReturn => "Cannot return from top-level code"
  | stackOverflow limit => "Stack overflow: more than " ++ toString limit ++ " nested calls"

/-- The complaint about a fault. -/
def complaint (fault : RuntimeFault) : Complaint := ⟨fault.kind, fault.message⟩

end RuntimeFault

namespace Value

/-- An operator with one operand. -/
def unary : UnaryOp → Value → Except RuntimeFault Value
  | .not, v => .ok (bool (!v.isTruthy))
  | .negate, number x => .ok (number (-x))
  | .negate, v => .error (.wrongOperand v)

/-- A binary operator on two numbers. -/
def onNumbers : BinaryOp → Float → Float → Value
  | .add, x, y => number (x + y)
  | .sub, x, y => number (x - y)
  | .mul, x, y => number (x * y)
  | .div, x, y => number (x / y)
  | .greater, x, y => bool (y < x)
  | .greaterEqual, x, y => bool (y ≤ x)
  | .less, x, y => bool (x < y)
  | .lessEqual, x, y => bool (x ≤ y)
  | .equal, x, y => bool (x == y)
  | .notEqual, x, y => bool (x != y)

/-- A binary operator. Equality takes any operands; the others refuse `nil` before they
look at the types. -/
def binary : BinaryOp → Value → Value → Except RuntimeFault Value
  | .equal, l, r => .ok (bool (l.equal r))
  | .notEqual, l, r => .ok (bool (!l.equal r))
  | op, l, r =>
    if l.isNil || r.isNil then .error (.nilOperand op l r)
    else match l, r with
      | number x, number y => .ok (onNumbers op x y)
      | string s, string t =>
        if op = .add then .ok (string (s ++ t))
        else .error (.wrongOperands op (string s) (string t))
      | l, r => .error (.wrongOperands op l r)

/-- Whether the left operand of a logical operator settles its value. -/
def settles : LogicalOp → Value → Bool
  | .and, v => !v.isTruthy
  | .or, v => v.isTruthy

end Value

end Lox
