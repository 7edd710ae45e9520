import Lox.Number.Notation
import Lox.Program

/-!
# Values

What expressions evaluate to. A function value is a declaration together with the scope
it was declared in, and it has an identity: each execution of a declaration makes a new
one, and two function values are equal only if they stem from the same execution.
-/

namespace Lox

/-- A scope is named by the place of its frame in the heap. -/
abbrev Scope := Nat

/-- A function value. -/
structure Closure where
  /-- Its identity: the number of function values made before it. -/
  id : Nat
  /-- The function as it was declared. -/
  function : Function
  /-- The scope it was declared in. -/
  scope : Scope

/-- Values. -/
inductive Value
  | bool (b : Bool)
  | number (x : Float)
  | string (s : String)
  | nil
  | function (f : Closure)

namespace Value

/-- The value of a literal. -/
def ofLiteral : Literal → Value
  | .bool b => bool b
  | .number x => number x
  | .string s => string s
  | .nil => nil

/-- Only `false` and `nil` count as false. -/
def isTruthy : Value → Bool
  | bool b => b
  | nil => false
  | _ => true

/-- Whether a value is `nil`. -/
def isNil : Value → Bool
  | nil => true
  | _ => false

/-- The name of a value's type. -/
def typeName : Value → String
  | bool _ => "boolean"
  | number _ => "number"
  | string _ => "string"
  | nil => "nil"
  | function _ => "function"

/-- The text that `print` writes for a value. -/
def text : Value → String
  | bool b => if b then "true" else "false"
  | number x => Number.text x
  | string s => s
  | nil => "nil"
  | function f => "<fn " ++ f.function.name ++ ">"

/-- Equality of the language: by type and content, for numbers as floating point has it,
and for functions by identity. -/
def equal : Value → Value → Bool
  | bool a, bool b => a == b
  | number x, number y => x == y
  | string s, string t => s == t
  | nil, nil => true
  | function f, function g => f.id == g.id
  | _, _ => false

end Value

end Lox
