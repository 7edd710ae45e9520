import Lox.Heap
import Lox.Text.Quoted

/-!
# Scopes and functions in words

Short descriptions for people who look into a running program. A function is described
without its scope, since that scope usually holds the function itself.
-/

namespace Lox

/-- A scope by the names it binds, in order, and by whether another encloses it. -/
def Heap.describe (h : Heap) (s : Scope) : String :=
  let names := (Bindings.sorted (h.vars s)).map fun b => legible b.1
  "Env \x7b vars: [" ++ ", ".intercalate names ++ "], has_parent: " ++
    (if (h.parent? s).isSome then "true" else "false") ++ " \x7d"

/-- A function by its name and its arity. -/
def Closure.describe (f : Closure) : String :=
  "<fn " ++ f.function.name ++ "/" ++ toString f.function.arity ++ ">"

end Lox
