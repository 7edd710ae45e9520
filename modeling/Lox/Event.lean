import Lox.Value

/-!
# Events

What a machine leaves behind besides values and scopes: the values it prints, and the
steps that somebody watching it may want to hear of. They are kept in one list, in the
order they happened, because a failing `print` is itself reported between the others.
-/

namespace Lox

/-- Something that happened. -/
inductive Event
  /-- A value was printed. -/
  | printed (v : Value)
  /-- A text was read as this many tokens, the end of the input included. -/
  | scanned (tokens lines : Nat)
  /-- Tokens were read as this many statements. -/
  | parsed (statements : Nat)
  /-- A function was declared. -/
  | declared (name : String) (params : Nat)
  /-- A block of this many statements was entered. -/
  | entered (statements : Nat)
  /-- A function was called while this many calls were active. -/
  | called (name : String) (depth : Nat)

/-- The value an event prints. -/
def Event.printed? : Event → Option Value
  | printed v => some v
  | _ => none

end Lox
