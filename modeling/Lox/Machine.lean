import Lox.Event
import Lox.Heap
import Lox.Value.Operators

/-!
# The machine

The state a running program changes, and `Exec`, a computation on it. A computation is
done, or it has failed, or the fuel that bounds it ran out; the first two leave a
machine behind, and what a failed computation has changed stays changed.
-/

namespace Lox

/-- How often things were done. -/
structure Stats where
  /-- Statements whose execution was begun, nested ones included. -/
  statements : Nat
  /-- Function bodies entered. -/
  calls : Nat
  /-- Frames made for blocks and calls. -/
  scopes : Nat
deriving DecidableEq

/-- Nothing has been done yet. -/
def Stats.zero : Stats := ⟨0, 0, 0⟩

/-- The state of a running program. -/
structure Machine where
  /-- All scopes. -/
  heap : Heap
  /-- How many function values have been made. -/
  made : Nat
  /-- How often things were done. -/
  stats : Stats
  /-- How many calls are active. -/
  depth : Nat
  /-- What happened, in order. -/
  events : Array Event

namespace Machine

/-- A machine that has done nothing and has no scopes. -/
def new : Machine := ⟨.empty, 0, .zero, 0, #[]⟩

/-- Records an event. -/
def note (m : Machine) (e : Event) : Machine := { m with events := m.events.push e }

/-- Makes an empty scope that no other encloses. -/
def newRoot (m : Machine) : Scope × Machine :=
  let (s, heap) := m.heap.push none
  (s, { m with heap })

/-- Makes an empty scope inside another. -/
def newChild (m : Machine) (parent : Scope) : Scope × Machine :=
  let (s, heap) := m.heap.push (some parent)
  (s, { m with heap })

/-- Binds a name in a scope. -/
def declare (m : Machine) (s : Scope) (name : String) (v : Value) : Machine :=
  { m with heap := m.heap.declare s name v }

/-- Gives a new value to the nearest binding of a name. -/
def assign (m : Machine) (s : Scope) (name : String) (v : Value) : Except RuntimeFault Machine :=
  match m.heap.assign? s name v with
  | some heap => .ok { m with heap }
  | none => .error (.undefinedVariable name)

/-- The values printed so far. -/
def output (m : Machine) : List Value := m.events.toList.filterMap Event.printed?

end Machine

/-- How a computation ends. -/
inductive Outcome (α : Type)
  /-- It is done. -/
  | done (a : α) (m : Machine)
  /-- It has failed. -/
  | failed (fault : Located RuntimeFault) (m : Machine)
  /-- It was given too little fuel. -/
  | exhausted

/-- A computation on a machine. -/
def Exec (α : Type) := Machine → Outcome α

namespace Exec

variable {α β : Type}

/-- Does nothing. -/
@[always_inline, inline]
protected def pure (a : α) : Exec α := fun m => .done a m

/-- One computation after another. -/
@[always_inline, inline]
protected def bind (x : Exec α) (f : α → Exec β) : Exec β := fun m =>
  match x m with
  | .done a m => f a m
  | .failed fault m => .failed fault m
  | .exhausted => .exhausted

@[always_inline]
instance : Monad Exec where
  pure := Exec.pure
  bind := Exec.bind

/-! ### One computation after another -/

section Sequence

variable {x : Exec α} {f : α → Exec β} {m m' : Machine}

/-- After a computation that is done, the next one goes on where it stopped. -/
theorem bind_of_done {a : α} (h : x m = .done a m') : (x >>= f) m = f a m' := by
  change Exec.bind x f m = f a m'
  rw [Exec.bind, h]

/-- **After a failure nothing more is done**: the machine stays as the failure left it. -/
theorem bind_of_failed {fault : Located RuntimeFault} (h : x m = .failed fault m') :
    (x >>= f) m = .failed fault m' := by
  change Exec.bind x f m = .failed fault m'
  rw [Exec.bind, h]

/-- Where a part runs out of fuel, so does the whole. -/
theorem bind_of_exhausted (h : x m = .exhausted) : (x >>= f) m = .exhausted := by
  change Exec.bind x f m = .exhausted
  rw [Exec.bind, h]

/-- What fails fails in its first part, or in its second after the first is done. -/
theorem failed_of_bind {fault : Located RuntimeFault} (h : (x >>= f) m = .failed fault m') :
    x m = .failed fault m' ∨ ∃ a m₁, x m = .done a m₁ ∧ f a m₁ = .failed fault m' := by
  cases hx : x m with
  | done a m₁ =>
    rw [bind_of_done hx] at h
    exact .inr ⟨a, m₁, rfl, h⟩
  | failed fault₁ m₁ =>
    rw [bind_of_failed hx] at h
    cases h
    exact .inl rfl
  | exhausted =>
    rw [bind_of_exhausted hx] at h
    cases h

theorem bind_assoc {γ : Type} (x : Exec α) (f : α → Exec β) (g : β → Exec γ) :
    x >>= f >>= g = x >>= fun a => f a >>= g := by
  funext m
  change Exec.bind (Exec.bind x f) g m = Exec.bind x (fun a => Exec.bind (f a) g) m
  unfold Exec.bind
  cases x m <;> rfl

end Sequence

/-! ### The operations -/

/-- Ends for want of fuel. -/
def exhausted : Exec α := fun _ => .exhausted

/-- Fails at a line. -/
def raise (fault : RuntimeFault) (line : Nat) : Exec α := fun m =>
  .failed (.atLine fault line) m

/-- The result of an operator, or its fault at a line. -/
def ofExcept (line : Nat) : Except RuntimeFault α → Exec α
  | .ok a => Exec.pure a
  | .error fault => raise fault line

/-- Changes the machine. -/
@[always_inline, inline]
def modify (f : Machine → Machine) : Exec Unit := fun m => .done () (f m)

/-- Reads something off the machine. -/
@[always_inline, inline]
def read (f : Machine → α) : Exec α := fun m => .done (f m) m

/-- Records an event. -/
def note (e : Event) : Exec Unit := modify (·.note e)

/-- Counts a statement. -/
def countStatement : Exec Unit := modify fun m =>
  { m with stats := { m.stats with statements := m.stats.statements + 1 } }

/-- Makes and counts the scope of a block. -/
def enterBlock (parent : Scope) : Exec Scope := fun m =>
  let m := { m with stats := { m.stats with scopes := m.stats.scopes + 1 } }
  let (s, m) := m.newChild parent
  .done s m

/-- The value of a name. -/
def lookup (s : Scope) (name : String) : Exec Value := read (·.heap.lookup s name)

/-- Binds a name in a scope. -/
def declare (s : Scope) (name : String) (v : Value) : Exec Unit := modify (·.declare s name v)

/-- Binds names to values, one after the other. -/
def declareAll (s : Scope) : List (String × Value) → Exec Unit
  | [] => Exec.pure ()
  | (name, v) :: rest => Exec.bind (declare s name v) fun _ => declareAll s rest

/-- Gives a new value to the nearest binding of a name. -/
def assign (s : Scope) (name : String) (v : Value) (line : Nat) : Exec Unit := fun m =>
  match m.heap.owner? s name with
  | some owner => .done () (m.declare owner name v)
  | none => .failed (.atLine (.undefinedVariable name) line) m

/-- Makes a new function value. -/
def makeClosure (function : Function) (scope : Scope) : Exec Closure := fun m =>
  .done ⟨m.made, function, scope⟩ { m with made := m.made + 1 }

/-- Runs the body of a call: one call more is active until it ends, however it ends. -/
def nested (body : Exec α) : Exec α := fun m =>
  match body { m with depth := m.depth + 1 } with
  | .done a m => .done a { m with depth := m.depth - 1 }
  | .failed fault m => .failed fault { m with depth := m.depth - 1 }
  | .exhausted => .exhausted

/-- Passes a fault on, with a line if it has none. -/
def withLine (x : Exec α) (line : Nat) : Exec α := fun m =>
  match x m with
  | .done a m => .done a m
  | .failed fault m => .failed (fault.withLine line) m
  | .exhausted => .exhausted

end Exec

end Lox
