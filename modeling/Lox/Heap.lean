import Lox.Value

/-!
# The heap of scopes

A frame holds the variables of one scope and names the scope around it. Frames are never
removed, so a function value can name its scope by its place in the heap for ever, and a
frame is always younger than the one around it.

Reading a name and assigning to it both walk along the chain of enclosing scopes: `Heap.lookup`
to a value, `Heap.owner?` to the scope that an assignment changes. They stop at the same scope, the
nearest one that binds the name (`Heap.lookup_eq_owner?`).
-/

namespace Lox

/-- The variables of one scope. Each name occurs at most once. -/
abbrev Bindings := List (String × Value)

namespace Bindings

/-- The value of a name, if it is bound. -/
def value? (name : String) : Bindings → Option Value
  | [] => none
  | (x, v) :: rest => if x = name then some v else value? name rest

/-- Binds a name, in its place if it is there already. -/
def insert (name : String) (v : Value) : Bindings → Bindings
  | [] => [(name, v)]
  | (x, w) :: rest => if x = name then (x, v) :: rest else (x, w) :: insert name v rest

/-- All bindings in the order of their names. -/
def sorted (vars : Bindings) : Bindings :=
  vars.mergeSort fun a b => decide (a.1 ≤ b.1)

/-- The name just bound has its value. -/
theorem value?_insert_self (name : String) (v : Value) (vars : Bindings) :
    value? name (insert name v vars) = some v := by
  induction vars with
  | nil => simp [insert, value?]
  | cons b rest ih => by_cases h : b.1 = name <;> simp [insert, value?, h, ih]

/-- **Every other name keeps its value.** -/
theorem value?_insert_of_ne {name other : String} (h : other ≠ name) (v : Value)
    (vars : Bindings) : value? other (insert name v vars) = value? other vars := by
  induction vars with
  | nil => simp [insert, value?, h.symm]
  | cons b rest ih =>
    by_cases hb : b.1 = name
    · simp [insert, value?, hb, h.symm]
    · simp [insert, value?, hb, ih]

/-- Binding a name brings in no value but the new one. -/
theorem mem_or_eq_of_mem_insert {name : String} {v : Value} {vars : Bindings} {b : String × Value}
    (h : b ∈ insert name v vars) : b ∈ vars ∨ b.2 = v := by
  induction vars with
  | nil =>
    rw [insert, List.mem_singleton] at h
    exact .inr (by rw [h])
  | cons x rest ih =>
    unfold insert at h
    split at h
    · rcases List.mem_cons.mp h with rfl | h
      · exact .inr rfl
      · exact .inl (List.mem_cons_of_mem x h)
    · rcases List.mem_cons.mp h with rfl | h
      · exact .inl List.mem_cons_self
      · exact (ih h).imp_left (List.mem_cons_of_mem x)

/-- The value of a name stands among the bindings. -/
theorem mem_of_value? {name : String} {v : Value} {vars : Bindings}
    (h : value? name vars = some v) : (name, v) ∈ vars := by
  induction vars with
  | nil => cases h
  | cons x rest ih =>
    unfold value? at h
    split at h
    · next hx =>
      cases h
      rw [← hx]
      exact List.mem_cons_self
    · exact List.mem_cons_of_mem x (ih h)

end Bindings

/-- The frame of one scope. -/
structure Frame where
  /-- Its variables. -/
  vars : Bindings
  /-- The scope around it, if there is one. -/
  parent : Option Scope

/-- All frames made so far. -/
structure Heap where
  /-- The frames, in the order they were made. -/
  frames : Array Frame

namespace Heap

/-- No frames at all. -/
def empty : Heap := ⟨#[]⟩

/-- Adds an empty frame. -/
def push (h : Heap) (parent : Option Scope) : Scope × Heap :=
  (h.frames.size, ⟨h.frames.push ⟨[], parent⟩⟩)

/-- The variables of one scope alone. -/
def vars (h : Heap) (s : Scope) : Bindings :=
  match h.frames[s]? with
  | some frame => frame.vars
  | none => []

/-- The scope around another. -/
def parent? (h : Heap) (s : Scope) : Option Scope :=
  match h.frames[s]? with
  | some frame => frame.parent
  | none => none

theorem lt_size_of_mem_vars {h : Heap} {s : Scope} {b : String × Value} (hb : b ∈ h.vars s) :
    s < h.frames.size := by
  unfold vars at hb
  split at hb
  · next hframe => exact (Array.getElem?_eq_some_iff.mp hframe).1
  · cases hb

theorem lt_size_of_parent? {h : Heap} {s p : Scope} (hp : h.parent? s = some p) :
    s < h.frames.size := by
  unfold parent? at hp
  split at hp
  · next hframe => exact (Array.getElem?_eq_some_iff.mp hframe).1
  · cases hp

/-- Binds a name in a scope, whatever the scopes around it hold. -/
def declare (h : Heap) (s : Scope) (name : String) (v : Value) : Heap :=
  ⟨h.frames.modify s fun frame => { frame with vars := Bindings.insert name v frame.vars }⟩

/-- A declaration changes no frame but that of its scope. -/
theorem getElem?_declare (h : Heap) (s t : Scope) (name : String) (v : Value) :
    (h.declare s name v).frames[t]? = if s = t then
      h.frames[t]?.map fun frame => { frame with vars := Bindings.insert name v frame.vars }
    else h.frames[t]? := Array.getElem?_modify

theorem size_declare (h : Heap) (s : Scope) (name : String) (v : Value) :
    (h.declare s name v).frames.size = h.frames.size := Array.size_modify

/-- A declaration brings no value into a frame but its own. -/
theorem mem_or_eq_of_mem_declare {h : Heap} {s t : Scope} {name : String} {v : Value}
    {b : String × Value} (hb : b ∈ (h.declare s name v).vars t) :
    b ∈ h.vars t ∨ t = s ∧ b.2 = v := by
  unfold vars at hb ⊢
  rw [getElem?_declare] at hb
  by_cases hst : s = t
  · rw [if_pos hst] at hb
    cases hframe : h.frames[t]? with
    | none => simp [hframe] at hb
    | some frame =>
      rw [hframe] at hb
      exact (Bindings.mem_or_eq_of_mem_insert hb).imp_right fun hv => ⟨hst.symm, hv⟩
  · rw [if_neg hst] at hb
    exact .inl hb

theorem parent?_declare (h : Heap) (s t : Scope) (name : String) (v : Value) :
    (h.declare s name v).parent? t = h.parent? t := by
  unfold parent?
  rw [getElem?_declare]
  by_cases hst : s = t
  · rw [if_pos hst]
    cases h.frames[t]? <;> rfl
  · rw [if_neg hst]

theorem size_push (h : Heap) (parent : Option Scope) :
    (h.push parent).2.frames.size = h.frames.size + 1 := Array.size_push _

theorem getElem?_push (h : Heap) (parent : Option Scope) (t : Scope) :
    (h.push parent).2.frames[t]? = if t = h.frames.size then some ⟨[], parent⟩ else h.frames[t]? :=
  Array.getElem?_push

/-- A new frame is empty, and the others are what they were. -/
theorem vars_push (h : Heap) (parent : Option Scope) (t : Scope) :
    (h.push parent).2.vars t = h.vars t := by
  unfold vars
  rw [getElem?_push]
  by_cases ht : t = h.frames.size
  · rw [if_pos ht, Array.getElem?_eq_none (Nat.le_of_eq ht.symm)]
  · rw [if_neg ht]

theorem parent?_push (h : Heap) (parent : Option Scope) (t : Scope) :
    (h.push parent).2.parent? t = if t = h.frames.size then parent else h.parent? t := by
  unfold parent?
  rw [getElem?_push]
  by_cases ht : t = h.frames.size
  · rw [if_pos ht, if_pos ht]
  · rw [if_neg ht, if_neg ht]

/-- The nearest scope that binds a name: the scope itself, or one of those around it. The
walk goes from younger frames to older ones. -/
def owner? (h : Heap) (s : Scope) (name : String) : Option Scope :=
  if (Bindings.value? name (h.vars s)).isSome then some s
  else match h.parent? s with
    | none => none
    | some p => if p < s then h.owner? p name else none
termination_by s

/-- The value of the nearest binding of a name, `nil` if nothing binds it. -/
def lookup (h : Heap) (s : Scope) (name : String) : Value :=
  match Bindings.value? name (h.vars s) with
  | some v => v
  | none => match h.parent? s with
    | none => .nil
    | some p => if p < s then h.lookup p name else .nil
termination_by s

theorem lookup_of_value? {h : Heap} {s : Scope} {name : String} {v : Value}
    (hv : Bindings.value? name (h.vars s) = some v) : h.lookup s name = v := by
  rw [lookup, hv]

/-- **What is read is what the owner of the name holds.** -/
theorem lookup_eq_owner? (h : Heap) (s : Scope) (name : String) :
    h.lookup s name = match h.owner? s name with
      | some o => (Bindings.value? name (h.vars o)).getD .nil
      | none => .nil := by
  fun_induction h.owner? s name with
  | case1 s hbound =>
    obtain ⟨v, hv⟩ := Option.isSome_iff_exists.mp hbound
    rw [lookup, hv]
    change v = (Bindings.value? name (h.vars s)).getD .nil
    rw [hv, Option.getD_some]
  | case2 s hbound hparent =>
    rw [lookup, Option.not_isSome_iff_eq_none.mp hbound, hparent]
  | case3 s hbound p hparent hlt ih =>
    rw [lookup, Option.not_isSome_iff_eq_none.mp hbound, hparent]
    exact (if_pos hlt).trans ih
  | case4 s hbound p hparent hlt =>
    rw [lookup, Option.not_isSome_iff_eq_none.mp hbound, hparent]
    exact if_neg hlt

/-- What is read is `nil`, or it stands among the bindings of the owner. -/
theorem lookup_eq_nil_or_mem (h : Heap) (s : Scope) (name : String) :
    h.lookup s name = .nil ∨
      ∃ o, h.owner? s name = some o ∧ (name, h.lookup s name) ∈ h.vars o := by
  rw [lookup_eq_owner?]
  cases h.owner? s name with
  | none => exact .inl rfl
  | some o =>
    dsimp only
    cases hv : Bindings.value? name (h.vars o) with
    | none => exact .inl rfl
    | some v => exact .inr ⟨o, rfl, Bindings.mem_of_value? hv⟩

/-- Gives a new value to the nearest binding of a name, if there is one. -/
def assign? (h : Heap) (s : Scope) (name : String) (v : Value) : Option Heap :=
  (h.owner? s name).map fun o => h.declare o name v

end Heap

end Lox
