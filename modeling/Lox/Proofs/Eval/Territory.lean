import Lox.Proofs.Eval.Simulation
import Mathlib.Order.Nat

/-!
# Territories

A run has no way to name a frame out of the blue. It has a scope in hand, it goes from a scope to
the one around it, and it finds function values in frames, each with a scope of its own; all other
scopes that it ever has in hand it has made itself. So there are scopes that it stays within, its
*territory* (`Lox.Territory`), whatever the program is.

A machine is *confined* to a territory (`Lox.Territory.Confines`) if no parent and no function value
leads out of it. A run keeps a machine confined, and neither reads nor writes what lies outside: the
frames there may be replaced by any others, the run does the same and leaves them where they are
(`Lox.Territory.runProgram_overlay`). Both are one simulation, of a machine by the same machine with
other frames laid over it.

A territory grows with the heap, so that it is said of every number of frames which scopes belong to
it. The code that is run has a place in it as well, since function values bring theirs along.
-/

namespace Lox

/-! ### Frames laid over a heap -/

namespace Heap

/-- The heap with other frames in some places. -/
def overlay (h : Heap) (alt : Scope → Option Frame) : Heap :=
  ⟨h.frames.mapIdx fun t frame => (alt t).getD frame⟩

variable {h : Heap} {alt : Scope → Option Frame}

theorem getElem?_overlay (h : Heap) (alt : Scope → Option Frame) (t : Scope) :
    (h.overlay alt).frames[t]? = h.frames[t]?.map fun frame => (alt t).getD frame :=
  Array.getElem?_mapIdx

theorem size_overlay (h : Heap) (alt : Scope → Option Frame) :
    (h.overlay alt).frames.size = h.frames.size := Array.size_mapIdx

/-- Nothing is changed where nothing is laid over. -/
theorem getElem?_overlay_of_none {t : Scope} (ht : alt t = none) :
    (h.overlay alt).frames[t]? = h.frames[t]? := by
  rw [getElem?_overlay, ht]
  exact Option.map_id_apply

theorem vars_overlay {t : Scope} (ht : alt t = none) : (h.overlay alt).vars t = h.vars t := by
  unfold vars
  rw [getElem?_overlay_of_none ht]

theorem parent?_overlay {t : Scope} (ht : alt t = none) :
    (h.overlay alt).parent? t = h.parent? t := by
  unfold parent?
  rw [getElem?_overlay_of_none ht]

theorem declare_overlay {s : Scope} (hs : alt s = none) (name : String) (v : Value) :
    (h.overlay alt).declare s name v = (h.declare s name v).overlay alt := by
  refine congrArg Heap.mk (Array.ext_getElem? fun t => ?_)
  change ((h.overlay alt).declare s name v).frames[t]? =
    ((h.declare s name v).overlay alt).frames[t]?
  rw [getElem?_declare, getElem?_overlay, getElem?_overlay, getElem?_declare]
  by_cases hst : s = t
  · subst hst
    rw [if_pos rfl, if_pos rfl, hs]
    cases h.frames[s]? <;> rfl
  · rw [if_neg hst, if_neg hst]

theorem push_overlay (hnew : alt h.frames.size = none) (parent : Option Scope) :
    (h.overlay alt).push parent = ((h.push parent).1, (h.push parent).2.overlay alt) := by
  refine Prod.ext (size_overlay h alt) (congrArg Heap.mk (Array.ext_getElem? fun t => ?_))
  change ((h.overlay alt).push parent).2.frames[t]? = ((h.push parent).2.overlay alt).frames[t]?
  rw [getElem?_push, size_overlay, getElem?_overlay, getElem?_overlay, getElem?_push]
  by_cases ht : t = h.frames.size
  · subst ht
    rw [if_pos rfl, if_pos rfl, hnew]
    rfl
  · rw [if_neg ht, if_neg ht]

section Closed

variable {P : Scope → Prop} {s o : Scope} {name : String}

/-- The owner of a name is among any scopes that the parents do not lead out of. -/
theorem of_owner? (hP : ∀ {t p}, P t → h.parent? t = some p → P p) (hs : P s)
    (ho : h.owner? s name = some o) : P o := by
  induction s using Nat.strongRecOn with
  | ind s ih =>
    rw [owner?] at ho
    split at ho
    · cases ho
      exact hs
    · split at ho
      · cases ho
      · next p hp =>
        split at ho
        · next hlt => exact ih p hlt (hP hs hp) ho
        · cases ho

theorem owner?_overlay (hP : ∀ {t p}, P t → h.parent? t = some p → P p)
    (halt : ∀ {t}, P t → alt t = none) (hs : P s) :
    (h.overlay alt).owner? s name = h.owner? s name := by
  induction s using Nat.strongRecOn with
  | ind s ih =>
    rw [owner?, owner?, vars_overlay (halt hs), parent?_overlay (halt hs)]
    cases hp : h.parent? s with
    | none => rfl
    | some p =>
      dsimp only
      by_cases hlt : p < s
      · rw [if_pos hlt, if_pos hlt, ih p hlt (hP hs hp)]
      · rw [if_neg hlt, if_neg hlt]

end Closed

end Heap

/-- The machine with other frames in some places. -/
def Machine.overlay (m : Machine) (alt : Scope → Option Frame) : Machine :=
  { m with heap := m.heap.overlay alt }

/-- The value that a statement ends with. -/
def Flow.value : Flow → Value
  | .normal v => v
  | .returned v => v

/-! ### Territories -/

/-- **A territory**: the scopes that a run stays within, and the code that it runs. -/
structure Territory where
  /-- The code. -/
  code : Stmt → Prop
  /-- The scopes, as soon as there are so many frames. -/
  has : Nat → Scope → Prop
  /-- How many frames there are at the start. Those made later all belong to it. -/
  start : Nat
  /-- How many values have been printed at the start. -/
  printed : Nat
  code_part : ∀ {stmt part}, code stmt → part ∈ stmt.parts → code part
  has_mono : ∀ {n n' t}, n ≤ n' → has n t → has n' t
  has_of_lt : ∀ {n n' t}, t < n → has n' t → has n t
  has_new : ∀ {n}, start ≤ n → has (n + 1) n

namespace Territory

variable (T : Territory)

/-- A function value that does not lead out of the territory. -/
def carries (n : Nat) (c : Closure) : Prop :=
  T.has n c.scope ∧ ∀ stmt ∈ c.function.body, T.code stmt

/-- A value that does not lead out of the territory. -/
def admits (n : Nat) (v : Value) : Prop := ∀ c, v = .function c → T.carries n c

/-- **Nothing leads out of the territory**: neither the parent of a frame in it, nor a function
value in such a frame or among those printed since the start. -/
structure Confines (m : Machine) : Prop where
  start_le : T.start ≤ m.heap.frames.size
  /-- A parent was in the territory before its frame was made. -/
  parent : ∀ {t p}, T.has m.heap.frames.size t → m.heap.parent? t = some p → T.has t p
  vars : ∀ {t b}, T.has m.heap.frames.size t → b ∈ m.heap.vars t → T.admits m.heap.frames.size b.2
  output : ∀ v ∈ m.output.drop T.printed, T.admits m.heap.frames.size v

variable {T} {n n' : Nat} {m m' : Machine} {s : Scope} {v : Value}

theorem carries_mono {c : Closure} (hn : n ≤ n') (h : T.carries n c) : T.carries n' c :=
  ⟨T.has_mono hn h.1, h.2⟩

theorem admits_mono (hn : n ≤ n') (h : T.admits n v) : T.admits n' v :=
  fun c hc => carries_mono hn (h c hc)

theorem admits_nil : T.admits n .nil := fun _ h => nomatch h

namespace Confines

theorem of_eq (h : T.Confines m) (hheap : m'.heap = m.heap) (hevents : m'.events = m.events) :
    T.Confines m' := by
  have houtput : m'.output = m.output := by rw [Machine.output, hevents, Machine.output]
  refine ⟨?_, ?_, ?_, ?_⟩
  · rw [hheap]
    exact h.start_le
  · rw [hheap]
    exact h.parent
  · rw [hheap]
    exact h.vars
  · rw [hheap, houtput]
    exact h.output

/-- An event prints nothing, or a value that does not lead out. -/
theorem note (h : T.Confines m) {e : Event}
    (he : ∀ v, e.printed? = some v → T.admits m.heap.frames.size v) : T.Confines (m.note e) where
  start_le := h.start_le
  parent := h.parent
  vars := h.vars
  output := by
    intro v hv
    have houtput : (m.note e).output = m.output ++ e.printed?.toList := by
      unfold Machine.output Machine.note
      rw [Array.toList_push, List.filterMap_append]
      cases hp : e.printed? with
      | none => simp [hp]
      | some v => simp [hp]
    rw [houtput, List.drop_append, List.mem_append] at hv
    rcases hv with hv | hv
    · exact h.output v hv
    · exact he v (Option.mem_toList.mp (List.mem_of_mem_drop hv))

theorem declare (h : T.Confines m) (hv : T.admits m.heap.frames.size v) (s : Scope)
    (name : String) : T.Confines (m.declare s name v) := by
  have hsize : (m.declare s name v).heap.frames.size = m.heap.frames.size :=
    m.heap.size_declare s name v
  refine ⟨?_, ?_, ?_, ?_⟩
  · rw [hsize]
    exact h.start_le
  · intro t p ht hp
    rw [hsize] at ht
    exact h.parent ht ((m.heap.parent?_declare s t name v).symm.trans hp)
  · intro t b ht hb
    rw [hsize] at ht ⊢
    rcases Heap.mem_or_eq_of_mem_declare hb with hb | ⟨-, hb⟩
    · exact h.vars ht hb
    · rw [hb]
      exact hv
  · rw [hsize]
    exact h.output

/-- A new frame is empty, and its parent is in the territory. -/
theorem push (h : T.Confines m) {parent : Option Scope}
    (hparent : ∀ p, parent = some p → T.has m.heap.frames.size p) :
    T.Confines { m with heap := (m.heap.push parent).2 } := by
  have hsize := m.heap.size_push parent
  have hle : m.heap.frames.size ≤ (m.heap.push parent).2.frames.size := by omega
  refine ⟨h.start_le.trans hle, ?_, ?_, fun v hv => admits_mono hle (h.output v hv)⟩
  · intro t p ht hp
    change (m.heap.push parent).2.parent? t = some p at hp
    rw [Heap.parent?_push] at hp
    split at hp
    · next hnew =>
      rw [hnew]
      exact hparent p hp
    · exact h.parent (T.has_of_lt (Heap.lt_size_of_parent? hp) ht) hp
  · intro t b ht hb
    change b ∈ (m.heap.push parent).2.vars t at hb
    rw [Heap.vars_push] at hb
    exact admits_mono hle (h.vars (T.has_of_lt (Heap.lt_size_of_mem_vars hb) ht) hb)

/-- No parent leads out of the territory, whatever has been made since. -/
theorem has_parent (h : T.Confines m) {t p : Scope} (ht : T.has m.heap.frames.size t)
    (hp : m.heap.parent? t = some p) : T.has m.heap.frames.size p :=
  T.has_mono (Heap.lt_size_of_parent? hp).le (h.parent ht hp)

theorem has_owner (h : T.Confines m) (hs : T.has m.heap.frames.size s) {name : String} {o : Scope}
    (ho : m.heap.owner? s name = some o) : T.has m.heap.frames.size o :=
  Heap.of_owner? (fun ht hp => h.has_parent ht hp) hs ho

theorem admits_lookup (h : T.Confines m) (hs : T.has m.heap.frames.size s) (name : String) :
    T.admits m.heap.frames.size (m.heap.lookup s name) := by
  rcases m.heap.lookup_eq_nil_or_mem s name with hnil | ⟨o, ho, hmem⟩
  · rw [hnil]
    exact admits_nil
  · exact h.vars (h.has_owner hs ho) hmem

end Confines

/-! ### The simulation -/

/-- The values that correspond, for function values that do if they are the same and do not lead
out of the territory. -/
theorem corresponds_iff {v' : Value} :
    v.Corresponds (fun c d => T.carries n c ∧ d = c) v' ↔ T.admits n v ∧ v' = v := by
  constructor
  · intro h
    refine ⟨?_, h.eq fun _ _ => And.right⟩
    rintro c rfl
    cases h with
    | function h => exact h.1
  · rintro ⟨h, rfl⟩
    cases v' with
    | function c => exact .function ⟨h c rfl, rfl⟩
    | _ => constructor

/-- **A confined machine is simulated by itself with other frames outside of the territory.** -/
def simulation (T : Territory) (alt : Scope → Option Frame)
    (halt : ∀ {n t}, T.has n t → alt t = none) : Simulation Nat where
  spare := 0
  code := T.code
  machine n m m' := m.heap.frames.size = n ∧ T.Confines m ∧ m' = m.overlay alt
  scope n s s' := T.has n s ∧ s' = s
  view n s s' := T.has n s ∧ s' = s
  closure n c d := T.carries n c ∧ d = c
  code_part := T.code_part
  scope_mono := by
    rintro n n' s _ hn ⟨hs, rfl⟩
    exact ⟨T.has_mono hn hs, rfl⟩
  view_mono := by
    rintro n n' s _ hn ⟨hs, rfl⟩
    exact ⟨T.has_mono hn hs, rfl⟩
  view_of_scope h := h
  closure_mono := by
    rintro n n' c _ hn ⟨hc, rfl⟩
    exact ⟨carries_mono hn hc, rfl⟩
  closure_id h := by rw [h.2]
  closure_function h := by rw [h.2]
  closure_scope h := ⟨h.1.1, by rw [h.2]⟩
  closure_code h := h.1.2
  depth_eq := by
    rintro n m _ ⟨-, -, rfl⟩
    rfl
  depth := by
    rintro n m _ ⟨rfl, hm, rfl⟩ k
    exact ⟨rfl, hm.of_eq rfl rfl, rfl⟩
  tally := by
    rintro n m _ ⟨rfl, hm, rfl⟩ k
    exact ⟨rfl, hm.of_eq rfl rfl, rfl⟩
  note := by
    rintro n m _ e ⟨rfl, hm, rfl⟩ he
    exact ⟨rfl, hm.note fun v hv => (by cases he.symm.trans hv), rfl⟩
  print := by
    rintro n m _ v _ ⟨rfl, hm, rfl⟩ hv
    obtain ⟨hv, rfl⟩ := corresponds_iff.mp hv
    refine ⟨rfl, hm.note fun w hw => ?_, rfl⟩
    cases hw
    exact hv
  lookup := by
    rintro n m _ _ s ⟨rfl, hm, rfl⟩ ⟨hs, rfl⟩ name
    refine corresponds_iff.mpr ⟨hm.admits_lookup hs name, ?_⟩
    have howner : (m.heap.overlay alt).owner? s name = m.heap.owner? s name :=
      Heap.owner?_overlay (fun ht hp => hm.has_parent ht hp) halt hs
    change (m.heap.overlay alt).lookup s name = m.heap.lookup s name
    rw [Heap.lookup_eq_owner?, howner, Heap.lookup_eq_owner?]
    cases ho : m.heap.owner? s name with
    | none => rfl
    | some o => simp only [Heap.vars_overlay (halt (hm.has_owner hs ho))]
  owner := by
    rintro n m _ _ s ⟨rfl, hm, rfl⟩ ⟨hs, rfl⟩ name
    have howner : (m.heap.overlay alt).owner? s name = m.heap.owner? s name :=
      Heap.owner?_overlay (fun ht hp => hm.has_parent ht hp) halt hs
    change Option.Rel _ (m.heap.owner? s name) ((m.heap.overlay alt).owner? s name)
    rw [howner]
    cases ho : m.heap.owner? s name with
    | none => exact .none
    | some o => exact .some ⟨hm.has_owner hs ho, rfl⟩
  declare := by
    rintro n m _ _ s _ v ⟨rfl, hm, rfl⟩ ⟨hs, rfl⟩ hv name
    obtain ⟨hv, rfl⟩ := corresponds_iff.mp hv
    refine ⟨m.heap.size_declare s name v, hm.declare hv s name, ?_⟩
    rw [Machine.declare, Machine.overlay, Heap.declare_overlay (halt hs)]
    rfl
  child := by
    rintro n m _ _ s ⟨rfl, hm, rfl⟩ ⟨hs, rfl⟩
    have hnew : alt m.heap.frames.size = none := halt (T.has_new hm.start_le)
    have hsize := m.heap.size_push (some s)
    refine ⟨m.heap.frames.size + 1, by omega, ⟨hsize, hm.push ?_, ?_⟩, T.has_new hm.start_le, ?_⟩
    · rintro p ⟨⟩
      exact hs
    · rw [Machine.newChild, Machine.overlay, Heap.push_overlay hnew]
      rfl
    · exact m.heap.size_overlay alt
  make := by
    rintro n m _ _ s f ⟨rfl, hm, rfl⟩ ⟨hs, rfl⟩ hf
    exact ⟨m.heap.frames.size, le_rfl, ⟨rfl, hm.of_eq rfl rfl, rfl⟩, ⟨hs, hf⟩, rfl⟩

/-- A confined machine is simulated by itself, so that runs keep it confined. -/
def invariant (T : Territory) : Simulation Nat := T.simulation (fun _ => none) fun _ => rfl

/-! ### Runs -/

section Runs

variable {α : Type} {alt : Scope → Option Frame}

theorem copies_overlay (halt : ∀ {n t}, T.has n t → alt t = none) :
    (T.simulation alt halt).Copies (·.overlay alt) := ⟨fun h => h.2.2, And.right⟩

/-- **An expression is evaluated the same whatever lies outside of the territory.** -/
theorem eval_overlay (halt : ∀ {n t}, T.has n t → alt t = none) (hm : T.Confines m)
    (hs : T.has m.heap.frames.size s) (limit : Option Nat) (fuel : Nat) (e : Expr) :
    eval limit fuel e s (m.overlay alt) = (eval limit fuel e s m).onMachine (·.overlay alt) :=
  ((copies_overlay halt).eval limit fuel e ⟨hs, rfl⟩ ⟨rfl, hm, rfl⟩).resolve_left fun h => h.2 rfl

/-- **A program runs the same whatever lies outside of the territory.** -/
theorem runProgram_overlay (halt : ∀ {n t}, T.has n t → alt t = none) (hm : T.Confines m)
    (hs : T.has m.heap.frames.size s) (limit : Option Nat) (fuel : Nat) (program : List Stmt)
    (hprogram : ∀ stmt ∈ program, T.code stmt) :
    runProgram limit fuel program s (m.overlay alt) =
      (runProgram limit fuel program s m).onMachine (·.overlay alt) :=
  ((copies_overlay halt).runProgram limit fuel hprogram ⟨hs, rfl⟩ ⟨rfl, hm, rfl⟩).resolve_left
    fun h => h.2 rfl

/-- A computation has stayed in the territory: it has left a machine that is confined to it, with
`n` frames or more, and a result that has a property there. -/
def Stays (T : Territory) (n : Nat) (P : Nat → α → Prop) : Outcome α → Prop
  | .done a m => n ≤ m.heap.frames.size ∧ T.Confines m ∧ P m.heap.frames.size a
  | .failed _ m => n ≤ m.heap.frames.size ∧ T.Confines m
  | .exhausted => True

theorem stays_of_ends {o o' : Outcome α} {R : Nat → α → α → Prop} {P : Nat → α → Prop}
    (hR : ∀ {n a b}, R n a b → P n a) (h : T.invariant.Ends n R o o') : T.Stays n P o := by
  cases h with
  | done hn hm h =>
    rcases hm with ⟨rfl, hm, -⟩
    exact ⟨hn, hm, hR h⟩
  | failed hn hm _ =>
    rcases hm with ⟨rfl, hm, -⟩
    exact ⟨hn, hm⟩
  | exhausted _ => trivial

/-- **The value of an expression does not lead out of the territory.** -/
theorem stays_eval (hm : T.Confines m) (hs : T.has m.heap.frames.size s) (limit : Option Nat)
    (fuel : Nat) (e : Expr) :
    T.Stays m.heap.frames.size T.admits (eval limit fuel e s m) := by
  have hends := Simulation.ends_eval (S := T.invariant) limit fuel e ⟨hs, rfl⟩ ⟨rfl, hm, rfl⟩
  exact stays_of_ends (fun h => (corresponds_iff.mp h).1) hends

theorem stays_exec (hm : T.Confines m) (hs : T.has m.heap.frames.size s) (limit : Option Nat)
    (fuel : Nat) {stmt : Stmt} (hstmt : T.code stmt) :
    T.Stays m.heap.frames.size (fun n flow => T.admits n flow.value)
      (exec limit fuel stmt s m) := by
  have hends := Simulation.ends_exec (S := T.invariant) limit fuel hstmt ⟨hs, rfl⟩ ⟨rfl, hm, rfl⟩
  refine stays_of_ends (fun h => ?_) hends
  cases h with
  | normal h => exact (corresponds_iff.mp h).1
  | returned h => exact (corresponds_iff.mp h).1

/-- **A program does not lead out of the territory.** -/
theorem stays_runProgram (hm : T.Confines m) (hs : T.has m.heap.frames.size s) (limit : Option Nat)
    (fuel : Nat) (program : List Stmt) (hprogram : ∀ stmt ∈ program, T.code stmt) :
    T.Stays m.heap.frames.size (fun n result => ∀ v, result = some v → T.admits n v)
      (runProgram limit fuel program s m) := by
  have hends := Simulation.ends_runProgram (S := T.invariant) limit fuel hprogram ⟨hs, rfl⟩
    ⟨rfl, hm, rfl⟩
  refine stays_of_ends (fun h => ?_) hends
  rintro v rfl
  cases h with
  | some h => exact (corresponds_iff.mp h).1

end Runs

end Territory

/-! ### What can be reached from a scope -/

/-- **The scopes that can be reached from another** in a heap: by way of parents, and of the
function values in frames. -/
inductive Heap.Reachable (h : Heap) (s : Scope) : Scope → Prop
  | refl : Reachable h s s
  | parent {t p : Scope} : Reachable h s t → h.parent? t = some p → Reachable h s p
  | closure {t : Scope} {name : String} {c : Closure} : Reachable h s t →
      (name, .function c) ∈ h.vars t → Reachable h s c.scope

/-- **What a run comes to from a scope**: the scopes that can be reached from there, and the frames
made from now on. -/
def Territory.reach (m : Machine) (s : Scope) (code : Stmt → Prop)
    (hcode : ∀ {stmt part}, code stmt → part ∈ stmt.parts → code part) : Territory where
  code := code
  has _ t := m.heap.Reachable s t ∨ m.heap.frames.size ≤ t
  start := m.heap.frames.size
  printed := m.output.length
  code_part := hcode
  has_mono _ h := h
  has_of_lt _ h := h
  has_new h := .inr h

/-- A machine is confined to what can be reached from a scope, if the functions there have code of
the given kind. -/
theorem Territory.confines_reach {m : Machine} {s : Scope} {code : Stmt → Prop}
    {hcode : ∀ {stmt part}, code stmt → part ∈ stmt.parts → code part}
    (h : ∀ t name c, m.heap.Reachable s t → (name, .function c) ∈ m.heap.vars t →
      ∀ stmt ∈ c.function.body, code stmt) :
    (Territory.reach m s code hcode).Confines m where
  start_le := le_rfl
  parent := by
    rintro t p (ht | ht) hp
    · exact .inl (ht.parent hp)
    · exact absurd (Heap.lt_size_of_parent? hp) (Nat.not_lt.mpr ht)
  vars := by
    rintro t ⟨name, v⟩ (ht | ht) hb
    · rintro c rfl
      exact ⟨.inl (ht.closure hb), h t name c ht hb⟩
    · exact absurd (Heap.lt_size_of_mem_vars hb) (Nat.not_lt.mpr ht)
  output := by
    intro v hv
    change v ∈ m.output.drop m.output.length at hv
    rw [List.drop_length] at hv
    cases hv

end Lox
