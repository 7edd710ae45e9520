import Lox.Proofs.Eval.Reaches
import Lox.Proofs.Eval.Territory

/-!
# Frames that a run cannot reach

A frame that exists when a run begins and cannot be reached from the scope of the run is *hidden*
from it (`Lox.Heap.Hidden`). A run neither writes nor reads hidden frames
(`Lox.hidden_frames_ignored`): it leaves them as they are, and it does the same whatever they hold.

That a run writes no hidden frame is a special case of its reading none. A machine is the same as
itself with its own hidden frames laid over it, so what a run makes of it has these frames laid over
it too.
-/

namespace Lox

/-- A frame is hidden from a scope if it exists and cannot be reached from there. -/
def Heap.Hidden (h : Heap) (s t : Scope) : Prop := t < h.frames.size ∧ ¬h.Reachable s t

/-- **Machines that agree off some frames**: these frames may hold anything, and all the rest is the
same. -/
structure Machine.AgreesOff (U : Scope → Prop) (m m' : Machine) : Prop where
  size : m'.heap.frames.size = m.heap.frames.size
  frames : ∀ t, ¬U t → m'.heap.frames[t]? = m.heap.frames[t]?
  made : m'.made = m.made
  stats : m'.stats = m.stats
  depth : m'.depth = m.depth
  events : m'.events = m.events

/-- Outcomes that agree off some frames: the same result or the same fault, on machines that do. -/
inductive Outcome.AgreesOff {α : Type} (U : Scope → Prop) : Outcome α → Outcome α → Prop
  | done (a : α) {m m' : Machine} : m.AgreesOff U m' → AgreesOff U (.done a m) (.done a m')
  | failed (fault : Located RuntimeFault) {m m' : Machine} : m.AgreesOff U m' →
      AgreesOff U (.failed fault m) (.failed fault m')
  | exhausted : AgreesOff U .exhausted .exhausted

/-- **A computation ignores some frames** of a machine: however it ends, it leaves them as they
were, and it ends in the same way whatever they hold. -/
structure Exec.Ignores {α : Type} (x : Exec α) (U : Scope → Prop) (m : Machine) : Prop where
  unchanged : (x m).Leaves fun m' => ∀ t, U t → m'.heap.frames[t]? = m.heap.frames[t]?
  unread : ∀ m', m.AgreesOff U m' → (x m).AgreesOff U (x m')

section

variable {α : Type} {U : Scope → Prop} {alt : Scope → Option Frame} {m m' : Machine}

/-! ### Laying frames over a machine -/

theorem Machine.agreesOff_overlay (halt : ∀ t, ¬U t → alt t = none) (m : Machine) :
    m.AgreesOff U (m.overlay alt) where
  size := m.heap.size_overlay alt
  frames t ht := Heap.getElem?_overlay_of_none (halt t ht)
  made := rfl
  stats := rfl
  depth := rfl
  events := rfl

theorem Outcome.agreesOff_overlay (halt : ∀ t, ¬U t → alt t = none) (o : Outcome α) :
    o.AgreesOff U (o.onMachine (·.overlay alt)) := by
  cases o with
  | done a m => exact .done a (m.agreesOff_overlay halt)
  | failed fault m => exact .failed fault (m.agreesOff_overlay halt)
  | exhausted => exact .exhausted

open Classical in
/-- The frames that a heap has in some places. -/
noncomputable def Heap.framesOn (h : Heap) (U : Scope → Prop) (t : Scope) : Option Frame :=
  if U t then h.frames[t]? else none

theorem Heap.framesOn_of_mem (h : Heap) {t : Scope} (ht : U t) : h.framesOn U t = h.frames[t]? :=
  if_pos ht

theorem Heap.framesOn_of_not_mem (h : Heap) (t : Scope) (ht : ¬U t) : h.framesOn U t = none :=
  if_neg ht

/-- A machine that agrees with another off some frames is the other with these frames laid over. -/
theorem Machine.AgreesOff.eq_overlay (h : m.AgreesOff U m') :
    m' = m.overlay (m'.heap.framesOn U) := by
  have hheap : m'.heap = m.heap.overlay (m'.heap.framesOn U) := by
    refine congrArg Heap.mk (Array.ext_getElem? fun t => ?_)
    change m'.heap.frames[t]? = (m.heap.overlay _).frames[t]?
    by_cases ht : U t
    · have hsize := h.size
      rw [Heap.getElem?_overlay, Heap.framesOn_of_mem _ ht]
      rcases Nat.lt_or_ge t m.heap.frames.size with hlt | hge
      · rw [Array.getElem?_eq_getElem hlt, Array.getElem?_eq_getElem (by omega)]
        rfl
      · rw [Array.getElem?_eq_none hge, Array.getElem?_eq_none (by omega)]
        rfl
    · rw [Heap.getElem?_overlay_of_none (Heap.framesOn_of_not_mem _ t ht), h.frames t ht]
  rw [Machine.overlay, ← hheap, ← h.made, ← h.stats, ← h.depth, ← h.events]

/-- A machine that nothing changes when frames of another are laid over it has these frames. -/
theorem Machine.getElem?_of_eq_overlay (h : m' = m'.overlay (m.heap.framesOn U)) {t : Scope}
    (ht : U t) (hlt : t < m.heap.frames.size) (hlt' : t < m'.heap.frames.size) :
    m'.heap.frames[t]? = m.heap.frames[t]? := by
  rw [h]
  change (m'.heap.overlay _).frames[t]? = _
  rw [Heap.getElem?_overlay, Heap.framesOn_of_mem _ ht, Array.getElem?_eq_getElem hlt,
    Array.getElem?_eq_getElem hlt']
  rfl

/-- **A computation ignores frames that can be laid over without changing what it does.** -/
theorem Exec.ignores_of_overlay {x : Exec α} (hU : ∀ t, U t → t < m.heap.frames.size)
    (hsize : (x m).Leaves fun m' => m.heap.frames.size ≤ m'.heap.frames.size)
    (hx : ∀ alt, (∀ t, ¬U t → alt t = none) →
      x (m.overlay alt) = (x m).onMachine (·.overlay alt)) : x.Ignores U m := by
  constructor
  · -- the frames of the machine itself, laid over it
    have hm : m = m.overlay (m.heap.framesOn U) :=
      Machine.AgreesOff.eq_overlay ⟨rfl, fun _ _ => rfl, rfl, rfl, rfl, rfl⟩
    have heq := hx _ m.heap.framesOn_of_not_mem
    rw [← hm] at heq
    have hkeep : ∀ m' : Machine, m.heap.frames.size ≤ m'.heap.frames.size →
        m' = m'.overlay (m.heap.framesOn U) →
        ∀ t, U t → m'.heap.frames[t]? = m.heap.frames[t]? := by
      intro m' hle hm' t ht
      exact Machine.getElem?_of_eq_overlay hm' ht (hU t ht) ((hU t ht).trans_le hle)
    cases hxm : x m with
    | done a m' =>
      rw [hxm] at heq hsize
      exact hkeep m' hsize (Outcome.done.inj heq).2
    | failed fault m' =>
      rw [hxm] at heq hsize
      exact hkeep m' hsize (Outcome.failed.inj heq).2
    | exhausted => trivial
  · intro m' h
    rw [h.eq_overlay, hx _ m'.heap.framesOn_of_not_mem]
    exact Outcome.agreesOff_overlay m'.heap.framesOn_of_not_mem (x m)

end

/-! ### Runs -/

theorem Territory.Stays.size_le {T : Territory} {α : Type} {n : Nat} {P : Nat → α → Prop}
    {o : Outcome α} (h : T.Stays n P o) : o.Leaves fun m' => n ≤ m'.heap.frames.size := by
  cases o with
  | done a m => exact h.1
  | failed fault m => exact h.1
  | exhausted => trivial

/-- **Hidden frames are ignored**, by programs and by expressions, however they end. -/
theorem hidden_frames_ignored (limit : Option Nat) (fuel : Nat) (s : Scope) (m : Machine) :
    (∀ program, (runProgram limit fuel program s).Ignores (m.heap.Hidden s) m) ∧
      ∀ e, (eval limit fuel e s).Ignores (m.heap.Hidden s) m := by
  let T := Territory.reach m s (fun _ => True) fun _ _ => trivial
  have hm : T.Confines m := Territory.confines_reach fun _ _ _ _ _ _ _ => trivial
  have hs : T.has m.heap.frames.size s := .inl .refl
  have hlt : ∀ t, m.heap.Hidden s t → t < m.heap.frames.size := fun t ht => ht.1
  -- what a run comes to is not hidden from it
  have hnot : ∀ {n t}, T.has n t → ¬m.heap.Hidden s t := by
    rintro n t (ht | ht) ⟨hlt, hreach⟩
    · exact hreach ht
    · exact absurd hlt (Nat.not_lt.mpr ht)
  constructor
  · intro program
    have hsize := (Territory.stays_runProgram hm hs limit fuel program fun _ _ => trivial).size_le
    exact Exec.ignores_of_overlay hlt hsize fun alt halt =>
      Territory.runProgram_overlay (fun ht => halt _ (hnot ht)) hm hs limit fuel program
        fun _ _ => trivial
  · intro e
    have hsize := (Territory.stays_eval hm hs limit fuel e).size_le
    exact Exec.ignores_of_overlay hlt hsize fun alt halt =>
      Territory.eval_overlay (fun ht => halt _ (hnot ht)) hm hs limit fuel e

namespace Counters

/-- `fun next() { last = last + "x"; return last; }` -/
def next : Function :=
  ⟨"next", [], [.expression (.assign "last" (.binary .add (.identifier "last" 3)
    (.literal (.string "x")) 3) 3), .ret (some (.identifier "last" 4)) 4]⟩

/-- `fun make() { var last = ""; fun next() …; return next; }` -/
def make : Function :=
  ⟨"make", [], [.var "last" (some (.literal (.string ""))), .function "next" [] next.body,
    .ret (some (.identifier "next" 6)) 6]⟩

/-- A counter in each of the scopes 1 and 2, made by two calls of `make` whose frames are 3 and 4.
The second counter stands at `last`. -/
def machine (last : String) : Machine where
  heap := ⟨#[⟨[("make", .function ⟨0, make, 0⟩)], none⟩,
    ⟨[("next", .function ⟨1, next, 3⟩)], some 0⟩,
    ⟨[("next", .function ⟨2, next, 4⟩)], some 0⟩,
    ⟨[("last", .string ""), ("next", .function ⟨1, next, 3⟩)], some 0⟩,
    ⟨[("last", .string last), ("next", .function ⟨2, next, 4⟩)], some 0⟩]⟩
  made := 3
  stats := ⟨11, 2, 2⟩
  depth := 0
  events := #[]

/-- `next();` -/
def program : List Stmt := [.expression (.call (.identifier "next" 1) [] 1)]

theorem reachable_machine {last : String} {t : Scope} (h : (machine last).heap.Reachable 1 t) :
    t = 0 ∨ t = 1 ∨ t = 3 := by
  induction h with
  | refl => exact .inr (.inl rfl)
  | parent _ hp ih =>
    rcases ih with rfl | rfl | rfl
    · cases hp
    · cases hp
      exact .inl rfl
    · cases hp
      exact .inl rfl
  | closure _ hc ih =>
    rcases ih with rfl | rfl | rfl <;> simp [Heap.vars, machine] at hc <;> simp [hc]

theorem hidden_machine (last : String) : (machine last).heap.Hidden 1 4 := by
  refine ⟨Nat.lt_add_one 4, fun h => ?_⟩
  rcases reachable_machine h with h | h | h <;> cases h

theorem agreesOff_machine (last last' : String) :
    (machine last).AgreesOff ((machine last).heap.Hidden 1) (machine last') := by
  refine ⟨rfl, fun t ht => ?_, rfl, rfl, rfl, rfl⟩
  match t with
  | 0 | 1 | 2 | 3 => rfl
  | 4 => exact absurd (hidden_machine last) ht
  | t + 5 => rfl

end Counters

/-- **Two calls of one function do not interfere**: one counter counts, the frame of the other is
left alone, and it makes no difference where that one stands. -/
theorem counters_do_not_interfere :
    let m := Counters.machine ""
    let m' := Counters.machine "xx"
    m.heap.Hidden 1 4 ∧ m.AgreesOff (m.heap.Hidden 1) m' ∧
      ∃ m₁ m₁', runProgram (some maxDepth) 9 Counters.program 1 m = .done (some (.string "x")) m₁ ∧
        runProgram (some maxDepth) 9 Counters.program 1 m' = .done (some (.string "x")) m₁' ∧
        m₁.heap.frames[4]? = m.heap.frames[4]? ∧ m₁.AgreesOff (m.heap.Hidden 1) m₁' := by
  intro m m'
  have hhidden : m.heap.Hidden 1 4 := Counters.hidden_machine ""
  have hagrees : m.AgreesOff (m.heap.Hidden 1) m' := Counters.agreesOff_machine "" "xx"
  have hresult : (runProgram (some maxDepth) 9 Counters.program 1
      (Counters.machine "")).result?.map Prod.fst = some (some (.string "x")) := by cbv
  obtain ⟨m₁, hrun⟩ := Outcome.exists_done_of_result? hresult
  have hignores := (hidden_frames_ignored (some maxDepth) 9 1 m).1 Counters.program
  have hkept := hignores.unchanged
  have hsame := hignores.unread m' hagrees
  rw [hrun] at hkept hsame
  generalize runProgram (some maxDepth) 9 Counters.program 1 m' = o at hsame ⊢
  cases hsame with
  | done _ hsame => exact ⟨hhidden, hagrees, m₁, _, hrun, rfl, hkept 4 hhidden, hsame⟩

end Lox
