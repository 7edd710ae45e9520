import Lox.Proofs.Eval.Record
import Lox.Proofs.Operators

/-!
# Invariants of watched runs

What holds of a machine together with the record up to there is proved along all runs in one way.
A `Lox.Watch.Invariant` has a law for each thing that a run does to a machine, with the entries that
are written for it, and speaks about the function values that the run has in hand as well, which
are about to be bound, printed or called. The tree is walked once for all invariants
(`Lox.Watch.Invariant.kept_walk`).

A failure keeps an invariant like everything else, and a run that goes on for ever keeps it as long
as it is watched.
-/

namespace Lox

/-! ### What a run does to a machine -/

namespace Machine

/-- The machine with a new scope inside another, which is counted. -/
def opened (m : Machine) (parent : Scope) : Machine :=
  (({ m with stats := { m.stats with scopes := m.stats.scopes + 1 } }).newChild parent).2

theorem size_opened (m : Machine) (parent : Scope) :
    (m.opened parent).heap.frames.size = m.heap.frames.size + 1 := m.heap.size_push (some parent)

/-- The machine on which the arguments of a call are bound. -/
def called (m : Machine) (f : Closure) : Machine :=
  ({ m.note (.called f.function.name m.depth) with
    stats := { m.stats with calls := m.stats.calls + 1 } }).opened f.scope

/-- The function value that an execution of a function statement makes. -/
def next (m : Machine) (f : Function) (s : Scope) : Closure := ⟨m.made, f, s⟩

/-- The machine on which it is made. -/
def makes (m : Machine) (f : Function) : Machine :=
  { m.note (.declared f.name f.params.length) with made := m.made + 1 }

end Machine

/-- The statement that declares a function. -/
def Function.statement (f : Function) : Stmt := .function f.name f.params f.body

theorem Function.statement_injective {f g : Function} (h : f.statement = g.statement) : f = g := by
  cases f
  cases g
  cases h
  rfl

theorem enterCall_eq (f : Closure) (args : List Value) (m : Machine) :
    enterCall f args m = (do
      Exec.declareAll m.heap.frames.size (f.function.params.zip args)
      pure m.heap.frames.size : Exec Scope) (m.called f) := rfl

namespace Watch

/-! ### Invariants of watched runs -/

/-- A statement that makes nothing, neither a scope nor a function value, when it is begun. -/
def Plain : Stmt → Prop
  | .block _ => False
  | .function _ _ _ => False
  | _ => True

/-- **What holds of a machine and the record so far**, and of the function values that a run has
in hand. There is a law for each thing that a run does. -/
structure Invariant where
  /-- It holds of a machine with a record. -/
  holds : List Deed → Machine → Prop
  /-- The function values that may be in hand. -/
  closure : List Deed → Closure → Prop
  closure_mono : ∀ {h h' f}, h <+: h' → closure h f → closure h' f
  depth : ∀ {h m}, holds h m → ∀ k, holds h { m with depth := k }
  print : ∀ {h m v}, holds h m → v.Within (closure h) → holds h (m.note (.printed v))
  lookup : ∀ {h m}, holds h m → ∀ s name, (m.heap.lookup s name).Within (closure h)
  declare : ∀ {h m v}, holds h m → v.Within (closure h) → ∀ s name, holds h (m.declare s name v)
  begun : ∀ {h m stmt}, holds h m → Plain stmt → ∀ s, holds (h ++ [.begun stmt s m]) m.counted
  /-- A block makes its scope as soon as it is begun. -/
  block : ∀ {h m}, holds h m → ∀ body s, holds (h ++ [.begun (.block body) s m])
    ((m.counted.note (.entered body.length)).opened s)
  /-- So does a function statement with its function value. -/
  function : ∀ {h m}, holds h m → ∀ f s,
    holds (h ++ [.begun f.statement s m, .made (m.next f s)]) (m.counted.makes f) ∧
      closure (h ++ [.begun f.statement s m, .made (m.next f s)]) (m.next f s)
  call : ∀ {h m f}, holds h m → closure h f →
    holds (h ++ [.entered f m.heap.frames.size]) (m.called f)

namespace Invariant

variable (I : Invariant)

/-- The values that may be in hand. -/
def value (h : List Deed) (v : Value) : Prop := v.Within (I.closure h)

/-- What a statement may end with. -/
def flow (h : List Deed) (flow : Flow) : Prop := flow.Within (I.closure h)

/-- It still holds after a computation, however that has ended, and what the computation is done
with has a property. Of a computation that has run out of fuel there is no machine left, but there
was one when the last entry was written. -/
def After (h : List Deed) (P : List Deed → α → Prop) : Outcome α × List Deed → Prop
  | (.done a m, ds) => I.holds (h ++ ds) m ∧ P (h ++ ds) a
  | (.failed _ m, ds) => I.holds (h ++ ds) m
  | (.exhausted, ds) => ∃ m, I.holds (h ++ ds) m

/-- Whatever has been recorded, there was a machine of which the invariant held. -/
theorem After.exists_holds {I : Invariant} {h : List Deed} {P : List Deed → α → Prop}
    {result : Outcome α × List Deed} (hresult : I.After h P result) :
    ∃ m, I.holds (h ++ result.2) m := by
  obtain ⟨o, ds⟩ := result
  cases o with
  | done a m => exact ⟨m, hresult.1⟩
  | failed fault m => exact ⟨m, hresult⟩
  | exhausted => exact hresult

/-- **A computation keeps an invariant**, from a record on. -/
def Kept (h : List Deed) (P : List Deed → α → Prop) (x : Run α) : Prop :=
  ∀ h₁ m, h <+: h₁ → I.holds h₁ m → I.After h₁ P (x m)

variable {I} {h h' : List Deed} {P : List Deed → α → Prop} {Q : List Deed → β → Prop}

theorem value_mono {v : Value} (hh : h <+: h') (hv : I.value h v) : I.value h' v :=
  hv.mono fun _ => I.closure_mono hh

theorem Kept.later {x : Run α} (hx : I.Kept h P x) (hh : h <+: h') : I.Kept h' P x :=
  fun _ _ hh₁ hm => hx _ _ (hh.trans hh₁) hm

/-- A computation of which nothing is recorded. -/
theorem kept_quietly {x : Exec α} (hx : ∀ h₁ m, h <+: h₁ → I.holds h₁ m → match x m with
    | .done a m' => I.holds h₁ m' ∧ P h₁ a
    | .failed _ m' => I.holds h₁ m'
    | .exhausted => True) : I.Kept h P (quietly x) := by
  intro h₁ m hh hm
  have hxm := hx h₁ m hh hm
  rw [quietly]
  cases h : x m with
  | done a m' =>
    rw [h] at hxm
    rw [After, List.append_nil]
    exact hxm
  | failed fault m' =>
    rw [h] at hxm
    rw [After, List.append_nil]
    exact hxm
  | exhausted => exact ⟨m, by rwa [List.append_nil]⟩

theorem kept_pure {a : α} (ha : ∀ h₁, h <+: h₁ → P h₁ a) : I.Kept h P (pure a) :=
  kept_quietly (x := pure a) fun h₁ _ hh hm => ⟨hm, ha h₁ hh⟩

theorem kept_value {v : Value} (hv : I.value h v) : I.Kept h I.value (pure v) :=
  kept_pure fun _ hh => value_mono hh hv

theorem kept_normal {v : Value} (hv : I.value h v) : I.Kept h I.flow (pure (.normal v)) :=
  kept_pure fun _ hh => value_mono hh hv

theorem kept_returned {v : Value} (hv : I.value h v) : I.Kept h I.flow (pure (.returned v)) :=
  kept_pure fun _ hh => value_mono hh hv

/-- One computation after another, whose record is longer by what the first one did. -/
theorem Kept.bind {x : Run α} {f : α → Run β} (hx : I.Kept h P x)
    (hf : ∀ h₁ a, h <+: h₁ → P h₁ a → I.Kept h₁ Q (f a)) : I.Kept h Q (x >>= f) := by
  intro h₁ m hh hm
  have hxm := hx h₁ m hh hm
  change I.After h₁ Q (Run.bind x f m)
  rw [Run.bind]
  generalize x m = result at hxm ⊢
  obtain ⟨o, ds⟩ := result
  cases o with
  | done a m' =>
    obtain ⟨hm', ha⟩ := hxm
    have hds : h₁ <+: h₁ ++ ds := List.prefix_append _ _
    have hfm := hf (h₁ ++ ds) a (hh.trans hds) ha (h₁ ++ ds) m' (List.prefix_refl _) hm'
    dsimp only
    generalize f a m' = result at hfm ⊢
    obtain ⟨o', ds'⟩ := result
    cases o' with
    | done b m'' => rwa [After, ← List.append_assoc]
    | failed fault m'' => rwa [After, ← List.append_assoc]
    | exhausted => rwa [After, ← List.append_assoc]
  | failed fault m' => exact hxm
  | exhausted => exact hxm

/-! #### The operations -/

theorem kept_exhausted : I.Kept h P (quietly Exec.exhausted) := kept_quietly fun _ _ _ _ => trivial

theorem kept_raise (fault : RuntimeFault) (line : Nat) :
    I.Kept h P (quietly (Exec.raise fault line)) := kept_quietly fun _ _ _ hm => hm

theorem kept_read (f : Machine → α) : I.Kept h (fun _ _ => True) (quietly (Exec.read f)) :=
  kept_quietly fun _ _ _ hm => ⟨hm, trivial⟩

theorem kept_ofExcept (line : Nat) {r : Except RuntimeFault Value}
    (hr : ∀ v, r = .ok v → I.value h v) : I.Kept h I.value (quietly (Exec.ofExcept line r)) := by
  cases r with
  | error fault => exact kept_raise fault line
  | ok v => exact kept_value (hr v rfl)

theorem kept_print {v : Value} (hv : I.value h v) :
    I.Kept h (fun _ _ => True) (quietly (Exec.note (.printed v))) :=
  kept_quietly fun _ _ hh hm => ⟨I.print hm (value_mono hh hv), trivial⟩

theorem kept_lookup (s : Scope) (name : String) : I.Kept h I.value (quietly (Exec.lookup s name)) :=
  kept_quietly fun _ _ _ hm => ⟨hm, I.lookup hm s name⟩

theorem kept_declare (s : Scope) (name : String) {v : Value} (hv : I.value h v) :
    I.Kept h (fun _ _ => True) (quietly (Exec.declare s name v)) :=
  kept_quietly fun _ _ hh hm => ⟨I.declare hm (value_mono hh hv) s name, trivial⟩

theorem kept_assign (s : Scope) (name : String) {v : Value} (hv : I.value h v) (line : Nat) :
    I.Kept h (fun _ _ => True) (quietly (Exec.assign s name v line)) := by
  refine kept_quietly fun h₁ m hh hm => ?_
  unfold Exec.assign
  cases m.heap.owner? s name with
  | none => exact hm
  | some o => exact ⟨I.declare hm (value_mono hh hv) o name, trivial⟩

theorem kept_callee (line : Nat) {v : Value} (hv : I.value h v) :
    I.Kept h I.closure (quietly (callee line v)) := by
  cases v with
  | function f => exact kept_quietly fun _ _ hh hm => ⟨hm, I.closure_mono hh (hv f rfl)⟩
  | _ => exact kept_raise _ line

theorem kept_checkDepth {limit : Option Nat} (line : Nat) :
    I.Kept h (fun _ _ => True) (quietly (checkDepth limit line)) := by
  refine kept_quietly fun h₁ m _ hm => ?_
  unfold checkDepth
  cases limit with
  | none => exact ⟨hm, trivial⟩
  | some k =>
    dsimp only
    by_cases hk : k ≤ m.depth
    · rw [if_pos hk]
      exact hm
    · rw [if_neg hk]
      exact ⟨hm, trivial⟩

/-- The arguments of a call are bound one after the other. -/
theorem exists_declareAll {m : Machine} (hm : I.holds h m) (s : Scope) {bs : List (String × Value)}
    (hbs : ∀ b ∈ bs, I.value h b.2) :
    ∃ m', Exec.declareAll s bs m = .done () m' ∧ I.holds h m' := by
  induction bs generalizing m with
  | nil => exact ⟨m, rfl, hm⟩
  | cons b bs ih =>
    obtain ⟨hb, hbs⟩ := List.forall_mem_cons.mp hbs
    exact ih (I.declare hm hb s b.1) hbs

/-- The body of a call is entered. -/
theorem kept_enterCall {f : Closure} (hf : I.closure h f) {args : List Value}
    (hargs : ∀ v ∈ args, I.value h v) :
    I.Kept h (fun _ _ => True) (recording (enterCall f args) fun _ => .entered f) := by
  intro h₁ m hh hm
  have hcall : I.holds (h₁ ++ [.entered f m.heap.frames.size]) (m.called f) :=
    I.call hm (I.closure_mono hh hf)
  have hbs : ∀ b ∈ f.function.params.zip args,
      I.value (h₁ ++ [.entered f m.heap.frames.size]) b.2 := fun b hb =>
    value_mono (hh.trans (List.prefix_append _ _)) (hargs b.2 (List.of_mem_zip hb).2)
  obtain ⟨m', hdeclared, hm'⟩ := exists_declareAll hcall m.heap.frames.size hbs
  have henter : enterCall f args m = .done m.heap.frames.size m' := by
    rw [enterCall_eq, Exec.bind_of_done hdeclared]
    rfl
  rw [recording, henter]
  exact ⟨hm', trivial⟩

/-- One call deeper, and back again however the body ends. -/
theorem Kept.nested {x : Run α} (hx : I.Kept h P x) : I.Kept h P (Watch.nested x) := by
  intro h₁ m hh hm
  have hxm := hx h₁ (m.deeper 1) hh (I.depth hm _)
  unfold Watch.nested Exec.nested Run.outcome
  rw [← Machine.deeper]
  generalize x (m.deeper 1) = result at hxm ⊢
  obtain ⟨o, ds⟩ := result
  cases o with
  | done a m' => exact ⟨I.depth hxm.1 _, hxm.2⟩
  | failed fault m' => exact I.depth hxm (m'.depth - 1)
  | exhausted => exact hxm

/-! #### The walk -/

section Walk

variable {limit : Option Nat}

theorem kept_evalAll {ev : Expr → Run Value} (hev : ∀ e, I.Kept h I.value (ev e)) (es : List Expr) :
    I.Kept h (fun h vs => ∀ v ∈ vs, I.value h v) (evalAll ev es) := by
  induction es with
  | nil => exact kept_pure fun _ _ => by simp
  | cons e es ih =>
    refine (hev e).bind fun h₁ v hh₁ hv => (ih.later hh₁).bind fun h₂ vs hh₂ hvs => ?_
    -- the first value may still be in hand when the others have been evaluated
    refine kept_pure fun h₃ hh₃ => List.forall_mem_cons.mpr ⟨?_, fun v hv => ?_⟩
    · exact value_mono (hh₂.trans hh₃) hv
    · exact value_mono hh₃ (hvs v hv)

theorem kept_runBody {run : Stmt → Run Flow} (hrun : ∀ stmt, I.Kept h I.flow (run stmt))
    (body : List Stmt) : I.Kept h I.flow (runBody run body) := by
  induction body with
  | nil => exact kept_normal Value.within_nil
  | cons stmt body ih =>
    refine (hrun stmt).bind fun h₁ flow hh hflow => ?_
    cases flow with
    | normal v => exact ih.later hh
    | returned v => exact kept_returned hflow

theorem kept_runLoop {cond : Run Value} {body : Run Flow} (hcond : I.Kept h I.value cond)
    (hbody : I.Kept h I.flow body) (rounds : Nat) : I.Kept h I.flow (runLoop cond body rounds) := by
  induction rounds with
  | zero => exact kept_exhausted
  | succ rounds ih =>
    refine hcond.bind fun h₁ v hh₁ _ => ?_
    split
    · refine (hbody.later hh₁).bind fun h₂ flow hh₂ hflow => ?_
      cases flow with
      | normal v => exact ih.later (hh₁.trans hh₂)
      | returned v => exact kept_returned hflow
    · exact kept_normal Value.within_nil

theorem kept_invoke {run : Stmt → Scope → Run Flow}
    (hrun : ∀ h stmt s, I.Kept h I.flow (run stmt s)) {f : Closure} (hf : I.closure h f)
    {args : List Value} (hargs : ∀ v ∈ args, I.value h v) (line : Nat) :
    I.Kept h I.value (invoke limit run f args line) := by
  unfold invoke
  split
  · refine (kept_checkDepth line).bind fun h₁ _ hh₁ _ => ?_
    have hargs₁ : ∀ v ∈ args, I.value h₁ v := fun v hv => value_mono hh₁ (hargs v hv)
    refine (kept_enterCall (I.closure_mono hh₁ hf) hargs₁).bind fun h₂ s _ _ => ?_
    refine (kept_runBody (fun stmt => hrun h₂ stmt s) _).nested.bind fun h₃ flow _ hflow => ?_
    cases flow with
    | normal v => exact kept_value Value.within_nil
    | returned v => exact kept_value hflow
  · exact kept_raise _ line

/-- The entry of a statement that makes nothing. -/
theorem kept_begun {stmt : Stmt} (hstmt : Plain stmt) (s : Scope) :
    I.Kept h (fun _ _ => True) (recording Exec.countStatement fun m _ => .begun stmt s m) :=
  fun _ _ _ hm => ⟨I.begun hm hstmt s, trivial⟩

/-- The entry of a block, and its scope. -/
theorem kept_block (body : List Stmt) (s : Scope) :
    I.Kept h (fun _ _ => True) (do
      recording Exec.countStatement fun m _ => .begun (.block body) s m
      quietly (Exec.note (.entered body.length))
      quietly (Exec.enterBlock s)) :=
  fun _ _ _ hm => ⟨I.block hm body s, trivial⟩

/-- The entry of a function statement, and its function value. -/
theorem kept_function (f : Function) (s : Scope) :
    I.Kept h I.closure (do
      recording Exec.countStatement fun m _ => .begun f.statement s m
      quietly (Exec.note (.declared f.name f.params.length))
      recording (Exec.makeClosure f s) fun _ => .made) :=
  fun _ _ _ hm => I.function hm f s

/-- **An invariant is kept by expressions and by statements.** -/
theorem kept_walk (limit : Option Nat) (n : Nat) :
    (∀ h e s, I.Kept h I.value (eval limit n e s)) ∧
      ∀ h stmt s, I.Kept h I.flow (exec limit n stmt s) := by
  -- on the fuel, for expressions and statements at once: each of them may run the other
  induction n with
  | zero => exact ⟨fun h e s => kept_exhausted, fun h stmt s => kept_exhausted⟩
  | succ n ih =>
    obtain ⟨ihe, ihs⟩ := ih
    constructor
    · intro h e s
      cases e with
      | literal value => exact kept_value (Value.within_ofLiteral value)
      | identifier name line => exact kept_lookup s name
      | grouping inner => exact ihe h inner s
      | unary op operand line =>
        exact (ihe h operand s).bind fun _ _ _ _ =>
          kept_ofExcept line fun _ hw => Value.within_of_unary hw
      | binary op left right line =>
        exact (ihe h left s).bind fun h₁ _ _ _ => (ihe h₁ right s).bind fun _ _ _ _ =>
          kept_ofExcept line fun _ hw => Value.within_of_binary hw
      | logical op left right =>
        refine (ihe h left s).bind fun h₁ l _ hl => ?_
        split
        · exact kept_value hl
        · exact ihe h₁ right s
      | assign name value line =>
        exact (ihe h value s).bind fun _ v _ hv => (kept_assign s name hv line).bind fun _ _ _ _ =>
          kept_value Value.within_nil
      | call f args line =>
        refine (ihe h f s).bind fun h₁ v _ hv => (kept_callee line hv).bind fun h₂ c _ hc => ?_
        refine (kept_evalAll (fun arg => ihe h₂ arg s) args).bind fun h₃ vs hh₃ hvs => ?_
        exact kept_invoke ihs (I.closure_mono hh₃ hc) hvs line
    · intro h stmt s
      cases stmt with
      | var name initial =>
        cases initial with
        | none =>
          exact (kept_begun (by trivial) s).bind fun _ _ _ _ =>
            (kept_declare s name Value.within_nil).bind fun _ _ _ _ => kept_normal Value.within_nil
        | some e =>
          exact (kept_begun (by trivial) s).bind fun h₁ _ _ _ => (ihe h₁ e s).bind fun _ v _ hv =>
            (kept_declare s name hv).bind fun _ _ _ _ => kept_normal Value.within_nil
      | function name params body =>
        exact (kept_function ⟨name, params, body⟩ s).bind fun _ f _ hf =>
          (kept_declare s name (Value.within_function hf)).bind fun _ _ _ _ =>
            kept_normal Value.within_nil
      | block body =>
        exact (kept_block body s).bind fun h₁ inner _ _ =>
          kept_runBody (fun stmt => ihs h₁ stmt inner) body
      | branch cond yes no =>
        refine (kept_begun (by trivial) s).bind fun h₁ _ _ _ => ?_
        refine (ihe h₁ cond s).bind fun h₂ v _ _ => ?_
        split
        · exact ihs h₂ yes s
        · cases no with
          | none => exact kept_normal Value.within_nil
          | some no => exact ihs h₂ no s
      | loop cond body =>
        exact (kept_begun (by trivial) s).bind fun h₁ _ _ _ =>
          kept_runLoop (ihe h₁ cond s) (ihs h₁ body s) n
      | print e =>
        exact (kept_begun (by trivial) s).bind fun h₁ _ _ _ => (ihe h₁ e s).bind fun _ v _ hv =>
          (kept_print hv).bind fun _ _ _ _ => kept_normal Value.within_nil
      | ret value line =>
        refine (kept_begun (by trivial) s).bind fun h₁ _ _ _ => ?_
        refine (kept_read _).bind fun h₂ depth _ _ => ?_
        split
        · exact kept_raise _ line
        · cases value with
          | none => exact kept_returned Value.within_nil
          | some e => exact (ihe h₂ e s).bind fun _ v _ hv => kept_returned hv
      | expression e =>
        exact (kept_begun (by trivial) s).bind fun h₁ _ _ _ => (ihe h₁ e s).bind fun _ v _ hv =>
          kept_normal hv

/-- What a program shows at its end. -/
def shown (I : Invariant) (h : List Deed) (result : Option Value) : Prop :=
  ∀ v, result = some v → I.value h v

theorem kept_runStatements (n : Nat) (s : Scope) {last : Option Value} (hlast : I.shown h last)
    (program : List Stmt) : I.Kept h I.shown (runStatements limit n s last program) := by
  induction program generalizing h last with
  | nil => exact kept_pure fun h₁ hh v hv => value_mono hh (hlast v hv)
  | cons stmt rest ih =>
    refine ((kept_walk limit n).2 h stmt s).bind fun h₁ flow _ hflow => ?_
    cases flow with
    | normal v =>
      refine ih fun w hw => ?_
      cases stmt <;> cases hw
      exact hflow
    | returned v => exact kept_quietly fun _ _ _ hm => hm

/-- **An invariant is kept by programs.** -/
theorem kept_runProgram (limit : Option Nat) (n : Nat) (program : List Stmt) (s : Scope) :
    I.Kept h I.shown (runProgram limit n program s) := by
  refine Kept.bind (P := fun _ _ => True) ?_ fun h₁ _ _ _ =>
    kept_runStatements n s (by nofun) program
  exact kept_quietly fun _ _ _ hm => ⟨I.depth hm 0, trivial⟩

end Walk

end Invariant

end Watch

end Lox
