import Lox.Eval

/-!
# What all computations of the evaluator have in common

An evaluation is put together from a few operations: one is done after the other, and the body of a
call is done one call deeper and its faults are passed on. A property that the operations have and
that is kept where they are put together (`Lox.Exec.Closed`) is a property of every evaluation, of
whatever tree (`Lox.Exec.Closed.walk`). So what holds of all evaluations alike is proved of the
operations alone, and nobody looks into the tree again.

The other walks of the development are about evaluations that differ, by the names or the code they
are about, or about two evaluations at once.
-/

namespace Lox

/-- **A property that evaluation keeps**: its operations have it, and so has what is put together
from computations that have it. -/
structure Exec.Closed (K : {α : Type} → Exec α → Prop) : Prop where
  pure : ∀ {α : Type} (a : α), K (Pure.pure a : Exec α)
  exhausted : ∀ {α : Type}, K (Exec.exhausted : Exec α)
  raise : ∀ {α : Type} (cause : RuntimeFault) (line : Nat), K (Exec.raise cause line : Exec α)
  bind : ∀ {α β : Type} {x : Exec α} {f : α → Exec β}, K x → (∀ a, K (f a)) → K (x >>= f)
  nested : ∀ {α : Type} {x : Exec α}, K x → K (Exec.nested x)
  withLine : ∀ {α : Type} {x : Exec α} (line : Nat), K x → K (x.withLine line)
  read : ∀ {α : Type} (f : Machine → α), K (Exec.read f)
  note : ∀ e, K (Exec.note e)
  countStatement : K Exec.countStatement
  countCall :
    K (Exec.modify fun m => { m with stats := { m.stats with calls := m.stats.calls + 1 } })
  enterBlock : ∀ parent, K (Exec.enterBlock parent)
  declare : ∀ s name v, K (Exec.declare s name v)
  assign : ∀ s name v line, K (Exec.assign s name v line)
  makeClosure : ∀ function s, K (Exec.makeClosure function s)

namespace Exec.Closed

variable {K : {α : Type} → Exec α → Prop} (hK : Closed K) {limit : Option Nat}

include hK

theorem ofExcept {α : Type} (line : Nat) (r : Except RuntimeFault α) :
    K (Exec.ofExcept line r) := by
  cases r with
  | ok a => exact hK.pure a
  | error cause => exact hK.raise cause line

theorem declareAll (s : Scope) (bs : List (String × Value)) : K (Exec.declareAll s bs) := by
  induction bs with
  | nil => exact hK.pure ()
  | cons b bs ih => exact hK.bind (hK.declare s b.1 b.2) fun _ => ih

theorem evalAll {ev : Expr → Exec Value} (hev : ∀ e, K (ev e)) (es : List Expr) :
    K (Lox.evalAll ev es) := by
  induction es with
  | nil => exact hK.pure []
  | cons e es ih => exact hK.bind (hev e) fun v => hK.bind ih fun vs => hK.pure (v :: vs)

theorem runBody {run : Stmt → Exec Flow} (hrun : ∀ stmt, K (run stmt)) (body : List Stmt) :
    K (Lox.runBody run body) := by
  induction body with
  | nil => exact hK.pure _
  | cons stmt body ih =>
    refine hK.bind (hrun stmt) fun flow => ?_
    cases flow with
    | normal v => exact ih
    | returned v => exact hK.pure _

theorem runLoop {cond : Exec Value} {body : Exec Flow} (hcond : K cond) (hbody : K body)
    (rounds : Nat) : K (Lox.runLoop cond body rounds) := by
  induction rounds with
  | zero => exact hK.exhausted
  | succ rounds ih =>
    refine hK.bind hcond fun v => ?_
    split
    · refine hK.bind hbody fun flow => ?_
      cases flow with
      | normal v => exact ih
      | returned v => exact hK.pure _
    · exact hK.pure _

theorem callee (line : Nat) (v : Value) : K (Lox.callee line v) := by
  cases v with
  | function f => exact hK.pure f
  | _ => exact hK.raise _ line

theorem checkDepth (line : Nat) : K (Lox.checkDepth limit line) := by
  cases limit with
  | none => exact hK.pure ()
  | some k =>
    have heq : Lox.checkDepth (some k) line = (do
        let depth ← Exec.read (·.depth)
        if k ≤ depth then Exec.raise (.stackOverflow k) line else Pure.pure ()) := by
      funext m
      change (if k ≤ m.depth then _ else _) = (if k ≤ m.depth then _ else _ : Exec Unit) m
      split
      · rfl
      · rfl
    rw [heq]
    refine hK.bind (hK.read _) fun depth => ?_
    split
    · exact hK.raise _ line
    · exact hK.pure ()

theorem enterCall (f : Closure) (args : List Value) : K (Lox.enterCall f args) :=
  hK.bind (hK.read _) fun _ => hK.bind (hK.note _) fun _ => hK.bind hK.countCall fun _ =>
    hK.bind (hK.enterBlock _) fun s => hK.bind (hK.declareAll s _) fun _ => hK.pure s

theorem invoke {run : Stmt → Scope → Exec Flow} (hrun : ∀ stmt s, K (run stmt s)) (f : Closure)
    (args : List Value) (line : Nat) : K (Lox.invoke limit run f args line) := by
  unfold Lox.invoke
  split
  · refine hK.bind (hK.checkDepth line) fun _ => hK.bind (hK.enterCall f args) fun s => ?_
    refine hK.bind (hK.nested (hK.runBody (fun stmt => hrun stmt s) _)) fun flow => ?_
    cases flow <;> exact hK.pure _
  · exact hK.raise _ line

/-- **What evaluation keeps holds of every evaluation.** -/
theorem walk (n : Nat) : (∀ e s, K (eval limit n e s)) ∧ ∀ stmt s, K (exec limit n stmt s) := by
  -- on the fuel and not on the tree: a call runs a body that it finds in the machine
  induction n with
  | zero => exact ⟨fun e s => hK.exhausted, fun stmt s => hK.exhausted⟩
  | succ n ih =>
    obtain ⟨ihe, ihs⟩ := ih
    constructor
    · intro e s
      cases e with
      | literal value => exact hK.pure _
      | identifier name line => exact hK.read _
      | grouping inner => exact ihe inner s
      | unary op operand line => exact hK.bind (ihe operand s) fun v => hK.ofExcept line _
      | binary op left right line =>
        exact hK.bind (ihe left s) fun l => hK.bind (ihe right s) fun r => hK.ofExcept line _
      | logical op left right =>
        refine hK.bind (ihe left s) fun l => ?_
        split
        · exact hK.pure l
        · exact ihe right s
      | assign name value line =>
        exact hK.bind (ihe value s) fun v =>
          hK.bind (hK.assign s name v line) fun _ => hK.pure _
      | call f args line =>
        exact hK.bind (ihe f s) fun v => hK.bind (hK.callee line v) fun f =>
          hK.bind (hK.evalAll (fun arg => ihe arg s) args) fun vs =>
            hK.withLine line (hK.invoke ihs f vs line)
    · intro stmt s
      refine hK.bind hK.countStatement fun _ => ?_
      cases stmt with
      | var name initial =>
        cases initial with
        | none => exact hK.bind (hK.declare s name _) fun _ => hK.pure _
        | some e =>
          exact hK.bind (ihe e s) fun v => hK.bind (hK.declare s name v) fun _ => hK.pure _
      | function name params body =>
        exact hK.bind (hK.note _) fun _ => hK.bind (hK.makeClosure _ s) fun f =>
          hK.bind (hK.declare s name _) fun _ => hK.pure _
      | block body =>
        exact hK.bind (hK.note _) fun _ => hK.bind (hK.enterBlock s) fun inner =>
          hK.runBody (fun stmt => ihs stmt inner) body
      | branch cond yes no =>
        refine hK.bind (ihe cond s) fun v => ?_
        split
        · exact ihs yes s
        · cases no with
          | none => exact hK.pure _
          | some no => exact ihs no s
      | loop cond body => exact hK.runLoop (ihe cond s) (ihs body s) n
      | print e => exact hK.bind (ihe e s) fun v => hK.bind (hK.note _) fun _ => hK.pure _
      | ret value line =>
        refine hK.bind (hK.read _) fun depth => ?_
        split
        · exact hK.raise _ line
        · cases value with
          | none => exact hK.pure _
          | some e => exact hK.bind (ihe e s) fun v => hK.pure _
      | expression e => exact hK.bind (ihe e s) fun v => hK.pure _

end Exec.Closed

end Lox
