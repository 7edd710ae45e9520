import Lox.Proofs.Eval.Lined
import Lox.Proofs.Relabel

/-!
# Runs under other lines

A run does not depend on the lines of what it runs, nor on what happened before it. Put other
lines on a program and on everything in the machine, and put any events in front of those of
the machine: the run is the same, under the other lines and behind the other events
(`Lox.follows_runProgram`).

This is an equation between whole outcomes, and no relation between machines has to be carried
through the evaluator. Two runs that are to be compared are both transported to the same place.
-/

namespace Lox

section Definitions

variable (f : Nat → Nat) (pre : Array Event)

/-- A machine with other lines in it, and with a past in front of its own. -/
def Machine.transport (m : Machine) : Machine :=
  { m with heap := m.heap.relabel f, events := pre ++ m.events.map (Event.relabel f) }

/-- A fault with other lines. -/
def Located.relabel (fault : Located RuntimeFault) : Located RuntimeFault :=
  ⟨fault.cause.relabel f, fault.line.map f⟩

/-- An outcome with other lines in it, whose value is mapped too. -/
def Outcome.transport {α β : Type} (g : α → β) : Outcome α → Outcome β
  | .done a m => .done (g a) (m.transport f pre)
  | .failed fault m => .failed (fault.relabel f) (m.transport f pre)
  | .exhausted => .exhausted

/-- A flow with other lines in its value. -/
def Flow.relabel : Flow → Flow
  | .normal v => .normal (v.relabel f)
  | .returned v => .returned (v.relabel f)

/-- **One computation follows another**: it does on the transported machine what the other does
on the machine itself. -/
def Follows {α β : Type} (g : α → β) (x : Exec α) (y : Exec β) : Prop :=
  ∀ m, y (m.transport f pre) = (x m).transport f pre g

end Definitions

variable {f : Nat → Nat} {pre : Array Event}

/-! ### The operations -/

section Operations

variable {α β γ δ : Type} {g : α → β} {h : γ → δ}

theorem follows_pure (g : α → β) (a : α) : Follows f pre g (pure a) (pure (g a)) := fun _ => rfl

theorem follows_normal (v : Value) :
    Follows f pre (Flow.relabel f) (pure (.normal v)) (pure (.normal (v.relabel f))) := fun _ => rfl

theorem follows_returned (v : Value) :
    Follows f pre (Flow.relabel f) (pure (.returned v)) (pure (.returned (v.relabel f))) :=
  fun _ => rfl

theorem follows_exhausted (g : α → β) : Follows f pre g Exec.exhausted Exec.exhausted :=
  fun _ => rfl

theorem follows_raise (g : α → β) (fault : RuntimeFault) (line : Nat) :
    Follows f pre g (Exec.raise fault line) (Exec.raise (fault.relabel f) (f line)) := fun _ => rfl

theorem Follows.bind {x : Exec α} {y : Exec β} {k : α → Exec γ} {l : β → Exec δ}
    (hx : Follows f pre g x y) (hk : ∀ a, Follows f pre h (k a) (l (g a))) :
    Follows f pre h (x >>= k) (y >>= l) := by
  intro m
  have hm := hx m
  cases hxm : x m with
  | done a m' =>
    rw [hxm] at hm
    rw [Exec.bind_of_done hxm, Exec.bind_of_done hm]
    exact hk a m'
  | failed fault m' =>
    rw [hxm] at hm
    rw [Exec.bind_of_failed hxm, Exec.bind_of_failed hm]
    rfl
  | exhausted =>
    rw [hxm] at hm
    rw [Exec.bind_of_exhausted hxm, Exec.bind_of_exhausted hm]
    rfl

theorem Follows.nested {x : Exec α} {y : Exec β} (hx : Follows f pre g x y) :
    Follows f pre g (Exec.nested x) (Exec.nested y) := by
  intro m
  have hm := hx { m with depth := m.depth + 1 }
  have hdepth : ({ m.transport f pre with depth := (m.transport f pre).depth + 1 } : Machine) =
      ({ m with depth := m.depth + 1 } : Machine).transport f pre := rfl
  unfold Exec.nested
  rw [hdepth, hm]
  cases x { m with depth := m.depth + 1 } with
  | done a m' => rfl
  | failed fault m' => rfl
  | exhausted => rfl

theorem follows_read_depth : Follows f pre id (Exec.read (·.depth)) (Exec.read (·.depth)) :=
  fun _ => rfl

theorem follows_note (e : Event) : Follows f pre id (Exec.note e) (Exec.note (e.relabel f)) := by
  intro m
  simp [Exec.note, Exec.modify, Machine.note, Machine.transport, Outcome.transport]

theorem follows_countStatement : Follows f pre id Exec.countStatement Exec.countStatement :=
  fun _ => rfl

theorem follows_lookup (s : Scope) (name : String) :
    Follows f pre (Value.relabel f) (Exec.lookup s name) (Exec.lookup s name) := by
  intro m
  change Outcome.done ((m.heap.relabel f).lookup s name) _ = _
  rw [Heap.lookup_relabel]
  rfl

theorem follows_declare (s : Scope) (name : String) (v : Value) :
    Follows f pre id (Exec.declare s name v) (Exec.declare s name (v.relabel f)) := by
  intro m
  simp [Exec.declare, Exec.modify, Machine.declare, Machine.transport, Outcome.transport,
    Heap.declare_relabel]

theorem follows_declareAll (s : Scope) (bs : List (String × Value)) :
    Follows f pre id (Exec.declareAll s bs)
      (Exec.declareAll s (bs.map fun b => (b.1, b.2.relabel f))) := by
  induction bs with
  | nil => exact follows_pure id ()
  | cons b bs ih => exact (follows_declare s b.1 b.2).bind fun _ => ih

theorem follows_assign (s : Scope) (name : String) (v : Value) (line : Nat) :
    Follows f pre id (Exec.assign s name v line) (Exec.assign s name (v.relabel f) (f line)) := by
  intro m
  have howner : (m.transport f pre).heap.owner? s name = m.heap.owner? s name :=
    Heap.owner?_relabel f m.heap s name
  unfold Exec.assign
  rw [howner]
  cases m.heap.owner? s name with
  | none => rfl
  | some owner => exact follows_declare owner name v m

theorem follows_makeClosure (fn : Function) (s : Scope) :
    Follows f pre (Closure.relabel f) (Exec.makeClosure fn s)
      (Exec.makeClosure (fn.relabel f) s) := fun _ => rfl

theorem follows_enterBlock (parent : Scope) :
    Follows f pre id (Exec.enterBlock parent) (Exec.enterBlock parent) := by
  intro m
  simp [Exec.enterBlock, Machine.newChild, Machine.transport, Outcome.transport,
    Heap.push_relabel]

theorem follows_ofExcept (line : Nat) (r : Except RuntimeFault Value) :
    Follows f pre (Value.relabel f) (Exec.ofExcept line r)
      (Exec.ofExcept (f line) (relabelResult f r)) := by
  cases r with
  | error fault => exact follows_raise _ fault line
  | ok v => exact follows_pure _ v

end Operations

/-! ### The walk -/

section Walk

variable {limit : Option Nat}

theorem follows_evalAll {ev ev' : Expr → Exec Value}
    (hev : ∀ e, Follows f pre (Value.relabel f) (ev e) (ev' (e.relabel f))) (es : List Expr) :
    Follows f pre (List.map (Value.relabel f)) (evalAll ev es)
      (evalAll ev' (es.map (Expr.relabel f))) := by
  induction es with
  | nil => exact follows_pure _ []
  | cons e es ih => exact (hev e).bind fun v => ih.bind fun vs => follows_pure _ (v :: vs)

theorem follows_runBody {run run' : Stmt → Exec Flow}
    (hrun : ∀ stmt, Follows f pre (Flow.relabel f) (run stmt) (run' (stmt.relabel f)))
    (body : List Stmt) :
    Follows f pre (Flow.relabel f) (runBody run body)
      (runBody run' (body.map (Stmt.relabel f))) := by
  induction body with
  | nil => exact follows_normal .nil
  | cons stmt body ih =>
    refine (hrun stmt).bind fun flow => ?_
    cases flow with
    | normal v => exact ih
    | returned v => exact follows_returned v

theorem follows_runLoop {cond cond' : Exec Value} {body body' : Exec Flow}
    (hcond : Follows f pre (Value.relabel f) cond cond')
    (hbody : Follows f pre (Flow.relabel f) body body') (rounds : Nat) :
    Follows f pre (Flow.relabel f) (runLoop cond body rounds) (runLoop cond' body' rounds) := by
  induction rounds with
  | zero => exact follows_exhausted _
  | succ rounds ih =>
    refine hcond.bind fun v => ?_
    rw [Value.relabel_isTruthy]
    split
    · refine hbody.bind fun flow => ?_
      cases flow with
      | normal v => exact ih
      | returned v => exact follows_returned v
    · exact follows_normal .nil

theorem follows_callee (line : Nat) (v : Value) :
    Follows f pre (Closure.relabel f) (callee line v) (callee (f line) (v.relabel f)) := by
  cases v with
  | function c => exact follows_pure _ c
  | _ => exact follows_raise _ _ line

theorem follows_checkDepth (line : Nat) :
    Follows f pre id (checkDepth limit line) (checkDepth limit (f line)) := by
  intro m
  cases limit with
  | none => rfl
  | some k =>
    change (if k ≤ m.depth then _ else _) =
      Outcome.transport f pre id (if k ≤ m.depth then _ else _)
    split
    · rfl
    · rfl

theorem follows_enterCall (c : Closure) (args : List Value) :
    Follows f pre id (enterCall c args)
      (enterCall (c.relabel f) (args.map (Value.relabel f))) := by
  refine follows_read_depth.bind fun depth => (follows_note _).bind fun _ => ?_
  refine Follows.bind (g := id) (fun _ => rfl) fun _ => ?_
  refine (follows_enterBlock c.scope).bind fun s => ?_
  have hzip : (c.relabel f).function.params.zip (args.map (Value.relabel f)) =
      (c.function.params.zip args).map fun b => (b.1, b.2.relabel f) := by
    change c.function.params.zip (args.map (Value.relabel f)) = _
    rw [List.zip_map_right]
    rfl
  rw [hzip]
  exact (follows_declareAll s _).bind fun _ => follows_pure id s

theorem follows_invoke {run run' : Stmt → Scope → Exec Flow}
    (hrun : ∀ stmt s, Follows f pre (Flow.relabel f) (run stmt s) (run' (stmt.relabel f) s))
    (c : Closure) (args : List Value) (line : Nat) :
    Follows f pre (Value.relabel f) (invoke limit run c args line)
      (invoke limit run' (c.relabel f) (args.map (Value.relabel f)) (f line)) := by
  unfold invoke
  have harity : (c.relabel f).function.arity = c.function.arity := rfl
  rw [List.length_map, harity]
  split
  · refine (follows_checkDepth line).bind fun _ => (follows_enterCall c args).bind fun s => ?_
    refine (follows_runBody (fun stmt => hrun stmt s) c.function.body).nested.bind fun flow => ?_
    cases flow <;> exact follows_pure _ _
  · exact follows_raise _ _ line

/-- **Evaluation follows itself**, under other lines and behind another past. -/
theorem follows_walk (n : Nat) :
    (∀ e s, Follows f pre (Value.relabel f) (eval limit n e s) (eval limit n (e.relabel f) s)) ∧
      ∀ stmt s, Follows f pre (Flow.relabel f) (exec limit n stmt s)
        (exec limit n (stmt.relabel f) s) := by
  induction n with
  | zero => exact ⟨fun e s => follows_exhausted _, fun stmt s => follows_exhausted _⟩
  | succ n ih =>
    obtain ⟨ihe, ihs⟩ := ih
    constructor
    · intro e s
      cases e with
      | literal value =>
        have h := @follows_pure f pre _ _ (Value.relabel f) (Value.ofLiteral value)
        rwa [Value.relabel_ofLiteral] at h
      | identifier name line => exact follows_lookup s name
      | grouping inner => exact ihe inner s
      | unary op operand line =>
        refine (ihe operand s).bind fun v => ?_
        rw [Value.unary_relabel]
        exact follows_ofExcept line _
      | binary op left right line =>
        refine (ihe left s).bind fun l => (ihe right s).bind fun r => ?_
        rw [Value.binary_relabel]
        exact follows_ofExcept line _
      | logical op left right =>
        refine (ihe left s).bind fun l => ?_
        rw [Value.relabel_settles]
        split
        · exact follows_pure _ l
        · exact ihe right s
      | assign name value line =>
        exact (ihe value s).bind fun v => (follows_assign s name v line).bind fun _ =>
          follows_pure (Value.relabel f) .nil
      | call callee args line =>
        rw [Expr.relabel, Expr.relabelAll_eq_map, eval_call, eval_call]
        exact (ihe callee s).bind fun v => (follows_callee line v).bind fun c =>
          (follows_evalAll (fun arg => ihe arg s) args).bind fun vs =>
            follows_invoke ihs c vs line
    · intro stmt s
      cases stmt with
      | var name initial =>
        refine follows_countStatement.bind fun _ => ?_
        cases initial with
        | none => exact (follows_declare s name .nil).bind fun _ => follows_normal .nil
        | some e =>
          exact (ihe e s).bind fun v => (follows_declare s name v).bind fun _ =>
            follows_normal .nil
      | function name params body =>
        rw [Stmt.relabel, Stmt.relabelAll_eq_map]
        refine follows_countStatement.bind fun _ => (follows_note _).bind fun _ => ?_
        exact (follows_makeClosure ⟨name, params, body⟩ s).bind fun c =>
          (follows_declare s name (.function c)).bind fun _ => follows_normal .nil
      | block body =>
        rw [Stmt.relabel, Stmt.relabelAll_eq_map]
        refine follows_countStatement.bind fun _ => ?_
        -- what is noted is the number of statements, which stays the same
        have hnote : Follows f pre id (Exec.note (.entered body.length))
            (Exec.note (.entered (body.map (Stmt.relabel f)).length)) := by
          rw [List.length_map]
          exact follows_note _
        exact hnote.bind fun _ => (follows_enterBlock s).bind fun inner =>
          follows_runBody (fun stmt => ihs stmt inner) body
      | branch cond yes no =>
        cases no with
        | none =>
          refine follows_countStatement.bind fun _ => (ihe cond s).bind fun v => ?_
          rw [Value.relabel_isTruthy]
          split
          · exact ihs yes s
          · exact follows_normal .nil
        | some no =>
          refine follows_countStatement.bind fun _ => (ihe cond s).bind fun v => ?_
          rw [Value.relabel_isTruthy]
          split
          · exact ihs yes s
          · exact ihs no s
      | loop cond body =>
        exact follows_countStatement.bind fun _ => follows_runLoop (ihe cond s) (ihs body s) n
      | print e =>
        exact follows_countStatement.bind fun _ => (ihe e s).bind fun v =>
          (follows_note (.printed v)).bind fun _ => follows_normal .nil
      | ret value line =>
        refine follows_countStatement.bind fun _ => follows_read_depth.bind fun depth => ?_
        change Follows f pre _ (if depth = 0 then _ else _) (if depth = 0 then _ else _)
        split
        · exact follows_raise _ _ line
        · cases value with
          | none => exact follows_returned .nil
          | some e => exact (ihe e s).bind fun v => follows_returned v
      | expression e =>
        exact follows_countStatement.bind fun _ => (ihe e s).bind fun v =>
          follows_normal v

theorem shown_relabel (stmt : Stmt) (v : Value) :
    (stmt.relabel f).shown (v.relabel f) = (stmt.shown v).map (Value.relabel f) := by
  cases stmt with
  | branch cond yes no => cases no <;> rfl
  | _ => rfl

theorem follows_runStatements (n : Nat) (s : Scope) (last : Option Value) (program : List Stmt) :
    Follows f pre (Option.map (Value.relabel f)) (runStatements limit n s last program)
      (runStatements limit n s (last.map (Value.relabel f)) (program.map (Stmt.relabel f))) := by
  induction program generalizing last with
  | nil => exact follows_pure _ last
  | cons stmt rest ih =>
    refine ((follows_walk n).2 stmt s).bind fun flow => ?_
    cases flow with
    | normal v =>
      have h := ih (stmt.shown v)
      rw [← shown_relabel] at h
      exact h
    | returned v => exact fun _ => rfl

/-- **A program runs the same** under other lines and behind another past. -/
theorem follows_runProgram (n : Nat) (program : List Stmt) (s : Scope) :
    Follows f pre (Option.map (Value.relabel f)) (runProgram limit n program s)
      (runProgram limit n (program.map (Stmt.relabel f)) s) := by
  refine Follows.bind (g := id) (fun _ => rfl) fun _ => ?_
  exact follows_runStatements n s none program

end Walk

/-! ### Machines that look alike -/

/-- No lines at all. -/
def unplaced : Nat → Nat := fun _ => 0

theorem unplaced_comp (f : Nat → Nat) : unplaced ∘ f = unplaced := rfl

/-- **Two machines look alike** if they differ only in lines and in events that print nothing. -/
structure Machine.Alike (m m' : Machine) : Prop where
  heap : m.heap.relabel unplaced = m'.heap.relabel unplaced
  made : m.made = m'.made
  stats : m.stats = m'.stats
  depth : m.depth = m'.depth
  output : m.output.map (Value.relabel unplaced) = m'.output.map (Value.relabel unplaced)

/-- Two outcomes look alike. -/
inductive Outcome.Alike {α β : Type} : Outcome α → Outcome β → Prop
  | done {a : α} {b : β} {m m' : Machine} : m.Alike m' → Alike (.done a m) (.done b m')
  | failed {fault fault' : Located RuntimeFault} {m m' : Machine} :
      fault.cause.complaint = fault'.cause.complaint → m.Alike m' →
      Alike (.failed fault m) (.failed fault' m')
  | exhausted : Alike .exhausted .exhausted

theorem filterMap_printed?_relabel (events : List Event) :
    (events.map (Event.relabel f)).filterMap Event.printed? =
      (events.filterMap Event.printed?).map (Value.relabel f) := by
  rw [List.filterMap_map, List.map_filterMap]
  exact congrArg (List.filterMap · events) (funext (Event.printed?_relabel f))

theorem Machine.output_transport (m : Machine) : (m.transport f pre).output =
    pre.toList.filterMap Event.printed? ++ m.output.map (Value.relabel f) := by
  unfold output transport
  rw [Array.toList_append, Array.toList_map, List.filterMap_append, filterMap_printed?_relabel]

/-- Two machines that come from one machine behind two pasts that print the same look alike. -/
theorem Machine.Alike.of_transport {m m' y : Machine} {past past' : Array Event}
    (h : m.transport unplaced #[] = y.transport unplaced past)
    (h' : m'.transport unplaced #[] = y.transport unplaced past')
    (hpast : past.toList.filterMap Event.printed? = past'.toList.filterMap Event.printed?) :
    m.Alike m' where
  heap := (congrArg Machine.heap h).trans (congrArg Machine.heap h').symm
  made := (congrArg Machine.made h).trans (congrArg Machine.made h').symm
  stats := (congrArg Machine.stats h).trans (congrArg Machine.stats h').symm
  depth := (congrArg Machine.depth h).trans (congrArg Machine.depth h').symm
  output := by
    have ho := congrArg Machine.output h
    have ho' := congrArg Machine.output h'
    simp only [output_transport, List.filterMap_nil, List.nil_append] at ho ho'
    rw [ho, ho', hpast]

/-- A machine without lines and without a past. -/
def Machine.bare (m : Machine) : Machine :=
  { m with heap := m.heap.relabel unplaced, events := #[] }

theorem Machine.Alike.bare_eq {m m' : Machine} (h : m.Alike m') : m.bare = m'.bare := by
  unfold bare
  rw [h.heap, h.made, h.stats, h.depth]

theorem Machine.transport_bare (m : Machine) :
    m.bare.transport unplaced (m.events.map (Event.relabel unplaced)) =
      m.transport unplaced #[] := by
  simp [bare, transport, Heap.relabel_relabel, unplaced_comp]

/-- Every run is transported to the run of the program without lines on the bare machine. -/
theorem transport_runProgram (limit : Option Nat) (n : Nat) (program : List Stmt) (s : Scope)
    (m : Machine) :
    (runProgram limit n program s m).transport unplaced #[] (Option.map (Value.relabel unplaced)) =
      (runProgram limit n (program.map (Stmt.relabel unplaced)) s m.bare).transport unplaced
        (m.events.map (Event.relabel unplaced)) (Option.map (Value.relabel unplaced)) := by
  -- the run without lines is itself a copy, since taking lines away twice is taking them away
  have hidem : (program.map (Stmt.relabel unplaced)).map (Stmt.relabel unplaced) =
      program.map (Stmt.relabel unplaced) := by
    simp [Stmt.relabel_relabel, unplaced_comp]
  rw [← follows_runProgram n program s m, ← m.transport_bare,
    ← follows_runProgram n (program.map (Stmt.relabel unplaced)) s m.bare, hidem]

theorem Machine.Alike.past_eq {m m' : Machine} (h : m.Alike m') :
    (m.events.map (Event.relabel unplaced)).toList.filterMap Event.printed? =
      (m'.events.map (Event.relabel unplaced)).toList.filterMap Event.printed? := by
  rw [Array.toList_map, Array.toList_map, filterMap_printed?_relabel, filterMap_printed?_relabel]
  exact h.output

/-- **Programs that differ only in lines run alike on machines that look alike.** -/
theorem alike_runProgram {limit : Option Nat} (n : Nat) {p p' : List Stmt} (s : Scope)
    {m m' : Machine} (hp : p.map (Stmt.relabel unplaced) = p'.map (Stmt.relabel unplaced))
    (h : m.Alike m') : (runProgram limit n p s m).Alike (runProgram limit n p' s m') := by
  have hm := transport_runProgram limit n p s m
  have hm' := transport_runProgram limit n p' s m'
  rw [h.bare_eq, hp] at hm
  -- one run without lines, of which both are copies behind their own pasts
  generalize runProgram limit n (p'.map (Stmt.relabel unplaced)) s m'.bare = y at hm hm'
  cases hx : runProgram limit n p s m <;> cases hx' : runProgram limit n p' s m' <;>
    cases y <;> simp only [hx, hx', Outcome.transport, reduceCtorEq, Outcome.done.injEq,
      Outcome.failed.injEq] at hm hm'
  · exact .done (.of_transport hm.2 hm'.2 h.past_eq)
  · refine .failed ?_ (.of_transport hm.2 hm'.2 h.past_eq)
    have hc := congrArg (fun fault => fault.cause.complaint) (hm.1.trans hm'.1.symm)
    simpa [Located.relabel] using hc
  · exact .exhausted

end Lox
