import Lox.Proofs.Eval.Past
import Lox.Proofs.Eval.Reaches
import Lox.Proofs.Eval.Territory

/-!
# Programs without loops

A program that has no loops comes to an end, however its functions call each other
(`Lox.loop_free_programs_halt`). What could keep it going is a chain of calls, and that is cut off
by the limit.

So the measure is lexicographic: how many calls there is still room for, and after that the part of
the tree that is being walked. A call is the one place where the walk leaves the tree, for a body
that it finds in the machine, and it goes one call deeper then. For this to go through, every
function value that the run ever has in hand must have a body without loops. That is a matter of
territories: the functions that can be reached at the start have such bodies, and what is made later
is a part of the code.
-/

namespace Lox

variable {α β : Type}

/-! ### Computations that need no fuel -/

/-- A computation that needs no fuel. -/
def Exec.Total (x : Exec α) : Prop := ∀ m, x m ≠ .exhausted

namespace Exec

theorem Total.bind {x : Exec α} {f : α → Exec β} (hx : x.Total) (hf : ∀ a, (f a).Total) :
    (x >>= f).Total := by
  intro m
  cases hxm : x m with
  | done a m' =>
    rw [bind_of_done hxm]
    exact hf a m'
  | failed fault m' =>
    rw [bind_of_failed hxm]
    exact nofun
  | exhausted => exact absurd hxm (hx m)

theorem total_pure (a : α) : (pure a : Exec α).Total := fun _ => nofun

theorem total_modify (f : Machine → Machine) : (modify f).Total := fun _ => nofun

theorem total_raise (fault : RuntimeFault) (line : Nat) : (raise fault line : Exec α).Total :=
  fun _ => nofun

theorem total_enterBlock (s : Scope) : (enterBlock s).Total := fun _ => nofun

theorem total_makeClosure (f : Function) (s : Scope) : (makeClosure f s).Total := fun _ => nofun

theorem total_ofExcept (line : Nat) (r : Except RuntimeFault α) : (ofExcept line r).Total := by
  intro m
  cases r <;> exact nofun

theorem total_assign (s : Scope) (name : String) (v : Value) (line : Nat) :
    (assign s name v line).Total := by
  intro m
  unfold assign
  split
  · exact nofun
  · exact nofun

theorem total_declareAll (s : Scope) (bs : List (String × Value)) : (declareAll s bs).Total := by
  induction bs with
  | nil => exact total_pure ()
  | cons b bs ih => exact Total.bind (total_modify _) fun _ => ih

end Exec

theorem total_callee (line : Nat) (v : Value) : (callee line v).Total := by
  intro m
  cases v <;> exact nofun

theorem total_checkDepth (limit : Option Nat) (line : Nat) : (checkDepth limit line).Total := by
  intro m
  unfold checkDepth
  split
  · exact nofun
  · split
    · exact nofun
    · exact nofun

theorem total_enterCall (c : Closure) (vs : List Value) : (enterCall c vs).Total := by
  refine Exec.Total.bind (fun _ => nofun) fun depth => (Exec.total_modify _).bind fun _ => ?_
  refine (Exec.total_modify _).bind fun _ => (Exec.total_enterBlock _).bind fun s => ?_
  exact (Exec.total_declareAll s _).bind fun _ => Exec.total_pure s

/-! ### Computations that halt -/

namespace Territory

/-- **A computation halts where there is room for `j` calls** under the limit `k`: it settles, on
every machine that is confined to the territory and has `n` frames or more. -/
def Halts (T : Territory) (k j n : Nat) (x : Nat → Exec α) : Prop :=
  ∀ m, n ≤ m.heap.frames.size → T.Confines m → k ≤ m.depth + j → ∃ o, Settles (x · m) o

/-- A computation that stays in the territory, and does nothing but what evaluation can do. -/
structure Steady (T : Territory) (n : Nat) (P : Nat → α → Prop) (x : Nat → Exec α) : Prop where
  stays : ∀ fuel m, n ≤ m.heap.frames.size → T.Confines m → T.Stays m.heap.frames.size P (x fuel m)
  proceeds : ∀ fuel, (x fuel).Proceeds

variable {T : Territory} {k j n : Nat} {s : Scope} {P : Nat → α → Prop} {x : Nat → Exec α}
  {f : Nat → α → Exec β}

namespace Halts

theorem of_succ (h : T.Halts k j n fun fuel => x (fuel + 1)) : T.Halts k j n x := by
  intro m hn hm hroom
  obtain ⟨o, ho⟩ := h m hn hm hroom
  exact ⟨o, ho.of_succ⟩

theorem mono {n' : Nat} (hn : n ≤ n') (h : T.Halts k j n x) : T.Halts k j n' x :=
  fun m hm => h m (hn.trans hm)

/-- What needs no fuel halts. -/
theorem of_total {x : Exec α} (h : x.Total) : T.Halts k j n fun _ => x :=
  fun m _ _ _ => ⟨x m, .const (h m)⟩

/-- **One computation after another halts**: the first leaves as much room as there was, and a
machine that is confined as before. -/
theorem bind (hx : T.Halts k j n x) (hsteady : T.Steady n P x)
    (hf : ∀ n₁ a, n ≤ n₁ → P n₁ a → T.Halts k j n₁ (f · a)) :
    T.Halts k j n fun fuel => x fuel >>= f fuel := by
  intro m hn hm hroom
  obtain ⟨o, ho⟩ := hx m hn hm hroom
  cases o with
  | done a m₁ =>
    obtain ⟨fuel, hfuel⟩ := ho.exists_eq
    have hstays := hsteady.stays fuel m hn hm
    rw [hfuel] at hstays
    obtain ⟨hle, hm₁, ha⟩ := hstays
    have hdepth := ((hsteady.proceeds fuel m).of_done hfuel).depth_eq
    obtain ⟨o', ho'⟩ := hf _ a (hn.trans hle) ha m₁ le_rfl hm₁ (by omega)
    exact ⟨o', ho.bind_done ho'⟩
  | failed fault m₁ => exact ⟨_, ho.bind_failed⟩
  | exhausted => exact absurd rfl ho.1

/-- What needs no fuel may follow whatever the first computation leaves. -/
theorem bind_total {f : α → Exec β} (hx : T.Halts k j n x) (hf : ∀ a, (f a).Total) :
    T.Halts k j n fun fuel => x fuel >>= f := by
  intro m hn hm hroom
  obtain ⟨o, ho⟩ := hx m hn hm hroom
  cases o with
  | done a m₁ => exact ⟨f a m₁, ho.bind_done (.const (hf a m₁))⟩
  | failed fault m₁ => exact ⟨_, ho.bind_failed⟩
  | exhausted => exact absurd rfl ho.1

/-- What needs no fuel may come first. -/
theorem after_total {x : Exec α} (hx : x.Total) (hsteady : T.Steady n P fun _ => x)
    (hf : ∀ n₁ a, n ≤ n₁ → P n₁ a → T.Halts k j n₁ (f · a)) :
    T.Halts k j n fun fuel => x >>= f fuel := (of_total hx).bind hsteady hf

/-- The body of a call has room for one call less. -/
theorem nested (hx : T.Halts k j n x) : T.Halts k (j + 1) n fun fuel => Exec.nested (x fuel) := by
  intro m hn hm hroom
  have hroom' : k ≤ m.depth + 1 + j := by omega
  obtain ⟨o, ho⟩ := hx { m with depth := m.depth + 1 } hn (hm.of_eq rfl rfl) hroom'
  exact ho.exists_nested

end Halts

/-! ### Computations that stay in the territory -/

theorem steady_of_matches {R : Nat → α → α → Prop}
    (h : ∀ fuel, T.invariant.Matches n R (x fuel) (x fuel)) (hR : ∀ {n a b}, R n a b → P n a)
    (hproceeds : ∀ fuel, (x fuel).Proceeds) : T.Steady n P x where
  stays fuel m hn hm := stays_of_ends hR (h fuel _ m _ hn ⟨rfl, hm, rfl⟩)
  proceeds := hproceeds

theorem steady_eval (limit : Option Nat) (hs : T.has n s) (e : Expr) :
    T.Steady n T.admits fun fuel => eval limit fuel e s where
  stays fuel _ hn hm := stays_eval hm (T.has_mono hn hs) limit fuel e
  proceeds fuel := proceeds_eval fuel e s

theorem steady_exec (limit : Option Nat) (hs : T.has n s) {stmt : Stmt} (hstmt : T.code stmt) :
    T.Steady n (fun n flow => T.admits n flow.value) fun fuel => exec limit fuel stmt s where
  stays fuel _ hn hm := stays_exec hm (T.has_mono hn hs) limit fuel hstmt
  proceeds fuel := proceeds_exec fuel stmt s

theorem steady_evalAll (limit : Option Nat) (hs : T.has n s) (es : List Expr) :
    T.Steady n (fun n vs => ∀ v ∈ vs, T.admits n v) fun fuel =>
      evalAll (fun arg => eval limit fuel arg s) es := by
  have hmatches (fuel : Nat) (arg : Expr) :
      T.invariant.Matches n T.invariant.value (eval limit fuel arg s) (eval limit fuel arg s) :=
    (Simulation.matches_walk (S := T.invariant) limit fuel).1 ⟨hs, rfl⟩
  refine steady_of_matches (fun fuel => Simulation.matches_evalAll (hmatches fuel) es) ?_
    fun fuel => Exec.closed_proceeds.evalAll (fun arg => proceeds_eval fuel arg s) es
  intro n vs vs' hvs
  induction hvs with
  | nil => exact fun v hv => nomatch hv
  | cons hv _ ih => exact List.forall_mem_cons.mpr ⟨(corresponds_iff.mp hv).1, ih⟩

theorem steady_callee (line : Nat) {v : Value} (hv : T.admits n v) :
    T.Steady n T.carries fun _ => callee line v :=
  steady_of_matches (fun _ => Simulation.matches_callee (S := T.invariant) line
    (corresponds_iff.mpr ⟨hv, rfl⟩)) And.left fun _ => Exec.closed_proceeds.callee line v

theorem steady_countStatement : T.Steady n (fun _ _ => True) fun _ => Exec.countStatement :=
  steady_of_matches (fun _ => Simulation.matches_countStatement) (fun _ => trivial)
    fun _ => Exec.closed_proceeds.countStatement

theorem steady_depth : T.Steady n (fun _ _ => True) fun _ => Exec.read (·.depth) :=
  steady_of_matches (fun _ => Simulation.matches_depth) (fun _ => trivial)
    fun _ => Exec.closed_proceeds.read _

theorem steady_note {e : Event} (he : e.printed? = none) :
    T.Steady n (fun _ _ => True) fun _ => Exec.note e :=
  steady_of_matches (fun _ => Simulation.matches_note he) (fun _ => trivial)
    fun _ => Exec.closed_proceeds.note e

theorem steady_enterBlock (hs : T.has n s) : T.Steady n T.has fun _ => Exec.enterBlock s :=
  steady_of_matches (fun _ => Simulation.matches_enterBlock (S := T.invariant) ⟨hs, rfl⟩) And.left
    fun _ => Exec.closed_proceeds.enterBlock s

theorem steady_checkDepth (limit : Option Nat) (line : Nat) :
    T.Steady n (fun _ _ => True) fun _ => checkDepth limit line :=
  steady_of_matches (fun _ => Simulation.matches_checkDepth line) (fun _ => trivial)
    fun _ => Exec.closed_proceeds.checkDepth line

theorem steady_enterCall {c : Closure} {vs : List Value} (hc : T.carries n c)
    (hvs : ∀ v ∈ vs, T.admits n v) : T.Steady n T.has fun _ => enterCall c vs := by
  have hself : List.Forall₂ (T.invariant.value n) vs vs :=
    List.forall₂_same.mpr fun v hv => corresponds_iff.mpr ⟨hvs v hv, rfl⟩
  exact steady_of_matches (fun _ => Simulation.matches_enterCall (S := T.invariant) ⟨hc, rfl⟩ hself)
    And.left fun _ => Exec.closed_proceeds.enterCall c vs

/-! ### The walk -/

/-- **Calls halt** where there is room for `j` of them. -/
def CallsHalt (T : Territory) (k j : Nat) : Prop :=
  ∀ {n : Nat} {c : Closure} {vs : List Value} (line : Nat), T.carries n c →
    (∀ v ∈ vs, T.admits n v) → T.Halts k j n fun fuel =>
      invoke (some k) (fun stmt s => exec (some k) fuel stmt s) c vs line

mutual

/-- **An expression halts if calls do.** -/
theorem halts_eval (hcall : T.CallsHalt k j) : ∀ (e : Expr) {n : Nat} {s : Scope}, T.has n s →
    T.Halts k j n fun fuel => eval (some k) fuel e s
  | .literal value, n, s, _ => .of_succ (.of_total (Exec.total_pure _))
  | .identifier name line, n, s, _ => .of_succ (.of_total fun m => nofun)
  | .grouping inner, n, s, hs => .of_succ (halts_eval hcall inner hs)
  | .unary op operand line, n, s, hs =>
    .of_succ ((halts_eval hcall operand hs).bind_total fun v => Exec.total_ofExcept line _)
  | .binary op left right line, n, s, hs => by
    have hleft := halts_eval hcall left hs
    refine .of_succ (hleft.bind (steady_eval _ hs left) fun n₁ l hn _ => ?_)
    have hright := halts_eval hcall right (T.has_mono hn hs)
    exact hright.bind_total fun r => Exec.total_ofExcept line _
  | .logical op left right, n, s, hs => by
    have hleft := halts_eval hcall left hs
    refine .of_succ (hleft.bind (steady_eval _ hs left) fun n₁ l hn _ => ?_)
    by_cases hl : l.settles op
    · simp only [if_pos hl]
      exact .of_total (Exec.total_pure l)
    · simp only [if_neg hl]
      exact halts_eval hcall right (T.has_mono hn hs)
  | .assign name value line, n, s, hs =>
    .of_succ ((halts_eval hcall value hs).bind_total fun v =>
      (Exec.total_assign s name v line).bind fun _ => Exec.total_pure _)
  | .call f args line, n, s, hs => by
    -- neither the function nor the arguments lead out of the territory
    have hf := halts_eval hcall f hs
    refine .of_succ ?_
    simp only [eval_call]
    refine hf.bind (steady_eval _ hs f) fun n₁ v hn₁ hv => ?_
    refine .after_total (total_callee line v) (steady_callee line hv) fun n₂ c hn₂ hc => ?_
    replace hs := T.has_mono (hn₁.trans hn₂) hs
    refine (halts_evalAll hcall args hs).bind (steady_evalAll _ hs args) fun n₃ vs hn₃ hvs => ?_
    exact hcall line (carries_mono hn₃ hc) hvs

/-- The same for several expressions. -/
theorem halts_evalAll (hcall : T.CallsHalt k j) : ∀ (es : List Expr) {n : Nat} {s : Scope},
    T.has n s → T.Halts k j n fun fuel => evalAll (fun arg => eval (some k) fuel arg s) es
  | [], n, s, _ => .of_total (Exec.total_pure _)
  | e :: es, n, s, hs => by
    refine (halts_eval hcall e hs).bind (steady_eval _ hs e) fun n₁ v hn _ => ?_
    exact (halts_evalAll hcall es (T.has_mono hn hs)).bind_total fun vs => Exec.total_pure _

end

/-- Counting a statement is no obstacle. -/
theorem Halts.counted (hx : T.Halts k j n x) :
    T.Halts k j n fun fuel => Exec.countStatement >>= fun _ => x fuel :=
  .after_total (Exec.total_modify _) steady_countStatement fun _ _ hn _ => hx.mono hn

/-- **There is no loop in the code.** -/
def Loopless (T : Territory) : Prop := ∀ cond body, ¬T.code (.loop cond body)

mutual

/-- **A statement without loops halts if calls do.** -/
theorem halts_exec (hloop : T.Loopless) (hcall : T.CallsHalt k j) : ∀ (stmt : Stmt) {n : Nat}
    {s : Scope}, T.code stmt → T.has n s → T.Halts k j n fun fuel => exec (some k) fuel stmt s
  | .var name none, n, s, _, _ => by
    refine .of_succ (.counted ?_)
    exact .of_total ((Exec.total_modify _).bind fun _ => Exec.total_pure _)
  | .var name (some e), n, s, _, hs =>
    .of_succ (.counted ((halts_eval hcall e hs).bind_total fun v =>
      (Exec.total_modify _).bind fun _ => Exec.total_pure _))
  | .function name params body, n, s, _, _ => by
    have htotal : (Exec.note (.declared name params.length) >>= fun _ =>
        Exec.makeClosure ⟨name, params, body⟩ s >>= fun c =>
          Exec.declare s name (.function c) >>= fun _ => pure (Flow.normal .nil)).Total :=
      (Exec.total_modify _).bind fun _ => (Exec.total_makeClosure _ s).bind fun c =>
        (Exec.total_modify _).bind fun _ => Exec.total_pure _
    exact .of_succ (.counted (.of_total htotal))
  | .block body, n, s, hstmt, hs => by
    refine .of_succ (.counted (.after_total (Exec.total_modify _) (steady_note rfl) ?_))
    intro n₁ _ hn _
    have hsteady := steady_enterBlock (T.has_mono hn hs)
    refine .after_total (Exec.total_enterBlock s) hsteady fun n₂ inner _ hinner => ?_
    exact halts_runBody hloop hcall body (fun stmt hmem => T.code_part hstmt hmem) hinner
  | .branch cond yes no, n, s, hstmt, hs => by
    have hcond := halts_eval hcall cond hs
    refine .of_succ (.counted (hcond.bind (steady_eval _ hs cond) fun n₁ v hn _ => ?_))
    replace hs := T.has_mono hn hs
    by_cases hv : v.isTruthy
    · simp only [if_pos hv]
      exact halts_exec hloop hcall yes (T.code_part hstmt (by simp [Stmt.parts])) hs
    · simp only [if_neg hv]
      match no with
      | none => exact .of_total (Exec.total_pure _)
      | some no => exact halts_exec hloop hcall no (T.code_part hstmt (by simp [Stmt.parts])) hs
  | .loop cond body, n, s, hstmt, _ => absurd hstmt (hloop cond body)
  | .print e, n, s, _, hs =>
    .of_succ (.counted ((halts_eval hcall e hs).bind_total fun v =>
      (Exec.total_modify _).bind fun _ => Exec.total_pure _))
  | .ret value line, n, s, _, hs => by
    refine .of_succ (.counted (.after_total (fun _ => nofun) steady_depth ?_))
    intro n₁ depth hn _
    replace hs := T.has_mono hn hs
    by_cases htop : depth = 0
    · simp only [if_pos htop]
      exact .of_total (Exec.total_raise _ line)
    · simp only [if_neg htop]
      match value with
      | none => exact .of_total (Exec.total_pure _)
      | some e => exact (halts_eval hcall e hs).bind_total fun v => Exec.total_pure _
  | .expression e, n, s, _, hs =>
    .of_succ (.counted ((halts_eval hcall e hs).bind_total fun v => Exec.total_pure _))

/-- The same for several statements. -/
theorem halts_runBody (hloop : T.Loopless) (hcall : T.CallsHalt k j) : ∀ (body : List Stmt)
    {n : Nat} {s : Scope}, (∀ stmt ∈ body, T.code stmt) → T.has n s →
      T.Halts k j n fun fuel => runBody (fun stmt => exec (some k) fuel stmt s) body
  | [], n, s, _, _ => .of_total (Exec.total_pure _)
  | stmt :: body, n, s, hcode, hs => by
    obtain ⟨hstmt, hbody⟩ := List.forall_mem_cons.mp hcode
    have hfirst := halts_exec hloop hcall stmt hstmt hs
    refine hfirst.bind (steady_exec _ hs hstmt) fun n₁ flow hn _ => ?_
    cases flow with
    | normal v => exact halts_runBody hloop hcall body hbody (T.has_mono hn hs)
    | returned v => exact .of_total (Exec.total_pure _)

end

/-! ### Calls -/

/-- Where there is no room, every call is refused. -/
theorem callsHalt_zero : T.CallsHalt k 0 := by
  intro n c vs line _ _
  unfold invoke
  by_cases harity : vs.length = c.function.arity
  · simp only [if_pos harity]
    intro m _ _ hroom
    have hfull : checkDepth (some k) line m = .failed (.atLine (.stackOverflow k) line) m :=
      if_pos hroom
    exact ⟨.failed (.atLine (.stackOverflow k) line) m, nofun, 0, fun _ _ =>
      Exec.bind_of_failed hfull⟩
  · simp only [if_neg harity]
    exact .of_total (Exec.total_raise _ line)

/-- **Where there is room for one call more, the body of a call may call in turn.** -/
theorem CallsHalt.succ (hloop : T.Loopless) (hcall : T.CallsHalt k j) :
    T.CallsHalt k (j + 1) := by
  intro n c vs line hc hvs
  unfold invoke
  by_cases harity : vs.length = c.function.arity
  · simp only [if_pos harity]
    refine .after_total (total_checkDepth _ line) (steady_checkDepth _ line) fun n₁ _ hn₁ _ => ?_
    have hsteady := steady_enterCall (carries_mono hn₁ hc) fun v hv => admits_mono hn₁ (hvs v hv)
    refine .after_total (total_enterCall c vs) hsteady fun n₂ s hn₂ hs => ?_
    -- the body has room for one call less
    have hbody := (halts_runBody hloop hcall c.function.body hc.2 hs).nested
    refine hbody.bind_total fun flow => ?_
    cases flow with
    | normal v => exact Exec.total_pure _
    | returned v => exact Exec.total_pure v
  · simp only [if_neg harity]
    exact .of_total (Exec.total_raise _ line)

/-- **Without loops, calls halt**, by induction on the number of those that there is room for. -/
theorem callsHalt (hloop : T.Loopless) (k j : Nat) : T.CallsHalt k j := by
  induction j with
  | zero => exact callsHalt_zero
  | succ j ih => exact ih.succ hloop

theorem halts_runStatements (hloop : T.Loopless) (hcall : T.CallsHalt k j) {program : List Stmt}
    (hprogram : ∀ stmt ∈ program, T.code stmt) (hs : T.has n s) (last : Option Value) :
    T.Halts k j n fun fuel => runStatements (some k) fuel s last program := by
  induction program generalizing n last with
  | nil => exact .of_total (Exec.total_pure last)
  | cons stmt program ih =>
    obtain ⟨hstmt, hprogram⟩ := List.forall_mem_cons.mp hprogram
    have hfirst := halts_exec hloop hcall stmt hstmt hs
    refine hfirst.bind (steady_exec _ hs hstmt) fun n₁ flow hn _ => ?_
    cases flow with
    | normal v => exact ih hprogram (T.has_mono hn hs) _
    | returned v => exact .of_total fun _ => nofun

end Territory

/-! ### Programs -/

namespace Stmt

mutual

/-- Whether a statement has no loop in it, in the bodies of functions neither. -/
def loopFree : Stmt → Bool
  | function _ _ body => loopFreeAll body
  | block body => loopFreeAll body
  | branch _ yes none => yes.loopFree
  | branch _ yes (some no) => yes.loopFree && no.loopFree
  | loop _ _ => false
  | _ => true

/-- The same for several statements. -/
def loopFreeAll : List Stmt → Bool
  | [] => true
  | s :: ss => s.loopFree && loopFreeAll ss

end

theorem loopFree_of_mem {body : List Stmt} (h : loopFreeAll body = true) {stmt : Stmt}
    (hstmt : stmt ∈ body) : stmt.loopFree = true := by
  induction body with
  | nil => cases hstmt
  | cons first rest ih =>
    obtain ⟨hfirst, hrest⟩ := Bool.and_eq_true_iff.mp h
    rcases List.mem_cons.mp hstmt with rfl | hstmt
    · exact hfirst
    · exact ih hrest hstmt

theorem loopFree_part {stmt part : Stmt} (h : stmt.loopFree = true) (hpart : part ∈ stmt.parts) :
    part.loopFree = true := by
  cases stmt with
  | function name params body => exact loopFree_of_mem h hpart
  | block body => exact loopFree_of_mem h hpart
  | branch cond yes no =>
    cases no with
    | none =>
      rw [List.mem_singleton.mp hpart]
      exact h
    | some no =>
      obtain ⟨hyes, hno⟩ := Bool.and_eq_true_iff.mp h
      rcases List.mem_cons.mp hpart with rfl | hpart
      · exact hyes
      · rw [List.mem_singleton.mp hpart]
        exact hno
  | loop cond body => cases h
  | _ => cases hpart

end Stmt

/-- **A program without loops comes to an end**, with a result or with a fault, if the functions
that can be reached from its scope have no loops either. -/
theorem loop_free_programs_halt (k : Nat) (program : List Stmt) (s : Scope) (m : Machine)
    (hprogram : ∀ stmt ∈ program, stmt.loopFree = true)
    (hfunctions : ∀ t name f, m.heap.Reachable s t → (name, .function f) ∈ m.heap.vars t →
      ∀ stmt ∈ f.function.body, stmt.loopFree = true) :
    (∃ result m', Settles (runProgram (some k) · program s m) (.done result m')) ∨
      ∃ fault m', Settles (runProgram (some k) · program s m) (.failed fault m') := by
  let T := Territory.reach m s (·.loopFree = true) Stmt.loopFree_part
  have hm : T.Confines m := Territory.confines_reach hfunctions
  have hloop : T.Loopless := fun _ _ => nofun
  have hhalts := Territory.halts_runStatements hloop (Territory.callsHalt hloop k k) hprogram
    (n := m.heap.frames.size) (.inl .refl) none
  obtain ⟨o, ho⟩ := hhalts { m with depth := 0 } le_rfl (hm.of_eq rfl rfl) (Nat.le_add_left k 0)
  cases o with
  | done result m' => exact .inl ⟨result, m', ho⟩
  | failed fault m' => exact .inr ⟨fault, m', ho⟩
  | exhausted => exact absurd rfl ho.1

/-- A scope with `fun f(g) { g(g); }` in it. -/
def selfCaller : Machine :=
  (Machine.new.newRoot.2).declare 0 "f" (.function ⟨0, ⟨"f", ["g"],
    [.expression (.call (.identifier "g" 1) [.identifier "g" 1] 1)]⟩, 0⟩)

theorem reachable_selfCaller {t : Scope} (h : selfCaller.heap.Reachable 0 t) : t = 0 := by
  induction h with
  | refl => rfl
  | parent _ hp ih =>
    subst ih
    cases hp
  | closure _ hf ih =>
    subst ih
    rcases List.mem_singleton.mp hf with ⟨⟩
    rfl

/-- `f(f);` comes to an end, though nothing in it says when. -/
theorem self_call_halts :
    let program : List Stmt := [.expression (.call (.identifier "f" 2) [.identifier "f" 2] 2)]
    (∀ stmt ∈ program, stmt.loopFree = true) ∧
      (∀ t name f, selfCaller.heap.Reachable 0 t → (name, .function f) ∈ selfCaller.heap.vars t →
        ∀ stmt ∈ f.function.body, stmt.loopFree = true) ∧
      ((∃ result m',
          Settles (runProgram (some maxDepth) · program 0 selfCaller) (.done result m')) ∨
        ∃ fault m',
          Settles (runProgram (some maxDepth) · program 0 selfCaller) (.failed fault m')) := by
  intro program
  have hprogram : ∀ stmt ∈ program, stmt.loopFree = true := by
    intro stmt hstmt
    rw [List.mem_singleton.mp hstmt]
    rfl
  have hfunctions : ∀ t name f, selfCaller.heap.Reachable 0 t →
      (name, .function f) ∈ selfCaller.heap.vars t →
      ∀ stmt ∈ f.function.body, stmt.loopFree = true := by
    intro t name f ht hf stmt hstmt
    rw [reachable_selfCaller ht] at hf
    rcases List.mem_singleton.mp hf with ⟨⟩
    rw [List.mem_singleton.mp hstmt]
    rfl
  exact ⟨hprogram, hfunctions,
    loop_free_programs_halt maxDepth program 0 selfCaller hprogram hfunctions⟩

end Lox
