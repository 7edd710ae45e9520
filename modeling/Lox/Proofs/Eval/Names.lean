import Lox.Proofs.Eval.Course
import Lox.Proofs.Parser.Soundness
import Lox.Proofs.Statement
import Lox.Source
import Mathlib.Data.List.Permutation

/-!
# Declarations stay in their scope

What a run binds, it binds in scopes of its own. Of the scopes that were there before, only the
one the program runs in gains names, and it gains those that the program declares at its top level
and no others (`Lox.bindings_never_leak`).

The scopes of blocks and calls are new when their statements begin, so declarations in them touch
no older scope, whatever function is called from wherever. An assignment changes a value and never
the names. What is left are the branches of conditions and the bodies of loops, which run in the
scope of the whole statement: one that is itself a declaration would bind its name there, and the
grammar has no such programs.
-/

namespace Lox

/-! ### Names -/

theorem Bindings.isSome_value?_iff (name : String) (vars : Bindings) :
    (value? name vars).isSome = true ↔ name ∈ vars.map Prod.fst := by
  induction vars with
  | nil => simp [value?]
  | cons b rest ih =>
    by_cases h : b.1 = name
    · simp [value?, h]
    · simp [value?, h, ih, Ne.symm h]

theorem Bindings.mem_names_insert (name other : String) (v : Value) (vars : Bindings) :
    other ∈ (insert name v vars).map Prod.fst ↔ other ∈ vars.map Prod.fst ∨ other = name := by
  rw [← isSome_value?_iff, ← isSome_value?_iff]
  by_cases h : other = name
  · subst h
    simp [value?_insert_self]
  · simp [value?_insert_of_ne h, h]

namespace Heap

/-- The names that a scope binds itself. -/
def names (h : Heap) (s : Scope) : List String := (h.vars s).map Prod.fst

/-- **A declaration binds its name in its scope**, if there is such a scope. -/
theorem mem_names_declare (h : Heap) (s t : Scope) (name other : String) (v : Value) :
    other ∈ (h.declare s name v).names t ↔
      other ∈ h.names t ∨ t = s ∧ t < h.frames.size ∧ other = name := by
  unfold names vars
  rw [getElem?_declare]
  by_cases hst : s = t
  · subst hst
    rw [if_pos rfl]
    cases hframe : h.frames[s]? with
    | none => simp [Nat.not_lt.mpr (Array.getElem?_eq_none_iff.mp hframe)]
    | some frame =>
      have hsize : s < h.frames.size := (Array.getElem?_eq_some_iff.mp hframe).1
      simp only [Option.map_some, hsize, true_and]
      exact Bindings.mem_names_insert name other v frame.vars
  · simp [hst, Ne.symm hst]

theorem names_push (h : Heap) (parent : Option Scope) {t : Scope} (ht : t < h.frames.size) :
    (h.push parent).2.names t = h.names t := by
  have hframe : (h.push parent).2.frames[t]? = h.frames[t]? := by
    change (h.frames.push _)[t]? = _
    rw [Array.getElem?_push, if_neg (Nat.ne_of_lt ht)]
  unfold names vars
  rw [hframe]

/-- **The owner of a name binds it**, so that assigning to it binds nothing new. -/
theorem mem_names_of_owner? {h : Heap} {s o : Scope} {name : String}
    (ho : h.owner? s name = some o) : name ∈ h.names o := by
  -- along the chain of scopes
  induction s using Nat.strongRecOn with
  | ind s ih =>
    rw [owner?] at ho
    split at ho
    · next hs =>
      cases ho
      exact (Bindings.isSome_value?_iff name _).mp hs
    · split at ho
      · cases ho
      · next p _ =>
        split at ho
        · next hp => exact ih p hp ho
        · cases ho

end Heap

/-! ### Scopes that keep their names -/

/-- **A machine keeps the names of some scopes**, of those that are there. -/
structure Machine.Spares (F : Scope → Prop) (m m' : Machine) : Prop where
  size_le : m.heap.frames.size ≤ m'.heap.frames.size
  names : ∀ t < m.heap.frames.size, F t → ∀ name,
    name ∈ m'.heap.names t ↔ name ∈ m.heap.names t

namespace Machine.Spares

variable {F G : Scope → Prop} {m m₁ m' : Machine}

theorem of_heap (h : m'.heap = m.heap) : m.Spares F m' := by
  refine ⟨Nat.le_of_eq (by rw [h]), fun t _ _ name => ?_⟩
  rw [h]

theorem trans (h : m.Spares F m₁) (h' : m₁.Spares F m') : m.Spares F m' where
  size_le := Nat.le_trans h.size_le h'.size_le
  names t ht hF name :=
    (h'.names t (Nat.lt_of_lt_of_le ht h.size_le) hF name).trans (h.names t ht hF name)

theorem mono (h : m.Spares F m') (hG : ∀ t, G t → F t) : m.Spares G m' where
  size_le := h.size_le
  names t ht hF := h.names t ht (hG t hF)

/-- What spares all but a new scope spares everything that was there before it. -/
theorem behind {s : Scope} (h : m.Spares F m₁) (hs : m.heap.frames.size ≤ s)
    (h' : m₁.Spares (· ≠ s) m') : m.Spares F m' where
  size_le := Nat.le_trans h.size_le h'.size_le
  names t ht hF name := by
    have hne : t ≠ s := Nat.ne_of_lt (Nat.lt_of_lt_of_le ht hs)
    exact (h'.names t (Nat.lt_of_lt_of_le ht h.size_le) hne name).trans (h.names t ht hF name)

theorem declare (s : Scope) (name : String) (v : Value) :
    m.Spares (· ≠ s) (m.declare s name v) where
  size_le := Nat.le_of_eq (m.heap.size_declare s name v).symm
  names t _ ht other := by
    have hdeclare := m.heap.mem_names_declare s t name other v
    rwa [or_iff_left fun h => ht h.1] at hdeclare

theorem newChild (parent : Scope) : m.Spares F (m.newChild parent).2 where
  size_le := by
    change _ ≤ (m.heap.frames.push _).size
    simp
  names t ht _ name := by
    change name ∈ (m.heap.push (some parent)).2.names t ↔ _
    rw [Heap.names_push _ _ ht]

theorem assign {s o : Scope} {name : String} {v : Value} (h : m.heap.owner? s name = some o) :
    m.Spares F (m.declare o name v) where
  size_le := Nat.le_of_eq (m.heap.size_declare o name v).symm
  names t _ _ other := by
    refine (m.heap.mem_names_declare o t name other v).trans (or_iff_left_of_imp ?_)
    rintro ⟨rfl, -, rfl⟩
    exact Heap.mem_names_of_owner? h

end Machine.Spares

theorem Outcome.Leaves.mono {α : Type} {o : Outcome α} {p q : Machine → Prop} (h : o.Leaves p)
    (hpq : ∀ m, p m → q m) : o.Leaves q := by
  cases o with
  | done a m => exact hpq m h
  | failed fault m => exact hpq m h
  | exhausted => trivial

/-- A computation that keeps the names of some scopes. -/
def Exec.Spares {α : Type} (F : Scope → Prop) (x : Exec α) : Prop :=
  ∀ m, (x m).Leaves (m.Spares F)

/-- A computation that makes a new scope and otherwise keeps all names. -/
def Exec.Opens (x : Exec Scope) : Prop :=
  ∀ m, ∃ s m', x m = .done s m' ∧ m.heap.frames.size ≤ s ∧ m.Spares (fun _ => True) m'

namespace Exec

variable {α β : Type} {F : Scope → Prop}

theorem spares_of_heap {x : Exec α} (hx : ∀ m, (x m).Leaves fun m' => m'.heap = m.heap) :
    x.Spares F := fun m => (hx m).mono fun _ => .of_heap

theorem spares_pure (a : α) : (pure a : Exec α).Spares F := spares_of_heap fun _ => rfl

theorem spares_exhausted : (exhausted : Exec α).Spares F := fun _ => trivial

theorem spares_raise (fault : RuntimeFault) (line : Nat) : (raise fault line : Exec α).Spares F :=
  spares_of_heap fun _ => rfl

theorem spares_read (f : Machine → α) : (read f).Spares F := spares_of_heap fun _ => rfl

theorem spares_note (e : Event) : (note e).Spares F := spares_of_heap fun _ => rfl

theorem spares_countStatement : countStatement.Spares F := spares_of_heap fun _ => rfl

theorem spares_makeClosure (function : Function) (scope : Scope) :
    (makeClosure function scope).Spares F := spares_of_heap fun _ => rfl

theorem Spares.bind {x : Exec α} {f : α → Exec β} (hx : x.Spares F) (hf : ∀ a, (f a).Spares F) :
    (x >>= f).Spares F := by
  intro m
  have h := hx m
  cases hxm : x m with
  | done a m' =>
    rw [hxm] at h
    rw [bind_of_done hxm]
    exact (hf a m').mono fun _ => h.trans
  | failed fault m' =>
    rw [hxm] at h
    rw [bind_of_failed hxm]
    exact h
  | exhausted =>
    rw [bind_of_exhausted hxm]
    trivial

theorem Spares.mono {x : Exec α} {G : Scope → Prop} (hx : x.Spares F) (hG : ∀ t, G t → F t) :
    x.Spares G := fun m => (hx m).mono fun _ h => h.mono hG

theorem Spares.nested {x : Exec α} (hx : x.Spares F) : (nested x).Spares F := by
  intro m
  have h := hx { m with depth := m.depth + 1 }
  unfold Exec.nested
  cases hxm : x { m with depth := m.depth + 1 } with
  | done a m' =>
    rw [hxm] at h
    exact ⟨h.size_le, h.names⟩
  | failed fault m' =>
    rw [hxm] at h
    exact ⟨h.size_le, h.names⟩
  | exhausted => trivial

/-- **In a new scope anything may be declared.** -/
theorem Opens.bind {x : Exec Scope} {f : Scope → Exec α} (hx : x.Opens)
    (hf : ∀ s, (f s).Spares (· ≠ s)) : (x >>= f).Spares F := by
  intro m
  obtain ⟨s, m₁, hm₁, hs, h⟩ := hx m
  rw [bind_of_done hm₁]
  exact (hf s m₁).mono fun _ h' => (h.behind hs h').mono fun _ _ => trivial

theorem spares_ofExcept (line : Nat) (r : Except RuntimeFault α) : (ofExcept line r).Spares F := by
  cases r with
  | error fault => exact spares_raise fault line
  | ok a => exact spares_pure a

theorem spares_assign (s : Scope) (name : String) (v : Value) (line : Nat) :
    (assign s name v line).Spares F := by
  intro m
  unfold assign
  split
  · next howner => exact .assign howner
  · exact .of_heap rfl

theorem opens_enterBlock (parent : Scope) : (enterBlock parent).Opens := by
  intro m
  have hnew : m.Spares (fun _ => True) (m.newChild parent).2 := .newChild parent
  exact ⟨m.heap.frames.size, _, rfl, Nat.le_refl _, hnew.size_le, hnew.names⟩

theorem declareAll_done (s : Scope) (bs : List (String × Value)) (m : Machine) :
    ∃ m', declareAll s bs m = .done () m' ∧ m.Spares (· ≠ s) m' := by
  induction bs generalizing m with
  | nil => exact ⟨m, rfl, .of_heap rfl⟩
  | cons b bs ih =>
    obtain ⟨m', hm', h⟩ := ih (m.declare s b.1 b.2)
    exact ⟨m', hm', .trans (.declare s b.1 b.2) h⟩

end Exec

/-! ### The walk -/

section Walk

variable {limit : Option Nat} {F : Scope → Prop}

theorem spares_evalAll {ev : Expr → Exec Value} (hev : ∀ e, (ev e).Spares F) (es : List Expr) :
    (evalAll ev es).Spares F := by
  induction es with
  | nil => exact Exec.spares_pure []
  | cons e es ih => exact (hev e).bind fun v => ih.bind fun vs => Exec.spares_pure (v :: vs)

theorem spares_runBody {run : Stmt → Exec Flow} (hrun : ∀ stmt, (run stmt).Spares F)
    (body : List Stmt) : (runBody run body).Spares F := by
  induction body with
  | nil => exact Exec.spares_pure _
  | cons stmt body ih =>
    refine (hrun stmt).bind fun flow => ?_
    cases flow with
    | normal v => exact ih
    | returned v => exact Exec.spares_pure _

theorem spares_runLoop {cond : Exec Value} {body : Exec Flow} (hcond : cond.Spares F)
    (hbody : body.Spares F) (rounds : Nat) : (runLoop cond body rounds).Spares F := by
  induction rounds with
  | zero => exact Exec.spares_exhausted
  | succ rounds ih =>
    refine hcond.bind fun v => ?_
    split
    · refine hbody.bind fun flow => ?_
      cases flow with
      | normal v => exact ih
      | returned v => exact Exec.spares_pure _
    · exact Exec.spares_pure _

theorem spares_callee (line : Nat) (v : Value) : (callee line v).Spares F := by
  cases v with
  | function f => exact Exec.spares_pure f
  | _ => exact Exec.spares_raise _ line

theorem spares_checkDepth (line : Nat) : (checkDepth limit line).Spares F := by
  refine Exec.spares_of_heap fun m => ?_
  unfold checkDepth
  split
  · rfl
  · split
    · rfl
    · rfl

/-- The parameters of a function are bound in the new scope of its call. -/
theorem opens_enterCall (f : Closure) (args : List Value) : (enterCall f args).Opens := by
  intro m
  obtain ⟨m', hm', h⟩ :=
    Exec.declareAll_done m.heap.frames.size (f.function.params.zip args) _
  refine ⟨m.heap.frames.size, m', Exec.bind_of_done hm', Nat.le_refl _, ?_⟩
  refine Machine.Spares.behind ?_ (Nat.le_refl _) h
  have hnew : m.Spares (fun _ => True) (m.newChild f.scope).2 := .newChild f.scope
  exact ⟨hnew.size_le, hnew.names⟩

theorem spares_invoke {run : Stmt → Scope → Exec Flow}
    (hrun : ∀ stmt s, (run stmt s).Spares (· ≠ s)) (f : Closure) (args : List Value)
    (line : Nat) : (invoke limit run f args line).Spares F := by
  unfold invoke
  split
  · refine (spares_checkDepth line).bind fun _ => (opens_enterCall f args).bind fun s => ?_
    refine (spares_runBody (fun stmt => hrun stmt s) _).nested.bind fun flow => ?_
    cases flow <;> exact Exec.spares_pure _
  · exact Exec.spares_raise _ line

/-- **Expressions bind nothing, and statements at most in the scope they run in**; not even
there, if they are quiet. -/
theorem spares_walk (n : Nat) : (∀ e s, (eval limit n e s).Spares fun _ => True) ∧
    ∀ stmt s, (exec limit n stmt s).Spares fun t => t = s → stmt.Quiet := by
  induction n with
  | zero =>
    exact ⟨fun e s => Exec.spares_exhausted, fun stmt s => Exec.spares_exhausted⟩
  | succ n ih =>
    obtain ⟨ihe, ihs⟩ := ih
    have ihe' (e : Expr) (s : Scope) {F : Scope → Prop} : (eval limit n e s).Spares F :=
      (ihe e s).mono fun _ _ => trivial
    have ihs' (stmt : Stmt) (s : Scope) : (exec limit n stmt s).Spares (· ≠ s) :=
      (ihs stmt s).mono fun _ hne heq => absurd heq hne
    constructor
    · intro e s
      cases e with
      | literal value => exact Exec.spares_pure _
      | identifier name line => exact Exec.spares_read _
      | grouping inner => exact ihe inner s
      | unary op operand line => exact (ihe operand s).bind fun v => Exec.spares_ofExcept line _
      | binary op left right line =>
        exact (ihe left s).bind fun l => (ihe right s).bind fun r => Exec.spares_ofExcept line _
      | logical op left right =>
        refine (ihe left s).bind fun l => ?_
        split
        · exact Exec.spares_pure l
        · exact ihe right s
      | assign name value line =>
        exact (ihe value s).bind fun v =>
          (Exec.spares_assign s name v line).bind fun _ => Exec.spares_pure _
      | call f args line =>
        rw [eval_call]
        exact (ihe f s).bind fun v => (spares_callee line v).bind fun c =>
          (spares_evalAll (fun arg => ihe arg s) args).bind fun vs => spares_invoke ihs' c vs line
    · intro stmt s
      refine Exec.spares_countStatement.bind fun _ => ?_
      cases stmt with
      | var name initial =>
        -- a declaration spares the other scopes, and it is not quiet
        have hdeclare (v : Value) : (Exec.declare s name v).Spares fun t =>
            t = s → (Stmt.var name initial).Quiet := fun m => by
          refine (Machine.Spares.declare s name v).mono fun t hquiet hts => ?_
          exact absurd (hquiet hts).1 (by simp [Stmt.declared?])
        cases initial with
        | none => exact (hdeclare .nil).bind fun _ => Exec.spares_pure _
        | some e => exact (ihe' e s).bind fun v => (hdeclare v).bind fun _ => Exec.spares_pure _
      | function name params body =>
        refine (Exec.spares_note _).bind fun _ => (Exec.spares_makeClosure _ s).bind fun c => ?_
        refine Exec.Spares.bind (fun m => ?_) fun _ => Exec.spares_pure _
        refine (Machine.Spares.declare s name (.function c)).mono fun t hquiet hts => ?_
        exact absurd (hquiet hts).1 (by simp [Stmt.declared?])
      | block body =>
        refine (Exec.spares_note _).bind fun _ => ?_
        exact (Exec.opens_enterBlock s).bind fun inner =>
          spares_runBody (fun stmt => ihs' stmt inner) body
      | branch cond yes no =>
        refine (ihe' cond s).bind fun v => ?_
        split
        · exact (ihs yes s).mono fun t hquiet hts => (hquiet hts).yes
        · cases no with
          | none => exact Exec.spares_pure _
          | some no => exact (ihs no s).mono fun t hquiet hts => (hquiet hts).no
      | loop cond body =>
        exact spares_runLoop (ihe' cond s)
          ((ihs body s).mono fun t hquiet hts => (hquiet hts).body) n
      | print e =>
        exact (ihe' e s).bind fun v => (Exec.spares_note _).bind fun _ => Exec.spares_pure _
      | ret value line =>
        refine (Exec.spares_read _).bind fun depth => ?_
        split
        · exact Exec.spares_raise _ line
        · cases value with
          | none => exact Exec.spares_pure _
          | some e => exact (ihe' e s).bind fun v => Exec.spares_pure _
      | expression e => exact (ihe' e s).bind fun v => Exec.spares_pure _

end Walk

/-! ### The scope of a program -/

/-- **A scope gains names**, and the other scopes keep theirs. -/
structure Machine.Gains (s : Scope) (names : List String) (m m' : Machine) : Prop where
  size_le : m.heap.frames.size ≤ m'.heap.frames.size
  own : ∀ name, name ∈ m'.heap.names s ↔ name ∈ m.heap.names s ∨ name ∈ names
  others : ∀ t < m.heap.frames.size, t ≠ s → ∀ name,
    name ∈ m'.heap.names t ↔ name ∈ m.heap.names t

namespace Machine

variable {s : Scope} {m m₁ m' : Machine}

theorem Spares.gains (h : m.Spares (fun _ => True) m') (hs : s < m.heap.frames.size) :
    m.Gains s [] m' where
  size_le := h.size_le
  own name := by simp [h.names s hs trivial name]
  others t ht _ := h.names t ht trivial

theorem Gains.declare (name : String) (v : Value) (hs : s < m.heap.frames.size) :
    m.Gains s [name] (m.declare s name v) where
  size_le := Nat.le_of_eq (m.heap.size_declare s name v).symm
  own other := by
    refine (m.heap.mem_names_declare s s name other v).trans ?_
    simp [hs]
  others t ht hne := (Spares.declare s name v).names t ht hne

theorem Gains.trans {names names' : List String} (h : m.Gains s names m₁)
    (h' : m₁.Gains s names' m') : m.Gains s (names ++ names') m' where
  size_le := Nat.le_trans h.size_le h'.size_le
  own name := by rw [h'.own, h.own, List.mem_append, or_assoc]
  others t ht hne name :=
    (h'.others t (Nat.lt_of_lt_of_le ht h.size_le) hne name).trans (h.others t ht hne name)

end Machine

/-- A computation by which a scope gains names if it is done, and none if it fails. -/
def Exec.Gains {α : Type} (s : Scope) (names : List String) (x : Exec α) : Prop :=
  ∀ m, s < m.heap.frames.size → match x m with
    | .done _ m' => m.Gains s names m'
    | .failed _ m' => m.Gains s [] m'
    | .exhausted => True

namespace Exec

variable {α β : Type} {s : Scope} {names : List String}

theorem Spares.gains {x : Exec α} (hx : x.Spares fun _ => True) : x.Gains s [] := by
  intro m hs
  have h := hx m
  cases hxm : x m with
  | done a m' =>
    rw [hxm] at h
    exact Machine.Spares.gains h hs
  | failed fault m' =>
    rw [hxm] at h
    exact Machine.Spares.gains h hs
  | exhausted => trivial

theorem Spares.bind_gains {x : Exec α} {f : α → Exec β} (hx : x.Spares fun _ => True)
    (hf : ∀ a, (f a).Gains s names) : (x >>= f).Gains s names := by
  intro m hs
  have h := hx m
  cases hxm : x m with
  | done a m₁ =>
    rw [hxm] at h
    have h' := hf a m₁ (Nat.lt_of_lt_of_le hs h.size_le)
    rw [bind_of_done hxm]
    cases hfm : f a m₁ with
    | done b m' =>
      rw [hfm] at h'
      exact (h.gains hs).trans h'
    | failed fault m' =>
      rw [hfm] at h'
      exact (h.gains hs).trans h'
    | exhausted => trivial
  | failed fault m' =>
    rw [hxm] at h
    rw [bind_of_failed hxm]
    exact h.gains hs
  | exhausted =>
    rw [bind_of_exhausted hxm]
    trivial

theorem gains_declare (name : String) (v : Value) (a : α) :
    (declare s name v >>= fun _ => pure a).Gains s [name] :=
  fun _ hs => Machine.Gains.declare name v hs

end Exec

section Programs

variable {limit : Option Nat} {s : Scope} {m m' : Machine}

theorem spares_eval (n : Nat) (e : Expr) (s : Scope) :
    (eval limit n e s).Spares fun _ => True := (spares_walk n).1 e s

/-- A quiet statement keeps all names. -/
theorem Stmt.Quiet.spares {stmt : Stmt} (h : stmt.Quiet) (n : Nat) (s : Scope) :
    (exec limit n stmt s).Spares fun _ => True :=
  ((spares_walk n).2 stmt s).mono fun _ _ _ => h

/-- **The scope of a statement gains the name that the statement declares**, at its very end. -/
theorem gains_exec {stmt : Stmt} (h : stmt.branchesPlain = true) (n : Nat) (s : Scope) :
    (exec limit n stmt s).Gains s stmt.declared?.toList := by
  cases n with
  | zero => exact fun _ _ => trivial
  | succ n =>
    cases stmt with
    | var name initial =>
      refine Exec.spares_countStatement.bind_gains fun _ => ?_
      cases initial with
      | none => exact Exec.gains_declare name .nil _
      | some e => exact (spares_eval n e s).bind_gains fun v => Exec.gains_declare name v _
    | function name params body =>
      refine Exec.spares_countStatement.bind_gains fun _ =>
        (Exec.spares_note _).bind_gains fun _ => ?_
      exact (Exec.spares_makeClosure _ s).bind_gains fun c =>
        Exec.gains_declare name (.function c) _
    | _ => exact (Stmt.Quiet.spares ⟨rfl, h⟩ (n + 1) s).gains

/-- The names that a program declares at its top level. -/
def declaredNames (program : List Stmt) : List String := program.filterMap Stmt.declared?

theorem declaredNames_cons (stmt : Stmt) (program : List Stmt) :
    declaredNames (stmt :: program) = stmt.declared?.toList ++ declaredNames program := by
  unfold declaredNames
  cases h : stmt.declared? <;> simp [h]

theorem gains_runStatements (n : Nat) (program : List Stmt)
    (hplain : ∀ stmt ∈ program, stmt.branchesPlain = true) (last v : Option Value)
    (hs : s < m.heap.frames.size) (h : runStatements limit n s last program m = .done v m') :
    m.Gains s (declaredNames program) m' := by
  induction program generalizing m last with
  | nil =>
    cases h
    exact (Machine.Spares.of_heap rfl).gains hs
  | cons stmt program ih =>
    obtain ⟨hstmt, hprogram⟩ := List.forall_mem_cons.mp hplain
    have hgains := @gains_exec limit _ hstmt n s m hs
    rw [declaredNames_cons]
    cases hexec : exec limit n stmt s m with
    | done flow m₁ =>
      rw [hexec] at hgains
      rw [runStatements, Exec.bind_of_done hexec] at h
      cases flow with
      | normal w => exact hgains.trans (ih hprogram _ (Nat.lt_of_lt_of_le hs hgains.size_le) h)
      | returned w => cases h
    | failed fault m₁ =>
      rw [runStatements, Exec.bind_of_failed hexec] at h
      cases h
    | exhausted =>
      rw [runStatements, Exec.bind_of_exhausted hexec] at h
      cases h

/-- **A run that fails fails at one of the statements**, and those before it are done. -/
theorem exists_failed_statement (n : Nat) (program : List Stmt) (last : Option Value)
    {fault : Located RuntimeFault} (hdepth : m.depth = 0)
    (h : runStatements limit n s last program m = .failed fault m') :
    ∃ k stmt v m₁, program[k]? = some stmt ∧
      runStatements limit n s last (program.take k) m = .done v m₁ ∧
      exec limit n stmt s m₁ = .failed fault m' := by
  induction program generalizing m last with
  | nil => cases h
  | cons stmt program ih =>
    obtain hfailed | ⟨flow, m₁, hdone, hrest⟩ := Exec.failed_of_bind h
    · exact ⟨0, stmt, last, m, rfl, rfl, hfailed⟩
    · cases flow with
      | normal w =>
        have hleaves := @proceeds_exec limit n stmt s m
        rw [hdone] at hleaves
        obtain ⟨k, stmt', v, m₂, hk, hbefore, hstmt⟩ :=
          ih (stmt.shown w) (hleaves.depth_eq.trans hdepth) hrest
        refine ⟨k + 1, stmt', v, m₂, hk, ?_, hstmt⟩
        exact (Exec.bind_of_done hdone).trans hbefore
      -- no call is active, so nothing comes back from one
      | returned w => exact absurd hdepth (Unwind.returnsInCall_exec n stmt s m m₁ w hdone)

end Programs

/-! ### What the grammar allows -/

namespace Grammar

theorem Simple.quiet {ts : List Token} {s : Stmt} (h : Simple ts s) : s.Quiet := by
  cases h
  exact ⟨rfl, rfl⟩

theorem Variable.branchesPlain {ts : List Token} {s : Stmt} (h : Variable ts s) :
    s.branchesPlain = true := by
  cases h
  rfl

theorem Initializer.branchesPlainAll {ts : List Token} {s : Option Stmt} (h : Initializer ts s)
    (rest : List Stmt) :
    Stmt.branchesPlainAll (s.toList ++ rest) = Stmt.branchesPlainAll rest := by
  cases h with
  | none => rfl
  | var h => simp [Stmt.branchesPlainAll, h.branchesPlain]
  | simple h => simp [Stmt.branchesPlainAll, h.quiet.2]

mutual

theorem Declaration.branchesPlain : ∀ {ts : List Token} {s : Stmt}, Declaration ts s →
    s.branchesPlain = true
  | _, _, .function _ _ _ _ _ _ _ hbody _ => branchesPlain_program hbody
  | _, _, .var h => h.branchesPlain
  | _, _, .statement h => h.quiet.2

theorem Statement.quiet : ∀ {ending : Ending} {ts : List Token} {s : Stmt},
    Statement ending ts s → s.Quiet
  | _, _, _, .simple h => h.quiet
  | _, _, _, .print _ _ _ => ⟨rfl, rfl⟩
  | _, _, _, .ret _ _ _ => ⟨rfl, rfl⟩
  | _, _, _, .block _ hbody _ => ⟨rfl, branchesPlain_program hbody⟩
  | _, _, _, .branch _ _ _ _ h => ⟨rfl, (Stmt.quiet_iff _).mp h.quiet⟩
  | _, _, _, .branchElse _ _ _ _ h _ h' =>
    ⟨rfl, Bool.and_eq_true_iff.mpr ⟨(Stmt.quiet_iff _).mp h.quiet, (Stmt.quiet_iff _).mp h'.quiet⟩⟩
  | _, _, _, .loop _ _ _ _ h => ⟨rfl, (Stmt.quiet_iff _).mp h.quiet⟩
  | _, _, _, .forLoop _ _ hinit _ _ hinc _ h => by
    refine ⟨rfl, (hinit.branchesPlainAll _).trans ?_⟩
    -- the body of the loop is a block, and the increment in it an expression
    have hbody := h.quiet.2
    cases hinc with
    | absent => simp [Stmt.branchesPlainAll, Stmt.branchesPlain, Stmt.declared?, hbody]
    | present => simp [Stmt.branchesPlainAll, Stmt.branchesPlain, Stmt.declared?, hbody]

/-- **No branch of a condition and no body of a loop is a declaration.** -/
theorem branchesPlain_program : ∀ {ts : List Token} {p : List Stmt}, Sequence Declaration ts p →
    Stmt.branchesPlainAll p = true
  | _, _, .nil => rfl
  | _, _, .cons h hs => Bool.and_eq_true_iff.mpr ⟨h.branchesPlain, branchesPlain_program hs⟩

end

end Grammar

theorem Stmt.branchesPlainAll_iff (program : List Stmt) :
    Stmt.branchesPlainAll program = true ↔ ∀ stmt ∈ program, stmt.branchesPlain = true := by
  induction program with
  | nil => simp [Stmt.branchesPlainAll]
  | cons stmt program ih => rw [Stmt.branchesPlainAll, Bool.and_eq_true, ih, List.forall_mem_cons]

/-- **What is declared stays in its scope.** Of the scopes that are there, a program that runs to
its end adds to its own the names that it declares at its top level, and nothing to the others. If
it fails, then at one of its statements, and it has added the names of the statements before that
one. An expression adds nothing anywhere, whatever it calls and however it ends.

Branches that are themselves declarations would be an exception, and no text contains them. -/
theorem bindings_never_leak (limit : Option Nat) (fuel : Nat) (s : Scope) (m : Machine)
    (hs : s < m.heap.frames.size) :
    (∀ program : List Stmt, (∀ stmt ∈ program, stmt.branchesPlain = true) →
      (∀ v m', runProgram limit fuel program s m = .done v m' →
        m.Gains s (declaredNames program) m') ∧
      ∀ fault m', runProgram limit fuel program s m = .failed fault m' →
        ∃ k stmt v m₁, program[k]? = some stmt ∧
          runProgram limit fuel (program.take k) s m = .done v m₁ ∧
          exec limit fuel stmt s m₁ = .failed fault m' ∧
          m.Gains s (declaredNames (program.take k)) m') ∧
    (∀ e, (eval limit fuel e s m).Leaves (m.Spares fun _ => True)) ∧
    ∀ tokens program, parse tokens = .ok program → ∀ stmt ∈ program, stmt.branchesPlain = true := by
  refine ⟨fun program hplain => ⟨fun v m' h => ?_, fun fault m' h => ?_⟩, fun e => ?_,
    fun tokens program h => ?_⟩
  · have hgains := gains_runStatements (m := { m with depth := 0 }) fuel program hplain none v hs h
    exact ⟨hgains.size_le, hgains.own, hgains.others⟩
  · obtain ⟨k, stmt, v, m₁, hk, hbefore, hstmt⟩ :=
      exists_failed_statement (m := { m with depth := 0 }) fuel program none rfl h
    have hearlier (stmt) (hmem : stmt ∈ program.take k) := hplain stmt (List.mem_of_mem_take hmem)
    have hgains :=
      gains_runStatements (m := { m with depth := 0 }) fuel _ hearlier none v hs hbefore
    -- the statement that fails adds no name, not even its own
    have hlast := @gains_exec limit _ (hplain stmt (List.mem_of_getElem? hk)) fuel s m₁
      (Nat.lt_of_lt_of_le hs hgains.size_le)
    rw [hstmt] at hlast
    have hall := hgains.trans hlast
    rw [List.append_nil] at hall
    exact ⟨k, stmt, v, m₁, hk, hbefore, hstmt, hall.size_le, hall.own, hall.others⟩
  · exact spares_eval fuel e s m
  · exact (Stmt.branchesPlainAll_iff program).mp
      (Grammar.branchesPlain_program (program_of_parse h))

/-- How a computation has failed, if it has. -/
def Outcome.failure? {α : Type} : Outcome α → Option (Located RuntimeFault × Machine)
  | .failed fault m => some (fault, m)
  | _ => none

theorem Outcome.eq_failed_of_failure? {α : Type} {o : Outcome α} {fault : Located RuntimeFault}
    {m : Machine} (h : o.failure? = some (fault, m)) : o = .failed fault m := by
  cases o <;> cases h
  rfl

/-- Declarations at the top level, in a block, in a function that is called and in a loop, and
between them a negation that fails. -/
def declarationsEverywhere : List Stmt :=
  [.var "a" (some (.literal (.bool true))),
    .block [.var "b" none],
    .function "f" ["x"] [.var "c" (some (.identifier "x" 3))],
    .loop (.identifier "a" 4) (.block [.var "d" none,
      .expression (.assign "a" (.call (.identifier "f" 5) [.literal .nil] 5) 5)]),
    .expression (.unary .negate (.literal .nil) 6),
    .var "e" none]

/-- The negation fails, and by then two names are bound: none from the block, the call or the
loop, and not the one that was to be declared after it. -/
theorem declarations_before_failure :
    ∃ fault m', runProgram (some maxDepth) 9 declarationsEverywhere 0 Machine.new.newRoot.2 =
        .failed fault m' ∧ m'.heap.names 0 = ["a", "f"] ∧
      ∃ k stmt v m₁, declarationsEverywhere[k]? = some stmt ∧
        runProgram (some maxDepth) 9 (declarationsEverywhere.take k) 0 Machine.new.newRoot.2 =
          .done v m₁ ∧
        exec (some maxDepth) 9 stmt 0 m₁ = .failed fault m' ∧
        Machine.new.newRoot.2.Gains 0 (declaredNames (declarationsEverywhere.take k)) m' := by
  have hplain : ∀ stmt ∈ declarationsEverywhere, stmt.branchesPlain = true := by
    simp [declarationsEverywhere, Stmt.branchesPlain, Stmt.branchesPlainAll, Stmt.declared?]
  have hnames : (runProgram (some maxDepth) 9 declarationsEverywhere 0
      Machine.new.newRoot.2).failure?.map (fun r => r.2.heap.names 0) = some ["a", "f"] := by
    cbv
  obtain ⟨⟨fault, m'⟩, hfailure, hnames⟩ := Option.map_eq_some_iff.mp hnames
  have hrun := Outcome.eq_failed_of_failure? hfailure
  have hleak := bindings_never_leak (some maxDepth) 9 0 Machine.new.newRoot.2 (by decide)
  exact ⟨fault, m', hrun, hnames, (hleak.1 declarationsEverywhere hplain).2 fault m' hrun⟩

end Lox
