import Lox.Proofs.Eval.Names
import Lox.Proofs.Eval.Past
import Lox.Proofs.Eval.Territory
import Mathlib.Logic.Relation

/-!
# Clients

Whoever uses a machine holds scopes and values of it and does one thing after the other with them:
makes scopes, binds names, runs programs, evaluates expressions, and keeps what comes out, whether
or not it fails. `Lox.Client.Step` says what can be done, and `Lox.Client.Reached` what can come of
it.

However a machine is used, its frames stay in order (`Lox.frames_stay_wellFormed`). Function values
make the heap cyclic, since a frame holds functions whose scope it is. But the parent of a frame is
older than the frame, and nothing changes it, so that the walk from a scope to the scopes around it
comes to an end without any bound on it (`Lox.Heap.Finds`).
-/

namespace Lox

/-! ### Walking up a heap -/

namespace Heap

variable {h : Heap}

/-- The scopes from one up to a root, each the parent of the one before. -/
inductive Chain (h : Heap) : Scope → List Scope → Prop
  | root {s : Scope} : s < h.frames.size → h.parent? s = none → Chain h s [s]
  | parent {s p : Scope} {chain : List Scope} : h.parent? s = some p → Chain h p chain →
      Chain h s (s :: chain)

/-- **The walk that looks for a name**, from a scope up: it goes on for as long as neither the name
nor a root is found, and there is nothing else that stops it. -/
inductive Finds (h : Heap) (name : String) : Scope → Option Scope → Prop
  | here {s : Scope} : (Bindings.value? name (h.vars s)).isSome → Finds h name s (some s)
  | nowhere {s : Scope} : ¬(Bindings.value? name (h.vars s)).isSome → h.parent? s = none →
      Finds h name s none
  | outside {s p : Scope} {owner : Option Scope} : ¬(Bindings.value? name (h.vars s)).isSome →
      h.parent? s = some p → Finds h name p owner → Finds h name s owner

theorem exists_chain (hparent : ∀ {s p}, h.parent? s = some p → p < s) {s : Scope}
    (hs : s < h.frames.size) : ∃ chain, h.Chain s chain := by
  induction s using Nat.strongRecOn with
  | ind s ih =>
    cases hp : h.parent? s with
    | none => exact ⟨[s], .root hs hp⟩
    | some p =>
      have hlt := hparent hp
      obtain ⟨chain, hchain⟩ := ih p hlt (hlt.trans hs)
      exact ⟨s :: chain, .parent hp hchain⟩

/-- **The walk ends**, with the scope that `Heap.owner?` says. -/
theorem finds_owner? (hparent : ∀ {s p}, h.parent? s = some p → p < s) (name : String) (s : Scope) :
    h.Finds name s (h.owner? s name) := by
  induction s using Nat.strongRecOn with
  | ind s ih =>
    rw [owner?]
    by_cases hbound : (Bindings.value? name (h.vars s)).isSome
    · rw [if_pos hbound]
      exact .here hbound
    · rw [if_neg hbound]
      cases hp : h.parent? s with
      | none => exact .nowhere hbound hp
      | some p =>
        dsimp only
        rw [if_pos (hparent hp)]
        exact .outside hbound hp (ih p (hparent hp))

/-- **A heap grows into another**: there may be more frames, and in a frame more names. -/
structure Grows (h h' : Heap) : Prop where
  size_le : h.frames.size ≤ h'.frames.size
  parent : ∀ s < h.frames.size, h'.parent? s = h.parent? s
  names : ∀ s < h.frames.size, ∀ name ∈ h.names s, name ∈ h'.names s

namespace Grows

theorem refl (h : Heap) : h.Grows h := ⟨le_rfl, fun _ _ => rfl, fun _ _ _ => id⟩

theorem trans {h₁ h₂ h₃ : Heap} (h : h₁.Grows h₂) (h' : h₂.Grows h₃) : h₁.Grows h₃ where
  size_le := h.size_le.trans h'.size_le
  parent s hs := (h'.parent s (hs.trans_le h.size_le)).trans (h.parent s hs)
  names s hs name hname := h'.names s (hs.trans_le h.size_le) name (h.names s hs name hname)

theorem push (h : Heap) (parent : Option Scope) : h.Grows (h.push parent).2 where
  size_le := by
    rw [size_push]
    exact Nat.le_succ _
  parent s hs := by rw [parent?_push, if_neg (Nat.ne_of_lt hs)]
  names s hs name hname := by
    rw [names_push h parent hs]
    exact hname

theorem declare (h : Heap) (s : Scope) (name : String) (v : Value) :
    h.Grows (h.declare s name v) where
  size_le := (h.size_declare s name v).ge
  parent t _ := h.parent?_declare s t name v
  names t _ other hother := (h.mem_names_declare s t name other v).mpr (.inl hother)

end Grows

end Heap

/-- **A run only adds to the heap.** -/
theorem Reaches.grows {m m' : Machine} (h : Reaches m m') : m.heap.Grows m'.heap := by
  induction h with
  | refl | note | statement | call | closure => exact .refl _
  | trans _ _ ih₁ ih₂ => exact ih₁.trans ih₂
  | scope m parent => exact .push m.heap (some parent)
  | declare m s name v => exact .declare m.heap s name v
  | body _ ih => exact ih

theorem Machine.exists_owner_of_assign {m m' : Machine} {s : Scope} {name : String} {v : Value}
    (h : m.assign s name v = .ok m') :
    ∃ o, m.heap.owner? s name = some o ∧ m' = m.declare o name v := by
  unfold Machine.assign Heap.assign? at h
  cases howner : m.heap.owner? s name with
  | none =>
    rw [howner] at h
    cases h
  | some o =>
    rw [howner] at h
    cases h
    exact ⟨o, rfl, rfl⟩

/-! ### Machines in order -/

/-- **A machine is in order**: the parent of a frame is older than the frame, and function values in
frames and among those printed have scopes that exist. -/
structure Machine.WellFormed (m : Machine) : Prop where
  parent_lt : ∀ {s p}, m.heap.parent? s = some p → p < s ∧ s < m.heap.frames.size
  scope_lt : ∀ {s name f}, (name, .function f) ∈ m.heap.vars s → f.scope < m.heap.frames.size
  printed_lt : ∀ {f}, .function f ∈ m.output → f.scope < m.heap.frames.size

/-- All that exists. -/
def Territory.everything : Territory where
  code _ := True
  has n t := t < n
  start := 0
  printed := 0
  code_part _ _ := trivial
  has_mono hn h := h.trans_le hn
  has_of_lt h _ := h
  has_new _ := Nat.lt_add_one _

theorem Territory.admits_everything {n : Nat} {v : Value} :
    Territory.everything.admits n v ↔ ∀ f, v = .function f → f.scope < n :=
  ⟨fun h f hf => (h f hf).1, fun h f hf => ⟨h f hf, fun _ _ => trivial⟩⟩

/-- A machine is in order if nothing in it leads out of what exists. -/
theorem Territory.Confines.wellFormed {m : Machine} (h : Territory.everything.Confines m) :
    m.WellFormed where
  parent_lt hp :=
    have hlt := Heap.lt_size_of_parent? hp
    ⟨h.parent hlt hp, hlt⟩
  scope_lt hb := (h.vars (Heap.lt_size_of_mem_vars hb) hb _ rfl).1
  printed_lt hf := (h.output _ hf _ rfl).1

/-! ### What a client does -/

/-- **A client**: a machine, and the scopes and values of it that somebody holds. -/
structure Client where
  /-- The machine. -/
  machine : Machine
  /-- The scopes. -/
  scopes : List Scope
  /-- The values. -/
  values : List Value

namespace Client

/-- A client that has done nothing. -/
def new : Client := ⟨.new, [], []⟩

/-- **The values that a client can get at** as things are. -/
inductive Sees (c : Client) : Value → Prop
  | literal (l : Literal) : Sees c (.ofLiteral l)
  | lookup {s : Scope} (name : String) : s ∈ c.scopes → Sees c (c.machine.heap.lookup s name)
  | binding {s : Scope} {name : String} {v : Value} : s ∈ c.scopes →
      (name, v) ∈ c.machine.heap.vars s → Sees c v
  | printed {v : Value} : v ∈ c.machine.output → Sees c v

/-- **What a client can do.** -/
inductive Step (c : Client) : Client → Prop
  | newRoot : Step c ⟨c.machine.newRoot.2, c.machine.newRoot.1 :: c.scopes, c.values⟩
  | newChild {s : Scope} : s ∈ c.scopes →
      Step c ⟨(c.machine.newChild s).2, (c.machine.newChild s).1 :: c.scopes, c.values⟩
  | declare {s : Scope} {v : Value} (name : String) : s ∈ c.scopes → v ∈ c.values →
      Step c { c with machine := c.machine.declare s name v }
  | assign {s : Scope} {v : Value} {name : String} {m : Machine} : s ∈ c.scopes → v ∈ c.values →
      c.machine.assign s name v = .ok m → Step c { c with machine := m }
  /-- There is nothing to assign to. -/
  | assignFailed {s : Scope} {v : Value} {name : String} {fault : RuntimeFault} : s ∈ c.scopes →
      v ∈ c.values → c.machine.assign s name v = .error fault → Step c c
  | read {v : Value} : c.Sees v → Step c { c with values := v :: c.values }
  /-- The scope of a function is part of it. -/
  | scopeOf {f : Closure} : .function f ∈ c.values → Step c { c with scopes := f.scope :: c.scopes }
  /-- A function value can be put together by hand. -/
  | makeFunction {s : Scope} (f : Function) : s ∈ c.scopes →
      Step c ⟨{ c.machine with made := c.machine.made + 1 }, c.scopes,
        .function ⟨c.machine.made, f, s⟩ :: c.values⟩
  | run {fuel : Nat} {program : List Stmt} {s : Scope} {result : Option Value} {m : Machine} :
      s ∈ c.scopes → runProgram (some maxDepth) fuel program s c.machine = .done result m →
      Step c ⟨m, c.scopes, result.toList ++ c.values⟩
  | runFailed {fuel : Nat} {program : List Stmt} {s : Scope} {fault : Located RuntimeFault}
      {m : Machine} : s ∈ c.scopes →
      runProgram (some maxDepth) fuel program s c.machine = .failed fault m →
      Step c { c with machine := m }
  /-- A program is run in a new scope that nobody keeps. -/
  | runFresh {fuel : Nat} {program : List Stmt} {result : Option Value} {m : Machine} :
      runProgram (some maxDepth) fuel program c.machine.newRoot.1 c.machine.newRoot.2 =
        .done result m → Step c { c with machine := m }
  | runFreshFailed {fuel : Nat} {program : List Stmt} {fault : Located RuntimeFault} {m : Machine} :
      runProgram (some maxDepth) fuel program c.machine.newRoot.1 c.machine.newRoot.2 =
        .failed fault m → Step c { c with machine := m }
  | eval {fuel : Nat} {e : Expr} {s : Scope} {v : Value} {m : Machine} : s ∈ c.scopes →
      Lox.eval (some maxDepth) fuel e s c.machine = .done v m → Step c ⟨m, c.scopes, v :: c.values⟩
  | evalFailed {fuel : Nat} {e : Expr} {s : Scope} {fault : Located RuntimeFault} {m : Machine} :
      s ∈ c.scopes → Lox.eval (some maxDepth) fuel e s c.machine = .failed fault m →
      Step c { c with machine := m }
  /-- Reading a text leaves events, none of which prints anything. -/
  | note {e : Event} : e.printed? = none → Step c { c with machine := c.machine.note e }
  | resetStats : Step c { c with machine := { c.machine with stats := .zero } }
  /-- The scopes are handed to an interpreter that has done nothing yet. -/
  | restart : Step c { c with machine := c.machine.restarted }

/-- **The clients that there can be**: those that begin with nothing. -/
def Reached (c : Client) : Prop := Relation.ReflTransGen Step new c

/-! ### What a step keeps -/

/-- **A client holds nothing but what exists.** -/
structure Sound (c : Client) : Prop where
  machine : Territory.everything.Confines c.machine
  scopes : ∀ s ∈ c.scopes, s < c.machine.heap.frames.size
  values : ∀ v ∈ c.values, Territory.everything.admits c.machine.heap.frames.size v

namespace Sound

variable {c c' : Client} {m : Machine} {s : Scope} {v : Value}

theorem new : Client.new.Sound where
  machine := by
    refine ⟨Nat.zero_le _, ?_, ?_, ?_⟩
    · intro t p ht
      cases ht
    · intro t b ht
      cases ht
    · intro v hv
      cases hv
  scopes _ h := nomatch h
  values _ h := nomatch h

/-- What exists still exists on a machine with more frames. -/
theorem onMachine (hc : c.Sound) (hm : Territory.everything.Confines m)
    (hle : c.machine.heap.frames.size ≤ m.heap.frames.size) : Sound { c with machine := m } where
  machine := hm
  scopes s hs := (hc.scopes s hs).trans_le hle
  values v hv := Territory.admits_mono hle (hc.values v hv)

theorem withScope (hc : c.Sound) (hs : s < c.machine.heap.frames.size) :
    Sound { c with scopes := s :: c.scopes } where
  machine := hc.machine
  scopes := List.forall_mem_cons.mpr ⟨hs, hc.scopes⟩
  values := hc.values

theorem withValue (hc : c.Sound) (hv : Territory.everything.admits c.machine.heap.frames.size v) :
    Sound { c with values := v :: c.values } where
  machine := hc.machine
  scopes := hc.scopes
  values := List.forall_mem_cons.mpr ⟨hv, hc.values⟩

/-- A new scope exists, and so does the one around it. -/
theorem push (hc : c.Sound) {parent : Option Scope}
    (hparent : ∀ p, parent = some p → p < c.machine.heap.frames.size) :
    Sound ⟨{ c.machine with heap := (c.machine.heap.push parent).2 },
      (c.machine.heap.push parent).1 :: c.scopes, c.values⟩ := by
  refine (hc.onMachine (hc.machine.push hparent) (Heap.Grows.push _ parent).size_le).withScope ?_
  change c.machine.heap.frames.size < (c.machine.heap.push parent).2.frames.size
  rw [Heap.size_push]
  exact Nat.lt_add_one _

theorem newRoot (hc : c.Sound) :
    Sound ⟨c.machine.newRoot.2, c.machine.newRoot.1 :: c.scopes, c.values⟩ :=
  hc.push fun _ hp => nomatch hp

theorem sees (hc : c.Sound) (hv : c.Sees v) :
    Territory.everything.admits c.machine.heap.frames.size v := by
  cases hv with
  | literal l =>
    intro f hf
    cases l <;> cases hf
  | lookup name hs => exact hc.machine.admits_lookup (hc.scopes _ hs) name
  | binding hs hv => exact hc.machine.vars (hc.scopes _ hs) hv
  | printed hv => exact hc.machine.output v hv

/-- A program keeps a client sound, however it ends, and shows a value that exists. -/
theorem of_runProgram (hc : c.Sound) (hs : s ∈ c.scopes) (fuel : Nat) (program : List Stmt) :
    match runProgram (some maxDepth) fuel program s c.machine with
    | .done result m => Sound ⟨m, c.scopes, result.toList ++ c.values⟩
    | .failed _ m => Sound { c with machine := m }
    | .exhausted => True := by
  have hstays := Territory.stays_runProgram hc.machine (hc.scopes s hs) (some maxDepth) fuel program
    fun _ _ => trivial
  cases hrun : runProgram (some maxDepth) fuel program s c.machine with
  | done result m =>
    rw [hrun] at hstays
    obtain ⟨hle, hm, hresult⟩ := hstays
    cases result with
    | none => exact hc.onMachine hm hle
    | some v => exact (hc.onMachine hm hle).withValue (hresult v rfl)
  | failed fault m =>
    rw [hrun] at hstays
    exact hc.onMachine hstays.2 hstays.1
  | exhausted => trivial

/-- An expression keeps a client sound, however it ends, and has a value that exists. -/
theorem of_eval (hc : c.Sound) (hs : s ∈ c.scopes) (fuel : Nat) (e : Expr) :
    match eval (some maxDepth) fuel e s c.machine with
    | .done v m => Sound ⟨m, c.scopes, v :: c.values⟩
    | .failed _ m => Sound { c with machine := m }
    | .exhausted => True := by
  have hstays := Territory.stays_eval hc.machine (hc.scopes s hs) (some maxDepth) fuel e
  cases heval : Lox.eval (some maxDepth) fuel e s c.machine with
  | done v m =>
    rw [heval] at hstays
    obtain ⟨hle, hm, hv⟩ := hstays
    exact (hc.onMachine hm hle).withValue hv
  | failed fault m =>
    rw [heval] at hstays
    exact hc.onMachine hstays.2 hstays.1
  | exhausted => trivial

/-- Nothing is lost by holding less. -/
theorem forget {ss ss' : List Scope} {vs vs' : List Value} (hc : Sound ⟨m, ss, vs⟩)
    (hss : ss' ⊆ ss) (hvs : vs' ⊆ vs) : Sound ⟨m, ss', vs'⟩ where
  machine := hc.machine
  scopes s hs := hc.scopes s (hss hs)
  values v hv := hc.values v (hvs hv)

/-- **Whatever a client does, it holds nothing but what exists.** -/
theorem step (hc : c.Sound) (h : c.Step c') : c'.Sound := by
  cases h with
  | newRoot => exact hc.newRoot
  | newChild hs =>
    refine hc.push ?_
    rintro p ⟨⟩
    exact hc.scopes _ hs
  | declare name hs hv =>
    exact hc.onMachine (hc.machine.declare (hc.values _ hv) _ name) (Heap.size_declare ..).ge
  | assign hs hv hm =>
    obtain ⟨o, -, rfl⟩ := Machine.exists_owner_of_assign hm
    exact hc.onMachine (hc.machine.declare (hc.values _ hv) o _) (Heap.size_declare ..).ge
  | assignFailed => exact hc
  | read hv => exact hc.withValue (hc.sees hv)
  | scopeOf hf => exact hc.withScope (hc.values _ hf _ rfl).1
  | makeFunction f hs =>
    have hmachine : Sound { c with machine := { c.machine with made := c.machine.made + 1 } } :=
      hc.onMachine (hc.machine.of_eq rfl rfl) le_rfl
    refine hmachine.withValue (Territory.admits_everything.mpr ?_)
    rintro _ ⟨⟩
    exact hc.scopes _ hs
  | @run fuel program s result m hs hrun =>
    have hdone := hc.of_runProgram hs fuel program
    rwa [hrun] at hdone
  | @runFailed fuel program s fault m hs hrun =>
    have hfailed := hc.of_runProgram hs fuel program
    rwa [hrun] at hfailed
  | @runFresh fuel program result m hrun =>
    have hdone := hc.newRoot.of_runProgram List.mem_cons_self fuel program
    rw [hrun] at hdone
    exact hdone.forget (List.subset_cons_self _ _) (List.subset_append_right _ _)
  | @runFreshFailed fuel program fault m hrun =>
    have hfailed := hc.newRoot.of_runProgram List.mem_cons_self fuel program
    rw [hrun] at hfailed
    exact hfailed.forget (List.subset_cons_self _ _) (List.Subset.refl _)
  | @eval fuel e s v m hs heval =>
    have hdone := hc.of_eval hs fuel e
    rwa [heval] at hdone
  | @evalFailed fuel e s fault m hs heval =>
    have hfailed := hc.of_eval hs fuel e
    rwa [heval] at hfailed
  | note he => exact hc.onMachine (hc.machine.note fun v hv => nomatch he.symm.trans hv) le_rfl
  | resetStats => exact hc.onMachine (hc.machine.of_eq rfl rfl) le_rfl
  | restart =>
    refine hc.onMachine ⟨Nat.zero_le _, hc.machine.parent, hc.machine.vars, ?_⟩ le_rfl
    intro v hv
    cases hv

end Sound

/-- **Whatever a client does, the heap only grows.** -/
theorem Step.grows {c c' : Client} (h : c.Step c') : c.machine.heap.Grows c'.machine.heap := by
  cases h with
  | newRoot => exact .push _ none
  | @newChild s _ => exact .push _ (some s)
  | declare name => exact .declare ..
  | assign _ _ hm =>
    obtain ⟨o, -, rfl⟩ := Machine.exists_owner_of_assign hm
    exact .declare ..
  | run _ hrun => exact ((reaches_runProgram ..).of_done hrun).grows
  | runFailed _ hrun => exact ((reaches_runProgram ..).of_failed hrun).grows
  | runFresh hrun =>
    exact (Heap.Grows.push _ none).trans ((reaches_runProgram ..).of_done hrun).grows
  | runFreshFailed hrun =>
    exact (Heap.Grows.push _ none).trans ((reaches_runProgram ..).of_failed hrun).grows
  | eval _ heval => exact ((proceeds_eval _ _ _ _).of_done heval).grows
  | evalFailed _ heval => exact ((proceeds_eval _ _ _ _).of_failed heval).grows
  | _ => exact .refl _

theorem Reached.sound {c : Client} (h : c.Reached) : c.Sound := by
  induction h with
  | refl => exact .new
  | tail _ hstep ih => exact ih.step hstep

end Client

/-- **The frames of a machine stay in order, whatever a client does**: parents are older than their
frames and function values have scopes that exist, so that every walk from a scope upwards comes to
a root, and every search for a name comes to an end; and a further step changes no parent and loses
no name. -/
theorem frames_stay_wellFormed {c : Client} (h : c.Reached) :
    c.machine.WellFormed ∧
      (∀ s ∈ c.scopes, s < c.machine.heap.frames.size) ∧
      (∀ f, .function f ∈ c.values → f.scope < c.machine.heap.frames.size) ∧
      (∀ s < c.machine.heap.frames.size, ∃ chain, c.machine.heap.Chain s chain) ∧
      (∀ s name, c.machine.heap.Finds name s (c.machine.heap.owner? s name)) ∧
      ∀ c', c.Step c' → c.machine.heap.Grows c'.machine.heap := by
  have hsound := h.sound
  have hm := hsound.machine.wellFormed
  have hparent : ∀ {s p}, c.machine.heap.parent? s = some p → p < s := fun hp => (hm.parent_lt hp).1
  refine ⟨hm, hsound.scopes, ?_, ?_, ?_, ?_⟩
  · exact fun f hf => (hsound.values _ hf f rfl).1
  · exact fun s hs => Heap.exists_chain hparent hs
  · exact fun s name => Heap.finds_owner? hparent name s
  · exact fun c' hstep => hstep.grows

/-- `fun make() { fun self() { return self; } return self; } print make(); -nil;` -/
def cyclicProgram : List Stmt :=
  [.function "make" [] [.function "self" [] [.ret (some (.identifier "self" 1)) 1],
      .ret (some (.identifier "self" 1)) 1],
    .print (.call (.identifier "make" 1) [] 1),
    .expression (.unary .negate (.literal .nil) 1)]

/-- A frame that holds a function whose scope it is, and that has been left by the call it was made
for, after a run that has printed the function and failed. -/
theorem wellFormed_after_failure :
    ∃ fault m,
      runProgram (some maxDepth) 9 cyclicProgram 0 Machine.new.newRoot.2 = .failed fault m ∧
      m.output.map Value.text = ["<fn self>"] ∧ m.heap.parent? 1 = some 0 ∧
      Client.Reached ⟨m, [0], []⟩ ∧ m.WellFormed ∧ (∃ chain, m.heap.Chain 1 chain) ∧
      m.heap.Finds "make" 1 (some 0) := by
  have hfacts : (runProgram (some maxDepth) 9 cyclicProgram 0 Machine.new.newRoot.2).failure?.map
      (fun r => (r.2.output.map Value.text, r.2.heap.parent? 1, r.2.heap.owner? 1 "make")) =
        some (["<fn self>"], some 0, some 0) := by cbv
  obtain ⟨⟨fault, m⟩, hfailure, hfacts⟩ := Option.map_eq_some_iff.mp hfacts
  obtain ⟨houtput, hparent, howner⟩ : m.output.map Value.text = ["<fn self>"] ∧
      m.heap.parent? 1 = some 0 ∧ m.heap.owner? 1 "make" = some 0 := by simpa using hfacts
  have hrun := Outcome.eq_failed_of_failure? hfailure
  have hreached : Client.Reached ⟨m, [0], []⟩ :=
    .tail (.single .newRoot) (.runFailed List.mem_cons_self hrun)
  obtain ⟨hm, -, -, hchain, hfinds, -⟩ := frames_stay_wellFormed hreached
  refine ⟨fault, m, hrun, houtput, hparent, hreached, hm, ?_, ?_⟩
  · exact hchain 1 (Heap.lt_size_of_parent? hparent)
  · exact howner ▸ hfinds 1 "make"

end Lox
