import Lox.Proofs.Eval.Identity
import Lox.Proofs.HandingOn

/-!
# The identity of function values

Somebody who uses a machine gets function values from it, in frames, as results and among what was
printed, and may compare them. What is found equal is one and the same: a function value stems from
one execution of a function statement, and every execution makes a new one, whether it is another
round of a loop, another call of the function that the statement stands in, or another run of the
program.

To say this, the runs and evaluations of a client are watched (`Lox.Client.Lived`). The record has
the executions of function statements and the function values in the same order
(`Lox.Watch.Accounts`), and every function value that the client can come across has its place
there. A client that puts a function value together by hand is left out, since such a value has no
statement that it stems from; everything else that a client can do is covered
(`Lox.Client.Step.act`).
-/

namespace Lox

open Watch

namespace Client

variable {c c' : Client} {h ds : List Deed}

/-! ### Clients that are watched -/

/-- **A client has a program run or an expression evaluated**, and this is recorded. -/
inductive Runs (c : Client) : List Deed → Client → Prop
  | run {fuel : Nat} {program : List Stmt} {s : Scope} {result : Option Value} {m : Machine}
      {ds : List Deed} : s ∈ c.scopes →
      Watch.runProgram (some maxDepth) fuel program s c.machine = (.done result m, ds) →
      Runs c ds ⟨m, c.scopes, result.toList ++ c.values⟩
  | runFailed {fuel : Nat} {program : List Stmt} {s : Scope} {fault : Located RuntimeFault}
      {m : Machine} {ds : List Deed} : s ∈ c.scopes →
      Watch.runProgram (some maxDepth) fuel program s c.machine = (.failed fault m, ds) →
      Runs c ds { c with machine := m }
  | runFresh {fuel : Nat} {program : List Stmt} {result : Option Value} {m : Machine}
      {ds : List Deed} :
      Watch.runProgram (some maxDepth) fuel program c.machine.newRoot.1 c.machine.newRoot.2 =
        (.done result m, ds) → Runs c ds { c with machine := m }
  | runFreshFailed {fuel : Nat} {program : List Stmt} {fault : Located RuntimeFault} {m : Machine}
      {ds : List Deed} :
      Watch.runProgram (some maxDepth) fuel program c.machine.newRoot.1 c.machine.newRoot.2 =
        (.failed fault m, ds) → Runs c ds { c with machine := m }
  | eval {fuel : Nat} {e : Expr} {s : Scope} {v : Value} {m : Machine} {ds : List Deed} :
      s ∈ c.scopes → Watch.eval (some maxDepth) fuel e s c.machine = (.done v m, ds) →
      Runs c ds ⟨m, c.scopes, v :: c.values⟩
  | evalFailed {fuel : Nat} {e : Expr} {s : Scope} {fault : Located RuntimeFault} {m : Machine}
      {ds : List Deed} : s ∈ c.scopes →
      Watch.eval (some maxDepth) fuel e s c.machine = (.failed fault m, ds) →
      Runs c ds { c with machine := m }

/-- **What a client does, and the record of it.** What makes no function value needs none. -/
inductive Act (c : Client) : List Deed → Client → Prop
  | runs {ds : List Deed} {c' : Client} : c.Runs ds c' → Act c ds c'
  | other {c' : Client} : c.Step c' → c'.machine.made = c.machine.made → Act c [] c'

/-- **A client, and the record of its acts** since it began with nothing. -/
inductive Lived : List Deed → Client → Prop
  | new : Lived [] .new
  | act {h ds : List Deed} {c c' : Client} : Lived h c → c.Act ds c' → Lived (h ++ ds) c'

theorem runProgram_of_watched {fuel : Nat} {program : List Stmt} {s : Scope} {m : Machine}
    {o : Outcome (Option Value)}
    (hrun : Watch.runProgram (some maxDepth) fuel program s m = (o, ds)) :
    Lox.runProgram (some maxDepth) fuel program s m = o := by
  rw [← outcome_runProgram, Run.outcome, hrun]

theorem eval_of_watched {fuel : Nat} {e : Expr} {s : Scope} {m : Machine} {o : Outcome Value}
    (heval : Watch.eval (some maxDepth) fuel e s m = (o, ds)) :
    Lox.eval (some maxDepth) fuel e s m = o := by
  rw [← (outcome_walk _ _).1, Run.outcome, heval]

theorem exists_watched {α : Type} {x : Run α} {y : Exec α} (hxy : x.outcome = y) {m : Machine}
    {o : Outcome α} (hy : y m = o) : ∃ ds, x m = (o, ds) := by
  subst hxy hy
  exact ⟨(x m).2, rfl⟩

/-- **To be watched changes nothing.** -/
theorem Runs.step (hruns : c.Runs ds c') : c.Step c' := by
  cases hruns with
  | run hs hrun => exact .run hs (runProgram_of_watched hrun)
  | runFailed hs hrun => exact .runFailed hs (runProgram_of_watched hrun)
  | runFresh hrun => exact .runFresh (runProgram_of_watched hrun)
  | runFreshFailed hrun => exact .runFreshFailed (runProgram_of_watched hrun)
  | eval hs heval => exact .eval hs (eval_of_watched heval)
  | evalFailed hs heval => exact .evalFailed hs (eval_of_watched heval)

theorem Act.step (hact : c.Act ds c') : c.Step c' := by
  cases hact with
  | runs hruns => exact hruns.step
  | other hstep => exact hstep

theorem Lived.reached (hlived : c.Lived h) : c.Reached := by
  induction hlived with
  | new => exact .refl
  | act _ hact ih => exact ih.tail hact.step

/-! ### What a client knows -/

/-- **A client comes across no function values but those in the record.** -/
structure Known (h : List Deed) (c : Client) : Prop where
  machine : Attests h c.machine
  values : ∀ v ∈ c.values, v.Within (· ∈ births h)

namespace Known

variable {m : Machine} {v : Value}

theorem new : Known [] .new where
  machine := by
    have hborn : Machine.new.Born [] := by
      refine ⟨rfl, nofun, ?_, nofun⟩
      intro s b hb
      cases hb
    exact ⟨⟨hborn, rfl⟩, by simp, by simp⟩
  values := nofun

theorem withValue (hc : c.Known h) (hv : v.Within (· ∈ births h)) :
    Known h { c with values := v :: c.values } where
  machine := hc.machine
  values := List.forall_mem_cons.mpr ⟨hv, hc.values⟩

/-- More has been recorded since. -/
theorem later (hc : c.Known h) (hm : Attests (h ++ ds) m) :
    Known (h ++ ds) { c with machine := m } where
  machine := hm
  values v hv := (hc.values v hv).mono fun _ hf => mem_births_of_prefix (List.prefix_append _ _) hf

/-- Nothing has been recorded since. -/
theorem onMachine (hc : c.Known h) (hm : m.Born (births h)) {ss : List Scope} :
    Known h ⟨m, ss, c.values⟩ where
  machine := hc.machine.quiet hm
  values := hc.values

theorem newRoot (hc : c.Known h) : Attests h c.machine.newRoot.2 :=
  hc.machine.quiet (hc.machine.born.push none)

theorem sees (hc : c.Known h) (hv : c.Sees v) : v.Within (· ∈ births h) := by
  cases hv with
  | literal l => exact Value.within_ofLiteral l
  | lookup name _ => exact hc.machine.born.lookup _ name
  | binding _ hv => exact hc.machine.born.vars hv
  | printed hv => exact hc.machine.born.output v hv

/-- **What a run makes goes into the record.** -/
theorem runs (hc : c.Known h) (hruns : c.Runs ds c') : c'.Known (h ++ ds) := by
  cases hruns with
  | @run fuel program s result m ds _ hrun =>
    have hdone := hc.machine.after_runProgram (some maxDepth) fuel program s
    rw [hrun] at hdone
    obtain ⟨hm, hresult⟩ := hdone
    cases result with
    | none => exact hc.later hm
    | some v => exact (hc.later hm).withValue (hresult v rfl)
  | @runFailed fuel program s fault m ds _ hrun =>
    have hfailed := hc.machine.after_runProgram (some maxDepth) fuel program s
    rw [hrun] at hfailed
    exact hc.later hfailed
  | @runFresh fuel program result m ds hrun =>
    have hdone := hc.newRoot.after_runProgram (some maxDepth) fuel program c.machine.newRoot.1
    rw [hrun] at hdone
    exact hc.later hdone.1
  | @runFreshFailed fuel program fault m ds hrun =>
    have hfailed := hc.newRoot.after_runProgram (some maxDepth) fuel program c.machine.newRoot.1
    rw [hrun] at hfailed
    exact hc.later hfailed
  | @eval fuel e s v m ds _ heval =>
    have hdone := hc.machine.after_eval (some maxDepth) fuel e s
    rw [heval] at hdone
    exact (hc.later hdone.1).withValue hdone.2
  | @evalFailed fuel e s fault m ds _ heval =>
    have hfailed := hc.machine.after_eval (some maxDepth) fuel e s
    rw [heval] at hfailed
    exact hc.later hfailed

/-- Where nothing has been made, the record may as well be left out. -/
theorem of_made_eq (hc : c.Known h) (hc' : c'.Known (h ++ ds))
    (hmade : c'.machine.made = c.machine.made) : c'.Known h := by
  have hlength : (births (h ++ ds)).length = (births h).length := by
    rw [← hc'.machine.born.made, ← hc.machine.born.made, hmade]
  rw [births_append, List.length_append] at hlength
  have hnone : births ds = [] := List.eq_nil_of_length_eq_zero (by omega)
  have hbirths : births (h ++ ds) = births h := by rw [births_append, hnone, List.append_nil]
  refine ⟨hc.machine.quiet ?_, fun v hv => ?_⟩
  · rw [← hbirths]
    exact hc'.machine.born
  · rw [← hbirths]
    exact hc'.values v hv

end Known

/-- **Whatever a client does can be watched**, or it makes no function value, or a function value is
put together by hand. -/
theorem Step.runs_or (hstep : c.Step c') : (∃ ds, c.Runs ds c') ∨
    (c'.machine.made = c.machine.made ∧ ∀ h, c.Known h → c'.Known h) ∨
    ∃ f s, s ∈ c.scopes ∧ c' = ⟨{ c.machine with made := c.machine.made + 1 }, c.scopes,
      .function (c.machine.next f s) :: c.values⟩ := by
  have hrunProgram {fuel : Nat} {program : List Stmt} {s : Scope} {m : Machine}
      {o : Outcome (Option Value)} (hrun : Lox.runProgram (some maxDepth) fuel program s m = o) :=
    exists_watched (outcome_runProgram (some maxDepth) fuel program s) hrun
  have heval {fuel : Nat} {e : Expr} {s : Scope} {m : Machine} {o : Outcome Value}
      (heval : Lox.eval (some maxDepth) fuel e s m = o) :=
    exists_watched ((outcome_walk (some maxDepth) fuel).1 e s) heval
  cases hstep with
  | run hs hrun => exact .inl ((hrunProgram hrun).imp fun _ hrun => .run hs hrun)
  | runFailed hs hrun => exact .inl ((hrunProgram hrun).imp fun _ hrun => .runFailed hs hrun)
  | runFresh hrun => exact .inl ((hrunProgram hrun).imp fun _ hrun => .runFresh hrun)
  | runFreshFailed hrun => exact .inl ((hrunProgram hrun).imp fun _ hrun => .runFreshFailed hrun)
  | eval hs he => exact .inl ((heval he).imp fun _ he => .eval hs he)
  | evalFailed hs he => exact .inl ((heval he).imp fun _ he => .evalFailed hs he)
  | makeFunction f hs => exact .inr (.inr ⟨f, _, hs, rfl⟩)
  | newRoot => exact .inr (.inl ⟨rfl, fun h hc => hc.onMachine (hc.machine.born.push none)⟩)
  | newChild _ => exact .inr (.inl ⟨rfl, fun h hc => hc.onMachine (hc.machine.born.push _)⟩)
  | declare name _ hv =>
    exact .inr (.inl ⟨rfl, fun h hc =>
      hc.onMachine (hc.machine.born.declare (hc.values _ hv) _ name)⟩)
  | assign _ hv hm =>
    obtain ⟨o, -, rfl⟩ := Machine.exists_owner_of_assign hm
    exact .inr (.inl ⟨rfl, fun h hc => hc.onMachine (hc.machine.born.declare (hc.values _ hv) o _)⟩)
  | assignFailed => exact .inr (.inl ⟨rfl, fun h hc => hc⟩)
  | read hv => exact .inr (.inl ⟨rfl, fun h hc => hc.withValue (hc.sees hv)⟩)
  | scopeOf => exact .inr (.inl ⟨rfl, fun h hc => hc.onMachine hc.machine.born⟩)
  | note he =>
    exact .inr (.inl ⟨rfl, fun h hc => hc.onMachine (hc.machine.born.note_of_none he)⟩)
  | resetStats =>
    refine .inr (.inl ⟨rfl, fun h hc => hc.onMachine ?_⟩)
    exact hc.machine.born.of_eq rfl rfl rfl
  | restart =>
    refine .inr (.inl ⟨rfl, fun h hc => hc.onMachine ?_⟩)
    exact hc.machine.born.without_events rfl rfl rfl

theorem Known.act (hc : c.Known h) (hact : c.Act ds c') : c'.Known (h ++ ds) := by
  cases hact with
  | runs hruns => exact hc.runs hruns
  | other hstep hmade =>
    rw [List.append_nil]
    rcases hstep.runs_or with ⟨ds, hruns⟩ | ⟨-, hkept⟩ | ⟨f, s, -, rfl⟩
    · exact hc.of_made_eq (hc.runs hruns) hmade
    · exact hkept h hc
    · exact absurd hmade (Nat.succ_ne_self _)

theorem Lived.known (hlived : c.Lived h) : c.Known h := by
  induction hlived with
  | new => exact .new
  | act _ hact ih => exact ih.act hact

/-- **What a client does is an act**, unless it puts a function value together by hand. -/
theorem Step.act (hstep : c.Step c') : (∃ ds, c.Act ds c') ∨ ∃ f s, s ∈ c.scopes ∧
    c' = ⟨{ c.machine with made := c.machine.made + 1 }, c.scopes,
      .function (c.machine.next f s) :: c.values⟩ := by
  rcases hstep.runs_or with ⟨ds, hruns⟩ | ⟨hmade, -⟩ | hhand
  · exact .inl ⟨ds, .runs hruns⟩
  · exact .inl ⟨[], .other hstep hmade⟩
  · exact .inr hhand

/-! ### Inside of runs -/

/-- What can be recorded of a client that has a program run or an expression evaluated, whether that
ends or not. -/
inductive Records (c : Client) : List Deed → Prop
  | run (fuel : Nat) (program : List Stmt) {s : Scope} : s ∈ c.scopes →
      Records c (Watch.runProgram (some maxDepth) fuel program s c.machine).2
  | runFresh (fuel : Nat) (program : List Stmt) :
      Records c (Watch.runProgram (some maxDepth) fuel program c.machine.newRoot.1
        c.machine.newRoot.2).2
  | eval (fuel : Nat) (e : Expr) {s : Scope} : s ∈ c.scopes →
      Records c (Watch.eval (some maxDepth) fuel e s c.machine).2

/-- Where the runs and evaluations of a client begin. -/
inductive Begins (c : Client) : Point → Prop
  | run (program : List Stmt) {s : Scope} : s ∈ c.scopes → Begins c (.start program s c.machine)
  | runFresh (program : List Stmt) :
      Begins c (.start program c.machine.newRoot.1 c.machine.newRoot.2)
  | eval (e : Expr) {s : Scope} : s ∈ c.scopes → Begins c ⟨.eval e s, c.machine⟩

theorem Known.records (hc : c.Known h) (hds : c.Records ds) : ∃ m, Attests (h ++ ds) m := by
  cases hds with
  | run fuel program _ =>
    exact (hc.machine.after_runProgram (some maxDepth) fuel program _).exists_holds
  | runFresh fuel program =>
    exact (hc.newRoot.after_runProgram (some maxDepth) fuel program _).exists_holds
  | eval fuel e _ => exact (hc.machine.after_eval (some maxDepth) fuel e _).exists_holds

theorem Sound.begins {a : Point} (hc : c.Sound) (ha : c.Begins a) : a.Placed := by
  cases ha with
  | run program hs => exact hc.scopes _ hs
  | runFresh program => exact hc.newRoot.scopes _ List.mem_cons_self
  | eval e hs => exact hc.scopes _ hs

/-- A client can come across a function value. -/
def Has (c : Client) (f : Closure) : Prop := .function f ∈ c.values ∨ c.machine.Has f

theorem Known.mem_of_has (hc : c.Known h) {f : Closure} (hf : c.Has f) : f ∈ births h := by
  rcases hf with hf | hf
  · exact hc.values _ hf f rfl
  · exact hc.machine.born.mem_of_has hf

end Client

/-! ### Identity -/

namespace Watch

/-- **Function values have identity**: those of some kind, at the end of a record. -/
structure Identified (h : List Deed) (P : Closure → Prop) : Prop where
  /-- Each of them stems from one execution of a function statement, with what that declares. -/
  stems : ∀ f, P f → ∃! i : Nat, (births h)[i]? = some f ∧
    (declarations h)[i]? = some (f.function, f.scope)
  /-- They are equal if and only if they stem from the same execution. -/
  equal_iff : ∀ f g, P f → P g → (Value.equal (.function f) (.function g) = true ↔
    ∃ i : Nat, (births h)[i]? = some f ∧ (births h)[i]? = some g)
  same : ∀ f g, P f → P g → Value.equal (.function f) (.function g) = true →
    f.function = g.function ∧ f.scope = g.scope

theorem Accounts.identified {h : List Deed} {m : Machine} (ha : Accounts h m) {P : Closure → Prop}
    (hP : ∀ f, P f → f ∈ births h) : Identified h P where
  stems f hf := by
    have hplace := ha.born.getElem?_id (hP f hf)
    refine ⟨f.id, ⟨hplace, ?_⟩, fun i hi => (ha.born.id_eq hi.1).symm⟩
    rw [← ha.made_by, List.getElem?_map, hplace]
    rfl
  equal_iff f g hf hg := ha.born.equal_iff (hP f hf) (hP g hg)
  same f g hf hg hequal := by
    rw [ha.born.eq_of_id_eq (hP f hf) (hP g hg) (beq_iff_eq.mp hequal)]
    exact ⟨rfl, rfl⟩

end Watch

/-- **The function values of a client have identity**, and keep it wherever they go. -/
structure Client.HasIdentity (h : List Deed) (c : Client) : Prop where
  /-- Whatever a client can do is recorded, but for a function value put together by hand. -/
  acts : ∀ {c'}, c.Step c' → (∃ ds, c.Act ds c') ∨ ∃ f s, s ∈ c.scopes ∧
    c' = ⟨{ c.machine with made := c.machine.made + 1 }, c.scopes,
      .function (c.machine.next f s) :: c.values⟩
  identified : Identified h c.Has
  /-- It is so whenever a statement is begun, in all that has been done and in what is done next. -/
  identified_inside : ∀ {ds h₁ stmt s m h₂}, c.Records ds →
    h ++ ds = h₁ ++ .begun stmt s m :: h₂ → Identified h₁ m.Has
  /-- Each execution of a function statement makes a value, which is like none before. -/
  fresh : ∀ {ds h₁ f s m h₂}, c.Records ds →
    h ++ ds = h₁ ++ .begun (Function.statement f) s m :: h₂ →
    (∃ h₃, h₂ = .made (m.next f s) :: h₃) ∧ ∀ g, g ∈ births h₁ ∨ m.Has g →
      Value.equal (.function g) (.function (m.next f s)) = false
  /-- So what is made from now on is like nothing that there is. -/
  new : ∀ {ds c'}, c.Act ds c' → ∀ f ∈ births ds, ∀ g, c.Has g →
    Value.equal (.function g) (.function f) = false
  handsOn : ∀ s ∈ c.scopes, HandsOn (some maxDepth) s c.machine
  /-- Values are handed on wherever a run comes to. -/
  handsOn_inside : ∀ {a k b}, c.Begins a → Visits (some maxDepth) a k b →
    HandsOn (some maxDepth) b.task.scope b.machine

/-- **Function values have identity**, whatever a client does with a machine. -/
theorem functions_have_identity {h : List Deed} {c : Client} (hlived : c.Lived h) :
    c.HasIdentity h where
  acts hstep := hstep.act
  identified := hlived.known.machine.identified fun _ hf => hlived.known.mem_of_has hf
  identified_inside hds heq := by
    obtain ⟨m, hm⟩ := hlived.known.records hds
    have haccounts := hm.accounts heq
    exact haccounts.identified fun _ hf => haccounts.born.mem_of_has hf
  fresh hds heq := by
    obtain ⟨m, hm⟩ := hlived.known.records hds
    have hborn := (hm.accounts heq).born
    refine ⟨hm.makes heq, fun g hg => ?_⟩
    exact hborn.equal_next (hg.elim id hborn.mem_of_has) _ _
  new hact f hf g hg := by
    have hpairwise := (hlived.known.act hact).machine.born.pairwise
    rw [births_append, List.pairwise_append] at hpairwise
    exact hpairwise.2.2 g (hlived.known.mem_of_has hg) f hf
  handsOn s hs := Lox.handsOn (hlived.reached.sound.scopes s hs)
  handsOn_inside ha hvisits := Lox.handsOn (hvisits.placed (hlived.reached.sound.begins ha))

/-- `fun self() { return self; }` -/
def selfFunction : Function := ⟨"self", [], [.ret (some (.identifier "self" 1)) 1]⟩

/-- `fun make() { fun self() { return self; } return self; }` -/
def makeFunction : Function :=
  ⟨"make", [], [selfFunction.statement, .ret (some (.identifier "self" 1)) 1]⟩

/-- `fun make() { fun self() { return self; } return self; }`, and then
`var a = make(); var b = make(); var c = a;` -/
def twinProgram : List Stmt :=
  [makeFunction.statement,
    .var "a" (some (.call (.identifier "make" 2) [] 2)),
    .var "b" (some (.call (.identifier "make" 3) [] 3)),
    .var "c" (some (.identifier "a" 4))]

/-- Two calls of a function have made two function values with the same declaration, which are not
equal; but what was bound to another name is. -/
theorem identity_of_twins :
    ∃ m ds e f g, Client.Lived ds ⟨m, [0], []⟩ ∧ Client.HasIdentity ds ⟨m, [0], []⟩ ∧
      m.heap.vars 0 = [("make", .function e), ("a", .function f), ("b", .function g),
        ("c", .function f)] ∧
      f.function = g.function ∧
      ¬∃ i : Nat, (births ds)[i]? = some f ∧ (births ds)[i]? = some g := by
  have hfacts : (runProgram (some maxDepth) 9 twinProgram 0 Machine.new.newRoot.2).result?.map
      (fun r => (r.1, r.2.heap.vars 0)) =
      some (none, [("make", .function ⟨0, makeFunction, 0⟩), ("a", .function ⟨1, selfFunction, 1⟩),
        ("b", .function ⟨2, selfFunction, 2⟩), ("c", .function ⟨1, selfFunction, 1⟩)]) := by
    cbv
  obtain ⟨⟨result, m⟩, hresult, hfacts⟩ := Option.map_eq_some_iff.mp hfacts
  obtain ⟨rfl, hvars⟩ := Prod.mk.inj hfacts
  have hrun := Outcome.eq_done_of_result? hresult
  obtain ⟨ds, hwatched⟩ := Client.exists_watched (outcome_runProgram ..) hrun
  have hroot : Client.Lived [] ⟨Machine.new.newRoot.2, [0], []⟩ :=
    Client.Lived.new.act (.other .newRoot rfl)
  have hruns := Client.Runs.run (c := ⟨Machine.new.newRoot.2, [0], []⟩) List.mem_cons_self hwatched
  have hlived : Client.Lived ds ⟨m, [0], []⟩ := hroot.act (.runs hruns)
  have hidentity := functions_have_identity hlived
  have hhas (name : String) {f : Closure} (hf : (name, .function f) ∈ m.heap.vars 0) :
      Client.Has ⟨m, [0], []⟩ f := .inr (.inr ⟨0, name, hf⟩)
  refine ⟨m, ds, _, ⟨1, selfFunction, 1⟩, ⟨2, selfFunction, 2⟩, hlived, hidentity, hvars, rfl, ?_⟩
  have hiff := hidentity.identified.equal_iff ⟨1, selfFunction, 1⟩ ⟨2, selfFunction, 2⟩
    (hhas "a" (by simp [hvars])) (hhas "b" (by simp [hvars]))
  exact hiff.not.mp (by decide)

end Lox
