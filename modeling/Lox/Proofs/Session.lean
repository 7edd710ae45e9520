import Lox.Proofs.Eval.Reaches
import Lox.Proofs.Eval.Transport
import Lox.Proofs.Grammar.Compose
import Lox.Proofs.Parser.Completeness
import Lox.Proofs.Scanner.Concatenation
import Lox.Repl

/-!
# A session and a script

Texts that are run one after the other in one scope come to the same as all of them run as one
text. Four things have to be so: the tokens of the whole text are those of its parts, some lines
further down; the program of the whole is the programs of the parts, under other lines; a run
does not look at lines, not even at those in the bodies of functions that are in the machine
already; and a run leaves no active call behind for the next one to see.

What the two have in common is a `Lox.Report`, in which no line occurs.
-/

namespace Lox

/-! ### Compiling -/

theorem tokensOf_eq_ok_iff {source : String} {ts : List Token} :
    tokensOf source = .ok ts ↔ scan source = .ok ts :=
  Parser.mapError_eq_ok

theorem programOf_eq_ok_iff {ts : List Token} {p : List Stmt} :
    programOf ts = .ok p ↔ parse ts = .ok p :=
  Parser.mapError_eq_ok

theorem compile_eq_ok_iff_exists {source : String} {p : List Stmt} :
    compile source = .ok p ↔ ∃ ts, tokensOf source = .ok ts ∧ programOf ts = .ok p := by
  unfold compile
  cases h : tokensOf source with
  | error e =>
    constructor
    · rintro ⟨⟩
    · rintro ⟨ts, h, -⟩
      cases h
  | ok ts =>
    constructor
    · intro hp
      exact ⟨ts, rfl, hp⟩
    · rintro ⟨ts', ⟨⟩, hp⟩
      exact hp

/-- **A text compiles if its lines are made of lexemes that make a program.** -/
theorem compile_eq_ok_iff {source : String} {p : List Stmt} :
    compile source = .ok p ↔ (∀ text ∈ physicalLines source.toList, isSound text = true) ∧
      Grammar.Program (tokensFrom 0 (physicalLines source.toList)) p := by
  -- the end that the scanner puts behind the tokens is the one that the parser stops at
  have hend (ts : List Token) (n : Nat) (hts : ∀ t ∈ ts, t.kind ≠ .eof) :
      beforeEnd (ts ++ [⟨.eof, "", n⟩]) = ts := beforeEnd_append hts rfl
  rw [compile_eq_ok_iff_exists]
  simp only [tokensOf_eq_ok_iff, programOf_eq_ok_iff, scan_eq_ok_iff]
  constructor
  · rintro ⟨ts, ⟨hsound, rfl⟩, hp⟩
    have hprogram := program_of_parse hp
    rw [hend _ _ fun t => kind_ne_of_mem_tokensFrom] at hprogram
    exact ⟨hsound, hprogram⟩
  · rintro ⟨hsound, hprogram⟩
    refine ⟨_, ⟨hsound, rfl⟩, parse_of_program ?_⟩
    rw [hend _ _ fun t => kind_ne_of_mem_tokensFrom]
    exact hprogram

/-- **A program that is put together**, up to lines, from the programs of several texts. -/
inductive Assembled : List String → List Stmt → Prop
  | nil : Assembled [] []
  | cons {text : String} {texts : List String} {p p' ps : List Stmt} : compile text = .ok p →
      p.map (Stmt.relabel unplaced) = p'.map (Stmt.relabel unplaced) → Assembled texts ps →
      Assembled (text :: texts) (p' ++ ps)

/-- The lines of several texts, behind `n` others, make up a program that is put together from
theirs. -/
theorem exists_assembled {texts : List String}
    (hend : ∀ text ∈ texts, text.toList.getLast? = some '\n')
    (hok : ∀ text ∈ texts, ∃ p, compile text = .ok p) (n : Nat) :
    ∃ ps, Assembled texts ps ∧
      (∀ text ∈ physicalLines (texts.flatMap String.toList), isSound text = true) ∧
      Grammar.Program (tokensFrom n (physicalLines (texts.flatMap String.toList))) ps := by
  induction texts generalizing n with
  | nil => exact ⟨[], .nil, by decide, .nil⟩
  | cons text texts ih =>
    obtain ⟨htext, hend⟩ := List.forall_mem_cons.mp hend
    obtain ⟨⟨p, hp⟩, hok⟩ := List.forall_mem_cons.mp hok
    obtain ⟨hsound, hprogram⟩ := compile_eq_ok_iff.mp hp
    obtain ⟨ps, hps, hsounds, hprograms⟩ :=
      ih hend hok (n + (physicalLines text.toList).length)
    -- the program of the first text, `n` lines further down, and then the others
    refine ⟨p.map (Stmt.relabel (· + n)) ++ ps, .cons hp ?_ hps, ?_, ?_⟩
    · rw [List.map_map]
      refine List.map_congr_left fun s _ => ?_
      rw [Function.comp_apply, Stmt.relabel_relabel, unplaced_comp]
    · rw [List.flatMap_cons, physicalLines_append htext]
      exact List.forall_mem_append.mpr ⟨hsound, hsounds⟩
    · rw [List.flatMap_cons, physicalLines_append htext, tokensFrom_append]
      have htokens := tokensFrom_eq_map 0 n (physicalLines text.toList)
      rw [Nat.zero_add] at htokens
      rw [htokens]
      exact (Grammar.relabel_program hprogram).append hprograms

/-- **Texts that compile compile together**, to the program put together from theirs. -/
theorem exists_compile_join {texts : List String}
    (hend : ∀ text ∈ texts, text.toList.getLast? = some '\n')
    (hok : ∀ text ∈ texts, ∃ p, compile text = .ok p) :
    ∃ ps, compile (String.join texts) = .ok ps ∧ Assembled texts ps := by
  obtain ⟨ps, hps, hsound, hprogram⟩ := exists_assembled hend hok 0
  refine ⟨ps, compile_eq_ok_iff.mpr ?_, hps⟩
  rw [String.toList_join]
  exact ⟨hsound, hprogram⟩

/-! ### Running -/

/-- **A program runs part by part.** -/
theorem runStatements_append (limit : Option Nat) (n : Nat) (s : Scope) (last : Option Value)
    (p q : List Stmt) :
    runStatements limit n s last (p ++ q) =
      runStatements limit n s last p >>= fun last => runStatements limit n s last q := by
  induction p generalizing last with
  | nil => rfl
  | cons stmt p ih =>
    rw [List.cons_append, runStatements, runStatements, Exec.bind_assoc]
    congr 1
    funext flow
    cases flow with
    | normal v => exact ih _
    | returned v => rfl

theorem runProgram_of_depth {limit : Option Nat} (n : Nat) (p : List Stmt) (s : Scope)
    {m : Machine} (hm : m.depth = 0) :
    runProgram limit n p s m = runStatements limit n s none p m := by
  change runStatements limit n s none p { m with depth := 0 } = _
  rw [← hm]

theorem Machine.Alike.refl (m : Machine) : m.Alike m := ⟨rfl, rfl, rfl, rfl, rfl⟩

theorem Machine.Alike.trans {m₁ m₂ m₃ : Machine} (h : m₁.Alike m₂) (h' : m₂.Alike m₃) :
    m₁.Alike m₃ :=
  ⟨h.heap.trans h'.heap, h.made.trans h'.made, h.stats.trans h'.stats, h.depth.trans h'.depth,
    h.output.trans h'.output⟩

/-- An event that prints nothing does not show. -/
theorem Machine.alike_note (m : Machine) {e : Event} (he : e.printed? = none) :
    (m.note e).Alike m := by
  refine ⟨rfl, rfl, rfl, rfl, ?_⟩
  simp [output, note, he]

theorem Outcome.Alike.trans {α β γ : Type} {x : Outcome α} {y : Outcome β} {z : Outcome γ}
    (h : x.Alike y) (h' : y.Alike z) : x.Alike z := by
  cases h with
  | done h =>
    cases h' with
    | done h' => exact .done (h.trans h')
  | failed hc h =>
    cases h' with
    | failed hc' h' => exact .failed (hc.trans hc') (h.trans h')
  | exhausted =>
    cases h' with
    | exhausted => exact .exhausted

/-- What was shown before a run does not change the run. -/
theorem alike_last (limit : Option Nat) (n : Nat) (s : Scope) (last last' : Option Value)
    (p : List Stmt) (m : Machine) :
    (runStatements limit n s last p m).Alike (runStatements limit n s last' p m) := by
  cases p with
  | nil => exact .done (.refl m)
  | cons stmt p =>
    change Outcome.Alike (runStatements limit n s last' (stmt :: p) m) _
    cases runStatements limit n s last' (stmt :: p) m with
    | done a m' => exact .done (.refl m')
    | failed fault m' => exact .failed rfl (.refl m')
    | exhausted => exact .exhausted

/-! ### Reports -/

/-- **What a run comes to**, as far as somebody sees who does not look at lines. -/
structure Report where
  /-- What is wrong, if the run has failed. -/
  complaint : Option Complaint
  /-- The texts it has printed. -/
  printed : List String
  /-- The names that the scope binds, in order, with the texts of their values. -/
  bindings : List (String × String)
  /-- How often things were done. -/
  stats : Stats
deriving DecidableEq

/-- The report of a run in a scope. -/
def Report.of {α : Type} (s : Scope) (result : Except Error α) (m : Machine) : Report where
  complaint := match result with
    | .ok _ => none
    | .error e => some e.cause
  printed := m.output.map Value.text
  bindings := (Bindings.sorted (m.heap.vars s)).map fun b => (b.1, b.2.text)
  stats := m.stats

/-- The report of an answer, if there is one. -/
def Answer.report {α : Type} (s : Scope) (answer : Answer α) : Option Report :=
  answer.map fun (result, m) => .of s result m

/-- Runs texts one after the other in a scope, up to the first error. -/
def Machine.runTexts (fuel : Nat) (s : Scope) : List String → Machine → Answer Unit
  | [], m => some (.ok (), m)
  | text :: texts, m =>
    match m.runText fuel text s with
    | none => none
    | some (.error e, m) => some (.error e, m)
    | some (.ok _, m) => m.runTexts fuel s texts

theorem texts_eq_of_relabel {vs ws : List Value}
    (h : vs.map (Value.relabel unplaced) = ws.map (Value.relabel unplaced)) :
    vs.map Value.text = ws.map Value.text := by
  have h := congrArg (List.map Value.text) h
  simpa [Function.comp_def] using h

theorem sorted_texts_relabel (f : Nat → Nat) (vars : Bindings) :
    (vars.relabel f).sorted.map (fun b => (b.1, b.2.text)) =
      vars.sorted.map fun b => (b.1, b.2.text) := by
  rw [Bindings.sorted_relabel, Bindings.relabel, List.map_map]
  exact List.map_congr_left fun b _ => by simp

/-- **Machines that look alike are reported alike.** -/
theorem Machine.Alike.report {α β : Type} {m m' : Machine} (h : m.Alike m') (s : Scope)
    {r : Except Error α} {r' : Except Error β}
    (hr : (Report.of s r m).complaint = (Report.of s r' m).complaint) :
    Report.of s r m = Report.of s r' m' := by
  have hbindings : (Bindings.sorted (m.heap.vars s)).map (fun b => (b.1, b.2.text)) =
      (Bindings.sorted (m'.heap.vars s)).map (fun b => (b.1, b.2.text)) := by
    have hvars := congrArg
      (fun heap => (Bindings.sorted (heap.vars s)).map fun b => (b.1, b.2.text)) h.heap
    simpa only [Heap.vars_relabel, sorted_texts_relabel] using hvars
  unfold Report.of at hr ⊢
  simp only at hr
  rw [texts_eq_of_relabel h.output, hbindings, h.stats, hr]

theorem Outcome.Alike.report {α β : Type} {x : Outcome α} {y : Outcome β} (h : x.Alike y)
    (s : Scope) : Answer.report s x.answer = Answer.report s y.answer := by
  cases h with
  | done h => exact congrArg some (h.report s rfl)
  | failed hc h => exact congrArg some (h.report s (congrArg some hc))
  | exhausted => rfl

theorem runText_of_compile {source : String} {p : List Stmt} (h : compile source = .ok p) :
    ∃ scanned parsed : Event, scanned.printed? = none ∧ parsed.printed? = none ∧
      (∀ fuel s m, Machine.runText fuel source s m =
        (runProgram (some maxDepth) fuel p s ((m.note scanned).note parsed)).answer) ∧
      ∀ fuel m, Machine.runFresh fuel source m =
        (let (s, m) := ((m.note scanned).note parsed).newRoot
         (runProgram (some maxDepth) fuel p s m).answer.map fun (r, m) =>
          (r.map fun _ => none, m)) := by
  obtain ⟨ts, hts, hp⟩ := compile_eq_ok_iff_exists.mp h
  refine ⟨.ofTokens ts, .parsed p.length, rfl, rfl, fun fuel s m => ?_, fun fuel m => ?_⟩
  · simp only [Machine.runText, hts, hp]
  · simp only [Machine.runFresh, hts, hp]

/-- **Running texts one by one and running what is put together from them** come to the same. -/
theorem report_runTexts {texts : List String} {ps : List Stmt} (h : Assembled texts ps)
    (fuel : Nat) (s : Scope) (last : Option Value) {m m' : Machine} (hm : m.Alike m')
    (hdepth : m'.depth = 0) :
    Answer.report s (m.runTexts fuel s texts) =
      Answer.report s (runStatements (some maxDepth) fuel s last ps m').answer := by
  -- the two machines stay alike, and the second one has no active call, from text to text
  induction h generalizing last m m' with
  | nil => exact congrArg some (hm.report s rfl)
  | @cons text texts p p' ps hp hlines _ ih =>
    obtain ⟨scanned, parsed, hscanned, hparsed, hrun, -⟩ := runText_of_compile hp
    have hnoted : ((m.note scanned).note parsed).Alike m' :=
      ((Machine.alike_note _ hparsed).trans (Machine.alike_note _ hscanned)).trans hm
    have hstep : (runProgram (some maxDepth) fuel p s ((m.note scanned).note parsed)).Alike
        (runStatements (some maxDepth) fuel s last p' m') := by
      have hprogram := @alike_runProgram (some maxDepth) fuel _ _ s _ _ hlines hnoted
      rw [runProgram_of_depth fuel p' s hdepth] at hprogram
      exact hprogram.trans (alike_last _ fuel s none last p' m')
    have hreport := hstep.report s
    have hproceeds := @proceeds_runStatements (some maxDepth) fuel s last p' m'
    rw [Machine.runTexts, hrun, runStatements_append]
    generalize runProgram (some maxDepth) fuel p s ((m.note scanned).note parsed) = x
      at hstep hreport
    generalize hy : runStatements (some maxDepth) fuel s last p' m' = y at hstep hreport hproceeds
    cases hstep with
    | @done _ last' m₁ m₂ hm₁ =>
      rw [Exec.bind_of_done hy]
      exact ih last' hm₁ (hproceeds.depth_eq.trans hdepth)
    -- the session goes no further than this text, nor does the script
    | failed _ _ =>
      rw [Exec.bind_of_failed hy]
      exact hreport
    | exhausted =>
      rw [Exec.bind_of_exhausted hy]
      rfl

theorem report_map {α β : Type} (s : Scope) (g : α → β) (answer : Answer α) :
    Answer.report s (answer.map fun (r, m) => (r.map g, m)) = Answer.report s answer := by
  rcases answer with _ | ⟨_ | _, m⟩ <;> rfl

/-- **A session and a script agree.** Texts that end with a line feed and compile one by one may
be run one by one in a session, up to the first error, or all at once as a script: what goes wrong,
what is printed, what the root scope binds and the counts are the same. The root scope is the
first frame of a new machine in both. -/
theorem session_agrees_with_script (fuel : Nat) (texts : List String)
    (hend : ∀ text ∈ texts, text.toList.getLast? = some '\n')
    (hok : ∀ text ∈ texts, ∃ p, compile text = .ok p) :
    Answer.report Repl.new.root (Repl.new.machine.runTexts fuel Repl.new.root texts) =
      Answer.report Repl.new.root (Machine.new.runFresh fuel (String.join texts)) := by
  obtain ⟨ps, hps, hassembled⟩ := exists_compile_join hend hok
  obtain ⟨scanned, parsed, hscanned, hparsed, -, hrun⟩ := runText_of_compile hps
  -- the script has noted its tokens and its tree before it gets its scope
  have hnew : Repl.new.machine.Alike ((Machine.new.note scanned).note parsed).newRoot.2 := by
    refine ⟨rfl, rfl, rfl, rfl, ?_⟩
    simp [Repl.new, Machine.output, Machine.newRoot, Machine.note, Machine.new, hscanned, hparsed]
  have hreport := report_runTexts hassembled fuel Repl.new.root none hnew rfl
  rw [← runProgram_of_depth fuel ps _ rfl] at hreport
  rw [hreport, hrun]
  exact (report_map _ _ _).symm

/-- A function of one text is called in another, which fails on its second line. -/
theorem session_of_three_texts :
    let texts := ["var a = \"x\";\n", "fun f(b) \x7b\n  return b + a;\n\x7d\n",
      "print f(\"y\");\nprint -a;\n"]
    (∀ text ∈ texts, text.toList.getLast? = some '\n') ∧
      (∀ text ∈ texts, ∃ p, compile text = .ok p) ∧
      Answer.report Repl.new.root (Repl.new.machine.runTexts 9 Repl.new.root texts) =
        Answer.report Repl.new.root (Machine.new.runFresh 9 (String.join texts)) := by
  intro texts
  have hend : ∀ text ∈ texts, text.toList.getLast? = some '\n' := by decide
  have hok : ∀ text ∈ texts, ∃ p, compile text = .ok p := by
    simp only [texts, List.forall_mem_cons]
    exact ⟨⟨_, rfl⟩, ⟨_, rfl⟩, ⟨_, rfl⟩, by simp⟩
  exact ⟨hend, hok, session_agrees_with_script 9 texts hend hok⟩

end Lox
