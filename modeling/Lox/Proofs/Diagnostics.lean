import Lox.Diagnostic
import Lox.Proofs.Eval.Code
import Lox.Proofs.Parser.Unread
import Lox.Proofs.Scanner.Placement
import Lox.Proofs.Session

/-!
# Diagnostics of a script

An error is shown with a line of the source, and the line must be there to be shown and be the
right one. Each stage has its own reason. A fault of the scanner lies in a line that it has read.
A parser that is stuck is stuck at a token or at the end of the text, and there is a line at the
end because a text without tokens is a program. A node has its line from the token it stands at,
which occurs in that line (`Lox.occurs_of_compile`). And what fails in a run is a node of the
program, whatever function it is in and however deep the calls are: there is no other code in the
machine of a script.

Altogether this is `Lox.diagnostics_point_at_source`.
-/

namespace Lox

/-! ### Nodes -/

/-- **A node occurs in the line that it carries.** -/
theorem occurs_of_compile {source : String} {p : List Stmt} (h : compile source = .ok p)
    {node : Node} (hnode : node ∈ programNodes p) :
    ∃ text, lineOf? source node.line = some text ∧ node.lexeme.toList <:+: text := by
  obtain ⟨t, ht, hstands⟩ := Grammar.written_program (compile_eq_ok_iff.mp h).2 node hnode
  obtain ⟨text, htext, hlexeme, hoccurs⟩ := occurs_of_mem_tokens ht
  rw [hstands.line] at htext
  rw [hstands.text_eq hlexeme] at hoccurs
  exact ⟨text, htext, hoccurs⟩

/-! ### Errors before the run -/

/-- An error points at a line that is there. -/
def Error.PointsInto (source : String) (e : Error) : Prop :=
  ∃ line text, e.line = some line ∧ lineOf? source line = some text

theorem Error.pointsInto_of_le {source : String} {e : Error} {line : Nat}
    (hline : e.line = some line) (hpos : 1 ≤ line) (hle : line ≤ (lines source.toList).length) :
    e.PointsInto source := by
  obtain ⟨text, htext⟩ := exists_lineOf?_iff.mpr ⟨hpos, hle⟩
  exact ⟨line, text, hline, htext⟩

theorem pointsInto_of_tokensOf {source : String} {e : Error} (h : tokensOf source = .error e) :
    e.PointsInto source := by
  obtain ⟨fault, hscan, rfl⟩ := Parser.mapError_eq_error_iff.mp h
  change (Scanner.new.scanLines (physicalLines source.toList)).map Scanner.finish = _ at hscan
  cases hlines : Scanner.new.scanLines (physicalLines source.toList) with
  | ok s =>
    rw [hlines] at hscan
    cases hscan
  | error fault' =>
    rw [hlines] at hscan
    cases hscan
    obtain ⟨i, hi, hline⟩ := line_of_scanLines hlines
    rw [length_physicalLines] at hi
    refine Error.pointsInto_of_le hline (Nat.le_add_left 1 _) ?_
    change 0 + i + 1 ≤ _
    omega

/-- The input ends where its one end stands. -/
theorem pointsInto_of_programOf {source : String} {ts : List Token} {e : Error}
    (hts : tokensOf source = .ok ts) (h : programOf ts = .error e) : e.PointsInto source := by
  obtain ⟨fault, hparse, rfl⟩ := Parser.mapError_eq_error_iff.mp h
  obtain ⟨-, rfl⟩ := (scan_eq_ok_iff source ts).mp (tokensOf_eq_ok_iff.mp hts)
  obtain ⟨line, hline, hplace⟩ := line_of_parse hparse
  have hkinds : ∀ t ∈ tokensFrom 0 (physicalLines source.toList), t.kind ≠ .eof :=
    fun t => kind_ne_of_mem_tokensFrom
  rw [beforeEnd_append hkinds rfl, endLine_append hkinds rfl] at hplace
  obtain ⟨t, ht, rfl⟩ | ⟨hne, rfl⟩ := hplace
  · obtain ⟨text, htext, -⟩ := occurs_of_mem_tokens ht
    exact ⟨_, text, hline, htext⟩
  · -- where a token is there is a line
    have hpos : (physicalLines source.toList).length ≠ 0 := by
      intro hzero
      rw [List.length_eq_zero_iff.mp hzero] at hne
      exact hne rfl
    exact Error.pointsInto_of_le hline (Nat.one_le_iff_ne_zero.mpr hpos)
      (Nat.le_of_eq (length_physicalLines source.toList))

theorem compile_of_tokensOf_error {source : String} {e : Error} (h : tokensOf source = .error e) :
    compile source = .error e := by
  unfold compile
  rw [h]
  rfl

theorem compile_of_tokensOf {source : String} {ts : List Token} (h : tokensOf source = .ok ts) :
    compile source = programOf ts := by
  unfold compile
  rw [h]
  rfl

theorem pointsInto_of_compile {source : String} {e : Error} (h : compile source = .error e) :
    e.PointsInto source := by
  obtain htokens | ⟨ts, hts, hprogram⟩ := Parser.error_of_bind h
  · exact pointsInto_of_tokensOf htokens
  · exact pointsInto_of_programOf hts hprogram

/-! ### What is shown -/

theorem sourceLine?_eq (source : String) (e : Error) :
    e.sourceLine? source = (e.line.bind (lineOf? source)).map String.ofList := by
  unfold Error.sourceLine?
  cases e.line with
  | none => rfl
  | some line => cases line <;> rfl

/-- The line that an error points at stands in its diagnostic. -/
theorem mem_diagnosticLines {source text : String} {e : Error} {line : Nat}
    (hline : e.line = some line) (h : e.sourceLine? source = some text) :
    coloured .grey (padLeft 3 (toString line) ++ " | ") ++ text ∈ e.diagnosticLines source := by
  simp [Error.diagnosticLines, hline, h]

/-! ### Errors of the run -/

theorem failed_of_answer {α : Type} {o : Outcome α} {e : Error} {m' : Machine}
    (h : o.answer = some (.error e, m')) :
    ∃ fault, o = .failed fault m' ∧ e = fault.map RuntimeFault.complaint := by
  cases o with
  | done a m => cases h
  | failed fault m =>
    cases h
    exact ⟨fault, rfl, rfl⟩
  | exhausted => cases h

/-- **Only a call overflows the stack**, one that was not entered. -/
theorem Breaks.call_of_stackOverflow {limit : Option Nat} {a : Point} {node : Node}
    {cause : RuntimeFault} {m' : Machine} (h : Breaks limit a node cause m')
    (hkind : cause.kind = .stackOverflow) : ∃ f args, node = .call f args node.line := by
  cases h with
  | unary _ h =>
    rw [Value.kind_of_unary h] at hkind
    cases hkind
  | binary _ _ h =>
    rcases Value.kind_of_binary h with h | h
    · rw [h] at hkind
      cases hkind
    · rw [h] at hkind
      cases hkind
  | assign => cases hkind
  | notCallable => cases hkind
  | arity => cases hkind
  | overflow => exact ⟨_, _, rfl⟩
  | ret => cases hkind

/-- The machine on which the program of a script begins. -/
def scriptStart (ts : List Token) (p : List Stmt) : Machine :=
  ((Machine.new.note (.ofTokens ts)).note (.parsed p.length)).newRoot.2

theorem codeIn_scriptStart (S : Node → Prop) (ts : List Token) (p : List Stmt) :
    (scriptStart ts p).CodeIn S :=
  (Machine.codeIn_new.push none).of_heap rfl

/-- A script that fails does not compile, or its run fails. -/
theorem failed_of_runFresh {fuel : Nat} {source : String} {e : Error} {m' : Machine}
    (h : Machine.new.runFresh fuel source = some (.error e, m')) :
    compile source = .error e ∨ ∃ ts p fault, tokensOf source = .ok ts ∧ programOf ts = .ok p ∧
      runProgram (some maxDepth) fuel p 0 (scriptStart ts p) = .failed fault m' ∧
      e = fault.map RuntimeFault.complaint := by
  unfold Machine.runFresh at h
  cases hts : tokensOf source with
  | error e' =>
    rw [hts] at h
    cases h
    exact .inl (compile_of_tokensOf_error hts)
  | ok ts =>
    rw [hts] at h
    cases hp : programOf ts with
    | error e' =>
      simp only [hp] at h
      cases h
      exact .inl ((compile_of_tokensOf hts).trans hp)
    | ok p =>
      simp only [hp] at h
      obtain ⟨⟨r, m₁⟩, hanswer, heq⟩ := Option.map_eq_some_iff.mp h
      cases r with
      | ok v => cases heq
      | error e' =>
        cases heq
        obtain ⟨fault, hfailed, rfl⟩ := failed_of_answer hanswer
        exact .inr ⟨ts, p, fault, rfl, hp, hfailed, rfl⟩

/-- **The node that a run has failed at** is one of its program. -/
theorem exists_broken_node {ts : List Token} {p : List Stmt} {fuel : Nat}
    {fault : Located RuntimeFault} {m' : Machine}
    (h : runProgram (some maxDepth) fuel p 0 (scriptStart ts p) = .failed fault m') :
    ∃ k b, ∃ node ∈ programNodes p, Visits (some maxDepth) (.start p 0 (scriptStart ts p)) k b ∧
      Breaks (some maxDepth) b node fault.cause (m'.deeper k) ∧ fault.line = some node.line := by
  obtain ⟨k, b, node, hvisits, hbreaks, hline⟩ := blamed_runProgram h
  have hstart : (Point.start p 0 (scriptStart ts p)).CodeIn (· ∈ programNodes p) :=
    ⟨fun _ hnode => hnode, (codeIn_scriptStart _ ts p).of_heap rfl⟩
  exact ⟨k, b, node, hbreaks.mem (hvisits.codeIn hstart).task, hvisits, hbreaks, hline⟩

/-- **Diagnostics point at the source.** Every node of a text stands in the line that it carries.
Every error of a script carries a line of the text, which its diagnostic shows. If the text
compiles, the error is that of an operation which the run has come to, below any number of calls,
and which could not be done with what its operands gave: the line is that of its node, and for
an overflow that of the call which was not entered. -/
theorem diagnostics_point_at_source (source : String) :
    (∀ p, compile source = .ok p → ∀ node ∈ programNodes p,
      ∃ text, lineOf? source node.line = some text ∧ node.lexeme.toList <:+: text) ∧
    ∀ fuel e m', Machine.new.runFresh fuel source = some (.error e, m') →
      ∃ line text, e.line = some line ∧ lineOf? source line = some text ∧
        coloured .grey (padLeft 3 (toString line) ++ " | ") ++ String.ofList text ∈
          e.diagnosticLines source ∧
        (compile source = .error e ∨
          ∃ ts p fault k b, tokensOf source = .ok ts ∧ programOf ts = .ok p ∧
            runProgram (some maxDepth) fuel p 0 (scriptStart ts p) = .failed fault m' ∧
            e = fault.map RuntimeFault.complaint ∧
            ∃ node ∈ programNodes p, node.line = line ∧
              Visits (some maxDepth) (.start p 0 (scriptStart ts p)) k b ∧
              Breaks (some maxDepth) b node fault.cause (m'.deeper k) ∧
              (e.cause.kind = .stackOverflow → ∃ f args, node = .call f args line)) := by
  refine ⟨fun p hp node hnode => occurs_of_compile hp hnode, fun fuel e m' h => ?_⟩
  have hshown {line : Nat} {text : List Char} (hline : e.line = some line)
      (htext : lineOf? source line = some text) :
      coloured .grey (padLeft 3 (toString line) ++ " | ") ++ String.ofList text ∈
        e.diagnosticLines source :=
    mem_diagnosticLines hline (by rw [sourceLine?_eq, hline, Option.bind_some, htext]; rfl)
  obtain hcompile | ⟨ts, p, fault, hts, hp, hfailed, rfl⟩ := failed_of_runFresh h
  · obtain ⟨line, text, hline, htext⟩ := pointsInto_of_compile hcompile
    exact ⟨line, text, hline, htext, hshown hline htext, .inl hcompile⟩
  · obtain ⟨k, b, node, hnode, hvisits, hbreaks, hline⟩ := exists_broken_node hfailed
    obtain ⟨text, htext, -⟩ := occurs_of_compile ((compile_of_tokensOf hts).trans hp) hnode
    refine ⟨node.line, text, hline, htext, hshown hline htext, .inr ?_⟩
    exact ⟨ts, p, fault, k, b, hts, hp, hfailed, rfl, node, hnode, rfl, hvisits, hbreaks,
      hbreaks.call_of_stackOverflow⟩

/-- The error of an answer, if it is one, and the machine. -/
def Answer.error? {α : Type} : Answer α → Option (Error × Machine)
  | some (.error e, m) => some (e, m)
  | _ => none

theorem Answer.eq_of_error? {α : Type} {answer : Answer α} {e : Error} {m : Machine}
    (h : answer.error? = some (e, m)) : answer = some (.error e, m) := by
  rcases answer with _ | ⟨_ | _, _⟩ <;> cases h
  rfl

/-- A negation in a function, which is called three lines further down. -/
def negationInFunction : String := "fun f(a) {
  return -a;
}

print f(nil);
"

/-- The negation is to blame and not the call. -/
theorem negationInFunction_line :
    ∃ e m', Machine.new.runFresh 9 negationInFunction = some (.error e, m') ∧
      e.line = some 2 ∧ e.sourceLine? negationInFunction = some "  return -a;" ∧
      ∃ ts p fault k b, tokensOf negationInFunction = .ok ts ∧ programOf ts = .ok p ∧
        runProgram (some maxDepth) 9 p 0 (scriptStart ts p) = .failed fault m' ∧
        ∃ node ∈ programNodes p, node.line = 2 ∧
          Visits (some maxDepth) (.start p 0 (scriptStart ts p)) k b ∧
          Breaks (some maxDepth) b node fault.cause (m'.deeper k) := by
  have hrun : (Answer.error? (Machine.new.runFresh 9 negationInFunction)).map
      (fun r => (r.1.line, r.1.sourceLine? negationInFunction)) =
        some (some 2, some "  return -a;") := by
    decide +kernel
  have hcompiles : (compile negationInFunction).isOk = true := by decide +kernel
  obtain ⟨⟨e, m'⟩, herror, heq⟩ := Option.map_eq_some_iff.mp hrun
  obtain ⟨htwo, hshown⟩ := Prod.mk.inj heq
  have hanswer := Answer.eq_of_error? herror
  obtain ⟨line, text, hline, -, -, hplace⟩ :=
    (diagnostics_point_at_source negationInFunction).2 9 e m' hanswer
  cases htwo.symm.trans hline
  obtain hcompile | ⟨ts, p, fault, k, b, hts, hp, hfailed, -, node, hnode, hnodeLine, hvisits,
    hbreaks, -⟩ := hplace
  · rw [hcompile] at hcompiles
    cases hcompiles
  · exact ⟨e, m', hanswer, htwo, hshown, ts, p, fault, k, b, hts, hp, hfailed, node, hnode,
      hnodeLine, hvisits, hbreaks⟩

end Lox
