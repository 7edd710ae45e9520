import Lox.Proofs.Diagnostics
import Mathlib.Data.Nat.Pairing

/-!
# The origin of an error in a session

The texts of a session are compiled one by one, each with its own lines, and functions outlive the
text that declares them. So the line of an error says where in a text the failing operation is
written, but not in which text. A session shows the line of that number in the text that it has
run last.

To say which text it is, let every node carry a *place* in place of a line: the number of its text
together with its line in it (`Lox.place`). A run does not look at lines, and so the session with
places does the same as the session with lines, and differs from it only in what it calls a line
(`Lox.Session.exists_placed`). Where it fails, the place of the failing operation is known.

The line that is shown is the right one if the operation is written in the text that was run last
(`Lox.session_diagnostics`). It need not be otherwise: `Lox.session_shows_other_line`.
-/

namespace Lox

/-! ### Places -/

/-- A line of the `i`-th text of a session. -/
def place (i line : Nat) : Nat := Nat.pair i line

/-- The line of a place, in the text it is in. -/
def lineAt (n : Nat) : Nat := n.unpair.2

theorem lineAt_place (i line : Nat) : lineAt (place i line) = line := by
  rw [lineAt, place, Nat.unpair_pair]

theorem lineAt_comp_place (i : Nat) : lineAt ∘ place i = id := funext (lineAt_place i)

/-- The program of the `i`-th text, with places for lines. -/
def placed (i : Nat) (p : List Stmt) : List Stmt := p.map (Stmt.relabel (place i))

/-- **The lines of a program with places are the lines of the program.** -/
theorem relabel_placed (i : Nat) (p : List Stmt) :
    (placed i p).map (Stmt.relabel lineAt) = p := by
  rw [placed, List.map_map]
  refine (List.map_congr_left fun s _ => ?_).trans (List.map_id p)
  rw [Function.comp_apply, Stmt.relabel_relabel, lineAt_comp_place, Stmt.relabel_id]
  rfl

/-! ### Nodes under other lines -/

section Nodes

variable (f : Nat → Nat)

/-- A node with other lines, in its parts too. -/
def Node.relabel : Node → Node
  | identifier name line => identifier name (f line)
  | unary op operand line => unary op (operand.relabel f) (f line)
  | binary op left right line => binary op (left.relabel f) (right.relabel f) (f line)
  | assign name value line => assign name (value.relabel f) (f line)
  | call callee args line => call (callee.relabel f) (args.map (Expr.relabel f)) (f line)
  | ret value line => ret (value.map (Expr.relabel f)) (f line)

theorem Node.line_relabel (node : Node) : (node.relabel f).line = f node.line := by
  cases node <;> rfl

mutual

theorem Expr.nodes_relabel : ∀ e : Expr, (e.relabel f).nodes = e.nodes.map (Node.relabel f)
  | literal _ => rfl
  | identifier _ _ => rfl
  | grouping inner => Expr.nodes_relabel inner
  | unary op operand line => by
    rw [relabel, nodes, nodes, List.map_cons, Expr.nodes_relabel operand, Node.relabel]
  | binary op left right line => by
    rw [relabel, nodes, nodes, List.map_cons, List.map_append, Expr.nodes_relabel left,
      Expr.nodes_relabel right, Node.relabel]
  | logical op left right => by
    rw [relabel, nodes, nodes, List.map_append, Expr.nodes_relabel left, Expr.nodes_relabel right]
  | assign name value line => by
    rw [relabel, nodes, nodes, List.map_cons, Expr.nodes_relabel value, Node.relabel]
  | call callee args line => by
    rw [relabel, nodes, nodes, List.map_cons, List.map_append, Expr.nodes_relabel callee,
      Expr.nodesAll_relabelAll args, Node.relabel, relabelAll_eq_map]

theorem Expr.nodesAll_relabelAll :
    ∀ es : List Expr, nodesAll (relabelAll f es) = (nodesAll es).map (Node.relabel f)
  | [] => rfl
  | e :: es => by
    rw [relabelAll, nodesAll, nodesAll, List.map_append, Expr.nodes_relabel e,
      Expr.nodesAll_relabelAll es]

end

theorem nodes_map_relabel (e : Option Expr) :
    (e.map (Expr.relabel f)).toList.flatMap Expr.nodes =
      (e.toList.flatMap Expr.nodes).map (Node.relabel f) := by
  cases e with
  | none => rfl
  | some e => simp [Expr.nodes_relabel]

mutual

theorem Stmt.nodes_relabel : ∀ s : Stmt, (s.relabel f).nodes = s.nodes.map (Node.relabel f)
  | var name initial => nodes_map_relabel f initial
  | function name params body => Stmt.nodesAll_relabelAll body
  | block body => Stmt.nodesAll_relabelAll body
  | branch cond yes none => by
    rw [relabel, nodes, nodes, List.map_append, Expr.nodes_relabel, Stmt.nodes_relabel yes]
  | branch cond yes (some no) => by
    rw [relabel, nodes, nodes, List.map_append, List.map_append, Expr.nodes_relabel,
      Stmt.nodes_relabel yes, Stmt.nodes_relabel no]
  | loop cond body => by
    rw [relabel, nodes, nodes, List.map_append, Expr.nodes_relabel, Stmt.nodes_relabel body]
  | print value => Expr.nodes_relabel f value
  | ret value line => by
    rw [relabel, nodes, nodes, List.map_cons, nodes_map_relabel, Node.relabel]
  | expression value => Expr.nodes_relabel f value

theorem Stmt.nodesAll_relabelAll :
    ∀ ss : List Stmt, nodesAll (relabelAll f ss) = (nodesAll ss).map (Node.relabel f)
  | [] => rfl
  | s :: ss => by
    rw [relabelAll, nodesAll, nodesAll, List.map_append, Stmt.nodes_relabel s,
      Stmt.nodesAll_relabelAll ss]

end

theorem programNodes_relabel (p : List Stmt) :
    programNodes (p.map (Stmt.relabel f)) = (programNodes p).map (Node.relabel f) := by
  rw [← Stmt.nodesAll_eq, ← Stmt.relabelAll_eq_map, Stmt.nodesAll_relabelAll, Stmt.nodesAll_eq]

end Nodes

/-! ### Sessions -/

/-- **The machines of a session**, after some texts were run in the root scope, whether or not they
compile and however their runs have ended. Events may be looked at and taken away in between. -/
inductive Session : List String → Machine → Prop
  | new : Session [] Repl.new.machine
  | text {texts : List String} {text : String} {m m' : Machine} {fuel : Nat}
      {result : Except Error (Option Value)} : Session texts m →
      m.runText fuel text Repl.new.root = some (result, m') → Session (texts ++ [text]) m'
  | events {texts : List String} {m : Machine} (events : Array Event) : Session texts m →
      Session texts { m with events }

/-- **The machines of a session with places** for lines. -/
inductive PlacedSession : List String → Machine → Prop
  | new : PlacedSession [] Repl.new.machine
  | refused {texts : List String} {text : String} {e : Error} {m : Machine} :
      PlacedSession texts m → compile text = .error e → PlacedSession (texts ++ [text]) m
  | done {texts : List String} {text : String} {p : List Stmt} {v : Option Value} {m m' : Machine}
      {fuel : Nat} : PlacedSession texts m → compile text = .ok p →
      runProgram (some maxDepth) fuel (placed texts.length p) Repl.new.root m = .done v m' →
      PlacedSession (texts ++ [text]) m'
  | failed {texts : List String} {text : String} {p : List Stmt} {fault : Located RuntimeFault}
      {m m' : Machine} {fuel : Nat} : PlacedSession texts m → compile text = .ok p →
      runProgram (some maxDepth) fuel (placed texts.length p) Repl.new.root m = .failed fault m' →
      PlacedSession (texts ++ [text]) m'
  | events {texts : List String} {m : Machine} (events : Array Event) : PlacedSession texts m →
      PlacedSession texts { m with events }

/-! ### The two sessions do the same -/

/-- A machine is another one with lines for its places. The events do not count. -/
structure Machine.Twin (m M : Machine) : Prop where
  heap : m.heap = M.heap.relabel lineAt
  made : m.made = M.made
  stats : m.stats = M.stats
  depth : m.depth = M.depth

namespace Machine

variable {m M : Machine}

theorem Twin.of_events (h : m.Twin M) (es es' : Array Event) :
    ({ m with events := es } : Machine).Twin { M with events := es' } :=
  ⟨h.heap, h.made, h.stats, h.depth⟩

theorem twin_transport (M : Machine) (es : Array Event) : (M.transport lineAt es).Twin M :=
  ⟨rfl, rfl, rfl, rfl⟩

theorem Twin.eq_transport (h : m.Twin M) :
    m = ({ M with events := #[] } : Machine).transport lineAt m.events := by
  obtain ⟨hheap, hmade, hstats, hdepth⟩ := h
  cases m
  simp_all [transport]

/-- **A program runs the same with places.** -/
theorem Twin.runProgram_eq (h : m.Twin M) (limit : Option Nat) (fuel i : Nat) (p : List Stmt)
    (s : Scope) : runProgram limit fuel p s m =
      (runProgram limit fuel (placed i p) s { M with events := #[] }).transport lineAt m.events
        (Option.map (Value.relabel lineAt)) := by
  have hfollows := @follows_runProgram lineAt m.events limit fuel (placed i p) s
    { M with events := #[] }
  rwa [relabel_placed, ← h.eq_transport] at hfollows

end Machine

/-- The two ways a text can go: it does not compile, and only events are left of it, or it runs. -/
theorem runText_cases {fuel : Nat} {text : String} {s : Scope} {m m' : Machine}
    {result : Except Error (Option Value)} (h : m.runText fuel text s = some (result, m')) :
    (∃ e events, compile text = .error e ∧ result = .error e ∧ m' = { m with events }) ∨
      ∃ p events, compile text = .ok p ∧
        (runProgram (some maxDepth) fuel p s { m with events }).answer = some (result, m') := by
  unfold Machine.runText at h
  cases hts : tokensOf text with
  | error e =>
    rw [hts] at h
    cases h
    exact .inl ⟨e, m.events, compile_of_tokensOf_error hts, rfl, rfl⟩
  | ok ts =>
    rw [hts] at h
    cases hp : programOf ts with
    | error e =>
      simp only [hp] at h
      cases h
      exact .inl ⟨e, _, (compile_of_tokensOf hts).trans hp, rfl, rfl⟩
    | ok p =>
      simp only [hp] at h
      exact .inr ⟨p, _, (compile_of_tokensOf hts).trans hp, h⟩

/-- **Every session is one with places**, seen with lines for them. -/
theorem Session.exists_placed {texts : List String} {m : Machine} (h : Session texts m) :
    ∃ M, PlacedSession texts M ∧ m.Twin M := by
  induction h with
  | new =>
    refine ⟨_, .new, ?_, rfl, rfl, rfl⟩
    simp [Repl.new, Machine.newRoot, Machine.new, Heap.push, Heap.empty, Heap.relabel,
      Frame.relabel, Bindings.relabel]
  | events es _ ih =>
    obtain ⟨M, hM, htwin⟩ := ih
    exact ⟨M, hM, htwin.of_events es M.events⟩
  | @text texts text m m' fuel result _ hrun ih =>
    obtain ⟨M, hM, htwin⟩ := ih
    obtain ⟨e, es, hcompile, -, rfl⟩ | ⟨p, es, hp, hanswer⟩ := runText_cases hrun
    · exact ⟨M, hM.refused hcompile, htwin.of_events es M.events⟩
    · have hstep := (htwin.of_events es M.events).runProgram_eq (some maxDepth) fuel texts.length p
        Repl.new.root
      rw [hstep] at hanswer
      cases hplaced : runProgram (some maxDepth) fuel (placed texts.length p) Repl.new.root
          { M with events := #[] } with
      | done v M' =>
        rw [hplaced] at hanswer
        cases hanswer
        exact ⟨M', (hM.events #[]).done hp hplaced, M'.twin_transport es⟩
      | failed fault M' =>
        rw [hplaced] at hanswer
        cases hanswer
        exact ⟨M', (hM.events #[]).failed hp hplaced, M'.twin_transport es⟩
      | exhausted =>
        rw [hplaced] at hanswer
        cases hanswer

/-! ### The code in a session -/

/-- **A node is written in a text of a session**: it is a node of the program of the `i`-th one. -/
def WrittenIn (texts : List String) (i : Nat) (node : Node) : Prop :=
  ∃ text p, texts[i]? = some text ∧ compile text = .ok p ∧ node ∈ programNodes p

/-- A node that is written in one of several texts, at its place. -/
def PlacedIn (texts : List String) (node : Node) : Prop :=
  ∃ i written, WrittenIn texts i written ∧ node = written.relabel (place i)

theorem PlacedIn.append {texts : List String} {node : Node} (h : PlacedIn texts node)
    (more : List String) : PlacedIn (texts ++ more) node := by
  obtain ⟨i, written, ⟨text, p, htext, hp, hnode⟩, rfl⟩ := h
  have hi : i < texts.length := (List.getElem?_eq_some_iff.mp htext).1
  refine ⟨i, written, ⟨text, p, ?_, hp, hnode⟩, rfl⟩
  rwa [List.getElem?_append_left hi]

theorem nodesIn_placed {text : String} {p : List Stmt} (hp : compile text = .ok p)
    (texts : List String) :
    NodesIn (PlacedIn (texts ++ [text])) (programNodes (placed texts.length p)) := by
  intro node hnode
  rw [placed, programNodes_relabel, List.mem_map] at hnode
  obtain ⟨written, hwritten, rfl⟩ := hnode
  exact ⟨texts.length, written, ⟨text, p, List.getElem?_concat_length, hp, hwritten⟩, rfl⟩

/-- **All code in a session is written in its texts.** -/
theorem PlacedSession.codeIn {texts : List String} {M : Machine} (h : PlacedSession texts M) :
    M.CodeIn (PlacedIn texts) := by
  induction h with
  | new => exact (Machine.codeIn_new.push none).of_heap rfl
  | refused _ _ ih => exact ih.mono fun node hnode => hnode.append _
  | events _ _ ih => exact ih.of_heap rfl
  | @done texts text p v m m' fuel _ hp hrun ih =>
    have hkept := codeIn_runProgram (some maxDepth) fuel (nodesIn_placed hp texts) Repl.new.root m
      (ih.mono fun node hnode => hnode.append [text])
    rw [hrun] at hkept
    exact hkept.2
  | @failed texts text p fault m m' fuel _ hp hrun ih =>
    have hkept := codeIn_runProgram (some maxDepth) fuel (nodesIn_placed hp texts) Repl.new.root m
      (ih.mono fun node hnode => hnode.append [text])
    rw [hrun] at hkept
    exact hkept

/-! ### Errors in a session -/

/-- **What fails in a session, and where it is written.** In the session with places, the text runs
behind the others and comes to an operation that cannot be done. The node of the operation is
written in the `i`-th text, which is the one that runs or one of those before it. -/
inductive FailsAt (texts : List String) (m : Machine) (fuel : Nat) (text : String)
    (complaint : Complaint) : Nat → Node → Prop
  | breaks {M M' : Machine} {p : List Stmt} {fault : Located RuntimeFault} {k i : Nat} {b : Point}
      {node : Node} : PlacedSession texts M → m.Twin M → compile text = .ok p →
      runProgram (some maxDepth) fuel (placed texts.length p) Repl.new.root M = .failed fault M' →
      fault.cause.complaint = complaint →
      Visits (some maxDepth) (.start (placed texts.length p) Repl.new.root M) k b →
      Breaks (some maxDepth) b (node.relabel (place i)) fault.cause (M'.deeper k) →
      WrittenIn (texts ++ [text]) i node → FailsAt texts m fuel text complaint i node

/-- **A run that fails in a session fails at a node of one of the texts**, and reports the line of
the node in that text. -/
theorem exists_failsAt {texts : List String} {m m' : Machine} (hsession : Session texts m)
    {fuel : Nat} {text : String} {p : List Stmt} (hp : compile text = .ok p) {es : Array Event}
    {fault : Located RuntimeFault} (h : runProgram (some maxDepth) fuel p Repl.new.root
      { m with events := es } = .failed fault m') :
    ∃ i node, FailsAt texts m fuel text fault.cause.complaint i node ∧
      fault.line = some node.line := by
  obtain ⟨M, hM, htwin⟩ := hsession.exists_placed
  have hstep := (htwin.of_events es M.events).runProgram_eq (some maxDepth) fuel texts.length p
    Repl.new.root
  rw [h] at hstep
  have hquiet : PlacedSession texts { M with events := #[] } := hM.events #[]
  cases hplaced : runProgram (some maxDepth) fuel (placed texts.length p) Repl.new.root
      { M with events := #[] } with
  | done v M' =>
    rw [hplaced] at hstep
    cases hstep
  | exhausted =>
    rw [hplaced] at hstep
    cases hstep
  | failed faultAt M' =>
    rw [hplaced] at hstep
    cases hstep
    obtain ⟨k, b, node, hvisits, hbreaks, hline⟩ := blamed_runProgram hplaced
    have hstart : (Point.start (placed texts.length p) Repl.new.root
        { M with events := #[] }).CodeIn (PlacedIn (texts ++ [text])) :=
      ⟨nodesIn_placed hp texts,
        (hquiet.codeIn.mono fun node hnode => hnode.append [text]).of_heap rfl⟩
    obtain ⟨i, written, hwritten, rfl⟩ := hbreaks.mem (hvisits.codeIn hstart).task
    refine ⟨i, written, ?_, ?_⟩
    · refine .breaks hquiet (htwin.of_events m.events #[]) hp hplaced ?_ hvisits hbreaks hwritten
      exact (RuntimeFault.complaint_relabel lineAt faultAt.cause).symm
    · rw [Located.relabel, hline, Node.line_relabel, Option.map_some, lineAt_place]

/-- **Diagnostics of a session.** An error of a text that does not compile points at a line of the
text, and that line is shown. An error of a run is that of an operation which is written in the
text that runs or in one of those before it: the line of the error is a line of *that* text, and
the operation occurs in it. What is shown is the line of this number of the text that runs. So it
is the right one if the operation is written there. -/
theorem session_diagnostics {texts : List String} {m m' : Machine} (hsession : Session texts m)
    {fuel : Nat} {text : String} {e : Error}
    (h : m.runText fuel text Repl.new.root = some (.error e, m')) :
    (compile text = .error e ∧ ∃ line written, e.line = some line ∧
      lineOf? text line = some written ∧ e.sourceLine? text = some (String.ofList written)) ∨
    ∃ i node origin written, FailsAt texts m fuel text e.cause i node ∧
      e.line = some node.line ∧ (texts ++ [text])[i]? = some origin ∧
      lineOf? origin node.line = some written ∧ node.lexeme.toList <:+: written ∧
      e.sourceLine? text = (lineOf? text node.line).map String.ofList ∧
      (i = texts.length → e.sourceLine? text = some (String.ofList written)) := by
  obtain ⟨e', es, hcompile, he, -⟩ | ⟨p, es, hp, hanswer⟩ := runText_cases h
  · cases he
    obtain ⟨line, written, hline, hwritten⟩ := pointsInto_of_compile hcompile
    refine .inl ⟨hcompile, line, written, hline, hwritten, ?_⟩
    rw [sourceLine?_eq, hline, Option.bind_some, hwritten, Option.map_some]
  · obtain ⟨fault, hfailed, he⟩ := failed_of_answer hanswer
    obtain ⟨i, node, hfails, hfaultLine⟩ := exists_failsAt hsession hp hfailed
    have hcause : e.cause = fault.cause.complaint := congrArg Located.cause he
    have hline : e.line = some node.line := (congrArg Located.line he).trans hfaultLine
    rw [← hcause] at hfails
    obtain ⟨origin, q, horigin, hq, hnode⟩ : WrittenIn (texts ++ [text]) i node := by
      cases hfails with
      | breaks _ _ _ _ _ _ _ hwritten => exact hwritten
    obtain ⟨written, hwritten, hoccurs⟩ := occurs_of_compile hq hnode
    have hshown : e.sourceLine? text = (lineOf? text node.line).map String.ofList := by
      rw [sourceLine?_eq, hline, Option.bind_some]
    refine .inr ⟨i, node, origin, written, hfails, hline, horigin, hwritten, hoccurs, hshown, ?_⟩
    -- the text that runs is the last of them
    rintro rfl
    rw [List.getElem?_concat_length] at horigin
    cases horigin
    rw [hshown, hwritten, Option.map_some]

/-- The error of a second text, after a first one in a new session. -/
def secondError? (fuel : Nat) (first second : String) : Option Error :=
  (Repl.new.machine.runText fuel first Repl.new.root).bind fun r =>
    (Answer.error? (r.2.runText fuel second Repl.new.root)).map Prod.fst

theorem session_of_secondError? {fuel : Nat} {first second : String} {e : Error}
    (h : secondError? fuel first second = some e) :
    ∃ m m', Session [first] m ∧ m.runText fuel second Repl.new.root = some (.error e, m') := by
  obtain ⟨⟨result, m⟩, hfirst, hsecond⟩ := Option.bind_eq_some_iff.mp h
  obtain ⟨⟨e', m'⟩, herror, rfl⟩ := Option.map_eq_some_iff.mp hsecond
  exact ⟨m, m', .text .new hfirst, Answer.eq_of_error? herror⟩

/-- A call fails on account of its callee, its arguments or the limit, and so not for the type of
an operand. -/
theorem Breaks.kind_ne_of_call {limit : Option Nat} {a : Point} {f : Expr} {args : List Expr}
    {line : Nat} {cause : RuntimeFault} {m' : Machine}
    (h : Breaks limit a (.call f args line) cause m') : cause.kind ≠ .wrongType := by
  cases h <;> exact nofun

/-- **A session may show a line of another text.** The negation that fails is written in the first
text, and what is shown is a line of the second, in which no negation occurs. -/
theorem session_shows_other_line :
    ∃ m m' e node, Session ["fun f() \x7b return -nil; \x7d\n"] m ∧
      m.runText 9 "f();\n" Repl.new.root = some (.error e, m') ∧
      FailsAt ["fun f() \x7b return -nil; \x7d\n"] m 9 "f();\n" e.cause 0 node ∧
      e.line = some node.line ∧ e.sourceLine? "f();\n" = some "f();" ∧
      e.sourceLine? "fun f() \x7b return -nil; \x7d\n" = some "fun f() \x7b return -nil; \x7d" := by
  have hrun : (secondError? 9 "fun f() \x7b return -nil; \x7d\n" "f();\n").map (fun e =>
      (e.cause.kind, e.sourceLine? "f();\n", e.sourceLine? "fun f() \x7b return -nil; \x7d\n")) =
      some (.wrongType, some "f();", some "fun f() \x7b return -nil; \x7d") := by
    decide +kernel
  obtain ⟨e, herror, heq⟩ := Option.map_eq_some_iff.mp hrun
  obtain ⟨hkind, hshown⟩ := Prod.mk.inj heq
  obtain ⟨hsecond, hfirst⟩ := Prod.mk.inj hshown
  obtain ⟨m, m', hsession, hanswer⟩ := session_of_secondError? herror
  have hok : compile "f();\n" = .ok [.expression (.call (.identifier "f" 1) [] 1)] := rfl
  obtain ⟨hcompile, -⟩ | ⟨i, node, origin, written, hfails, hline, -⟩ :=
    session_diagnostics hsession hanswer
  · rw [hok] at hcompile
    cases hcompile
  · have hzero : i = 0 := by
      cases hfails with
      | breaks _ _ _ _ hcomplaint _ hbreaks hwritten =>
        obtain ⟨text, q, htext, hq, hnode⟩ := hwritten
        rcases i with _ | _ | i
        · rfl
        · -- neither node of the second text could fail like this
          cases htext
          rw [hok] at hq
          cases hq
          have hnodes : node = .call (.identifier "f" 1) [] 1 ∨ node = .identifier "f" 1 := by
            simpa [programNodes, Stmt.nodes, Expr.nodes] using hnode
          rcases hnodes with rfl | rfl
          · exact absurd ((congrArg Complaint.kind hcomplaint).trans hkind) hbreaks.kind_ne_of_call
          · cases hbreaks
        · cases htext
    rw [hzero] at hfails
    exact ⟨m, m', e, node, hsession, hanswer, hfails, hline, hsecond, hfirst⟩

/-- **A session may show no line at all**, where the second text has fewer lines than the first. -/
theorem session_shows_no_line :
    ∃ m m' e, Session ["fun g() \x7b\n  return -nil;\n\x7d\n"] m ∧
      m.runText 9 "g();\n" Repl.new.root = some (.error e, m') ∧ e.line = some 2 ∧
      e.sourceLine? "g();\n" = none ∧
      e.sourceLine? "fun g() \x7b\n  return -nil;\n\x7d\n" = some "  return -nil;" := by
  have hrun : (secondError? 9 "fun g() \x7b\n  return -nil;\n\x7d\n" "g();\n").map (fun e =>
      (e.line, e.sourceLine? "g();\n",
        e.sourceLine? "fun g() \x7b\n  return -nil;\n\x7d\n")) =
      some (some 2, none, some "  return -nil;") := by
    decide +kernel
  obtain ⟨e, herror, heq⟩ := Option.map_eq_some_iff.mp hrun
  obtain ⟨hline, hshown⟩ := Prod.mk.inj heq
  obtain ⟨hsecond, hfirst⟩ := Prod.mk.inj hshown
  obtain ⟨m, m', hsession, hanswer⟩ := session_of_secondError? herror
  exact ⟨m, m', e, hsession, hanswer, hline, hsecond, hfirst⟩

end Lox
