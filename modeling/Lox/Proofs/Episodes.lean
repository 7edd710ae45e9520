import Lox.Proofs.Reset

/-!
# What becomes of the lines of a session

A session goes from line to line, and what it does with a line depends on those that it still holds.
Its course (`Lox.Repl.Course`) falls into *episodes* all the same: it obeys a single line as a
command, or it runs several lines together, as a chunk. Two things make that so. The buffer is empty
if and only if no line is pending, since nothing at all is complete
(`Lox.Unfinished.join_eq_empty_iff`), and so a command is an episode of its own; and the pending
lines have been incomplete after each of them, so that a chunk ends as soon as it can.

At every prompt the lines that have been read are those of the episodes, and behind them the pending
ones (`Lox.Repl.Course.account`). The machine and the root scope are what the episodes make of them,
one after the other; the pending lines have no part in it yet.
-/

namespace Lox

/-! ### Lines that are run together -/

/-- **Lines that a session waits with**: they are incomplete after each of them, and the first one
is no command. -/
structure Unfinished (lines : List String) : Prop where
  incomplete : ∀ front, front <+: lines → front ≠ [] → isComplete (String.join front) = false
  head : ∀ line ∈ lines.head?, ¬[':'] <+: line.toList

/-- **A chunk**: lines that are complete after the last of them, and not before. The first one is no
command, whatever the others begin with. -/
structure IsChunk (lines : List String) : Prop where
  complete : isComplete (String.join lines) = true
  incomplete : ∀ front, front <+: lines → front ≠ [] → front ≠ lines →
    isComplete (String.join front) = false
  head : ∃ line ∈ lines.head?, ¬[':'] <+: line.toList

theorem isComplete_empty : isComplete "" = true := by decide

namespace Unfinished

variable {pending : List String} {line : String}

theorem nil : Unfinished [] where
  incomplete _ hfront hne := absurd (List.prefix_nil.mp hfront) hne
  head := nofun

/-- Where nothing is pending there is nothing in the buffer, and only there. -/
theorem join_eq_empty_iff (h : Unfinished pending) : String.join pending = "" ↔ pending = [] := by
  refine ⟨fun hempty => ?_, fun hnil => by rw [hnil]; rfl⟩
  by_contra hne
  have hincomplete := h.incomplete pending List.prefix_rfl hne
  rw [hempty, isComplete_empty] at hincomplete
  cases hincomplete

/-- The first line of all is no command. -/
theorem head_append (h : Unfinished pending)
    (hline : String.join pending = "" → ¬[':'] <+: line.toList) :
    ∃ first ∈ (pending ++ [line]).head?, ¬[':'] <+: first.toList := by
  cases pending with
  | nil => exact ⟨line, rfl, hline rfl⟩
  | cons first rest => exact ⟨first, rfl, h.head first rfl⟩

theorem append (h : Unfinished pending)
    (hline : String.join pending = "" → ¬[':'] <+: line.toList)
    (hopen : isComplete (String.join (pending ++ [line])) = false) :
    Unfinished (pending ++ [line]) where
  incomplete front hfront hne := by
    rcases List.prefix_concat_iff.mp hfront with rfl | hfront
    · exact hopen
    · exact h.incomplete front hfront hne
  head first hfirst := by
    obtain ⟨first', hfirst', hcolon⟩ := h.head_append hline
    cases hfirst.symm.trans hfirst'
    exact hcolon

theorem isChunk (h : Unfinished pending)
    (hline : String.join pending = "" → ¬[':'] <+: line.toList)
    (hclosed : isComplete (String.join (pending ++ [line])) = true) :
    IsChunk (pending ++ [line]) where
  complete := hclosed
  incomplete front hfront hne hne' := by
    rcases List.prefix_concat_iff.mp hfront with rfl | hfront
    · exact absurd rfl hne'
    · exact h.incomplete front hfront hne
  head := h.head_append hline

end Unfinished

/-! ### Episodes -/

/-- **What a session does with lines.** -/
inductive Episode
  /-- It obeys a line as a command. -/
  | command (line : String) (c : Command)
  /-- It runs several lines together. -/
  | chunk (lines : List String)

namespace Episode

/-- The lines of an episode. -/
def lines : Episode → List String
  | command line _ => [line]
  | chunk lines => lines

/-- The lines that are run. -/
def chunk? : Episode → Option (List String)
  | command _ _ => none
  | chunk lines => some lines

/-- The session is reset. -/
def IsReset (e : Episode) : Prop := ∃ line, e = command line .reset

/-- An episode as it can be: a command is the one that the line names, and does not end the
session. -/
def Proper : Episode → Prop
  | command line c => [':'] <+: line.toList ∧ .ofLine line = c ∧ c ≠ .quit
  | chunk lines => IsChunk lines

end Episode

namespace Repl

variable {r r' : Repl} {fuel : Nat} {threshold : Threshold} {line : String} {c : Command}
  {t : Transcript}

/-- The session without the lines that it holds. -/
def idle (r : Repl) : Repl := { r with buffer := "" }

/-- The session after lines have been run in its root scope. -/
def runLines (fuel : Nat) (r : Repl) (lines : List String) : Option Repl :=
  ((noteLook (String.join lines) r.machine).runText fuel (String.join lines) r.root).map
    fun (_, m) => { r with machine := { m with events := #[] } }

/-- **What an episode makes of a session** that holds no lines. -/
def undergo (fuel : Nat) (r : Repl) : Episode → Option Repl
  | .command _ .reset => some r.reset
  | .command _ _ => some r
  | .chunk lines => r.runLines fuel lines

/-- A session obeys every command but `:quit`, and goes on as the episode says. -/
theorem obey_eq_next (h : r.obey c = .next r' t) (fuel : Nat) (line : String) :
    c ≠ .quit ∧ r.undergo fuel (.command line c) = some r' ∧ r'.buffer = r.buffer ∧
      r'.machine.events = r.machine.events := by
  cases c with
  | quit => cases h
  | _ =>
    cases h
    exact ⟨nofun, rfl, rfl, rfl⟩

theorem exists_obey_eq_next (hc : c ≠ .quit) (r : Repl) : ∃ r' t, r.obey c = .next r' t := by
  cases c with
  | quit => exact absurd rfl hc
  | _ => exact ⟨_, _, rfl⟩

/-- A chunk does not end the session. -/
theorem runChunk_eq_none_or (r : Repl) (fuel : Nat) (threshold : Threshold) (chunk : String)
    (m : Machine) : m.runText fuel chunk r.root = none ∨
      ∃ r' t, r.runChunk fuel threshold chunk m = some (.next r' t) := by
  rw [runChunk]
  rcases m.runText fuel chunk r.root with _ | ⟨e | _ | v, m'⟩
  · exact .inl rfl
  all_goals exact .inr ⟨_, _, rfl⟩

/-! ### The course of a session -/

/-- **The course of a session**: the lines that have been read, what has been done with them, the
lines that are pending, the session, and what it has written. -/
inductive Course (fuel : Nat) (threshold : Threshold) :
    List String → List Episode → List String → Repl → Transcript → Prop
  /-- It begins. -/
  | new : Course fuel threshold [] [] [] .new (Transcript.empty.write banner)
  /-- A line is obeyed. -/
  | command {lines es pending r u line c r' t} : Course fuel threshold lines es pending r u →
      r.command? line = some c → r.obey c = .next r' t →
      Course fuel threshold (lines ++ [line]) (es ++ [.command line c]) pending r'
        ((u.write r.prompt).append t)
  /-- A line is added to the pending ones. -/
  | wait {lines es pending r u line r' t} : Course fuel threshold lines es pending r u →
      r.command? line = none → isComplete (r.buffer ++ line) = false →
      r.feed fuel threshold line = some (.next r' t) →
      Course fuel threshold (lines ++ [line]) es (pending ++ [line]) r'
        ((u.write r.prompt).append t)
  /-- The pending lines are run with one more. -/
  | chunk {lines es pending r u line r' t} : Course fuel threshold lines es pending r u →
      r.command? line = none → isComplete (r.buffer ++ line) = true →
      r.runChunk fuel threshold (r.buffer ++ line) (noteLook (r.buffer ++ line) r.machine) =
        some (.next r' t) →
      Course fuel threshold (lines ++ [line]) (es ++ [.chunk (pending ++ [line])]) [] r'
        ((u.write r.prompt).append t)

/-- **Where the course of a session ends**: at the end of the input, at a command or at a line that
is no text, or at a chunk whose run does not end. -/
inductive Ends (fuel : Nat) (r : Repl) : List Input → Prop
  | eof : Ends fuel r []
  | quit {line : String} {rest : List Input} : r.command? line = some .quit →
      Ends fuel r (.line line :: rest)
  | invalid {rest : List Input} : Ends fuel r (.invalid :: rest)
  | endless {line : String} {rest : List Input} : r.command? line = none →
      isComplete (r.buffer ++ line) = true →
      (noteLook (r.buffer ++ line) r.machine).runText fuel (r.buffer ++ line) r.root = none →
      Ends fuel r (.line line :: rest)

theorem follow_of_step {input : Input} (h : r.step fuel threshold input = some (.next r' t))
    (u : Transcript) (rest : List Input) :
    r.follow fuel threshold u (input :: rest) =
      r'.follow fuel threshold ((u.write r.prompt).append t) rest := by
  rw [follow, h]

section Courses

variable {lines pending : List String} {es : List Episode} {u : Transcript}

/-- **A session that has read the lines of a course is where the course says.** -/
theorem Course.run_eq (h : Course fuel threshold lines es pending r u) (rest : List Input) :
    run fuel threshold (lines.map .line ++ rest) = r.follow fuel threshold u rest := by
  induction h generalizing rest with
  | new => rfl
  | command _ hcommand hobey ih =>
    rw [List.map_append, List.append_assoc]
    exact (ih _).trans (follow_of_step ((step_of_command hcommand).trans (congrArg some hobey)) _ _)
  | wait _ hnone _ hfeed ih =>
    rw [List.map_append, List.append_assoc]
    exact (ih _).trans (follow_of_step ((step_of_no_command hnone).trans hfeed) _ _)
  | chunk _ hnone hcomplete hrun ih =>
    rw [List.map_append, List.append_assoc]
    have hfeed := (feed_of_complete hcomplete).trans hrun
    exact (ih _).trans (follow_of_step ((step_of_no_command hnone).trans hfeed) _ _)

/-- The course goes on with an input, up to where the session ends. -/
def Finishes (fuel : Nat) (threshold : Threshold) (lines : List String) (inputs : List Input) :
    Prop :=
  ∃ more es pending r u rest, inputs = more.map .line ++ rest ∧
    Course fuel threshold (lines ++ more) es pending r u ∧ Ends fuel r rest

theorem Course.finishes_here (h : Course fuel threshold lines es pending r u) {rest : List Input}
    (hends : Ends fuel r rest) : Finishes fuel threshold lines rest :=
  ⟨[], es, pending, r, u, rest, rfl, by rwa [List.append_nil], hends⟩

theorem Finishes.cons {inputs : List Input}
    (h : Finishes fuel threshold (lines ++ [line]) inputs) :
    Finishes fuel threshold lines (.line line :: inputs) := by
  obtain ⟨more, es, pending, r, u, rest, rfl, hcourse, hends⟩ := h
  refine ⟨line :: more, es, pending, r, u, rest, rfl, ?_, hends⟩
  rwa [List.append_cons]

/-- **Every input has a course**, up to where the session ends. -/
theorem Course.finishes (h : Course fuel threshold lines es pending r u) (inputs : List Input) :
    Finishes fuel threshold lines inputs := by
  induction inputs generalizing lines es pending r u with
  | nil => exact h.finishes_here .eof
  | cons input inputs ih =>
    cases input with
    | invalid => exact h.finishes_here .invalid
    | line line =>
      cases hcommand : r.command? line with
      | some c =>
        by_cases hc : c = .quit
        · exact h.finishes_here (.quit (hc ▸ hcommand))
        · obtain ⟨r', t, hobey⟩ := exists_obey_eq_next hc r
          exact (ih (h.command hcommand hobey)).cons
      | none =>
        cases hcomplete : isComplete (r.buffer ++ line) with
        | false => exact (ih (h.wait hcommand hcomplete (feed_of_incomplete hcomplete))).cons
        | true =>
          obtain hrun | ⟨r', t, hrun⟩ := r.runChunk_eq_none_or fuel threshold (r.buffer ++ line)
            (noteLook (r.buffer ++ line) r.machine)
          · exact h.finishes_here (.endless hcommand hcomplete hrun)
          · exact (ih (h.chunk hcommand hcomplete hrun)).cons

/-- Nothing is read behind the end. -/
theorem Ends.follow_eq {rest : List Input} (h : Ends fuel r rest) (threshold : Threshold)
    (u : Transcript) :
    r.follow fuel threshold u rest = r.follow fuel threshold u (rest.take 1) := by
  cases h with
  | eof => rfl
  | @quit line rest hcommand =>
    change r.follow fuel threshold u (.line line :: rest) = r.follow fuel threshold u [.line line]
    rw [follow, follow, step_of_command hcommand]
    rfl
  | invalid => rfl
  | @endless line rest hnone hcomplete hrun =>
    have hstep : r.step fuel threshold (.line line) = none := by
      rw [step_of_no_command hnone, feed_of_complete hcomplete, runChunk, hrun]
      rfl
    change r.follow fuel threshold u (.line line :: rest) = r.follow fuel threshold u [.line line]
    rw [follow, follow, hstep]

/-! ### The account -/

/-- **The account of a session** at a prompt. -/
structure Account (fuel : Nat) (lines : List String) (es : List Episode) (pending : List String)
    (r : Repl) : Prop where
  /-- Every line that has been read is in an episode or pending, once and in its place. -/
  lines_eq : lines = es.flatMap Episode.lines ++ pending
  /-- The buffer holds the pending lines. -/
  buffer_eq : r.buffer = String.join pending
  unfinished : Unfinished pending
  episodes : ∀ e ∈ es, e.Proper
  /-- The machine and the root scope are what the episodes have made of those of a new session. -/
  state : es.foldlM (undergo fuel) .new = some r.idle
  /-- Everything that happened has been shown. -/
  events : r.machine.events = #[]

theorem idle_eq_self (h : r.buffer = "") : r.idle = r := by
  rw [idle, ← h]

/-- One more episode. -/
theorem foldlM_undergo_concat {e : Episode} {r₀ r₁ : Repl}
    (hes : es.foldlM (undergo fuel) r₀ = some r₁) (he : r₁.undergo fuel e = some r') :
    (es ++ [e]).foldlM (undergo fuel) r₀ = some r' := by
  rw [List.foldlM_append, hes]
  change (r₁.undergo fuel e >>= pure) = some r'
  rw [he]
  rfl

namespace Account

theorem new : Account fuel [] [] [] .new where
  lines_eq := rfl
  buffer_eq := rfl
  unfinished := .nil
  episodes := nofun
  state := rfl
  events := rfl

theorem idle_eq (h : Account fuel lines es pending r) :
    r.idle = ⟨{ r.machine with events := #[] }, r.root, ""⟩ := by
  rw [← h.events]
  rfl

/-- What the buffer will hold. -/
theorem buffer_append (h : Account fuel lines es pending r) (line : String) :
    r.buffer ++ line = String.join (pending ++ [line]) := by
  rw [h.buffer_eq, String.join_append, String.join_cons, String.join_nil, String.append_empty]

/-- A command is an episode by itself, since no line is pending where the buffer is empty. -/
theorem command (h : Account fuel lines es pending r) (hcommand : r.command? line = some c)
    (hobey : r.obey c = .next r' t) :
    Account fuel (lines ++ [line]) (es ++ [.command line c]) pending r' := by
  obtain ⟨⟨hbuffer, hcolon⟩, hname⟩ := command?_eq_some_iff.mp hcommand
  obtain ⟨hquit, hundergo, hbuffer', hevents⟩ := obey_eq_next hobey fuel line
  obtain rfl := h.unfinished.join_eq_empty_iff.mp (h.buffer_eq ▸ hbuffer)
  have hstate := h.state
  rw [idle_eq_self hbuffer] at hstate
  refine ⟨?_, hbuffer'.trans h.buffer_eq, .nil, ?_, ?_, hevents.trans h.events⟩
  · simp [h.lines_eq, Episode.lines]
  · exact List.forall_mem_append.mpr
      ⟨h.episodes, List.forall_mem_singleton.mpr ⟨hcolon, hname, hquit⟩⟩
  · rw [idle_eq_self (hbuffer'.trans hbuffer)]
    exact foldlM_undergo_concat hstate hundergo

/-- A line that is added to the pending ones changes nothing else. -/
theorem wait (h : Account fuel lines es pending r) (hnone : r.command? line = none)
    (hopen : isComplete (r.buffer ++ line) = false)
    (hfeed : r.feed fuel threshold line = some (.next r' t)) :
    Account fuel (lines ++ [line]) es (pending ++ [line]) r' := by
  rw [feed_of_incomplete hopen] at hfeed
  cases hfeed
  have hbuffer := h.buffer_append line
  refine ⟨?_, hbuffer, h.unfinished.append ?_ (hbuffer ▸ hopen), h.episodes, ?_, rfl⟩
  · rw [h.lines_eq, List.append_assoc]
  · rw [← h.buffer_eq]
    exact command?_eq_none_iff.mp hnone
  · exact h.state.trans (congrArg some h.idle_eq)

/-- The lines of a chunk have been pending, but for the last one. -/
theorem chunk (h : Account fuel lines es pending r) (hnone : r.command? line = none)
    (hclosed : isComplete (r.buffer ++ line) = true)
    (hrun : r.runChunk fuel threshold (r.buffer ++ line)
      (noteLook (r.buffer ++ line) r.machine) = some (.next r' t)) :
    Account fuel (lines ++ [line]) (es ++ [.chunk (pending ++ [line])]) [] r' := by
  obtain ⟨result, m', htext, rfl⟩ := runChunk_eq_next hrun
  rw [h.buffer_append] at hclosed htext
  have hline : String.join pending = "" → ¬[':'] <+: line.toList := by
    rw [← h.buffer_eq]
    exact command?_eq_none_iff.mp hnone
  refine ⟨?_, rfl, .nil, ?_, ?_, rfl⟩
  · simp [h.lines_eq, Episode.lines]
  · exact List.forall_mem_append.mpr
      ⟨h.episodes, List.forall_mem_singleton.mpr (h.unfinished.isChunk hline hclosed)⟩
  · refine foldlM_undergo_concat h.state ?_
    change runLines fuel r.idle (pending ++ [line]) = _
    rw [runLines]
    change Option.map _ ((noteLook _ r.machine).runText fuel _ r.root) = _
    rw [htext]
    rfl

end Account

/-- **At every prompt the account is right.** -/
theorem Course.account (h : Course fuel threshold lines es pending r u) :
    Account fuel lines es pending r := by
  induction h with
  | new => exact .new
  | command _ hcommand hobey ih => exact ih.command hcommand hobey
  | wait _ hnone hopen hfeed ih => exact ih.wait hnone hopen hfeed
  | chunk _ hnone hclosed hrun ih => exact ih.chunk hnone hclosed hrun

/-! ### What a chunk is run on -/

/-- Commands other than a reset have no part in what is left of a session. -/
theorem foldlM_undergo_of_no_reset (hes : ∀ e ∈ es, ¬e.IsReset) (r : Repl) :
    es.foldlM (undergo fuel) r = (es.filterMap Episode.chunk?).foldlM (runLines fuel) r := by
  induction es generalizing r with
  | nil => rfl
  | cons e es ih =>
    obtain ⟨he, hmore⟩ := List.forall_mem_cons.mp hes
    cases e with
    | chunk lines =>
      change (r.runLines fuel lines >>= fun r => es.foldlM (undergo fuel) r) =
        r.runLines fuel lines >>= fun r => (es.filterMap Episode.chunk?).foldlM (runLines fuel) r
      exact congrArg _ (funext (ih hmore))
    | command line c =>
      have hsame : r.undergo fuel (.command line c) = some r := by
        cases c with
        | reset => exact absurd ⟨line, rfl⟩ he
        | _ => rfl
      rw [List.foldlM_cons, hsame]
      exact ih hmore r

/-- **What is left of a session since it was reset last**: what the chunks since then have made of a
session that has just been reset. -/
theorem Account.since_reset (h : Account fuel lines es pending r) {before after : List Episode}
    {line : String} (hes : es = before ++ .command line .reset :: after)
    (hafter : ∀ e ∈ after, ¬e.IsReset) :
    ∃ r₀, before.foldlM (undergo fuel) .new = some r₀ ∧
      (after.filterMap Episode.chunk?).foldlM (runLines fuel) r₀.reset = some r.idle := by
  have hstate := h.state
  rw [hes, List.foldlM_append] at hstate
  obtain ⟨r₀, hbefore, hrest⟩ := Option.bind_eq_some_iff.mp hstate
  refine ⟨r₀, hbefore, ?_⟩
  rw [← foldlM_undergo_of_no_reset hafter]
  exact hrest

/-! ### What leaves a session as it is -/

theorem exists_step_of_command (hcommand : r.command? line = some c) (hquit : c ≠ .quit)
    (hreset : c ≠ .reset) : ∃ t, r.step fuel threshold (.line line) = some (.next r t) := by
  rw [step_of_command hcommand]
  cases c with
  | quit => exact absurd rfl hquit
  | reset => exact absurd rfl hreset
  | _ => exact ⟨_, rfl⟩

theorem drain_noteCompile (threshold : Threshold) (source : String) (m : Machine) :
    (drain threshold (m.noteCompile source)).1 = { m with events := #[] } := by
  unfold Machine.noteCompile
  split
  · rfl
  · split <;> rfl

theorem exists_step_of_error (hnone : r.command? line = none)
    (hcomplete : isComplete (r.buffer ++ line) = true) {e : Error}
    (he : compile (r.buffer ++ line) = .error e) :
    ∃ t, r.step fuel threshold (.line line) =
      some (.next ⟨{ r.machine with events := #[] }, r.root, ""⟩ t) := by
  have hdrained : (drain threshold ((noteLook (r.buffer ++ line) r.machine).noteCompile
      (r.buffer ++ line))).1 = { r.machine with events := #[] } :=
    (drain_noteCompile threshold _ _).trans (drain_noteLook threshold _ _)
  rw [step_of_no_command hnone, feed_of_complete hcomplete, runChunk, Machine.runText_eq, he,
    ← hdrained]
  exact ⟨_, rfl⟩

/-- **What is so at every prompt** of a session. -/
structure Prompt (fuel : Nat) (threshold : Threshold) (lines : List String) (es : List Episode)
    (pending : List String) (r : Repl) : Prop extends Account fuel lines es pending r where
  /-- No line behind a pending one is a command. -/
  inside : pending ≠ [] → ∀ line, r.command? line = none
  /-- The pending lines are run as soon as one more completes them. -/
  hands : ∀ line, r.command? line = none → isComplete (String.join (pending ++ [line])) = true →
    r.step fuel threshold (.line line) = r.runChunk fuel threshold (String.join (pending ++ [line]))
      (noteLook (String.join (pending ++ [line])) r.machine)
  /-- Chunks that were run since the last reset are all that the machine and the root scope come
  from. -/
  since : ∀ before line after, es = before ++ .command line .reset :: after →
    (∀ e ∈ after, ¬e.IsReset) → ∃ r₀, before.foldlM (undergo fuel) .new = some r₀ ∧
      (after.filterMap Episode.chunk?).foldlM (runLines fuel) r₀.reset = some r.idle
  /-- They come from a new session if there was no reset. -/
  ever : (∀ e ∈ es, ¬e.IsReset) →
    (es.filterMap Episode.chunk?).foldlM (runLines fuel) .new = some r.idle
  /-- A command changes nothing, but for a reset. -/
  obeys : ∀ line c, r.command? line = some c → c ≠ .quit → c ≠ .reset →
    ∃ t, r.step fuel threshold (.line line) = some (.next r t)
  /-- A chunk that does not compile changes nothing, but that its lines are gone. -/
  refuses : ∀ line e, r.command? line = none → isComplete (r.buffer ++ line) = true →
    compile (r.buffer ++ line) = .error e →
    ∃ t, r.step fuel threshold (.line line) = some (.next r.idle t)

theorem Course.prompt (h : Course fuel threshold lines es pending r u) :
    Prompt fuel threshold lines es pending r where
  toAccount := h.account
  inside hne line := by
    refine command?_eq_none_iff.mpr fun hbuffer => absurd ?_ hne
    exact h.account.unfinished.join_eq_empty_iff.mp (h.account.buffer_eq ▸ hbuffer)
  hands line hnone hcomplete := by
    rw [← h.account.buffer_append] at hcomplete ⊢
    exact (step_of_no_command hnone).trans (feed_of_complete hcomplete)
  since _ _ _ hes hafter := h.account.since_reset hes hafter
  ever hes := (foldlM_undergo_of_no_reset hes .new).symm.trans h.account.state
  obeys _ _ hcommand hquit hreset := exists_step_of_command hcommand hquit hreset
  refuses line e hnone hcomplete he := by
    rw [h.account.idle_eq]
    exact exists_step_of_error hnone hcomplete he

/-- **A reset is a new beginning**: an empty root scope of its own, no counts, and nothing that is
written from then on depends on what the scopes of before hold. The calls that are active stay as
they are. -/
structure Renewed (fuel : Nat) (threshold : Threshold) (r : Repl) : Prop where
  vars : r.reset.machine.heap.vars r.reset.root = []
  parent : r.reset.machine.heap.parent? r.reset.root = none
  stats : r.reset.machine.stats = .zero
  depth : r.reset.machine.depth = r.machine.depth
  forgets : ∀ alt : Scope → Option Frame, (∀ t, r.machine.heap.frames.size ≤ t → alt t = none) →
    ∀ u inputs, (r.overlay alt).reset.follow fuel threshold u inputs =
      r.reset.follow fuel threshold u inputs

theorem renewed (fuel : Nat) (threshold : Threshold) (r : Repl) : r.Renewed fuel threshold where
  vars := by
    change (r.machine.heap.push none).2.vars r.machine.heap.frames.size = []
    rw [Heap.vars_push]
    exact List.eq_nil_iff_forall_not_mem.mpr fun _ hb =>
      Nat.lt_irrefl _ (Heap.lt_size_of_mem_vars hb)
  parent := by
    change (r.machine.heap.push none).2.parent? r.machine.heap.frames.size = none
    rw [Heap.parent?_push, if_pos rfl]
  stats := rfl
  depth := rfl
  forgets _ halt u inputs := follow_reset_overlay halt u inputs

end Courses

end Repl

/-- **A session loses and repeats no line of its input.** Up to where it ends its lines are those of
its episodes, in order, and those that are pending at the end; a chunk ends as soon as it is
complete, and of its lines none but the first could have been a command. What a chunk finds is what
the chunks before it have left since the last reset, and neither the other commands nor a chunk that
does not compile leave anything. -/
theorem sessions_lose_no_line (fuel : Nat) (threshold : Threshold) :
    (∀ inputs : List Input, ∃ lines es pending r u rest, inputs = lines.map .line ++ rest ∧
      Repl.Course fuel threshold lines es pending r u ∧ Repl.Ends fuel r rest ∧
      Repl.run fuel threshold inputs = r.follow fuel threshold u (rest.take 1)) ∧
      (∀ lines es pending r u, Repl.Course fuel threshold lines es pending r u →
        Repl.Prompt fuel threshold lines es pending r) ∧
      (∀ (r : Repl) (line : String) (c : Command), r.command? line = some c ↔
        (r.buffer = "" ∧ [':'] <+: line.toList) ∧ .ofLine line = c) ∧
      ∀ r : Repl, r.Renewed fuel threshold := by
  refine ⟨fun inputs => ?_, fun _ _ _ _ _ h => h.prompt, fun _ _ _ => Repl.command?_eq_some_iff,
    Repl.renewed fuel threshold⟩
  have hnew : Repl.Course fuel threshold [] [] [] .new (Transcript.empty.write Repl.banner) := .new
  obtain ⟨lines, es, pending, r, u, rest, rfl, hcourse, hends⟩ := hnew.finishes inputs
  refine ⟨lines, es, pending, r, u, rest, rfl, hcourse, hends, ?_⟩
  rw [← hends.follow_eq]
  exact hcourse.run_eq rest

/-- The second line of a function would be a command if it were the first one. As it is the two are
run together, and since they do not scan they leave nothing. -/
theorem reset_inside_chunk :
    let first := "fun f() \x7b\n"
    let second := ":reset\n"
    ∃ r u t, Repl.Course 1 .standard [first] [] [first] r u ∧
      Repl.new.command? second = some .reset ∧ r.command? second = none ∧
      r.step 1 .standard (.line second) = some (.next r.idle t) := by
  intro first second
  obtain ⟨-, hprompt, -, -⟩ := sessions_lose_no_line 1 .standard
  have hopen : isComplete (Repl.new.buffer ++ first) = false := by decide
  have hnew : Repl.Course 1 .standard [] [] [] .new (Transcript.empty.write Repl.banner) := .new
  have hcourse := hnew.wait (by decide) hopen (Repl.feed_of_incomplete hopen)
  have h := hprompt _ _ _ _ _ hcourse
  have hnone := h.inside nofun second
  obtain ⟨e, he⟩ : ∃ e, compile (first ++ second) = .error e := by
    simp only [first, second]
    exact ⟨_, rfl⟩
  obtain ⟨t, hstep⟩ := h.refuses second e hnone (by decide) he
  exact ⟨_, _, t, hcourse, by decide, hnone, hstep⟩

end Lox
