import Lox.Proofs.Completion
import Lox.Proofs.Eval.Territory

/-!
# What a session forgets

A session that is reset gets a new root scope and starts counting at zero. The frames that were made
before are still in the heap, where nothing removes them. But the root has no parent and nothing in
it, so the frames made from now on are a territory of their own (`Lox.Territory.since`), which no
chunk leads out of and no command looks beyond.

So the session does not depend on what lies there: with any other frames in the place of the old
ones it writes, to its end, the same (`Lox.Repl.follow_reset_overlay`).
-/

namespace Lox

variable {alt : Scope → Option Frame} {m : Machine}

/-- The scopes made since there were `base` of them, and `printed` values had been printed. -/
def Territory.since (base printed : Nat) : Territory where
  code _ := True
  has _ t := base ≤ t
  start := base
  printed := printed
  code_part _ _ := trivial
  has_mono _ h := h
  has_of_lt _ h := h
  has_new h := h

/-- No frame has been made yet. -/
theorem Territory.confines_since (m : Machine) :
    (Territory.since m.heap.frames.size m.output.length).Confines m where
  start_le := Nat.le_refl _
  parent ht hp := absurd (Heap.lt_size_of_parent? hp) (Nat.not_lt.mpr ht)
  vars ht hb := absurd (Heap.lt_size_of_mem_vars hb) (Nat.not_lt.mpr ht)
  output := by
    intro v hv
    change v ∈ m.output.drop m.output.length at hv
    rw [List.drop_length] at hv
    cases hv

/-! ### Texts -/

/-- The machine that has noted how far a text compiles. -/
def Machine.noteCompile (source : String) (m : Machine) : Machine :=
  match tokensOf source with
  | .error _ => m
  | .ok ts =>
    match programOf ts with
    | .error _ => m.note (.ofTokens ts)
    | .ok p => (m.note (.ofTokens ts)).note (.parsed p.length)

/-- **A text is compiled, and then it is run.** -/
theorem Machine.runText_eq (fuel : Nat) (source : String) (s : Scope) (m : Machine) :
    m.runText fuel source s =
      match compile source with
      | .error e => some (.error e, m.noteCompile source)
      | .ok p => (runProgram (some maxDepth) fuel p s (m.noteCompile source)).answer := by
  unfold runText noteCompile compile
  cases tokensOf source with
  | error e => rfl
  | ok ts =>
    change _ = match programOf ts with | .error e => _ | .ok p => _
    dsimp only
    cases programOf ts <;> rfl

theorem Machine.noteCompile_heap (source : String) (m : Machine) :
    (m.noteCompile source).heap = m.heap := by
  unfold noteCompile
  split
  · rfl
  · split <;> rfl

theorem Machine.noteCompile_overlay (source : String) (m : Machine) :
    (m.overlay alt).noteCompile source = (m.noteCompile source).overlay alt := by
  unfold noteCompile
  split
  · rfl
  · split <;> rfl

theorem Repl.noteLook_overlay (source : String) (m : Machine) :
    noteLook source (m.overlay alt) = (noteLook source m).overlay alt := by
  unfold noteLook
  split <;> rfl

theorem Outcome.answer_onMachine {α : Type} (F : Machine → Machine) (o : Outcome α) :
    (o.onMachine F).answer = o.answer.map (Prod.map id F) := by
  cases o <;> rfl

namespace Territory

variable {T : Territory} {s : Scope}

/-- Events that have been shown do not lead anywhere. -/
theorem Confines.drained (h : T.Confines m) : T.Confines { m with events := #[] } where
  start_le := h.start_le
  parent := h.parent
  vars := h.vars
  output := by
    intro v hv
    change v ∈ List.drop T.printed [] at hv
    rw [List.drop_nil] at hv
    cases hv

/-- An event that prints nothing does not lead anywhere. -/
theorem Confines.aside (h : T.Confines m) {e : Event} (he : e.printed? = none) :
    T.Confines (m.note e) :=
  h.note fun v hv => by cases he.symm.trans hv

theorem Confines.noteLook (h : T.Confines m) (source : String) :
    T.Confines (Repl.noteLook source m) := by
  unfold Repl.noteLook
  split
  · exact h.aside rfl
  · exact h

theorem Confines.noteCompile (h : T.Confines m) (source : String) :
    T.Confines (m.noteCompile source) := by
  unfold Machine.noteCompile
  split
  · exact h
  · split
    · exact h.aside rfl
    · exact (h.aside rfl).aside rfl

section Texts

variable (hcode : ∀ stmt, T.code stmt) (hm : T.Confines m) (hs : T.has m.heap.frames.size s)
  (fuel : Nat) (source : String)
include hcode hm hs

/-- **A text has the same answer whatever lies outside of the territory.** -/
theorem runText_overlay (halt : ∀ {n t}, T.has n t → alt t = none) :
    (m.overlay alt).runText fuel source s =
      (m.runText fuel source s).map (Prod.map id (·.overlay alt)) := by
  rw [Machine.runText_eq, Machine.runText_eq, Machine.noteCompile_overlay]
  cases compile source with
  | error e => rfl
  | ok p =>
    rw [← m.noteCompile_heap source] at hs
    have hrun := runProgram_overlay halt (hm.noteCompile source) hs (some maxDepth) fuel p
      fun stmt _ => hcode stmt
    exact (congrArg Outcome.answer hrun).trans (Outcome.answer_onMachine _ _)

/-- A text does not lead out of the territory. -/
theorem confines_runText {result : Except Error (Option Value)} {m' : Machine}
    (h : m.runText fuel source s = some (result, m')) :
    T.Confines m' ∧ m.heap.frames.size ≤ m'.heap.frames.size := by
  rw [Machine.runText_eq] at h
  rw [← m.noteCompile_heap source] at hs ⊢
  have hm := hm.noteCompile source
  cases hp : compile source with
  | error e =>
    rw [hp] at h
    cases h
    exact ⟨hm, Nat.le_refl _⟩
  | ok p =>
    rw [hp] at h
    have hstays := stays_runProgram hm hs (some maxDepth) fuel p fun stmt _ => hcode stmt
    change (runProgram (some maxDepth) fuel p s (m.noteCompile source)).answer = _ at h
    generalize runProgram (some maxDepth) fuel p s (m.noteCompile source) = o at h hstays
    cases o with
    | done result m' =>
      cases h
      exact ⟨hstays.2.1, hstays.1⟩
    | failed fault m' =>
      cases h
      exact ⟨hstays.2, hstays.1⟩
    | exhausted => cases h

end Texts

end Territory

/-! ### Steps of a session -/

namespace Repl

variable {T : Territory} {r r' : Repl} {t : Transcript} {fuel : Nat} {threshold : Threshold}
  {line : String}

/-- A line that leaves the buffer open is kept. -/
theorem feed_of_incomplete (h : isComplete (r.buffer ++ line) = false) :
    r.feed fuel threshold line =
      some (.next ⟨{ r.machine with events := #[] }, r.root, r.buffer ++ line⟩
        (drain threshold (noteLook (r.buffer ++ line) r.machine)).2) := by
  rw [← drain_noteLook threshold (r.buffer ++ line), feed, if_neg (Bool.eq_false_iff.mp h)]

/-- A line that closes the buffer has it run. -/
theorem feed_of_complete (h : isComplete (r.buffer ++ line) = true) :
    r.feed fuel threshold line =
      r.runChunk fuel threshold (r.buffer ++ line) (noteLook (r.buffer ++ line) r.machine) := by
  rw [feed, if_pos h]

theorem step_of_command {c : Command} (h : r.command? line = some c) :
    r.step fuel threshold (.line line) = some (r.obey c) := by
  rw [step, h]

theorem step_of_no_command (h : r.command? line = none) :
    r.step fuel threshold (.line line) = r.feed fuel threshold line := by
  rw [step, h]

/-- What a chunk is run with, and what is left of it. -/
theorem runChunk_eq_next {chunk : String} {m : Machine}
    (h : r.runChunk fuel threshold chunk m = some (.next r' t)) :
    ∃ result m', m.runText fuel chunk r.root = some (result, m') ∧
      r' = ⟨{ m' with events := #[] }, r.root, ""⟩ := by
  obtain ⟨⟨result, m'⟩, hrun, h⟩ := Option.map_eq_some_iff.mp h
  refine ⟨result, m', hrun, ?_⟩
  rcases result with e | _ | v <;> cases h <;> rfl

theorem noteLook_heap (source : String) (m : Machine) : (noteLook source m).heap = m.heap := by
  unfold noteLook
  split <;> rfl

/-! ### Sessions in a territory -/

/-- The session with other frames in some places. -/
def overlay (r : Repl) (alt : Scope → Option Frame) : Repl :=
  { r with machine := r.machine.overlay alt }

/-- The same step, to another session. -/
def Step.map (F : Repl → Repl) : Step → Step
  | .next r t => .next (F r) t
  | .stop t => .stop t

/-- A session whose root scope is in a territory that nothing leads out of. -/
structure Inside (T : Territory) (r : Repl) : Prop where
  confines : T.Confines r.machine
  root : T.has r.machine.heap.frames.size r.root

section Commands

/-- A reset makes its root in the territory. -/
theorem Inside.reset (hr : r.Inside T) : r.reset.Inside T where
  confines := by
    have hpush : T.Confines { r.machine with heap := (r.machine.heap.push none).2 } :=
      hr.confines.push nofun
    exact hpush.of_eq rfl rfl
  root := by
    change T.has (r.machine.heap.push none).2.frames.size r.machine.heap.frames.size
    rw [Heap.size_push]
    exact T.has_new hr.confines.start_le

theorem reset_overlay (hnew : alt r.machine.heap.frames.size = none) :
    (r.overlay alt).reset = r.reset.overlay alt := by
  simp only [reset, overlay, Machine.newRoot, Machine.overlay, Heap.push_overlay hnew]

theorem varsLines_overlay (hroot : alt r.root = none) :
    (r.overlay alt).varsLines = r.varsLines := by
  have hvars : (r.overlay alt).machine.heap.vars r.root = r.machine.heap.vars r.root :=
    Heap.vars_overlay hroot
  simp only [varsLines, ← hvars]
  rfl

theorem Inside.obey_overlay (hr : r.Inside T) (halt : ∀ {n t}, T.has n t → alt t = none)
    (c : Command) : (r.overlay alt).obey c = (r.obey c).map (·.overlay alt) := by
  cases c with
  | vars =>
    rw [obey, varsLines_overlay (halt hr.root)]
    rfl
  | reset =>
    rw [obey, reset_overlay (halt (T.has_new hr.confines.start_le))]
    rfl
  | _ => rfl

theorem Inside.obey (hr : r.Inside T) {c : Command} (h : r.obey c = .next r' t) : r'.Inside T := by
  cases c with
  | quit => cases h
  | reset =>
    cases h
    exact hr.reset
  | _ =>
    cases h
    exact hr

end Commands

section Chunks

variable (hcode : ∀ stmt, T.code stmt) (hm : T.Confines m) (hs : T.has m.heap.frames.size r.root)
  (fuel : Nat) (threshold : Threshold) (chunk : String)
include hcode hm hs

theorem runChunk_overlay (halt : ∀ {n t}, T.has n t → alt t = none) :
    (r.overlay alt).runChunk fuel threshold chunk (m.overlay alt) =
      (r.runChunk fuel threshold chunk m).map (Step.map (·.overlay alt)) := by
  have hrun : (m.overlay alt).runText fuel chunk (r.overlay alt).root =
      (m.runText fuel chunk r.root).map (Prod.map id (·.overlay alt)) :=
    Territory.runText_overlay hcode hm hs fuel chunk halt
  rw [runChunk, runChunk, hrun]
  rcases m.runText fuel chunk r.root with _ | ⟨(e | _ | v), m'⟩ <;> rfl

theorem inside_runChunk (h : r.runChunk fuel threshold chunk m = some (.next r' t)) :
    r'.Inside T := by
  obtain ⟨result, m', hrun, rfl⟩ := runChunk_eq_next h
  obtain ⟨hm', hsize⟩ := Territory.confines_runText hcode hm hs fuel chunk hrun
  exact ⟨hm'.drained, T.has_mono hsize hs⟩

end Chunks

section Feeding

variable (hcode : ∀ stmt, T.code stmt) (hr : r.Inside T)
include hcode hr

theorem Inside.feed_overlay (halt : ∀ {n t}, T.has n t → alt t = none) (line : String) :
    (r.overlay alt).feed fuel threshold line =
      (r.feed fuel threshold line).map (Step.map (·.overlay alt)) := by
  have hs : T.has (noteLook (r.buffer ++ line) r.machine).heap.frames.size r.root := by
    rw [noteLook_heap]
    exact hr.root
  have hlook : noteLook (r.buffer ++ line) (r.machine.overlay alt) =
      (noteLook (r.buffer ++ line) r.machine).overlay alt := noteLook_overlay _ _
  cases hcomplete : isComplete (r.buffer ++ line) with
  | true =>
    have hrun := runChunk_overlay hcode (hr.confines.noteLook _) hs fuel threshold
      (r.buffer ++ line) halt
    rw [feed_of_complete hcomplete, feed_of_complete (r := r.overlay alt) hcomplete, ← hrun,
      ← hlook]
    rfl
  | false =>
    rw [feed_of_incomplete hcomplete, feed_of_incomplete (r := r.overlay alt) hcomplete]
    change some (Step.next _ (drain threshold (noteLook (r.buffer ++ line)
      (r.machine.overlay alt))).2) = _
    rw [hlook]
    rfl

theorem Inside.feed (h : r.feed fuel threshold line = some (.next r' t)) : r'.Inside T := by
  cases hcomplete : isComplete (r.buffer ++ line) with
  | true =>
    have hs : T.has (noteLook (r.buffer ++ line) r.machine).heap.frames.size r.root := by
      rw [noteLook_heap]
      exact hr.root
    rw [feed_of_complete hcomplete] at h
    exact inside_runChunk hcode (hr.confines.noteLook _) hs _ _ _ h
  | false =>
    rw [feed_of_incomplete hcomplete] at h
    cases h
    exact ⟨hr.confines.drained, hr.root⟩

/-- **A session in a territory takes the same step whatever lies outside of it.** -/
theorem Inside.step_overlay (halt : ∀ {n t}, T.has n t → alt t = none) (input : Input) :
    (r.overlay alt).step fuel threshold input =
      (r.step fuel threshold input).map (Step.map (·.overlay alt)) := by
  cases input with
  | invalid => rfl
  | line line =>
    cases hcommand : r.command? line with
    | some c =>
      rw [step_of_command hcommand, step_of_command (r := r.overlay alt) hcommand,
        hr.obey_overlay halt]
      rfl
    | none =>
      rw [step_of_no_command hcommand, step_of_no_command (r := r.overlay alt) hcommand,
        hr.feed_overlay hcode halt]

theorem Inside.step {input : Input} (h : r.step fuel threshold input = some (.next r' t)) :
    r'.Inside T := by
  cases input with
  | invalid => cases h
  | line line =>
    cases hcommand : r.command? line with
    | some c =>
      rw [step_of_command hcommand] at h
      exact hr.obey (Option.some_inj.mp h)
    | none =>
      rw [step_of_no_command hcommand] at h
      exact hr.feed hcode h

/-- And so it goes on to its end. -/
theorem Inside.follow_overlay (halt : ∀ {n t}, T.has n t → alt t = none) (u : Transcript)
    (inputs : List Input) :
    (r.overlay alt).follow fuel threshold u inputs = r.follow fuel threshold u inputs := by
  induction inputs generalizing r u with
  | nil => rfl
  | cons input rest ih =>
    rw [follow, follow, hr.step_overlay hcode halt]
    cases hstep : r.step fuel threshold input with
    | none => rfl
    | some next =>
      cases next with
      | stop t => rfl
      | next r' t => exact ih (hr.step hcode hstep) _

end Feeding

/-- A session that is reset is in the territory of the frames made from then on. -/
theorem inside_reset (r : Repl) : r.reset.Inside
    (.since r.machine.heap.frames.size r.machine.output.length) where
  confines := by
    have hpush : (Territory.since r.machine.heap.frames.size r.machine.output.length).Confines
        { r.machine with heap := (r.machine.heap.push none).2 } :=
      (Territory.confines_since r.machine).push nofun
    exact hpush.of_eq rfl rfl
  root := Nat.le_refl _

/-- **A reset forgets.** Whatever other frames are put in the place of the old ones, the session
writes the same from then on. -/
theorem follow_reset_overlay (halt : ∀ t, r.machine.heap.frames.size ≤ t → alt t = none)
    (u : Transcript) (inputs : List Input) :
    (r.overlay alt).reset.follow fuel threshold u inputs =
      r.reset.follow fuel threshold u inputs := by
  rw [reset_overlay (halt _ (Nat.le_refl _))]
  exact (inside_reset r).follow_overlay (fun _ => trivial) (fun ht => halt _ ht) u inputs

end Repl

end Lox
