import Lox.Diagnostic
import Lox.Log
import Lox.Source
import Lox.Text.Blank

/-!
# The interactive session

Lines are collected in a buffer until all parentheses and braces in it are closed; then
the buffer, a *chunk*, is run in the root scope of the session, which all chunks share.
A line that begins with a colon is a command, but only while the buffer is empty.

`Repl.step` takes a session from one line of input to the next, and `Repl.run` follows a
whole input.
-/

namespace Lox

/-- How many more tokens of the first kind there are than of the second. -/
def surplus (opening closing : TokenKind) (tokens : List Token) : Int :=
  (tokens.countP (·.kind == opening) : Int) - tokens.countP (·.kind == closing)

/-- Whether no parenthesis and no brace waits for its partner, by their numbers alone. -/
def closed (tokens : List Token) : Bool :=
  surplus .leftParen .rightParen tokens ≤ 0 && surplus .leftBrace .rightBrace tokens ≤ 0

/-- Whether a text can be run as it is. A text that does not scan is complete, so that its
error is reported at once. -/
def isComplete (source : String) : Bool :=
  match tokensOf source with
  | .ok tokens => closed tokens
  | .error _ => true

/-- The commands of a session. -/
inductive Command
  | quit | help | vars | stats | reset | unknown
deriving DecidableEq

/-- The command of a name. -/
def Command.ofName : String → Command
  | ":quit" | ":q" | ":exit" => quit
  | ":help" | ":h" => help
  | ":vars" => vars
  | ":stats" => stats
  | ":reset" => reset
  | _ => unknown

namespace Command

/-- The names that a command goes by. -/
def names : Command → List String
  | quit => [":quit", ":q", ":exit"]
  | help => [":help", ":h"]
  | vars => [":vars"]
  | stats => [":stats"]
  | reset => [":reset"]
  | unknown => []

theorem ofName_of_mem_names {c : Command} : ∀ name ∈ c.names, ofName name = c := by
  cases c <;> decide

theorem mem_names_ofName {name : String} : ofName name ≠ unknown → name ∈ (ofName name).names := by
  unfold ofName
  split <;> first | decide | exact fun h => absurd rfl h

/-- **A command is given by one of its names**, and by nothing else. -/
theorem ofName_eq_iff {c : Command} (hc : c ≠ unknown) {name : String} :
    ofName name = c ↔ name ∈ c.names := by
  refine ⟨?_, ofName_of_mem_names name⟩
  rintro rfl
  exact mem_names_ofName hc

theorem ofName_eq_reset_iff {name : String} : ofName name = reset ↔ name = ":reset" :=
  (ofName_eq_iff (c := reset) (by decide)).trans List.mem_singleton

theorem ofName_eq_quit_iff {name : String} :
    ofName name = quit ↔ name = ":quit" ∨ name = ":q" ∨ name = ":exit" := by
  rw [ofName_eq_iff (by decide)]
  simp only [names, List.mem_cons, List.not_mem_nil, or_false]

end Command

/-- The state of a session. -/
structure Repl where
  /-- The machine all chunks run on. -/
  machine : Machine
  /-- The scope all chunks run in. -/
  root : Scope
  /-- The lines of a chunk that is not complete yet. -/
  buffer : String

/-- One reading of the input. -/
inductive Input
  /-- A line, with its line end. -/
  | line (text : String)
  /-- A line that is not text. -/
  | invalid
deriving DecidableEq

/-- What a session does next. -/
inductive Repl.Step
  /-- It goes on. -/
  | next (r : Repl) (t : Transcript)
  /-- It ends. -/
  | stop (t : Transcript)

namespace Repl

/-- A session that has just begun. -/
def new : Repl :=
  let (root, machine) := Machine.new.newRoot
  ⟨machine, root, ""⟩

/-- The line that greets the user. -/
def banner : String :=
  coloured .green (bold "jlox REPL. Type :help for help, :quit to exit.") ++ "\n"

/-- What asks for the next line. -/
def prompt (r : Repl) : String :=
  coloured .cyan (if r.buffer.isEmpty then "jlox> " else "... > ")

/-- The command on a line. -/
def command? (r : Repl) (line : String) : Option Command :=
  let trimmed := dropTrailingBlanks line.toList
  if r.buffer.isEmpty && trimmed.head? == some ':' then
    some (.ofName (String.ofList trimmed))
  else none

/-! ### Commands -/

/-- The text of `:help`. -/
def helpLines : List String :=
  [bold "Commands:",
   "  " ++ coloured .yellow ":help" ++ "   Show this help",
   "  " ++ coloured .yellow ":quit" ++ "   Exit the REPL (also :q, :exit)",
   "  " ++ coloured .yellow ":vars" ++ "   List top-level variables",
   "  " ++ coloured .yellow ":stats" ++ "  Show execution statistics",
   "  " ++ coloured .yellow ":reset" ++ "  Clear variables and statistics",
   "Type statements to run them. Input continues while braces or parentheses are open."]

/-- The text of `:vars`. -/
def varsLines (r : Repl) : List String :=
  match Bindings.sorted (r.machine.heap.vars r.root) with
  | [] => [dimmed "<no vars>"]
  | vars => vars.map fun (name, v) => coloured .yellow name ++ " = " ++ coloured .blue v.text

/-- The text of `:stats`. -/
def statsLines (s : Stats) : List String :=
  [coloured .yellow "statements" ++ ": " ++ toString s.statements,
   coloured .yellow "calls" ++ ": " ++ toString s.calls,
   coloured .yellow "scopes" ++ ": " ++ toString s.scopes]

/-- The session with a new root scope and all counts at zero. -/
def reset (r : Repl) : Repl :=
  let (root, machine) := r.machine.newRoot
  { r with machine := { machine with stats := .zero }, root }

/-- Lines as output. -/
def saying (lines : List String) : Transcript := lines.foldl Transcript.say .empty

/-- Obeys a command. -/
def obey (r : Repl) : Command → Step
  | .quit => .stop (saying ["Goodbye."])
  | .help => .next r (saying helpLines)
  | .vars => .next r (saying r.varsLines)
  | .stats => .next r (saying (statsLines r.machine.stats))
  | .reset => .next r.reset (saying [coloured .yellow "State reset."])
  | .unknown => .next r (saying [coloured .red "Unknown command. Type :help."])

/-! ### Chunks -/

/-- Notes that a text was looked at for its open parentheses and braces. -/
def noteLook (source : String) (m : Machine) : Machine :=
  match tokensOf source with
  | .ok tokens => m.note (.ofTokens tokens)
  | .error _ => m

/-- The machine without its events, and what they leave behind. -/
def drain (threshold : Threshold) (m : Machine) : Machine × Transcript :=
  ({ m with events := #[] }, Transcript.empty.events threshold .writable m.events)

/-- Runs a chunk, and shows its value or its error. -/
def runChunk (fuel : Nat) (threshold : Threshold) (r : Repl) (chunk : String) (m : Machine) :
    Option Step :=
  (m.runText fuel chunk r.root).map fun (result, m) =>
    let (m, t) := drain threshold m
    let r := { r with machine := m, buffer := "" }
    match result with
    | .ok none => .next r t
    | .ok (some v) => .next r (t.say (coloured .blue v.text))
    | .error e => .next r (t.complain (e.diagnostic chunk))

/-- Takes a line that is no command: adds it to the buffer, and runs the buffer once it
is complete. -/
def feed (fuel : Nat) (threshold : Threshold) (r : Repl) (line : String) : Option Step :=
  let buffer := r.buffer ++ line
  let m := noteLook buffer r.machine
  if isComplete buffer then runChunk fuel threshold r buffer m
  else
    let (m, t) := drain threshold m
    some (.next { r with machine := m, buffer } t)

/-- **One step of a session**; no answer if the fuel runs out. -/
def step (fuel : Nat) (threshold : Threshold) (r : Repl) : Input → Option Step
  | .invalid => some (.stop (saying ["<input error>"]))
  | .line text =>
    match r.command? text with
    | some c => some (r.obey c)
    | none => r.feed fuel threshold text

/-- What a session writes when its input ends. -/
def farewell : Transcript := saying ["", "Goodbye."]

/-- Follows an input to its end or to a command that ends the session. -/
def follow (fuel : Nat) (threshold : Threshold) (r : Repl) (t : Transcript) :
    List Input → Option Transcript
  | [] => some ((t.write r.prompt).append farewell)
  | input :: rest =>
    match r.step fuel threshold input with
    | none => none
    | some (.stop u) => some ((t.write r.prompt).append u)
    | some (.next r' u) => follow fuel threshold r' ((t.write r.prompt).append u) rest

/-- **A whole session.** -/
def run (fuel : Nat) (threshold : Threshold) (inputs : List Input) : Option Transcript :=
  new.follow fuel threshold (Transcript.empty.write banner) inputs

end Repl

/-- Bytes cut after each line feed. -/
def byteLines : List UInt8 → List (List UInt8)
  | [] => []
  | b :: bs =>
    if b = 10 then [b] :: byteLines bs
    else match byteLines bs with
      | [] => [[b]]
      | l :: ls => (b :: l) :: ls

/-- The input that bytes make up. -/
def Input.ofBytes (bytes : ByteArray) : List Input :=
  (byteLines bytes.data.toList).map fun l =>
    match String.fromUTF8? ⟨l.toArray⟩ with
    | some text => .line text
    | none => .invalid

end Lox
