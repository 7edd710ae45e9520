import Lox.Bench.Run
import Lox.Log

/-!
# The command line

What a command line asks for: a script or a session, with a threshold for the log, or a
benchmark. An argument of the command line wins over the environment.
-/

namespace Lox

/-- What is asked for. -/
inductive Request
  /-- Run a script. -/
  | script (threshold : Threshold) (path : String)
  /-- Hold a session. -/
  | session (threshold : Threshold)
  /-- Run a benchmark. -/
  | bench (options : Bench.Options)

namespace Request

/-- Why a command line is refused. -/
inductive Refusal
  | unknown (argument : String)
  | missing (option : String)
  | invalid (option value : String)

/-- The words for a refusal. -/
def Refusal.message : Refusal → String
  | unknown argument => "error: unexpected argument '" ++ argument ++ "' found"
  | missing option => "error: a value is required for '" ++ option ++ "' but none was supplied"
  | invalid option value => "error: invalid value '" ++ value ++ "' for '" ++ option ++ "'"

/-- The option and the value in an argument such as `--name=value` or `-nvalue`. -/
def splitOption (argument : String) : List String :=
  let cs := argument.toList
  let name := cs.takeWhile (· != '=')
  if !argument.startsWith "-" then [argument]
  else if name.length < cs.length then
    [String.ofList name, String.ofList (cs.drop (name.length + 1))]
  else if argument.startsWith "--" || cs.length ≤ 2 then [argument]
  else [String.ofList (cs.take 2), String.ofList (cs.drop 2)]

/-- Arguments in which every option stands apart from its value. -/
def separate (arguments : List String) : List String := arguments.flatMap splitOption

/-- The threshold of a name. -/
def threshold (option name : String) : Except Refusal Threshold :=
  match Threshold.ofName? name with
  | some t => .ok t
  | none => .error (.invalid option name)

/-- A count. -/
def count (option value : String) : Except Refusal Nat :=
  if value.isEmpty || !value.all Char.isDigit then .error (.invalid option value)
  else .ok (Number.ofDigits value.toList)

/-- The arguments of a script or a session, after those that gave a threshold and a path. -/
def runArguments (t : Threshold) (path : Option String) : List String → Except Refusal Request
  | [] => .ok (match path with | some p => .script t p | none => .session t)
  | ["--log-level"] => .error (.missing "--log-level")
  | "--log-level" :: name :: rest => do
    let t ← threshold "--log-level" name
    runArguments t path rest
  | a :: rest =>
    if a.startsWith "-" || path.isSome then .error (.unknown a) else runArguments t (some a) rest

/-- The arguments of a benchmark, after those that gave these options. -/
def benchArguments (o : Bench.Options) : List String → Except Refusal Request
  | [] => .ok (.bench o)
  | "--list" :: rest => benchArguments { o with list := true } rest
  | [a] => .error (if a.startsWith "-" then .missing a else .unknown a)
  | option :: value :: rest =>
    match option with
    | "-t" | "--test" => benchArguments { o with tests := o.tests ++ [value] } rest
    | "-n" | "--iterations" => do
      let n ← count option value
      benchArguments { o with iterations := n } rest
    | "-w" | "--warmup" => do
      let n ← count option value
      benchArguments { o with warmup := n } rest
    | "-o" | "--output" => benchArguments { o with output := some value } rest
    | _ => .error (.unknown option)

/-- The usual options of a benchmark. -/
def benchDefaults : Bench.Options :=
  { root := "", tests := [], iterations := 10, warmup := 2, output := none, list := false }

/-- **What a command line asks for**, given the threshold that the environment names. -/
def ofArguments (environment : Option String) : List String → Except Refusal Request
  | "bench" :: rest => benchArguments benchDefaults (separate rest)
  | arguments => do
    let t ← match environment with
      | some name => threshold "JLOX_LOG" name
      | none => .ok Threshold.standard
    runArguments t none (separate arguments)

end Request

end Lox
