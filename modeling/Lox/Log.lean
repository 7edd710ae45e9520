import Lox.Event
import Lox.Text.Style
import Lox.Transcript

/-!
# Logs

A record has a level, a target that says which part of the program speaks, and a
message. Records above a chosen level are dropped. Events other than prints are records;
a print is one only when the output cannot be written to.
-/

namespace Lox

/-- The levels of records. -/
inductive Level
  | error | warn | info | debug | trace
deriving DecidableEq

namespace Level

/-- How much has to be wanted before records of a level are shown. -/
def rank : Level → Nat
  | error => 1
  | warn => 2
  | info => 3
  | debug => 4
  | trace => 5

/-- The name of a level, in its colour. -/
def label : Level → String
  | error => bold (coloured .red "ERROR")
  | warn => bold (coloured .yellow "WARN")
  | info => coloured .green "INFO"
  | debug => coloured .cyan "DEBUG"
  | trace => coloured .grey "TRACE"

end Level

/-- The most detailed level that is shown, if any is. -/
abbrev Threshold := Option Level

namespace Threshold

/-- What is shown when nothing else is asked for. -/
def standard : Threshold := some .warn

/-- The threshold of a name. -/
def ofName? : String → Option Threshold
  | "off" => some none
  | "error" => some (some .error)
  | "warn" => some (some .warn)
  | "info" => some (some .info)
  | "debug" => some (some .debug)
  | "trace" => some (some .trace)
  | _ => none

/-- Whether records of a level are shown. -/
def shows : Threshold → Level → Bool
  | none, _ => false
  | some limit, level => level.rank ≤ limit.rank

end Threshold

/-- A log record. -/
structure Record where
  /-- Its level. -/
  level : Level
  /-- Who speaks. -/
  target : String
  /-- What is said. -/
  message : String

namespace Record

/-- The line of a record. -/
def line (r : Record) : String :=
  r.level.label ++ " " ++ dimmed r.target ++ ": " ++ r.message ++ "\n"

/-- The record of a print that could not be written. -/
def unwritten : Record :=
  ⟨.warn, "jlox_interpreter::output", "failed to write print output: Broken pipe (os error 32)"⟩

/-- The record of an event, if it is one. -/
def ofEvent? : Event → Option Record
  | .printed _ => none
  | .scanned tokens lines =>
    some ⟨.debug, "jlox_scanner",
      "scanned " ++ toString tokens ++ " tokens from " ++ toString lines ++ " lines"⟩
  | .parsed statements =>
    some ⟨.debug, "jlox_parser::parser",
      "parsed " ++ toString statements ++ " top-level statements"⟩
  | .declared name params =>
    some ⟨.debug, "jlox_interpreter::interpreter",
      "declaring function '" ++ name ++ "' with " ++ toString params ++ " params"⟩
  | .entered statements =>
    some ⟨.trace, "jlox_interpreter::interpreter",
      "entering block of " ++ toString statements ++ " statements"⟩
  | .called name depth =>
    some ⟨.trace, "jlox_interpreter::interpreter",
      "calling '" ++ name ++ "' at depth " ++ toString depth⟩

end Record

/-- Whether the output can be written to. -/
inductive Sink
  | writable
  | broken
deriving DecidableEq

namespace Transcript

/-- Writes a record, if records of its level are shown. -/
def log (t : Transcript) (threshold : Threshold) (r : Record) : Transcript :=
  if threshold.shows r.level then t.complain r.line else t

/-- Writes what an event leaves behind. -/
def event (threshold : Threshold) (sink : Sink) (t : Transcript) (e : Event) : Transcript :=
  match e.printed?, sink with
  | some v, .writable => t.say v.text
  | some _, .broken => t.log threshold .unwritten
  | none, _ =>
    match Record.ofEvent? e with
    | some r => t.log threshold r
    | none => t

/-- Writes what events leave behind, in order. -/
def events (t : Transcript) (threshold : Threshold) (sink : Sink) (es : Array Event) : Transcript :=
  es.foldl (event threshold sink) t

end Transcript

end Lox
