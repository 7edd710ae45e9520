import Lox.Bench.Summary
import Lox.Machine
import Lox.Moment
import Lox.Text.Quoted
import Lox.Text.Style

/-!
# The report of a benchmark

What was measured for each script, the line in which it is shown, and the document in
which all of it is kept.
-/

namespace Lox

namespace Bench

/-- The version that documents are marked with. -/
def version : String := "0.1.0"

/-- The times of the measured runs, in milliseconds, and the counts of the last run. -/
structure Timings where
  totals : List Float
  scans : List Float
  parses : List Float
  execs : List Float
  /-- The counts of the last run, zeros if there was none. -/
  last : Stats

/-- What was measured for one script. -/
structure Measurement where
  /-- The name of the script. -/
  name : String
  /-- How many runs were measured. -/
  iterations : Nat
  /-- The time of a whole run. -/
  total : Summary
  /-- The mean time of scanning. -/
  scan : Float
  /-- The mean time of parsing. -/
  parse : Float
  /-- The mean time of running. -/
  exec : Float
  /-- The counts of the last run. -/
  stats : Stats

namespace Measurement

/-- What the timings of a script come to. -/
def ofTimings (name : String) (iterations : Nat) (t : Timings) : Measurement :=
  { name, iterations
    total := .ofSamples t.totals
    scan := (Summary.ofSamples t.scans).mean
    parse := (Summary.ofSamples t.parses).mean
    exec := (Summary.ofSamples t.execs).mean
    stats := t.last }

/-- The line in which a measurement is shown. -/
def line (r : Measurement) : String :=
  let ms := fun x => Number.fixed 3 x ++ "ms"
  padLeft 12 r.name ++ ": total avg=" ++ ms r.total.mean ++ " min=" ++ ms r.total.least ++
    " max=" ++ ms r.total.greatest ++ " | scan=" ++ ms r.scan ++ " parse=" ++ ms r.parse ++
    " exec=" ++ ms r.exec ++ " | stmts=" ++ toString r.stats.statements ++
    " calls=" ++ toString r.stats.calls

end Measurement

/-- The document of a benchmark. -/
structure Document where
  /-- When it was made. -/
  moment : Moment
  /-- All measurements. -/
  measurements : List Measurement

namespace Document

/-- A number in a document; a whole number is marked as one that might have a fraction,
and what is no number is left out. -/
def number (x : Float) : String :=
  match Binary.ofFloat x with
  | .finite .. =>
    let text := Number.text x
    if text.toList.contains '.' then text else text ++ ".0"
  | _ => "null"

/-- A field of an object. -/
def field (name value : String) : String := quoted name ++ ": " ++ value

/-- Items between brackets, one to a line, with an indentation. -/
def enclose (opening closing indent : String) (items : List String) : String :=
  if items.isEmpty then opening ++ closing
  else
    opening ++ "\n" ++ ",\n".intercalate (items.map (indent ++ "  " ++ ·)) ++ "\n" ++ indent ++
      closing

/-- A measurement in a document. -/
def measurement (r : Measurement) : String :=
  enclose "\x7b" "\x7d" "    "
    [field "name" (quoted r.name),
     field "iterations" (toString r.iterations),
     field "avg_total_ms" (number r.total.mean),
     field "min_total_ms" (number r.total.least),
     field "max_total_ms" (number r.total.greatest),
     field "avg_scan_ms" (number r.scan),
     field "avg_parse_ms" (number r.parse),
     field "avg_exec_ms" (number r.exec),
     field "statements" (toString r.stats.statements),
     field "calls" (toString r.stats.calls),
     field "scopes" (toString r.stats.scopes)]

/-- The text of a document. -/
def text (d : Document) : String :=
  enclose "\x7b" "\x7d" ""
    [field "timestamp" (quoted d.moment.stamp),
     field "jlox_version" (quoted version),
     field "benchmarks" (enclose "[" "]" "  " (d.measurements.map measurement))]

end Document

end Bench

end Lox
