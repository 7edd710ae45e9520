import Lox.Bench.Document
import Lox.Files
import Lox.Source
import Lox.Text.Lowercase

/-!
# Running a benchmark

The scripts in a directory are run again and again, each stage being timed, and the
results are shown and kept in a document. What this asks of its surroundings is a `Host`:
a directory, files, a clock and a place to write lines to. The runner is the same over
any host, be it a disk or a directory tree in memory.
-/

namespace Lox

namespace Bench

/-- What a benchmark asks of its surroundings. -/
structure Host (m : Type → Type) where
  /-- The names in a directory, none if it cannot be read. -/
  list : String → m (List String)
  /-- The text in a file. -/
  read : String → m (Except FileFault String)
  /-- Makes a directory and all directories it lies in. -/
  makeDirectories : String → m (Except FileFault Unit)
  /-- Writes a text to a file. -/
  write : String → String → m (Except FileFault Unit)
  /-- Writes a line. -/
  say : String → m Unit
  /-- Does some work, and tells how many milliseconds it took. -/
  timed : {α : Type} → (Unit → α) → m (α × Float)
  /-- The present moment. -/
  now : m Moment

/-- What is asked of a benchmark. -/
structure Options where
  /-- The directory that holds the scripts and the results. -/
  root : String
  /-- The names of the scripts to run, all of them if there are none. -/
  tests : List String
  /-- How many runs are measured. -/
  iterations : Nat
  /-- How many runs come before, unmeasured. -/
  warmup : Nat
  /-- Where the document is written to, if not to the usual place. -/
  output : Option String
  /-- Whether the scripts are only to be listed. -/
  list : Bool

/-- Why a run of a script fails. -/
inductive RunFault
  | scan (e : Error)
  | parse (e : Error)
  | runtime (e : Error)
  /-- The fuel ran out. -/
  | unfinished

/-- The words for a fault. -/
def RunFault.message : RunFault → String
  | scan e => "scan error: " ++ e.text
  | parse e => "parse error: " ++ e.text
  | runtime e => "runtime error: " ++ e.text
  | unfinished => "out of fuel"

/-- Why a benchmark fails. -/
inductive Failure
  | noMatch
  | noScripts
  | unread (path : String) (fault : FileFault)
  | unrun (name : String) (fault : RunFault)
  | uncreated (path : String) (fault : FileFault)
  | unwritten (path : String) (fault : FileFault)

namespace Failure

/-- The words for a failure. -/
def message : Failure → String
  | noMatch => "No matching tests. Use --list to see available."
  | noScripts => "No .jlox scripts found in benchmark/scripts."
  | unread path fault => "Failed to read " ++ path ++ ": " ++ fault.text
  | unrun name fault => name ++ ": " ++ fault.message
  | uncreated path fault => "Failed to create " ++ path ++ ": " ++ fault.text
  | unwritten path fault => "Failed to write " ++ path ++ ": " ++ fault.text

/-- The exit code of a failure. -/
def code : Failure → Nat
  | noMatch | noScripts => 2
  | _ => 1

end Failure

/-- A script: its name, and the path of its file. -/
structure Script where
  name : String
  path : String
deriving DecidableEq

/-- The script of a file, if its extension says that it is one. -/
def Script.ofFile? (directory file : String) : Option Script :=
  match splitExtension file with
  | (stem, some "jlox") => some ⟨stem, joinPath directory file⟩
  | _ => none

/-- The scripts that are wanted, by name and without regard to case. -/
def select (tests : List String) (scripts : List Script) : List Script :=
  let wanted := tests.map lowercase
  scripts.filter fun s => wanted.contains (lowercase s.name)

/-- The scripts that a benchmark is to run. -/
def choose (tests : List String) (scripts : List Script) : Except Failure (List Script) :=
  let chosen := if tests.isEmpty then scripts else select tests scripts
  if chosen.isEmpty then .error (if tests.isEmpty then .noScripts else .noMatch) else .ok chosen

section Runner

variable {m : Type → Type} [Monad m] (host : Host m)

/-- The scripts in the benchmark's directory, in the order of their names. -/
def discover (root : String) : m (List Script) := do
  let directory := joinPath root "benchmark/scripts"
  let files ← host.list directory
  let scripts := files.filterMap (Script.ofFile? directory)
  return scripts.mergeSort fun a b => decide (a.name ≤ b.name)

/-- The times of one run, and its counts. -/
structure Sample where
  scan : Float
  parse : Float
  exec : Float
  stats : Stats

/-- Scans, parses and runs a text once, on a machine of its own. -/
def runOnce (fuel : Nat) (source : String) : ExceptT RunFault m Sample := do
  let (tokens, scan) ← host.timed fun _ => tokensOf source
  match tokens with
  | .error e => throw (.scan e)
  | .ok tokens =>
    let (program, parse) ← host.timed fun _ => programOf tokens
    match program with
    | .error e => throw (.parse e)
    | .ok program =>
      let (answer, exec) ← host.timed fun _ =>
        let (root, machine) := Machine.new.newRoot
        (runProgram (some maxDepth) fuel program root machine).answer
      match answer with
      | none => throw .unfinished
      | some (.error e, _) => throw (.runtime e)
      | some (.ok _, machine) => return ⟨scan, parse, exec, machine.stats⟩

/-- Runs a text a number of times without measuring. -/
def warm (fuel : Nat) (source : String) : (count : Nat) → ExceptT RunFault m Unit
  | 0 => return ()
  | count + 1 => do
    let _ ← runOnce host fuel source
    warm fuel source count

/-- Runs a text a number of times, and keeps the samples. -/
def sample (fuel : Nat) (source : String) : (count : Nat) → ExceptT RunFault m (List Sample)
  | 0 => return []
  | count + 1 => do
    let one ← runOnce host fuel source
    let more ← sample fuel source count
    return one :: more

/-- The timings of samples. The time of a whole run is that of its stages. -/
def Timings.ofSamples (samples : List Sample) : Timings :=
  { totals := samples.map fun s => s.scan + s.parse + s.exec
    scans := samples.map (·.scan)
    parses := samples.map (·.parse)
    execs := samples.map (·.exec)
    last := (samples.getLast?.map (·.stats)).getD .zero }

/-- **Measures a script.** -/
def measure (fuel : Nat) (source : String) (iterations warmup : Nat) :
    ExceptT RunFault m Timings := do
  warm host fuel source warmup
  return .ofSamples (← sample host fuel source iterations)

/-- Measures scripts one after the other, and shows each result when it is there. -/
def measureAll (fuel : Nat) (o : Options) : List Script → ExceptT Failure m (List Measurement)
  | [] => return []
  | script :: scripts => do
    match ← host.read script.path with
    | .error fault => throw (.unread script.path fault)
    | .ok source =>
      match ← (measure host fuel source o.iterations o.warmup).run with
      | .error fault => throw (.unrun script.name fault)
      | .ok timings =>
        let result := Measurement.ofTimings script.name o.iterations timings
        host.say result.line
        let results ← measureAll fuel o scripts
        return result :: results

/-- Writes a document, and makes the directory it is to lie in. -/
def save (path : String) (d : Document) : ExceptT Failure m Unit := do
  match parentPath? path with
  | none => pure ()
  | some parent =>
    match ← host.makeDirectories parent with
    | .error fault => throw (.uncreated parent fault)
    | .ok _ => pure ()
  match ← host.write path d.text with
  | .error fault => throw (.unwritten path fault)
  | .ok _ => pure ()

/-- The path of the document. -/
def outputPath (o : Options) : m String := do
  match o.output with
  | some path => return path
  | none =>
    let moment ← host.now
    return joinPath o.root ("benchmark/results/" ++ moment.fileStamp ++ ".json")

/-- **Runs a benchmark**: lists the scripts, or measures them and keeps the results. -/
def run (fuel : Nat) (o : Options) : ExceptT Failure m (Option Document) := do
  let scripts ← ExceptT.lift (discover host o.root)
  if o.list then
    host.say "Discovered tests:"
    for s in scripts do
      host.say ("- " ++ s.name ++ " (" ++ s.path ++ ")")
    return none
  else
    match choose o.tests scripts with
    | .error failure => throw failure
    | .ok chosen =>
      let measurements ← measureAll host fuel o chosen
      let path ← ExceptT.lift (outputPath host o)
      let document : Document := ⟨← host.now, measurements⟩
      save host path document
      host.say ""
      host.say ("Saved results to " ++ path)
      return some document

end Runner

end Bench

end Lox
