import Std.Time
import Lox.Arguments
import Lox.Repl
import Lox.Script

/-!
# The program

The outermost layer: it reads arguments, files and standard input, hands them to the
rest, and writes what comes back.
-/

namespace Lox

/-- Fuel that no run will use up. -/
def ampleFuel : Nat := Nat.pow 2 62

/-- The fault that an error of the file system is. -/
def FileFault.ofError : IO.Error → FileFault
  | .noFileOrDirectory .. => .notFound
  | .alreadyExists .. => .alreadyExists
  | .inappropriateType _ code _ => if code = 21 then .isDirectory else .notDirectory
  | e => .other (toString e)

/-- Does something to files, and tells what went wrong. -/
def attempt {α : Type} (action : IO α) : IO (Except FileFault α) := do
  match ← action.toBaseIO with
  | .ok a => return .ok a
  | .error e => return .error (FileFault.ofError e)

/-- The text in a file. -/
def readText (path : String) : IO (Except FileFault String) := do
  match ← attempt (IO.FS.readBinFile path) with
  | .error fault => return .error fault
  | .ok bytes =>
    match String.fromUTF8? bytes with
    | some text => return .ok text
    | none => return .error .notText

/-- Writes a transcript. -/
def Transcript.emit (t : Transcript) : IO Unit := do
  IO.print t.out
  (← IO.getStdout).flush
  IO.eprint t.err

/-- Runs a script from a file. Should the output break, everything is told again on the
error stream as it is for an output that cannot be written to. -/
def runScript (threshold : Threshold) (path : String) : IO UInt32 := do
  let content ← readText path
  match Script.run ampleFuel threshold .writable path content with
  | none => return 1
  | some exit =>
    try
      exit.transcript.emit
    catch _ =>
      match Script.run ampleFuel threshold .broken path content with
      | none => pure ()
      | some again => IO.eprint again.transcript.err
    return exit.code.toUInt32

/-- The bytes of the next line, with its line end; none if the input has ended. -/
partial def readLine (stream : IO.FS.Stream) (line : ByteArray) : IO ByteArray := do
  let bytes ← stream.read 1
  if bytes.isEmpty || bytes.toList = [10] then return line ++ bytes
  else readLine stream (line ++ bytes)

/-- Goes on with a session, line by line. -/
partial def continueSession (threshold : Threshold) (r : Repl) : IO UInt32 := do
  IO.print r.prompt
  (← IO.getStdout).flush
  match Input.ofBytes (← readLine (← IO.getStdin) ByteArray.empty) with
  | [] =>
    Repl.farewell.emit
    return 0
  | input :: _ =>
    match r.step ampleFuel threshold input with
    | none => return 1
    | some (.stop t) =>
      t.emit
      return 0
    | some (.next r t) =>
      t.emit
      continueSession threshold r

/-- Holds a session. -/
def holdSession (threshold : Threshold) : IO UInt32 := do
  IO.print Repl.banner
  continueSession threshold Repl.new

/-- The host of a benchmark on a disk, with a clock that runs. -/
def Bench.Host.disk : Bench.Host IO where
  list path := do
    match ← attempt (do let directory ← IO.FS.realPath path; directory.readDir) with
    | .ok entries => return entries.toList.map (·.fileName)
    | .error _ => return []
  read := readText
  makeDirectories path := attempt (if path.isEmpty then pure () else IO.FS.createDirAll path)
  write path text := attempt (IO.FS.writeFile path text)
  say line := IO.println line
  timed work := do
    let start ← IO.monoNanosNow
    let result ← IO.lazyPure work
    let stop ← IO.monoNanosNow
    return (result, Float.ofNat (stop - start) / 1000000)
  now := do
    let t ← Std.Time.Timestamp.now
    return Moment.ofSeconds t.toSecondsSinceUnixEpoch.val.toNat

/-- Runs a benchmark on the disk. -/
def runBench (options : Bench.Options) : IO UInt32 := do
  match ← (Bench.run Bench.Host.disk ampleFuel options).run with
  | .ok _ => return 0
  | .error failure =>
    IO.eprintln failure.message
    return failure.code.toUInt32

end Lox

/-- Does what the command line asks for. -/
def main (arguments : List String) : IO UInt32 := do
  match Lox.Request.ofArguments (← IO.getEnv "JLOX_LOG") arguments with
  | .error refusal =>
    IO.eprintln refusal.message
    return 2
  | .ok (.script threshold path) => Lox.runScript threshold path
  | .ok (.session threshold) => Lox.holdSession threshold
  | .ok (.bench options) => Lox.runBench options
