import Lox.Diagnostic
import Lox.Files
import Lox.Log
import Lox.Source

/-!
# Scripts

A script is read from a file and run from its beginning to its end or to its first
error.
-/

namespace Lox

namespace Script

/-- The message for a script that could not be read. -/
def unreadable (path : String) (fault : FileFault) : String :=
  bold (coloured .red "error") ++ ": " ++
    coloured .red ("Failed to read " ++ path ++ ": " ++ fault.text) ++ "\n"

/-- **Runs a script**, given what reading its file came to; no answer if the fuel runs
out. -/
def run (fuel : Nat) (threshold : Threshold) (sink : Sink) (path : String)
    (content : Except FileFault String) : Option Exit :=
  match content with
  | .error fault => some ⟨1, Transcript.empty.complain (unreadable path fault)⟩
  | .ok source =>
    let start := Transcript.empty.log threshold ⟨.debug, "jlox", "running " ++ path⟩
    (Machine.new.runFresh fuel source).map fun (result, m) =>
      let t := start.events threshold sink m.events
      match result with
      | .ok _ => ⟨0, t⟩
      | .error e => ⟨1, t.complain (e.diagnostic source)⟩

end Script

end Lox
