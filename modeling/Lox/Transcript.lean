/-!
# Transcripts

What a program writes: its output, and beside it the stream for errors and logs.
-/

namespace Lox

/-- What has been written. -/
structure Transcript where
  /-- The output. -/
  out : String
  /-- Errors and logs. -/
  err : String
deriving DecidableEq

namespace Transcript

/-- Nothing has been written. -/
def empty : Transcript := ⟨"", ""⟩

/-- Writes text to the output. -/
def write (t : Transcript) (text : String) : Transcript := { t with out := t.out ++ text }

/-- Writes a line to the output. -/
def say (t : Transcript) (line : String) : Transcript := { t with out := t.out ++ line ++ "\n" }

/-- Writes text to the error stream. -/
def complain (t : Transcript) (text : String) : Transcript := { t with err := t.err ++ text }

/-- One transcript after another. -/
def append (t u : Transcript) : Transcript := ⟨t.out ++ u.out, t.err ++ u.err⟩

end Transcript

/-- How a program ends: its exit code, and all it has written. -/
structure Exit where
  /-- The exit code. -/
  code : Nat
  /-- All it has written. -/
  transcript : Transcript
deriving DecidableEq

end Lox
