import Lox.Bench.Run

/-!
# A host in memory

A benchmark over a directory tree in memory and a clock that stands still. Whatever does
not depend on time comes out as it would on a disk.
-/

namespace Lox

namespace Bench

/-- The state of a host in memory: its files, and the lines written so far. -/
structure Memory where
  files : Files
  lines : Array String

/-- Changes the files of a host in memory, or leaves them as they are. -/
def Memory.attempt (change : Files → Except FileFault Files) :
    StateM Memory (Except FileFault Unit) := fun s =>
  match change s.files with
  | .ok files => (.ok (), { s with files })
  | .error fault => (.error fault, s)

/-- The host in memory, at a moment that does not pass. -/
def Host.memory (moment : Moment) : Host (StateM Memory) where
  list path := return (← get).files.list path
  read path := return (← get).files.read path
  makeDirectories path := Memory.attempt (·.makeDirectories path)
  write path text := Memory.attempt (·.write path text.toUTF8)
  say line := modify fun s => { s with lines := s.lines.push line }
  timed work := return (work (), 0)
  now := return moment

end Bench

end Lox
