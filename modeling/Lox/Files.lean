/-!
# Files

What can go wrong with files, and a small directory tree in memory, for runs that must
not touch a disk. A location in the tree is the list of names that leads to it from the
root, and relative paths start at a working directory. The tree answers as a disk would:
a path is walked name by name, and every name but the last must be that of a directory.
-/

namespace Lox

/-- Why a file operation fails. -/
inductive FileFault
  | notFound
  | alreadyExists
  | notDirectory
  | isDirectory
  | notText
  /-- Any other fault, in the words of whoever reports it. -/
  | other (words : String)
deriving DecidableEq

/-- The words for a fault. -/
def FileFault.text : FileFault → String
  | notFound => "No such file or directory (os error 2)"
  | alreadyExists => "File exists (os error 17)"
  | notDirectory => "Not a directory (os error 20)"
  | isDirectory => "Is a directory (os error 21)"
  | notText => "stream did not contain valid UTF-8"
  | other words => words

/-! ### Paths -/

/-- The parts of a path between its slashes. -/
def pathParts (path : String) : List String :=
  let step := fun (c : Char) (parts : List (List Char)) =>
    match parts with
    | [] => [[c]]
    | p :: ps => if c = '/' then [] :: p :: ps else (c :: p) :: ps
  (path.toList.foldr step [[]]).map String.ofList

/-- A part that leads nowhere: an empty one, or a dot. -/
def idlePart (part : String) : Bool := part == "" || part == "."

/-- Parts without the idle ones at their end. -/
def trimParts (parts : List String) : List String :=
  (parts.reverse.dropWhile idlePart).reverse

/-- The path of the directory that a path lies in: none for the root and for the empty
path, and the empty path for a single name. -/
def parentPath? (path : String) : Option String :=
  match pathParts path with
  | [] => none
  | head :: rest =>
    match trimParts rest with
    | [] => if head == "" then none else some ""
    | rest =>
      match trimParts rest.dropLast with
      | [] => some (if head == "" then "/" else head)
      | rest => some ("/".intercalate (head :: rest))

/-- A path followed by a relative one. -/
def joinPath (path more : String) : String :=
  if path.isEmpty then more else if path.endsWith "/" then path ++ more else path ++ "/" ++ more

/-- The name of a file without its extension, and the extension. A dot at the front of a
name begins no extension. -/
def splitExtension (name : String) : String × Option String :=
  let cs := name.toList
  let extension := (cs.reverse.takeWhile (· != '.')).reverse
  let stem := cs.take (cs.length - extension.length - 1)
  if extension.length = cs.length || stem.isEmpty then (name, none)
  else (String.ofList stem, some (String.ofList extension))

/-! ### The tree -/

/-- A location: the names that lead to it from the root. -/
abbrev Location := List String

/-- What stands at a location. -/
inductive Entry
  | directory
  | file (content : ByteArray)

/-- A directory tree, and the location at which relative paths start. The root is always
there. -/
structure Files where
  /-- All entries but the root. -/
  entries : List (Location × Entry)
  /-- Where relative paths start. -/
  workingDirectory : Location

namespace Files

/-- What stands at a location. -/
def entry? (t : Files) (loc : Location) : Option Entry :=
  if loc.isEmpty then some .directory else t.entries.lookup loc

/-- Puts an entry at a location, in place of what stands there. -/
def put (t : Files) (loc : Location) (e : Entry) : Files :=
  { t with entries := (loc, e) :: t.entries.filter (·.1 != loc) }

/-- Where a path leads. -/
inductive Walk
  /-- To a directory. -/
  | directory (loc : Location)
  /-- To a file. -/
  | file (loc : Location) (content : ByteArray)
  /-- To a name that is missing, with more parts after it. -/
  | missing (loc : Location) (rest : List String)
  /-- Through a file, as if it were a directory. -/
  | blocked

/-- Walks on from a directory. -/
def walk (t : Files) : Location → List String → Walk
  | loc, [] => .directory loc
  | loc, part :: rest =>
    if idlePart part then t.walk loc rest
    else if part == ".." then t.walk loc.dropLast rest
    else
      let next := loc ++ [part]
      match t.entry? next with
      | some .directory => t.walk next rest
      | some (.file content) => if rest.isEmpty then .file next content else .blocked
      | none => .missing next rest

/-- Where a path starts. -/
def start (t : Files) (path : String) : Location :=
  if path.startsWith "/" then [] else t.workingDirectory

/-- Where a path leads. -/
def resolve (t : Files) (path : String) : Walk := t.walk (t.start path) (pathParts path)

/-- The names in a directory, none if there is no such directory. -/
def list (t : Files) (path : String) : List String :=
  match t.resolve path with
  | .directory loc =>
    t.entries.filterMap fun (l, _) =>
      if !l.isEmpty && l.dropLast == loc then l.getLast? else none
  | _ => []

/-- The text in a file. -/
def read (t : Files) (path : String) : Except FileFault String :=
  match t.resolve path with
  | .directory _ => .error .isDirectory
  | .file _ content =>
    match String.fromUTF8? content with
    | some text => .ok text
    | none => .error .notText
  | .missing .. => .error .notFound
  | .blocked => .error .notDirectory

/-- Makes the directories that are missing on the way. -/
def makeAlong (t : Files) : Location → List String → Except FileFault Files
  | _, [] => .ok t
  | loc, part :: rest =>
    if idlePart part then t.makeAlong loc rest
    else if part == ".." then t.makeAlong loc.dropLast rest
    else
      let next := loc ++ [part]
      match t.entry? next with
      | some .directory => t.makeAlong next rest
      | some (.file _) => .error (if rest.isEmpty then .alreadyExists else .notDirectory)
      | none => (t.put next .directory).makeAlong next rest

/-- Makes a directory and all directories it lies in. -/
def makeDirectories (t : Files) (path : String) : Except FileFault Files :=
  t.makeAlong (t.start path) (pathParts path)

/-- Writes a file, in place of the one that stands there. -/
def write (t : Files) (path : String) (content : ByteArray) : Except FileFault Files :=
  match t.resolve path with
  | .directory _ => .error .isDirectory
  | .file loc _ => .ok (t.put loc (.file content))
  | .missing loc [] => .ok (t.put loc (.file content))
  | .missing _ rest => .error (if rest.all (· == "") then .isDirectory else .notFound)
  | .blocked => .error .notDirectory

end Files

end Lox
