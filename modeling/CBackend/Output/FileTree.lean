/-!
# File trees

Files by their positions, as far as writing a file needs them. A path is followed name by name:
every name but the last has to lead to a directory, so a `..` after a name that does not exist
leads nowhere.
-/

namespace CBackend

/-- What a position holds. -/
inductive FileKind
  | directory
  | regular (content : String)
  /-- A device, which takes what is written to it or has no room. -/
  | device (hasRoom : Bool)
  deriving DecidableEq, Repr

/-- Files by their positions, which are lists of names from the root. -/
structure FileTree where
  /-- The latest entry for a position counts. -/
  entries : List (List String × FileKind)
  workingDirectory : List String

namespace FileTree

variable (t : FileTree)

/-- The longest name of a file, in bytes. -/
def maxName : Nat := 255

/-- The longest path, in bytes. -/
def maxPath : Nat := 4095

/-- What a position holds. -/
def get? : List String → Option FileKind
  | [] => some .directory
  | position => t.entries.lookup position

/-- Whether a position holds a directory. -/
def isDirectory (position : List String) : Bool :=
  t.get? position == some .directory

/-- Follows names that have to lead from directory to directory. -/
def descend? : List String → List String → Option (List String)
  | position, [] => some position
  | position, name :: names =>
    if name == "" || name == "." then descend? position names
    else if name == ".." then descend? position.dropLast names
    else if name.utf8ByteSize ≤ maxName && t.isDirectory (position ++ [name]) then
      descend? (position ++ [name]) names
    else none

/-- Whether a name can be the last one of a path to a file. -/
def isFileName (name : String) : Bool :=
  name != "" && name != "." && name != ".." && decide (name.utf8ByteSize ≤ maxName)

/-- The position that a path names for writing. The file need not exist, but its directory has
to. -/
def locate? (path : String) : Option (List String) := do
  guard (path.utf8ByteSize ≤ maxPath && !path.contains '\x00')
  let names := path.splitOn "/"
  let name ← names.getLast?
  guard (isFileName name)
  let start := if path.startsWith "/" then [] else t.workingDirectory
  let parent ← t.descend? start names.dropLast
  pure (parent ++ [name])

/-- Puts a regular file at a position. -/
def insert (position : List String) (content : String) : FileTree :=
  { t with entries := (position, .regular content) :: t.entries }

/-- The content of the regular file that a path names. -/
def content? (path : String) : Option String := do
  match ← t.get? (← t.locate? path) with
  | .regular content => some content
  | _ => none

end FileTree

end CBackend
