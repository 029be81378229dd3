import HackStack.Path
import HackStack.Text.CodePoint
import HackStack.Text.Order

/-!
# File trees

The files that a run of the tool can see, as a value: directories and the
bytes of files, by their **place**, the list of names from the root. Paths
are followed from a working directory, and every component on the way has
to be a directory. Names and paths are marked texts; they have a greatest
length, in bytes.

A file is written in two steps. Opening it makes the file, or takes away what
it held, and only then the bytes are put into it.
-/

namespace HackStack

/-- What there is at a place. -/
inductive Node where
  | directory
  | file (bytes : List UInt8)
  deriving DecidableEq, Repr

/-- Directories and files by their place; the root is always there. -/
structure FileTree where
  /-- The place that relative paths start from. -/
  workingDirectory : List String
  entries : List (List String × Node)
  deriving DecidableEq, Repr

/-- Why a path cannot be opened. -/
inductive FileCause where
  | missing
  | notDirectory
  | isDirectory
  | nameTooLong
  deriving DecidableEq, Repr

/-- A path that cannot be opened. -/
structure FileError where
  cause : FileCause
  path : String
  deriving DecidableEq, Repr

/-- The number and the words of a cause. -/
def FileCause.text : FileCause → String
  | .missing => "[Errno 2] No such file or directory"
  | .notDirectory => "[Errno 20] Not a directory"
  | .isDirectory => "[Errno 21] Is a directory"
  | .nameTooLong => "[Errno 36] File name too long"

/-- The wording of a file error. -/
def FileError.message (e : FileError) : String :=
  e.cause.text ++ ": " ++ Text.quoteName e.path

/-- Why a path is not even looked up when a file is opened. -/
inductive PathError where
  /-- It has surrogates that stand for no bytes. -/
  | unencodable (e : Text.EncodeError)
  /-- It has a null character. -/
  | null
  deriving DecidableEq, Repr

/-- The wording of a path error. -/
def PathError.message : PathError → String
  | unencodable e => e.message
  | null => "embedded null byte"

/-- What is wrong with a path that is none. -/
def Path.error? (path : String) : Option PathError :=
  let points := Text.codePoints path.toList
  match Text.refused? Text.isByte points with
  | some e => some (.unencodable e)
  | none => if points.contains 0 then some .null else none

/-- Whether a name has more than the 255 bytes that a directory can hold. -/
def isLongName (name : String) : Bool := 255 < (Text.nameBytes name).length

/-- Whether a path has more than the 4095 bytes that can be followed. -/
def isLongPath (path : String) : Bool := 4095 < (Text.nameBytes path).length

namespace FileTree

/-- A tree with nothing but a working directory and the directories above it. -/
def empty (workingDirectory : List String) : FileTree where
  workingDirectory := workingDirectory
  entries := (List.range workingDirectory.length).map fun n =>
    (workingDirectory.take (n + 1), .directory)

/-- What there is at a place. -/
def node? (t : FileTree) (place : List String) : Option Node :=
  if place.isEmpty then some .directory else t.entries.lookup place

/-- The tree with something put at a place. -/
def put (t : FileTree) (place : List String) (node : Node) : FileTree :=
  { t with entries := (place, node) :: t.entries.filter (·.1 != place) }

/-- The place that components lead to from a place. Each has to be looked up
in a directory, and a name must not be too long and has to be there. -/
def walk (t : FileTree) (place : List String) : List String → Except FileCause (List String)
  | [] => .ok place
  | name :: rest =>
    if t.node? place != some .directory then .error .notDirectory
    else if name == "" || name == "." then t.walk place rest
    else if name == ".." then t.walk place.dropLast rest
    else if isLongName name then .error .nameTooLong
    else if (t.node? (place ++ [name])).isNone then .error .missing
    else t.walk (place ++ [name]) rest

/-- Where the components of a path start. -/
def origin (t : FileTree) (path : String) : List String :=
  if Path.isAbsolute path then [] else t.workingDirectory

/-- Follows components from a place and makes the directories that are missing,
also those that two dots leave again; gives the place at the end too. -/
def make (t : FileTree) (place : List String) : List String → FileTree × List String
  | [] => (t, place)
  | name :: rest =>
    let next := Path.follow place [name]
    make (if (t.node? next).isNone then t.put next .directory else t) next rest

/-- Adds a file or a directory by its path, and the directories on the way. -/
def add (t : FileTree) (path : String) (node : Node) : FileTree :=
  let names := Path.names path
  match node with
  | .directory => (t.make (t.origin path) names).1
  | .file bytes =>
    let (t, above) := t.make (t.origin path) names.dropLast
    t.put (Path.follow above names.getLast?.toList) (.file bytes)

/-- What there is at a path. The empty path leads nowhere. -/
def find (t : FileTree) (path : String) : Except FileCause Node := do
  if path.isEmpty then throw .missing
  if isLongPath path then throw .nameTooLong
  match t.node? (← t.walk (t.origin path) (Path.names path)) with
  | some node => return node
  | none => throw .missing

/-- Whether a path leads to a directory. -/
def isDirectory (t : FileTree) (path : String) : Bool :=
  match t.find path with
  | .ok .directory => true
  | _ => false

/-- Whether a path leads to a file. -/
def isFile (t : FileTree) (path : String) : Bool :=
  match t.find path with
  | .ok (.file _) => true
  | _ => false

/-- **The bytes of a file.** -/
def read (t : FileTree) (path : String) : Except FileError (List UInt8) :=
  match t.find path with
  | .ok (.file bytes) => .ok bytes
  | .ok .directory => .error ⟨.isDirectory, path⟩
  | .error cause => .error ⟨cause, path⟩

/-- The names of the entries of a directory. -/
def list (t : FileTree) (path : String) : List String :=
  match t.walk (t.origin path) (Path.names path) with
  | .error _ => []
  | .ok place => t.entries.filterMap fun (p, _) =>
      if p.dropLast = place then p.getLast? else none

/-- The place of a file that is to be written: its directory has to be there, and
it must not be a directory itself. A path with a slash at its end can only
be a directory. -/
def target (t : FileTree) (path : String) : Except FileCause (List String) := do
  if isLongPath path then throw .nameTooLong
  match (Path.names path).reverse.dropWhile (· == "") with
  | [] => throw (if path.isEmpty then .missing else .isDirectory)
  | name :: above =>
    let place ← t.walk (t.origin path) above.reverse
    if t.node? place != some .directory then throw .notDirectory
    if name == "." || name == ".." || path.toList.getLast? == some '/' then throw .isDirectory
    if isLongName name then throw .nameTooLong
    let place := place ++ [name]
    if t.node? place = some .directory then throw .isDirectory
    return place

/-- **Opens a file for writing**: it is there and empty, whatever it held before.
Gives its place and the tree. -/
def create (t : FileTree) (path : String) : Except FileError (List String × FileTree) :=
  match t.target path with
  | .ok place => .ok (place, t.put place (.file []))
  | .error cause => .error ⟨cause, path⟩

/-- **The tree after a file was written**, new or over an old one. -/
def write (t : FileTree) (path : String) (bytes : List UInt8) : Except FileError FileTree :=
  match t.create path with
  | .ok (place, opened) => .ok (opened.put place (.file bytes))
  | .error e => .error e

end FileTree

end HackStack
