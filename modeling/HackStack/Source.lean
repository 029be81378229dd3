import HackStack.FileTree
import HackStack.Module
import HackStack.Text.Utf8

/-!
# Sources

The **source** of a program is a file or a directory of files with the
extension `.vm`. Reading it gives the program's name, its modules, and the
path that the assembly goes to. A file that is not UTF-8 is left out and
reported; a path that cannot be opened ends the reading. Names and what is
read from files are marked texts, since messages put them together.
-/

namespace HackStack

/-- A program as it is read from files. -/
structure Source where
  program : String
  modules : List Module
  diagnostics : List Diagnostic
  /-- Where the assembly goes unless told otherwise. -/
  outPath : String
  deriving DecidableEq, Repr

/-- Why a source cannot be read. -/
inductive SourceError where
  /-- There is neither a file nor a directory. -/
  | missing (path : String)
  | file (e : FileError)
  /-- A numeral in it is not read. -/
  | numeral (e : Text.NumeralError)
  deriving DecidableEq, Repr

/-- The wording of a source error. -/
def SourceError.message : SourceError → String
  | .missing path => "No existe " ++ path
  | .file e => e.message
  | .numeral e => e.message

namespace Source

/-- The error about a file that is not UTF-8. -/
def notUtf8 (path : String) (e : Text.Utf8.Error) : Diagnostic :=
  .error
    ("El archivo no está en UTF-8: " ++ e.reason.message ++ " en el byte " ++ toString e.offset)
    none (some path) (some "guarde el archivo .vm como texto UTF-8")

/-- The module in a file and its diagnostics. -/
def readModule (t : FileTree) (path : String) :
    Except SourceError (Option Module × List Diagnostic) := do
  let bytes ← (t.read path).mapError .file
  match Text.Utf8.decode bytes with
  | .error e => return (none, [notUtf8 path e])
  | .ok cs =>
    let text := String.ofList (Text.marked (Text.unifyNewlines cs))
    let (m, diagnostics) ←
      (Module.ofText text (some (Path.moduleName path)) (some path)).mapError .numeral
    return (some m, diagnostics)

/-- The modules in some files and all diagnostics, in order. -/
def readModules (t : FileTree) : List String → Except SourceError (List Module × List Diagnostic)
  | [] => .ok ([], [])
  | path :: paths => do
    let (m, diagnostics) ← readModule t path
    let (ms, more) ← readModules t paths
    return (m.toList ++ ms, diagnostics ++ more)

/-- The names of a directory's source files, sorted by code points. -/
def fileNames (t : FileTree) (path : String) : List String :=
  Text.sortNames ((t.list path).filter (·.endsWith ".vm"))

/-- The name of the program in a directory: the directory's own. -/
def directoryProgram (t : FileTree) (path : String) : String :=
  ((Path.locate t.workingDirectory path).getLast?).getD ""

/-- The names of the files to read from a directory. A single module with the
name of the program is read from the file that has this name and the
extension. -/
def chosenNames (program : String) (names : List String) : List String :=
  match names with
  | [name] => if Path.moduleName name = program then [program ++ ".vm"] else [name]
  | names => names

/-- **Reads a source.** Slashes and backslashes at the end of its path do not
matter. -/
def load (t : FileTree) (path : String) : Except SourceError Source := do
  let path := Path.trimEnd path
  if t.isDirectory path then
    let program := directoryProgram t path
    let outPath := Path.join path (program ++ ".asm")
    match fileNames t path with
    | [] =>
      let problem := Diagnostic.error "El directorio no contiene archivos .vm" none (some path) none
      return ⟨program, [], [problem], outPath⟩
    | names =>
      let (modules, diagnostics) ←
        readModules t ((chosenNames program names).map (Path.join path))
      return ⟨program, modules, diagnostics, outPath⟩
  else if t.isFile path then
    let program := Path.moduleName path
    let (modules, diagnostics) ← readModules t [path]
    return ⟨program, modules, diagnostics, Path.join (Path.directory path) (program ++ ".asm")⟩
  else throw (.missing path)

end Source

end HackStack
