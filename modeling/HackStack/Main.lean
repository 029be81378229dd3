import HackStack.Tool

/-!
# The command line

The thin layer around `Tool.judge`: it looks at the source on disk, prints,
and writes the output. It does not list directories: the names of the files
in one are read from standard input, a name a line.
-/

namespace HackStack.CommandLine

/-- What the system hands over, as a marked text. -/
def ofSystem (text : String) : String := String.ofList (Text.marked text.toList)

/-- What there is at a path on disk. -/
def look (path : String) : IO (Option Node) := do
  try
    return some (.file (← IO.FS.readBinFile (Text.characters path)).toList)
  catch
    | .noFileOrDirectory .. => return none
    | _ => return some .directory

/-- The lines of standard input that are not empty. -/
partial def readNames (input : IO.FS.Stream) : IO (List String) := do
  let line ← input.getLine
  if line.isEmpty then return []
  let name := ofSystem (Text.strip line)
  let names ← readNames input
  return if name.isEmpty then names else name :: names

/-- The part of the disk that an invocation reads. -/
def snapshot (source : String) : IO FileTree := do
  let here := (Path.names (ofSystem (toString (← IO.currentDir)))).filter (· != "")
  let start := FileTree.empty here
  let path := Path.trimEnd source
  match ← look path with
  | none => return start
  | some (.file bytes) => return start.add path (.file bytes)
  | some .directory =>
    let names ← readNames (← IO.getStdin)
    names.foldlM (fun t name => do
      match ← look (Path.join path name) with
      | some node => return t.add (Path.join path name) node
      | none => return t) (start.add path .directory)

/-- The wording of an error on writing to a path. -/
def writeError (path : String) : IO.Error → String
  | .noFileOrDirectory .. => FileError.message ⟨.missing, path⟩
  | .inappropriateType .. => FileError.message ⟨.isDirectory, path⟩
  | e => toString e

/-- Ends a run that is cut off. -/
def cutOff (e : ToolError) : IO UInt32 := do
  IO.eprintln e.message
  return 1

/-- Writes the output to a file that is open. -/
def fill (file : IO.FS.Handle) (output : Tool.Output) : IO UInt32 := do
  match Text.encode output.text with
  | .error e => cutOff (.text e)
  | .ok bytes =>
    file.write ⟨bytes.toArray⟩
    file.flush
    match Console.utf8 output.success with
    | .error message => cutOff (.console message)
    | .ok _ =>
      IO.print (Text.characters output.success)
      return 0

/-- Carries out a verdict on disk; gives the exit code. -/
def carryOut : Tool.Verdict → IO UInt32
  | .refused code err => do
    IO.eprint (Text.characters err)
    return code.toUInt32
  | .ready err output => do
    IO.eprint (Text.characters err)
    match Path.error? output.path with
    | some e => cutOff (.path e)
    | none =>
      try
        fill (← IO.FS.Handle.mk (Text.characters output.path) .write) output
      catch e =>
        IO.eprint (Text.characters (Tool.writeFailure (writeError output.path e)))
        return 3

end HackStack.CommandLine

/-- Runs the tool on the words of the command line. -/
def main (words : List String) : IO UInt32 := do
  match HackStack.Invocation.ofArguments (words.map HackStack.CommandLine.ofSystem) with
  | .error .help =>
    IO.print HackStack.Invocation.help
    return 0
  | .error (.usage e) =>
    IO.eprint (HackStack.Text.characters (HackStack.Invocation.usageText e))
    return 2
  | .error .noMode => HackStack.CommandLine.cutOff .noMode
  | .ok i =>
    match HackStack.Tool.judge (← HackStack.CommandLine.snapshot i.source) i with
    | .ok verdict => HackStack.CommandLine.carryOut verdict
    | .error e => HackStack.CommandLine.cutOff e
