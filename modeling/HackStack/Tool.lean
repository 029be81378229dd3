import HackStack.Asm.Listing
import HackStack.Invocation
import HackStack.Source

/-!
# The tool

A run of the tool as a function from a file tree and a command line to a
**report**: how the run ended, what was printed, and the file tree
afterwards. The tool opens one file, and only when the source has no errors.
What opens need not be written: a text with a lone surrogate has no bytes, and
then the run is **cut off** and leaves the file empty.
-/

namespace HackStack

/-- What cuts a run off. -/
inductive ToolError where
  /-- A source has a numeral that is not read. -/
  | numeral (e : Text.NumeralError)
  /-- The entry function cannot be called. -/
  | entry (e : EntryError)
  /-- The path of the output is none. -/
  | path (e : PathError)
  /-- The assembly cannot be encoded. -/
  | text (e : Text.EncodeError)
  /-- Standard output does not take what is printed, in its own words. -/
  | console (message : String)
  /-- The bootstrap option is given without a mode. -/
  | noMode
  deriving DecidableEq, Repr

/-- The wording of what cuts a run off. -/
def ToolError.message : ToolError → String
  | .numeral e => e.message
  | .entry e => e.message
  | .path e => e.message
  | .text e => e.message
  | .console message => message
  | .noMode => "unhashable type: 'list'"

/-- How a run ends. -/
inductive Ending where
  | exit (code : Nat)
  | cutOff (e : ToolError)
  deriving DecidableEq, Repr

/-- What a run of the tool leaves behind. -/
structure Report where
  ending : Ending
  out : String := ""
  err : String := ""
  tree : FileTree
  deriving DecidableEq, Repr

/-- Standard output: it takes a text, or says why not. Standard error takes every
text. -/
abbrev Console := String → Except String Unit

/-- The console that shows text in UTF-8. -/
def Console.utf8 : Console := fun text =>
  match Text.encode text with
  | .ok _ => .ok ()
  | .error e => .error e.message

namespace Tool

/-- A source that was read and linked. -/
structure Build where
  diagnostics : List Diagnostic
  program : Program
  outPath : String
  deriving DecidableEq, Repr

/-- **Links a source.** A source with errors is not linked. -/
def build (s : Source) (bootstrap : Bootstrap) : Except EntryError Build :=
  if hasErrors s.diagnostics then
    .ok ⟨s.diagnostics, .failed [] false [], s.outPath⟩
  else do
    let p ← Program.link s.modules { program := some s.program, bootstrap := bootstrap }
    return ⟨s.diagnostics ++ p.diagnostics, p, s.outPath⟩

/-- Diagnostics as they are printed, one a line. -/
def printed (ds : List Diagnostic) : String :=
  String.join (ds.map fun d => d.text ++ "\n")

/-- A file to be written: the assembly and the path that it goes to. -/
structure Output where
  path : String
  text : String
  /-- The number of lines of the program. -/
  lineCount : Nat
  deriving DecidableEq, Repr

/-- What is printed when the output is written. -/
def Output.success (o : Output) : String :=
  "OK: " ++ toString o.lineCount ++ " instrucciones → " ++ o.path ++ "\n"

/-- What is printed when the output cannot be written. -/
def writeFailure (message : String) : String :=
  "ERROR al escribir salidas: " ++ message ++ "\n"

/-- What an invocation comes to before anything is written. Either way there is
something to print for the user. -/
inductive Verdict where
  | refused (code : Nat) (err : String)
  | ready (err : String) (output : Output)
  deriving DecidableEq, Repr

/-- The verdict on a build: errors refuse it. The output goes to the path that
was asked for, unless that is empty. -/
def Build.verdict (b : Build) (output : Option String) : Verdict :=
  let err := printed b.diagnostics
  if hasErrors b.diagnostics then .refused 1 err
  else
    let path := match output with
      | some path => if path.isEmpty then b.outPath else path
      | none => b.outPath
    .ready err ⟨path, listing b.program.listed, b.program.lines.length⟩

/-- **The verdict on an invocation**: its source is read and linked. -/
def judge (t : FileTree) (i : Invocation) : Except ToolError Verdict :=
  match Source.load t i.source with
  | .error (.numeral e) => .error (.numeral e)
  | .error e => .ok (.refused 2 ("ERROR: no pude leer " ++ i.source ++ ": " ++ e.message ++ "\n"))
  | .ok s =>
    match build s i.bootstrap with
    | .error e => .error (.entry e)
    | .ok b => .ok (b.verdict i.output)

/-- **Carries out a verdict.** The file is opened first, then its text is encoded
and written, and what was done is printed last. -/
def Verdict.report (console : Console) (t : FileTree) : Verdict → Report
  | refused code err => { ending := .exit code, err := err, tree := t }
  | ready err output =>
    match Path.error? output.path with
    | some e => { ending := .cutOff (.path e), err := err, tree := t }
    | none =>
      match t.create output.path with
      | .error e => { ending := .exit 3, err := err ++ writeFailure e.message, tree := t }
      | .ok (place, opened) =>
        match Text.encode output.text with
        | .error e => { ending := .cutOff (.text e), err := err, tree := opened }
        | .ok bytes =>
          let written := opened.put place (.file bytes)
          match console output.success with
          | .error message => { ending := .cutOff (.console message), err := err, tree := written }
          | .ok _ => { ending := .exit 0, out := output.success, err := err, tree := written }

/-- Carries out an invocation. -/
def perform (console : Console) (t : FileTree) (i : Invocation) : Report :=
  match judge t i with
  | .error e => { ending := .cutOff e, tree := t }
  | .ok verdict => verdict.report console t

/-- **Runs the tool.** -/
def run (console : Console) (t : FileTree) (words : List String) : Report :=
  match Invocation.ofArguments words with
  | .error .help => { ending := .exit 0, out := Invocation.help, tree := t }
  | .error (.usage e) => { ending := .exit 2, err := Invocation.usageText e, tree := t }
  | .error .noMode => { ending := .cutOff .noMode, tree := t }
  | .ok i => perform console t i

end Tool

end HackStack
