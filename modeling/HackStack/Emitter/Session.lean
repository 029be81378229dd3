import HackStack.Emitter

/-!
# Emitting

A **session** writes the code of one command after another. It holds the
emitter and the lines written so far. A command that is refused leaves the
session as it was before it; `Session.emitAll` stops there and reports the
fault with the command's place.
-/

namespace HackStack

/-- An emitter and the lines written so far. -/
structure Session where
  emitter : Emitter
  lines : Array Line := #[]
  deriving DecidableEq, Repr

/-- A step that was refused, with the reason and the session that it leaves. -/
structure Refusal (ε : Type) where
  reason : ε
  session : Session

/-- Why the entry function of a program cannot be called. -/
inductive EntryError where
  /-- It has no name. -/
  | missing
  /-- Its name is refused. -/
  | refused (f : Fault)
  deriving DecidableEq, Repr

/-- The wording of an entry error. -/
def EntryError.message : EntryError → String
  | .missing => "'NoneType' object has no attribute 'split'"
  | .refused f => f.message

namespace Session

/-- Writes lines at the end. -/
def write (s : Session) (code : List Line) : Session :=
  { s with lines := s.lines ++ code }

/-- **Emits a command**, or leaves the session as it is. -/
def emit (s : Session) (d : Draft) : Except (Refusal Fault) Session :=
  match d.check with
  | .error f => .error ⟨f, s⟩
  | .ok c =>
    match s.emitter.code c with
    | .error f => .error ⟨f, s⟩
    | .ok code => .ok { emitter := s.emitter.next c, lines := s.lines ++ code }

/-- Writes the code that points at a cell of a segment. -/
def emitAddress (s : Session) (segment : String) (index : Field) :
    Except (Refusal Fault) Session :=
  match (do
      let index ← index.count .index
      let segment ← Segment.read segment
      s.emitter.addressCode segment index) with
  | .error f => .error ⟨f, s⟩
  | .ok code => .ok (s.write code)

/-- **Emits the code that starts a program**: it sets the stack pointer and
calls the entry function. The session is inside the entry function from
then on, even when the call is refused because its name is no symbol. A
name that is missing leaves the session in no function. -/
def bootstrap (s : Session) (stackBase : Field) :
    (entry : Option String) → Except (Refusal EntryError) Session
  | none => .error ⟨.missing, { s with emitter := { s.emitter with functionName := none } }⟩
  | some entry =>
    let inside := { s with emitter := s.emitter.enter entry }
    let stack :=
      [.address stackBase.plain, .set .d (.y .a), .address s.emitter.regs.sp, .set .m .d]
    match (inside.write stack).emit (.call (.text entry) (.int 0)) with
    | .error r => .error ⟨.refused r.reason, inside⟩
    | .ok done => .ok done

/-- The error that reports a fault in a command: it names the command's line,
and its module or else the program. -/
def report (s : Session) (p : Placed Draft) (f : Fault) : Diagnostic :=
  let file := match p.moduleName with
    | some name => if name.isEmpty then s.emitter.program else some name
    | none => s.emitter.program
  .ofFault f p.line? file (some p.item.text)

/-- Emits a command with a place. -/
def emitPlaced (s : Session) (p : Placed Draft) : Except (Refusal Diagnostic) Session :=
  match s.emit p.item with
  | .error r => .error ⟨r.session.report p r.reason, r.session⟩
  | .ok done => .ok done

/-- **Emits commands in order**, up to the first that is refused. -/
def emitAll (s : Session) (commands : List (Placed Draft)) :
    Except (Refusal Diagnostic) Session :=
  commands.foldlM emitPlaced s

/-- The lines written so far as text. -/
def listed (s : Session) : List String := s.lines.toList.map Line.text

end Session

/-- What emitting a program gives: all of its lines, or none and one
diagnostic. -/
structure Emission where
  lines : List String
  diagnostics : List Diagnostic
  deriving DecidableEq, Repr

namespace Emission

/-- The outcome of a session whose lines come after some that are there already;
a session that was refused has no lines at all. -/
def after (before : List String) : Except (Refusal Diagnostic) Session → Emission
  | .error r => ⟨[], [r.reason]⟩
  | .ok s => ⟨before ++ s.listed, []⟩

/-- **The code of a program that is not divided into modules.** -/
def ofCommands (commands : List (Placed Draft)) (program : Option String) : Emission :=
  after [] (Session.emitAll { emitter := .start program {} } commands)

end Emission

end HackStack
