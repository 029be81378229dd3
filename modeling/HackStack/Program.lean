import HackStack.Emitter.Session
import HackStack.Module

/-!
# Linked programs

Linking puts the modules of a program in order, the one that declares the
entry function first, and emits them in one session, so that no two
generated labels clash. In front there may be a bootstrap that calls the
entry function; the loop at the end keeps the machine from running on.

Mistakes in the list of modules (none at all, two of one name, a function
with the name of the final loop) end the work before any code is written.
-/

namespace HackStack

/-- When the bootstrap is written. -/
inductive Bootstrap where
  /-- When a module declares the entry function. -/
  | auto
  | always
  | never
  deriving DecidableEq, Repr

/-- How modules are linked. -/
structure LinkOptions where
  /-- The name of the program; by default that of the first module in order. -/
  program : Option String := none
  /-- Where the bootstrap puts the stack. -/
  stackBase : Field := .int 256
  /-- The function that the bootstrap calls. -/
  entry : Option String := some "Sys.init"
  bootstrap : Bootstrap := .auto
  /-- The label of the loop at the end. -/
  haltLabel : Option String := some "END"
  deriving DecidableEq, Repr

/-- A linked program. On an error it has no lines. -/
structure Program where
  lines : List Line
  /-- The names of the modules in the order of their code. -/
  order : List (Option String)
  /-- Whether the bootstrap is part of it. -/
  bootstrap : Bool
  diagnostics : List Diagnostic
  deriving DecidableEq, Repr

namespace Program

/-- The lines of a program as text. -/
def listed (p : Program) : List String := p.lines.map Line.text

/-- **The modules in the order of their code**: those that declare the entry
function, then the others, each group as it was given. -/
def arrange (modules : List Module) (entry : Option String) : List Module :=
  modules.filter (·.declares entry) ++ modules.filter (!·.declares entry)

/-- The loop at the end of a program. -/
def haltLoop (label : Option String) : List Line :=
  [.label (shownName label), .address (shownName label), .branch .zero .always]

/-- The error about a command that declares a function with a reserved name. -/
def reserved (m : Module) (label : Option String) (p : Placed Draft) : Diagnostic :=
  .ofFault (.reservedName (shownName label)) p.line? m.place (some p.item.text)

/-- The errors about functions that have the name of the final loop. -/
def haltErrors (modules : List Module) (label : Option String) : List Diagnostic :=
  modules.flatMap fun m =>
    (m.commands.filter (·.item.declares label)).map (reserved m label)

/-- The errors about modules whose name an earlier module has; `seen` are the
names before. -/
def duplicateErrors (seen : List (Option String)) : List Module → List Diagnostic
  | [] => []
  | m :: ms =>
    let errors := if seen.contains m.name then
        [Diagnostic.error ("Módulo duplicado: " ++ shownName m.name) none m.path
          (some "los símbolos static de ambos colisionarían")]
      else []
    errors ++ duplicateErrors (m.name :: seen) ms

/-- The warnings about a program without an entry function. -/
def entryWarnings (moduleCount : Nat) (hasEntry useBootstrap : Bool) (entry : String) :
    List Diagnostic :=
  (if 1 < moduleCount && !hasEntry then
    [.warning ("Ningún módulo declara " ++ entry) none none
      (some "el programa empezará por el primer módulo")]
  else [])
  ++ (if useBootstrap && !hasEntry then
    [.warning ("Arranque forzado pero ningún módulo declara " ++ entry) none none
      (some s!"'call {entry} 0' saltará a una etiqueta sin definir")]
  else [])

/-- A program that could not be linked. -/
def failed (order : List (Option String)) (bootstrap : Bool) (diagnostics : List Diagnostic) :
    Program :=
  ⟨[], order, bootstrap, diagnostics⟩

/-- Whether the bootstrap is written. -/
def usesBootstrap (mode : Bootstrap) (hasEntry : Bool) : Bool :=
  match mode with
  | .auto => hasEntry
  | .always => true
  | .never => false

/-- Links modules that stand in the order of their code, of which the first is
given apart. -/
def linkArranged (first : Module) (rest : List Module) (o : LinkOptions) :
    Except EntryError Program := do
  let modules := first :: rest
  let order := modules.map Module.name
  let hasEntry := first.declares o.entry
  let boot := usesBootstrap o.bootstrap hasEntry
  let warnings := entryWarnings modules.length hasEntry boot (shownName o.entry)
  let session : Session := { emitter := .start (o.program.or first.name) {} }
  let session ← if boot then
      (session.bootstrap o.stackBase o.entry).mapError Refusal.reason
    else pure session
  match session.emitAll (modules.flatMap Module.commands) with
  | .error r => return failed order boot (warnings ++ [r.reason])
  | .ok done => return ⟨done.lines.toList ++ haltLoop o.haltLabel, order, boot, warnings⟩

/-- **Links modules.** What is wrong with the name of the entry function is not a
diagnostic of the program. -/
def link (modules : List Module) (o : LinkOptions) : Except EntryError Program :=
  match arrange modules o.entry with
  | [] => .ok (failed [] false [.error "No hay módulos que traducir" none none none])
  | first :: rest =>
    let errors := duplicateErrors [] modules ++ haltErrors modules o.haltLabel
    if hasErrors errors then .ok (failed [] false errors)
    else linkArranged first rest o

end Program

/-- Why there is no program to speak of, not even one with diagnostics. -/
inductive BuildError where
  /-- A source has a numeral that is not read. -/
  | numeral (e : Text.NumeralError)
  /-- The entry function cannot be called. -/
  | entry (e : EntryError)
  deriving DecidableEq, Repr

/-- **The program of one text**, with the diagnostics of reading and linking it.
A text with errors is not linked. -/
def Program.ofText (text : String) (name : Option String) (o : LinkOptions) :
    Except BuildError (List Diagnostic × Program) := do
  let (m, diagnostics) ← (Module.ofText text name none).mapError .numeral
  if hasErrors diagnostics then return (diagnostics, .failed [] false [])
  let p ← (Program.link [m] { o with program := name }).mapError .entry
  return (diagnostics ++ p.diagnostics, p)

end HackStack
