import HackStack.Command.Reading

/-!
# Modules

A **module** is the unit of source: the commands of one file, and mostly a
name for them.
-/

namespace HackStack

/-- The commands of one source file. -/
structure Module where
  name : Option String
  commands : List (Placed Draft)
  /-- The path of the file, if the module comes from one. -/
  path : Option String := none
  deriving DecidableEq, Repr

namespace Module

/-- **The module that a text holds**, with the diagnostics of its bad lines,
which it leaves out. -/
def ofText (text : String) (name path : Option String) :
    Except Text.NumeralError (Module × List Diagnostic) := do
  let reading ← Reading.ofText text name path
  let commands := reading.commands.map (Placed.map Command.draft)
  return ({ name := name, commands := commands, path := path }, reading.diagnostics)

/-- Whether a module declares a function of that name. -/
def declares (m : Module) (name : Option String) : Bool :=
  m.commands.any (·.item.declares name)

/-- What diagnostics call a module: its path, or its name when it has no path
or an empty one. -/
def place (m : Module) : Option String :=
  match m.path with
  | some path => if path.isEmpty then m.name else some path
  | none => m.name

end Module

end HackStack
