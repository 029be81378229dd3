import HackStack.Text.UpperCase

/-!
# Diagnostics

What a pass has to say about its input: a **severity**, a message, and if
they are known a file, a line and a hint. `Diagnostic.text` is the one line
that the user reads.
-/

namespace HackStack

/-- How serious a diagnostic is. Errors and warnings are the severities the
passes use; any other is kept by its name. -/
inductive Severity where
  | error
  | warning
  | other (name : String)
  deriving DecidableEq, Repr

namespace Severity

/-- The name of a severity. -/
def name : Severity → String
  | error => "error"
  | warning => "advertencia"
  | other name => name

/-- The severity of a name. -/
def ofName (name : String) : Severity :=
  if name == "error" then error
  else if name == "advertencia" then warning
  else other name

/-- The word that a severity is shown by. -/
def label : Severity → String
  | error => "ERROR"
  | warning => "ADVERTENCIA"
  | other name => Text.upper name

end Severity

/-- A finding about the input, and where it was made. -/
structure Diagnostic where
  severity : Severity
  message : String
  line : Option Int := none
  hint : Option String := none
  file : Option String := none
  deriving DecidableEq, Repr

namespace Diagnostic

/-- An error. -/
def error (message : String) (line : Option Int) (file hint : Option String) : Diagnostic :=
  ⟨.error, message, line, hint, file⟩

/-- A warning. -/
def warning (message : String) (line : Option Int) (file hint : Option String) : Diagnostic :=
  ⟨.warning, message, line, hint, file⟩

/-- Whether a diagnostic is an error. -/
def isError (d : Diagnostic) : Bool := d.severity == .error

/-- The place of a diagnostic: its file and its line, as far as they are
known, and the colon that ends it. An empty place is not shown. -/
def place (d : Diagnostic) : String :=
  let parts := d.file.toList ++ (d.line.map toString).toList
  let place := ":".intercalate parts
  if place.isEmpty then "" else place ++ ": "

/-- The hint in its brackets; an empty hint is not shown. -/
def hintText (d : Diagnostic) : String :=
  match d.hint with
  | some hint => if hint.isEmpty then "" else "  (pista: " ++ hint ++ ")"
  | none => ""

/-- **The line that the user reads.** -/
def text (d : Diagnostic) : String :=
  d.place ++ d.severity.label ++ ": " ++ d.message ++ d.hintText

end Diagnostic

/-- Whether there is an error among some diagnostics. -/
def hasErrors (ds : List Diagnostic) : Bool := ds.any Diagnostic.isError

end HackStack
