import HackStack.Diagnostic
import HackStack.Field
import HackStack.Segment

/-!
# Faults

A **fault** is the reason why a command is refused. Each reason is a
constructor that carries what the message needs; `Fault.kind` sorts them
into the few kinds that a client tells apart, and `Fault.message` has the
wording. A fault becomes an error diagnostic where the command's place is
known.
-/

namespace HackStack

/-- The part that a count or a name plays in a command. -/
inductive Role where
  | index
  | localCount
  | argumentCount
  | labelName
  | target
  | gotoTarget
  | ifGotoTarget
  | functionName
  deriving DecidableEq, Repr

/-- The words for a role. -/
def Role.text : Role → String
  | index => "Índice"
  | localCount => "Número de locales"
  | argumentCount => "Número de argumentos"
  | labelName => "Nombre de etiqueta"
  | target => "Etiqueta"
  | gotoTarget => "Etiqueta de goto"
  | ifGotoTarget => "Etiqueta de if-goto"
  | functionName => "Nombre de función"

/-- The kinds of fault. -/
inductive FaultKind where
  | general
  | malformedCommand
  | unknownSegment
  | negativeIndex
  | indexOutOfRange
  deriving DecidableEq, Repr

/-- The hint that a kind of fault gives when nothing better is known. -/
def FaultKind.hint? : FaultKind → Option String
  | unknownSegment => some Segment.namesText
  | _ => none

/-- Why a command is refused. -/
inductive Fault where
  | unknownOperation (word : String)
  | wrongArity (word : String) (expected given : Nat)
  /-- A count in the source that is no numeral. -/
  | notNumeral (role : Role) (token : String)
  /-- A count that is no integer. -/
  | notInteger (role : Role) (value : Field)
  | negative (role : Role) (value : Int)
  /-- A name in the source that is no symbol. -/
  | notSymbol (role : Role) (token : String)
  /-- A name that is no symbol, or no text at all. -/
  | badName (role : Role) (value : Field)
  | popConstant
  | unknownSegment (token : String)
  /-- The segment is not an indirect one. -/
  | noBaseCell (segment : Segment)
  /-- The segment is not a fixed block. -/
  | noFixedBlock (segment : Segment)
  | outsideBlock (segment : Segment) (block : Segment.Block) (index : Int)
  | constantTooWide (value : Nat)
  | unknownOperator (word : String)
  | notCommand (value : Field)
  /-- A function has the name of the loop that ends the program. -/
  | reservedName (label : String)
  deriving DecidableEq, Repr

namespace Fault

/-- The kind of a fault. -/
def kind : Fault → FaultKind
  | negative .. => .negativeIndex
  | unknownSegment .. | noBaseCell .. | noFixedBlock .. => .unknownSegment
  | outsideBlock .. | constantTooWide .. => .indexOutOfRange
  | _ => .malformedCommand

/-- The wording of a fault. -/
def message : Fault → String
  | unknownOperation word => s!"Operación desconocida: '{word}'"
  | wrongArity word expected given =>
    s!"'{word}' espera {expected} argumento(s), recibió {given}"
  | notNumeral role token => role.text ++ s!" inválido: '{token}' (se esperaba un entero)"
  | notInteger role value => role.text ++ " no entero: " ++ value.quoted
  | negative role value => role.text ++ s!" negativo: {value}"
  | notSymbol role token => role.text ++ s!" inválido: '{token}'"
  | badName role value => role.text ++ " inválido: " ++ value.quoted
  | popConstant => "No se puede hacer pop sobre constant"
  | unknownSegment token => s!"Segmento desconocido: {token}"
  | noBaseCell segment => "El segmento " ++ segment.name ++ " no tiene celda base"
  | noFixedBlock segment => "El segmento " ++ segment.name ++ " no tiene base fija"
  | outsideBlock segment block index =>
    s!"Índice {index} fuera de rango para " ++ segment.name ++ s!" (0..{block.size - 1})"
  | constantTooWide value => s!"Constante {value} no cabe en 15 bits"
  | unknownOperator word => s!"Operación aritmética desconocida: {word}"
  | notCommand value => "Comando desconocido: " ++ value.quoted
  | reservedName label => s!"El nombre '{label}' está reservado para el bucle de parada"

/-- The hint of a fault: its own, or that of its kind. -/
def hint? : Fault → Option String
  | reservedName _ => some "renombre la función"
  | f => f.kind.hint?

end Fault

namespace Diagnostic

/-- The error that reports a message about a command, whose text is quoted
unless it is empty. A hint of the report's own stands before that of its
kind. -/
def report (kind : FaultKind) (message : String) (hint : Option String)
    (line : Option Int) (file command : Option String) : Diagnostic :=
  let subject := match command with
    | some text => if text.isEmpty then "" else s!" en '{text}'"
    | none => ""
  error (message ++ subject) line file (hint.or kind.hint?)

/-- The error that reports a fault. -/
def ofFault (f : Fault) (line : Option Int) (file command : Option String) : Diagnostic :=
  report f.kind f.message f.hint? line file command

/-- What reports a fault is an error. -/
@[simp] theorem isError_ofFault (f : Fault) (line : Option Int) (file command : Option String) :
    (ofFault f line file command).isError = true := rfl

end Diagnostic

end HackStack
