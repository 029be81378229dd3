import HackStack.Fault
import HackStack.Command.Symbol

/-!
# Commands

The stack language has nine kinds of **command**. A `Command` has sound
parts: a known operator, a known segment, counts that are naturals. What a
client hands over is a `Draft`, whose parts are still texts and `Field`s;
`Draft.check` gives the command it stands for, or the first fault. `Draft.text`
is the command as a line of source.
-/

namespace HackStack

/-! ## Operators -/

/-- Operators on the top of the stack. -/
inductive Unary where
  | neg
  | not
  deriving DecidableEq, Repr

/-- Operators on the two words at the top of the stack. -/
inductive Binary where
  | add
  | sub
  | and
  | or
  deriving DecidableEq, Repr

/-- Operators that compare the two words at the top of the stack. -/
inductive Comparison where
  | eq
  | gt
  | lt
  deriving DecidableEq, Repr

/-- The arithmetic and logical operators. -/
inductive Operator where
  | unary (op : Unary)
  | binary (op : Binary)
  | comparison (op : Comparison)
  deriving DecidableEq, Repr

namespace Operator

/-- The word for an operator. -/
def name : Operator → String
  | binary .add => "add"
  | binary .sub => "sub"
  | binary .and => "and"
  | binary .or => "or"
  | unary .neg => "neg"
  | unary .not => "not"
  | comparison .eq => "eq"
  | comparison .gt => "gt"
  | comparison .lt => "lt"

/-- Every operator. -/
def all : List Operator :=
  [binary .add, binary .sub, binary .and, binary .or, unary .neg, unary .not,
    comparison .eq, comparison .gt, comparison .lt]

/-- The operator of a word. -/
def ofName? (name : String) : Option Operator :=
  all.find? (·.name == name)

theorem mem_all (op : Operator) : op ∈ all := by
  rcases op with (_ | _) | (_ | _ | _ | _) | (_ | _ | _) <;> decide

@[simp] theorem ofName?_name (op : Operator) : ofName? op.name = some op := by
  rcases op with (_ | _) | (_ | _ | _ | _) | (_ | _ | _) <;> decide

end Operator

/-! ## Commands and drafts -/

/-- A command of the stack language. -/
inductive Command where
  | arithmetic (op : Operator)
  | push (segment : Segment) (index : Nat)
  | pop (segment : Segment) (index : Nat)
  | label (name : String)
  | goto (target : String)
  | ifGoto (target : String)
  | function (name : String) (locals : Nat)
  | call (name : String) (args : Nat)
  | ret
  deriving DecidableEq, Repr

/-- A command as a client hands it over, with nothing checked; `other` is a
value that is no command at all. -/
inductive Draft where
  | arithmetic (op : String)
  | push (segment : String) (index : Field)
  | pop (segment : String) (index : Field)
  | label (name : Field)
  | goto (target : Field)
  | ifGoto (target : Field)
  | function (name locals : Field)
  | call (name args : Field)
  | ret
  | other (value : Field)
  deriving DecidableEq, Repr

/-- A command or draft with its place: a line, zero where there is none, and
the name of the module it belongs to. -/
structure Placed (α : Type) where
  item : α
  line : Int := 0
  moduleName : Option String := none
  deriving DecidableEq, Repr

/-- The same place with another item. -/
def Placed.map {α β : Type} (f : α → β) (p : Placed α) : Placed β :=
  { item := f p.item, line := p.line, moduleName := p.moduleName }

/-- The line of a place, if it has one. -/
def Placed.line? {α : Type} (p : Placed α) : Option Int :=
  if p.line = 0 then none else some p.line

/-- A command as a draft. -/
def Command.draft : Command → Draft
  | arithmetic op => .arithmetic op.name
  | push segment index => .push segment.name (.int index)
  | pop segment index => .pop segment.name (.int index)
  | label name => .label (.text name)
  | goto target => .goto (.text target)
  | ifGoto target => .ifGoto (.text target)
  | function name locals => .function (.text name) (.int locals)
  | call name args => .call (.text name) (.int args)
  | ret => .ret

/-! ## Checking a draft -/

/-- A field as a count. -/
def Field.count (role : Role) : Field → Except Fault Nat
  | .int n => if n < 0 then .error (.negative role n) else .ok n.toNat
  | f => .error (.notInteger role f)

/-- A field as a name, which has to be a symbol. -/
def Field.symbol (role : Role) : Field → Except Fault String
  | .text s => if isSymbol s.toList then .ok s else .error (.badName role (.text s))
  | f => .error (.badName role f)

/-- The segment that a token names. -/
def Segment.read (token : String) : Except Fault Segment :=
  match Segment.ofToken? token with
  | some segment => .ok segment
  | none => .error (.unknownSegment token)

/-- **The command that a draft stands for**, or the first thing wrong with it.
A push looks at its index before its segment, a pop at its segment
before its index, and a function or a call at its name before its count. -/
def Draft.check : Draft → Except Fault Command
  | arithmetic op =>
    match Operator.ofName? op with
    | some op => .ok (.arithmetic op)
    | none => .error (.unknownOperator op)
  | push segment index => do
    let index ← index.count .index
    let segment ← Segment.read segment
    return .push segment index
  | pop segment index => do
    let segment ← Segment.read segment
    if segment = .constant then throw .popConstant
    let index ← index.count .index
    return .pop segment index
  | label name => return .label (← name.symbol .labelName)
  | goto target => return .goto (← target.symbol .gotoTarget)
  | ifGoto target => return .ifGoto (← target.symbol .ifGotoTarget)
  | function name locals => do
    let name ← name.symbol .functionName
    let locals ← locals.count .localCount
    return .function name locals
  | call name args => do
    let name ← name.symbol .functionName
    let args ← args.count .argumentCount
    return .call name args
  | ret => return .ret
  | other value => .error (.notCommand value)

/-! ## The text of a command -/

/-- **A draft as a line of source**, also when it would be refused there. -/
def Draft.text : Draft → String
  | arithmetic op => op
  | push segment index => "push " ++ segment ++ " " ++ index.plain
  | pop segment index => "pop " ++ segment ++ " " ++ index.plain
  | label name => "label " ++ name.plain
  | goto target => "goto " ++ target.plain
  | ifGoto target => "if-goto " ++ target.plain
  | function name locals => "function " ++ name.plain ++ " " ++ locals.plain
  | call name args => "call " ++ name.plain ++ " " ++ args.plain
  | ret => "return"
  | other value => value.quoted

/-- A command as a line of source. -/
def Command.text (c : Command) : String := c.draft.text

/-- Whether a draft declares a function of that name; a function without a name
has the missing one. -/
def Draft.declares (name : Option String) : Draft → Bool
  | function f _ => f == .ofName name
  | _ => false

end HackStack
