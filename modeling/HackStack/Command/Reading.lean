import HackStack.Command
import HackStack.Text.LineBreak
import HackStack.Text.Numeral

/-!
# Reading source text

Source text has one command a line. A comment runs from two slashes to the
end of the line, and lines with nothing else are skipped. Every other line
gives exactly one **item**, a command or an error diagnostic, and the lines
after a bad one are read all the same.

Only a numeral of too many digits stops the reading: it is refused as a
numeral before it can be refused as a count.
-/

namespace HackStack

/-- The first word of a line. -/
inductive Operation where
  | arithmetic (op : Operator)
  | push
  | pop
  | label
  | goto
  | ifGoto
  | function
  | call
  | ret
  deriving DecidableEq, Repr

namespace Operation

/-- The word for an operation. -/
def word : Operation → String
  | arithmetic op => op.name
  | push => "push"
  | pop => "pop"
  | label => "label"
  | goto => "goto"
  | ifGoto => "if-goto"
  | function => "function"
  | call => "call"
  | ret => "return"

/-- Every operation. -/
def all : List Operation :=
  Operator.all.map arithmetic ++ [push, pop, label, goto, ifGoto, function, call, ret]

/-- The operation of a word. -/
def ofWord? (word : String) : Option Operation :=
  all.find? (·.word == word)

/-- The number of words that follow an operation. -/
def arity : Operation → Nat
  | arithmetic _ | ret => 0
  | label | goto | ifGoto => 1
  | push | pop | function | call => 2

end Operation

/-- Why a line gives no command. -/
inductive LineError where
  /-- The line is refused; reading goes on. -/
  | fault (f : Fault)
  /-- The line has a numeral that is not read; reading stops. -/
  | numeral (e : Text.NumeralError)
  deriving DecidableEq, Repr

/-- A count in the source: an integer numeral that is not negative. -/
def readCount (role : Role) (token : String) : Except LineError Nat :=
  match Text.splitSign? token.toList with
  | none => .error (.fault (.notNumeral role token))
  | some (minus, digits) =>
    match Text.readNumeral digits with
    | .error e => .error (.numeral e)
    | .ok n => if minus && n != 0 then .error (.fault (.negative role (-n))) else .ok n

/-- A name in the source. -/
def readSymbol (role : Role) (token : String) : Except LineError String :=
  if isSymbol token.toList then .ok token else .error (.fault (.notSymbol role token))

/-- A segment in the source. -/
def readSegment (token : String) : Except LineError Segment :=
  (Segment.read token).mapError .fault

/-- The command of an operation and the words after it. -/
def Operation.read (op : Operation) (args : List String) : Except LineError Command :=
  match op, args with
  | .arithmetic op, [] => .ok (.arithmetic op)
  | .ret, [] => .ok .ret
  | .push, [segment, index] => do
    let segment ← readSegment segment
    return .push segment (← readCount .index index)
  | .pop, [segment, index] => do
    let segment ← readSegment segment
    let index ← readCount .index index
    if segment = .constant then throw (.fault .popConstant)
    return .pop segment index
  | .label, [name] => return .label (← readSymbol .labelName name)
  | .goto, [target] => return .goto (← readSymbol .target target)
  | .ifGoto, [target] => return .ifGoto (← readSymbol .target target)
  | .function, [name, locals] => do
    let name ← readSymbol .functionName name
    return .function name (← readCount .localCount locals)
  | .call, [name, args] => do
    let name ← readSymbol .functionName name
    return .call name (← readCount .argumentCount args)
  | op, args => .error (.fault (.wrongArity op.word op.arity args.length))

/-- The first word of a line and the words after it; the first is empty when
the line has none. -/
def splitOperation (line : List Char) : String × List String :=
  match (Text.words line).map String.ofList with
  | [] => ("", [])
  | op :: args => (op, args)

/-- **The command on a line** without its comment. -/
def Command.read (line : List Char) : Except LineError Command :=
  let (op, args) := splitOperation line
  match Operation.ofWord? op with
  | none => .error (.fault (.unknownOperation op))
  | some op => op.read args

/-- What a line of source contributes. -/
inductive Item where
  | command (c : Placed Command)
  | diagnostic (d : Diagnostic)
  deriving DecidableEq, Repr

/-- The item of line `number`; none when the line is blank but for a comment. -/
def readLine (moduleName file : Option String) (number : Nat) (line : List Char) :
    Except Text.NumeralError (Option Item) :=
  let core := Text.core line
  if core.isEmpty then .ok none
  else match Command.read core with
    | .ok c => .ok (some (.command { item := c, line := number, moduleName := moduleName }))
    | .error (.fault f) =>
      .ok (some (.diagnostic (.ofFault f (some number) file (some (String.ofList core)))))
    | .error (.numeral e) => .error e

/-- The items of the lines from line `number` on. -/
def readLines (moduleName file : Option String) (number : Nat) :
    List (List Char) → Except Text.NumeralError (List Item)
  | [] => .ok []
  | line :: rest => do
    let item ← readLine moduleName file number line
    let items ← readLines moduleName file (number + 1) rest
    return item.toList ++ items

/-- The commands of a text and the diagnostics of its bad lines. -/
structure Reading where
  commands : List (Placed Command)
  diagnostics : List Diagnostic
  deriving DecidableEq, Repr

/-- The commands and the diagnostics among some items. -/
def Reading.ofItems (items : List Item) : Reading where
  commands := items.filterMap fun | .command c => some c | .diagnostic _ => none
  diagnostics := items.filterMap fun | .diagnostic d => some d | .command _ => none

/-- **Reads source text.** Diagnostics name the file, or the module when no file
is known. -/
def Reading.ofText (text : String) (moduleName file : Option String) :
    Except Text.NumeralError Reading :=
  Reading.ofItems <$>
    readLines moduleName (file.or moduleName) 1 (Text.lines text.toList)

end HackStack
