import HackStack.Asm.Block
import HackStack.Command
import HackStack.RegisterFile

/-!
# Code for a command

An `Emitter` is what the code of a command depends on besides the command: the
function and the static scope in force, two counters that keep generated labels
apart, and the register file. The names may be missing. `Emitter.code` is the
code of a command and `Emitter.next` the emitter after it. The code can still
be refused, when an index does not fit its segment.
-/

namespace HackStack

/-- What the code of a command depends on. -/
structure Emitter where
  program : Option String
  /-- The function in force, which scopes labels. -/
  functionName : Option String
  /-- What comes before the index in the symbol of a static cell. -/
  staticScope : Option String
  /-- The number of the next comparison. -/
  comparisons : Nat := 0
  /-- The number of the next return label. -/
  returns : Nat := 1
  regs : RegisterFile := {}
  deriving DecidableEq, Repr

/-! ## Segments -/

/-- The cell that holds the base of the segment that a token names. -/
def RegisterFile.baseOf (r : RegisterFile) (token : String) : Except Fault String := do
  match ← Segment.read token with
  | .indirect base => return r.base base
  | segment => throw (.noBaseCell segment)

/-- The address of a cell in a fixed block. -/
def Segment.fixedAddress (segment : Segment) (index : Int) : Except Fault Nat :=
  match segment.block? with
  | none => .error (.noFixedBlock segment)
  | some block =>
    if 0 ≤ index ∧ index < block.size then .ok (block.base + index.toNat)
    else .error (.outsideBlock segment block index)

namespace Emitter

/-- The emitter at the start of a program. -/
def start (program : Option String) (regs : RegisterFile) : Emitter :=
  { program := program, functionName := program, staticScope := program, regs := regs }

/-- The emitter inside a function: labels are scoped by its name and static
cells by its class. -/
def enter (e : Emitter) (name : String) : Emitter :=
  { e with functionName := some name, staticScope := some (classOf name) }

/-- A label as the code of the function in force spells it. -/
def qualify (e : Emitter) (label : String) : String :=
  shownName e.functionName ++ "$" ++ label

/-- The code that lets `A` point at a cell of a segment, or hold the constant. -/
def addressCode (e : Emitter) (segment : Segment) (index : Nat) : Except Fault (List Line) :=
  match segment with
  | .constant =>
    if maxConstant < index then .error (.constantTooWide index) else .ok [.constant index]
  | .static => .ok [.address (shownName e.staticScope ++ "." ++ toString index)]
  | .pointer | .temp => do
    let address ← segment.fixedAddress index
    return [.address ("R" ++ toString address)]
  | .indirect base =>
    .ok (Block.loadConstant index
      ++ [.address (e.regs.base base), .set .a (.y .m), .set .a (.dPlusY .a)])

/-! ## The stack -/

/-- The code of a push. -/
def pushCode (e : Emitter) (segment : Segment) (index : Nat) : Except Fault (List Line) := do
  let address ← e.addressCode segment index
  let load := if segment = .constant then Comp.y .a else Comp.y .m
  return address ++ [.set .d load] ++ Block.pushD e.regs.sp

/-- The code of a pop. The address of the target is kept before the stack
changes. -/
def popCode (e : Emitter) (segment : Segment) (index : Nat) : Except Fault (List Line) := do
  if segment = .constant then throw .popConstant
  let address ← e.addressCode segment index
  return address ++ [Line.set .d (.y .a), .address e.regs.scratch, .set .m .d]
    ++ Block.popD e.regs.sp
    ++ [Line.address e.regs.scratch, .set .a (.y .m), .set .m .d]

/-! ## Arithmetic -/

/-- What a unary operator computes on the top of the stack. -/
def unaryComp : Unary → Comp
  | .neg => .negY .m
  | .not => .notY .m

/-- What a binary operator computes: the first operand is in `M`, the second in
`D`. -/
def binaryComp : Binary → Comp
  | .add => .dPlusY .m
  | .sub => .yMinusD .m
  | .and => .dAndY .m
  | .or => .dOrY .m

/-- The jump on the difference of its operands that a comparison takes when it
holds. -/
def comparisonJump : Comparison → Jump
  | .eq => .eq
  | .gt => .gt
  | .lt => .lt

/-- The label where comparison number `n` goes when it holds. -/
def trueLabel (n : Nat) : String := "COMPARISON_" ++ toString n ++ "_WAS_TRUE"

/-- The label behind comparison number `n`. -/
def falseLabel (n : Nat) : String := "COMPARISON_" ++ toString n ++ "_WAS_FALSE"

/-- The code that replaces the two operands of comparison number `n` by its
outcome, -1 or 0, with the stack pointer on it. -/
def comparisonCode (sp : String) (n : Nat) (op : Comparison) : List Line :=
  Block.popD sp ++ Block.shrink sp ++ Block.toStack sp
    ++ [Line.set .d (.yMinusD .m), .address (trueLabel n), .branch .d (comparisonJump op)]
    ++ Block.toStack sp
    ++ [Line.set .m .zero, .address (falseLabel n), .branch .zero .always, .label (trueLabel n)]
    ++ Block.toStack sp
    ++ [Line.set .m .minusOne, .label (falseLabel n)]

/-- The code of an operator. -/
def operatorCode (e : Emitter) (op : Operator) : List Line :=
  let sp := e.regs.sp
  let body := match op with
    | .unary op => Block.shrink sp ++ Block.toStack sp ++ [.set .m (unaryComp op)]
    | .binary op =>
      Block.popD sp ++ Block.shrink sp ++ Block.toStack sp ++ [.set .m (binaryComp op)]
    | .comparison op => comparisonCode sp e.comparisons op
  body ++ Block.grow sp

/-! ## Functions -/

/-- The label that a call returns to. -/
def returnLabel (n : Nat) : String := "FUNC_RETURN_" ++ toString n

/-- The code that starts a function: its label, and a zero for every local. -/
def functionCode (e : Emitter) (name : String) (locals : Nat) : List Line :=
  let zero := [Line.constant 0, .set .d (.y .a)] ++ Block.pushD e.regs.sp
  .label name :: (List.replicate locals zero).flatten

/-- The code that pushes the value of a cell. -/
def saveCode (sp cell : String) : List Line :=
  [.address cell, .set .d (.y .m)] ++ Block.pushD sp

/-- **The code of a call.** It pushes the return address and the caller's frame,
moves `ARG` to the arguments and `LCL` to the top of the stack, and jumps. -/
def callCode (e : Emitter) (name : String) (args : Nat) : List Line :=
  let r := e.regs
  [Line.address (returnLabel e.returns), .set .d (.y .a)] ++ Block.pushD r.sp
    ++ r.frame.flatMap (saveCode r.sp)
    ++ [Line.address r.sp, .set .d (.y .m), .constant args, .set .d (.dMinusY .a),
        .constant 5, .set .d (.dMinusY .a), .address r.arg, .set .m .d]
    ++ [Line.address r.sp, .set .d (.y .m), .address r.lcl, .set .m .d]
    ++ [Line.address name, .branch .zero .always, .label (returnLabel e.returns)]

/-- The code that restores a cell from the frame, `offset` cells below its end. -/
def restoreCode (r : RegisterFile) (cell : String) (offset : Nat) : List Line :=
  [.constant offset, .set .d (.y .a), .address r.endFrame, .set .a (.yMinusD .m),
    .set .d (.y .m), .address cell, .set .m .d]

/-- **The code of a return.** The return address is read before the result is put
in the place of the first argument, which is where that address lies when
there are no arguments; `LCL` is restored last. -/
def returnCode (r : RegisterFile) : List Line :=
  [Line.address r.lcl, .set .d (.y .m), .address r.endFrame, .set .m .d]
    ++ [Line.constant 5, .set .a (.dMinusY .a), .set .d (.y .m), .address r.retAddr, .set .m .d]
    ++ [Line.address r.sp, .set .a (.yMinusOne .m), .set .d (.y .m), .address r.arg,
        .set .a (.y .m), .set .m .d]
    ++ [Line.address r.arg, .set .d (.yPlusOne .m), .address r.sp, .set .m .d]
    ++ restoreCode r r.thatPtr 1 ++ restoreCode r r.thisPtr 2
    ++ restoreCode r r.arg 3 ++ restoreCode r r.lcl 4
    ++ [Line.address r.retAddr, .set .a (.y .m), .branch .zero .always]

/-! ## Any command -/

/-- **The code of a command.** -/
def code (e : Emitter) : Command → Except Fault (List Line)
  | .arithmetic op => .ok (e.operatorCode op)
  | .push segment index => e.pushCode segment index
  | .pop segment index => e.popCode segment index
  | .label name => .ok [.label (e.qualify name)]
  | .goto target => .ok [.address (e.qualify target), .branch .zero .always]
  | .ifGoto target =>
    .ok (Block.popD e.regs.sp ++ [.address (e.qualify target), .branch .d .ne])
  | .function name locals => .ok (e.functionCode name locals)
  | .call name args => .ok (e.callCode name args)
  | .ret => .ok (returnCode e.regs)

/-- **The emitter after a command.** -/
def next (e : Emitter) : Command → Emitter
  | .arithmetic (.comparison _) => { e with comparisons := e.comparisons + 1 }
  | .function name _ => e.enter name
  | .call _ _ => { e with returns := e.returns + 1 }
  | _ => e

end Emitter

end HackStack
