import HackStack.Asm.Mnemonic
import HackStack.Asm.Symbols

/-!
# The Hack machine

The machine has a program memory of decoded instructions, a data memory of
32768 cells, the registers `A` and `D`, and a program counter. Cells and
registers hold integers; running code keeps them words, but nothing stops a
client from storing others.
-/

namespace HackStack

/-- A decoded instruction. -/
inductive Instruction where
  | address (value : Nat)
  | compute (dest : Dest) (comp : Comp) (jump : Jump)
  deriving DecidableEq, Repr

/-- The number of cells of data memory. -/
def memorySize : Nat := 32768

/-- The data memory. -/
abbrev Memory := Vector Int memorySize

/-- The place that an index names in a row of `size`: counted from the front,
or from the end when the index is negative. -/
def position? (size : Nat) (i : Int) : Option (Fin size) :=
  if h : 0 ≤ i ∧ i < size then some ⟨i.toNat, by omega⟩
  else if h : 0 ≤ i + size ∧ i < 0 then some ⟨(i + size).toNat, by omega⟩
  else none

namespace Memory

/-- Memory with zero in every cell. -/
def empty : Memory := Vector.replicate memorySize 0

/-- The value at an address. -/
def get? (m : Memory) (address : Int) : Option Int :=
  (position? memorySize address).map m.get

end Memory

/-- A machine with its program. -/
structure Machine where
  rom : Array Instruction
  symbols : Symbols
  ram : Memory := Memory.empty
  a : Int := 0
  d : Int := 0
  pc : Int := 0
  /-- The number of instructions begun so far. -/
  steps : Nat := 0

/-- Why a machine stops short. -/
inductive MachineError where
  /-- There is no instruction where the program counter points. -/
  | fetch
  /-- A cell outside memory is read. -/
  | read
  /-- A cell outside memory is written. -/
  | write
  /-- An instruction or a cell is looked for at an index of more than 64 bits. -/
  | indexTooWide
  /-- A symbol is not in the table. -/
  | unknownSymbol (name : String)
  deriving DecidableEq, Repr

/-- The wording of a machine error. -/
def MachineError.message : MachineError → String
  | .fetch | .read => "list index out of range"
  | .write => "list assignment index out of range"
  | .indexTooWide => "cannot fit 'int' into an index-sized integer"
  | .unknownSymbol name => name

/-- The error of an index that names no place: the one that is given, unless
the index is no signed number of 64 bits. -/
def MachineError.outside (i : Int) (e : MachineError) : MachineError :=
  if -0x8000000000000000 ≤ i ∧ i < 0x8000000000000000 then e else .indexTooWide

end HackStack
