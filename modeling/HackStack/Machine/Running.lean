import HackStack.Asm.Alu
import HackStack.Machine

/-!
# Running the machine

`Machine.step` carries out one instruction and `Machine.run` a bounded number
of them. Both give the next machine, or a `Halt` with the reason and the
machine that it leaves: an instruction that reaches outside memory has been
counted and has done nothing else.
-/

namespace HackStack

/-- A machine that has stopped short. -/
structure Halt where
  reason : MachineError
  machine : Machine

namespace Machine

/-- The instruction at the program counter. -/
def fetch? (m : Machine) : Option Instruction :=
  (position? m.rom.size m.pc).map fun i => m.rom[i]

/-- The second operand of a computation. -/
def operand? (m : Machine) : Operand → Option Int
  | .a => some m.a
  | .m => m.ram.get? m.a

/-- The registers and the program counter after a result. The jump goes to
where `A` pointed before. -/
def settle (m : Machine) (dest : Dest) (jump : Jump) (out : Int) : Machine :=
  { m with
    d := if dest.toD then out else m.d
    a := if dest.toA then Word.wrap out else m.a
    pc := if jump.takenOn out then m.a else m.pc + 1 }

/-- Carries out a computation whose result is known: stores it in memory if
asked to, then in the registers. -/
def finish (m : Machine) (dest : Dest) (jump : Jump) (out : Int) : Except Halt Machine :=
  if dest.toM then
    match position? memorySize m.a with
    | none => .error ⟨.outside m.a .write, m⟩
    | some i => .ok (settle { m with ram := m.ram.set i out } dest jump out)
  else .ok (m.settle dest jump out)

/-- **One instruction.** -/
def step (m : Machine) : Except Halt Machine :=
  match m.fetch? with
  | none => .error ⟨.outside m.pc .fetch, m⟩
  | some (.address value) => .ok { m with a := value, pc := m.pc + 1, steps := m.steps + 1 }
  | some (.compute dest comp jump) =>
    let m := { m with steps := m.steps + 1 }
    match m.operand? comp.operand with
    | none => .error ⟨.outside m.a .read, m⟩
    | some y => m.finish dest jump (comp.control.apply m.d y)

/-- Exactly `n` instructions. -/
def stepN : Nat → Machine → Except Halt Machine
  | 0, m => .ok m
  | n + 1, m => m.step >>= stepN n

/-- Whether a run ends: the program counter has left the program, or is at the
place where to stop. -/
def isDone (m : Machine) (stop : Option Nat) : Bool :=
  m.rom.size ≤ m.pc || stop.any (m.pc = ·)

/-- Runs until the end, at most `n` instructions. -/
def runTo (stop : Option Nat) : Nat → Machine → Except Halt Machine
  | 0, m => .ok m
  | n + 1, m => if m.isDone stop then .ok m else m.step >>= runTo stop n

/-- **Runs the machine** until it leaves the program, reaches the stop label, or
has carried out `maxSteps` instructions. A label that is not known stops
nothing. -/
def run (m : Machine) (maxSteps : Int) (stopLabel : Option String) : Except Halt Machine :=
  runTo (stopLabel.bind m.symbols.get?) maxSteps.toNat m

/-- The value of the cell that a symbol names. -/
def read (m : Machine) (name : String) : Except MachineError Int :=
  match m.symbols.get? name with
  | none => .error (.unknownSymbol name)
  | some address =>
    match m.ram.get? address with
    | none => .error .read
    | some value => .ok value

end Machine

end HackStack
