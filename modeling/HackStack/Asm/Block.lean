import HackStack.Asm.Line

/-!
# Stack blocks

The short blocks of code that everything else is built from: follow the
stack pointer, move it by one, push the register `D` and pop into it. Each
takes the symbol of the stack pointer.
-/

namespace HackStack.Block

/-- Lets `A` point at the first free cell of the stack. -/
def toStack (sp : String) : List Line :=
  [.address sp, .set .a (.y .m)]

/-- Moves the stack pointer up. -/
def grow (sp : String) : List Line :=
  [.address sp, .set .m (.yPlusOne .m)]

/-- Moves the stack pointer down. -/
def shrink (sp : String) : List Line :=
  [.address sp, .set .m (.yMinusOne .m)]

/-- Pushes `D`. -/
def pushD (sp : String) : List Line :=
  toStack sp ++ [.set .m .d] ++ grow sp

/-- Pops into `D`. -/
def popD (sp : String) : List Line :=
  shrink sp ++ toStack sp ++ [.set .d (.y .m)]

/-- Loads an integer into `D`. -/
def loadConstant (value : Int) : List Line :=
  [.constant value, .set .d (.y .a)]

end HackStack.Block
