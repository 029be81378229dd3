import HackStack.Segment

/-!
# The register file

The names of the cells that the calling convention uses: the stack pointer,
the four bases of a frame, and three cells for work in progress. Code is
generated for any register file, and the default one fits the machine.
-/

namespace HackStack

/-- The symbols of the cells that generated code works with. -/
structure RegisterFile where
  /-- The stack pointer. -/
  sp : String := "SP"
  lcl : String := "LCL"
  arg : String := "ARG"
  thisPtr : String := "THIS"
  thatPtr : String := "THAT"
  /-- Where a pop keeps the address of its target. -/
  scratch : String := "R13"
  /-- Where a return keeps the end of the frame that it leaves. -/
  endFrame : String := "END_FRAME"
  /-- Where a return keeps the address that it goes to. -/
  retAddr : String := "RET_ADDR"
  deriving DecidableEq, Repr

namespace RegisterFile

/-- The cell that holds a base. -/
def base (r : RegisterFile) : Base → String
  | .lcl => r.lcl
  | .arg => r.arg
  | .thisPtr => r.thisPtr
  | .thatPtr => r.thatPtr

/-- The cells of the caller's frame, in the order in which a call saves them. -/
def frame (r : RegisterFile) : List String :=
  [r.lcl, r.arg, r.thisPtr, r.thatPtr]

end RegisterFile

end HackStack
