import HackStack.Asm.Mnemonic
import HackStack.Word

/-!
# The arithmetic unit

Six **control bits** say what becomes of the two operands: each may be
cleared and then complemented, they are added or joined bit by bit, and the
result may be complemented. Every complement and every sum is wrapped to a
word; operands that are neither cleared nor complemented come in as they
are.
-/

namespace HackStack

/-- The control bits of the arithmetic unit. -/
structure Control where
  /-- Clear the first operand. -/
  zx : Bool
  /-- Complement the first operand. -/
  nx : Bool
  /-- Clear the second operand. -/
  zy : Bool
  /-- Complement the second operand. -/
  ny : Bool
  /-- Add the operands, rather than take their common bits. -/
  add : Bool
  /-- Complement the result. -/
  no : Bool
  deriving DecidableEq, Repr

namespace Control

/-- The control that the six lowest bits of a number spell; the bits above
them do not count. -/
def ofBits (n : Int) : Control :=
  let bit (i : Nat) : Bool := n / (Nat.pow 2 i : Nat) % 2 = 1
  ⟨bit 5, bit 4, bit 3, bit 2, bit 1, bit 0⟩

/-- An operand after it was cleared and complemented, or neither. -/
def prepare (clear flip : Bool) (x : Int) : Int :=
  let x := if clear then 0 else x
  if flip then Word.wrap (Word.complement x) else x

/-- **The result of the arithmetic unit** on two operands. -/
def apply (c : Control) (x y : Int) : Int :=
  let x := prepare c.zx c.nx x
  let y := prepare c.zy c.ny y
  prepare false c.no (if c.add then Word.wrap (x + y) else Word.conj x y)

end Control

/-- The control of a computation. -/
def Comp.control (c : Comp) : Control := .ofBits c.bits

/-- Whether a result counts as negative: its word does in two's complement. -/
def isNegative (out : Int) : Bool := Word.signed out < 0

/-- Whether a jump is taken on a result. -/
def Jump.takenOn (j : Jump) (out : Int) : Bool := j.taken (out == 0) (isNegative out)

end HackStack
