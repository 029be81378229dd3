import HackStack.Command
import HackStack.Proofs.Cells
import HackStack.RegisterFile

/-!
# What a command means

The stack language has a meaning of its own, apart from the code that is
generated for it. A program of it works on the memory of the machine: a
stack that grows upwards from where the stack pointer points, segments that
are reached through base cells, and frames on the stack that a call builds
and a return takes down. `Command.meaning` says, for each of the nine kinds
of command, what memory is afterwards and where the program goes on.

Where things lie is not part of the language. `Cells` says which cells hold
the stack pointer and the bases, and a `Site` says what the place of a
command in a program has to offer: the address after it, the cells of its
static variables, the addresses of labels and functions. All arithmetic is
on words.
-/

namespace HackStack

open Word

/-- The cells that the calling convention works with. -/
structure Cells where
  /-- The stack pointer. -/
  sp : Nat
  lcl : Nat
  arg : Nat
  thisPtr : Nat
  thatPtr : Nat
  /-- Where a pop keeps the address of its target. -/
  scratch : Nat
  /-- Where a return keeps the end of the frame that it leaves. -/
  endFrame : Nat
  /-- Where a return keeps the address that it goes to. -/
  retAddr : Nat
  deriving DecidableEq, Repr

namespace Cells

/-- The cell that holds a base. -/
def base (k : Cells) : Base → Nat
  | .lcl => k.lcl
  | .arg => k.arg
  | .thisPtr => k.thisPtr
  | .thatPtr => k.thatPtr

/-- The cells for work in progress, which no command of the language sees. -/
def work (k : Cells) : List Int := [k.scratch, k.endFrame, k.retAddr]

/-- The cells that commands see: the stack pointer and the bases. -/
def main (k : Cells) : List Int := [k.sp, k.lcl, k.arg, k.thisPtr, k.thatPtr]

/-- Every cell of the calling convention. -/
def all (k : Cells) : List Int := k.main ++ k.work

/-- Whether an address is a cell, and none of those of the calling convention. -/
def Free (k : Cells) (a : Int) : Prop := IsCell a ∧ a ∉ k.all

/-- Cells that can be told apart: all of them are there, and no two are the
same. -/
structure Apart (k : Cells) : Prop where
  isCell : ∀ a ∈ k.all, IsCell a
  nodup : k.all.Nodup

end Cells

/-- The names that the code of stack commands works with. -/
def RegisterFile.stackNames (r : RegisterFile) : List String :=
  [r.sp, r.lcl, r.arg, r.thisPtr, r.thatPtr, r.scratch]

/-- The names that the calling convention works with. -/
def RegisterFile.names (r : RegisterFile) : List String :=
  r.stackNames ++ [r.endFrame, r.retAddr]

/-- The cells that the names of a register file stand for. -/
@[reducible] def RegisterFile.cells (r : RegisterFile) (v : String → Nat) : Cells where
  sp := v r.sp
  lcl := v r.lcl
  arg := v r.arg
  thisPtr := v r.thisPtr
  thatPtr := v r.thatPtr
  scratch := v r.scratch
  endFrame := v r.endFrame
  retAddr := v r.retAddr

@[simp] theorem RegisterFile.base_cells (r : RegisterFile) (v : String → Nat) (b : Base) :
    (r.cells v).base b = v (r.base b) := by
  cases b <;> rfl

/-- What the place of a command in a program offers it. -/
structure Site where
  /-- The address after the command. -/
  next : Nat
  /-- The cell of a static variable. -/
  static : Nat → Nat
  /-- The address of a label of the function in force. -/
  label : String → Nat
  /-- The address of a function. -/
  function : String → Nat

/-! ## The stack -/

namespace Memory

/-- The address of a word on the stack, counted down from the first free
cell. -/
def fromTop (k : Cells) (m : Memory) (n : Nat) : Int := wrap (m.cell k.sp - n)

/-- Memory with one more word on the stack. -/
def push (k : Cells) (m : Memory) (x : Int) : Memory :=
  (m.store (m.cell k.sp) x).store k.sp (wrap (m.cell k.sp + 1))

/-- Memory with one word less on the stack. -/
def drop (k : Cells) (m : Memory) : Memory := m.store k.sp (m.fromTop k 1)

/-- **Memory inside a call**: the return address and the caller's bases are on
the stack, `ARG` is at the arguments and `LCL` at the first free cell. -/
def enter (k : Cells) (m : Memory) (ret : Int) (args : Nat) : Memory :=
  let frame := [ret, m.cell k.lcl, m.cell k.arg, m.cell k.thisPtr, m.cell k.thatPtr]
  ((frame.foldl (push k) m).store k.arg (wrap (m.cell k.sp - args))).store k.lcl
    (wrap (m.cell k.sp + 5))

/-- The address of a word of the frame in force, counted down from its end. -/
def fromFrame (k : Cells) (m : Memory) (n : Nat) : Int := wrap (m.cell k.lcl - n)

/-- **Memory after a return**: the word on top of the stack is where the first
argument was, the stack ends behind it, and the caller's bases are back. They
are read after the result was put in place. -/
def leave (k : Cells) (m : Memory) : Memory :=
  let m₁ := m.store (m.cell k.arg) (m.cell (m.fromTop k 1))
  ((((m₁.store k.sp (wrap (m.cell k.arg + 1))).store k.thatPtr
    (m₁.cell (m.fromFrame k 1))).store k.thisPtr
    (m₁.cell (m.fromFrame k 2))).store k.arg
    (m₁.cell (m.fromFrame k 3))).store k.lcl
    (m₁.cell (m.fromFrame k 4))

end Memory

/-! ## Segments and operators -/

namespace Segment

/-- The address of a cell of a segment. A constant has none; its value stands
there. -/
def address (k : Cells) (site : Site) (m : Memory) (index : Nat) : Segment → Int
  | constant => index
  | static => site.static index
  | pointer => 3 + index
  | temp => 5 + index
  | indirect b => wrap (m.cell (k.base b) + index)

/-- The word that a push reads. -/
def word (k : Cells) (site : Site) (m : Memory) (index : Nat) (s : Segment) : Int :=
  if s = constant then index else m.cell (s.address k site m index)

end Segment

/-- What a unary operator makes of a word. -/
def Unary.eval : Unary → Int → Int
  | .neg, x => wrap (-x)
  | .not, x => wrap (complement x)

/-- What a binary operator makes of two words. -/
def Binary.eval : Binary → Int → Int → Int
  | .add, x, y => wrap (x + y)
  | .sub, x, y => wrap (x - y)
  | .and, x, y => wrap (conj x y)
  | .or, x, y => wrap (disj x y)

/-- Whether a comparison holds of the sign of a difference. -/
def Comparison.holds : Comparison → Int → Bool
  | .eq, x => x = 0
  | .gt, x => 0 < x
  | .lt, x => x < 0

/-- **The outcome of a comparison**, -1 or 0 as a word. It looks at the sign of
the difference of its operands, and the difference is a word. So `gt` and `lt`
are not the signed comparisons: where the difference overflows they say the
opposite, and that is what the generated code does
(`Emitter.comparison_by_difference`). -/
def Comparison.eval (op : Comparison) (x y : Int) : Int :=
  if op.holds (signed (wrap (x - y))) then 65535 else 0

/-! ## Commands -/

/-- Where a command leaves a program: the address to go on at, and memory. -/
structure Outcome where
  pc : Int
  ram : Memory

/-- **The meaning of a command** at a place in a program. -/
def Command.meaning (k : Cells) (site : Site) (m : Memory) : Command → Outcome
  | .push segment index => ⟨site.next, m.push k (segment.word k site m index)⟩
  | .pop segment index =>
    ⟨site.next, (m.drop k).store (segment.address k site m index) (m.cell (m.fromTop k 1))⟩
  | .arithmetic (.unary op) =>
    ⟨site.next, m.store (m.fromTop k 1) (op.eval (m.cell (m.fromTop k 1)))⟩
  | .arithmetic (.binary op) =>
    ⟨site.next, (m.drop k).store (m.fromTop k 2)
      (op.eval (m.cell (m.fromTop k 2)) (m.cell (m.fromTop k 1)))⟩
  | .arithmetic (.comparison op) =>
    ⟨site.next, (m.drop k).store (m.fromTop k 2)
      (op.eval (m.cell (m.fromTop k 2)) (m.cell (m.fromTop k 1)))⟩
  | .label _ => ⟨site.next, m⟩
  | .goto target => ⟨site.label target, m⟩
  | .ifGoto target =>
    ⟨if m.cell (m.fromTop k 1) = 0 then site.next else site.label target, m.drop k⟩
  | .function _ locals => ⟨site.next, (fun m => m.push k 0)^[locals] m⟩
  | .call name args => ⟨site.function name, m.enter k site.next args⟩
  | .ret => ⟨m.cell (m.fromFrame k 5), m.leave k⟩

/-- The addresses that a command reads or writes through the stack pointer. -/
def Command.stackCells (k : Cells) (m : Memory) : Command → List Int
  | .push _ _ => [m.cell k.sp]
  | .pop _ _ | .arithmetic (.unary _) | .ifGoto _ | .ret => [m.fromTop k 1]
  | .arithmetic (.binary _) | .arithmetic (.comparison _) => [m.fromTop k 1, m.fromTop k 2]
  | .function _ locals => (List.range locals).map fun j : Nat => wrap (m.cell k.sp + j)
  | .call _ _ => (List.range 5).map fun j : Nat => wrap (m.cell k.sp + j)
  | .label _ | .goto _ => []

/-- The addresses that a command reads or writes through a base. -/
def Command.baseCells (k : Cells) (m : Memory) : Command → List Int
  | .push (.indirect b) index | .pop (.indirect b) index => [wrap (m.cell (k.base b) + index)]
  | .ret => m.cell k.arg :: (List.range 5).map fun j => m.fromFrame k (j + 1)
  | _ => []

/-- The cells that the code of a command uses for work in progress. -/
def Command.work (k : Cells) : Command → List Int
  | .pop _ _ => [k.scratch]
  | .ret => [k.endFrame, k.retAddr]
  | _ => []

end HackStack
