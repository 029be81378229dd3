/-!
# Mnemonics of the compute instruction

A compute instruction has three parts: a **destination**, a **computation**
and a **jump**. Each part is a closed set of mnemonics with its bits in the
instruction word. Some destinations have two spellings, and a decoded
instruction keeps the one it was written with.
-/

namespace HackStack

/-! ## Destinations -/

/-- Where the result goes, by its spelling: any of the registers `A` and `D`
and the memory cell `M` that `A` points at. -/
inductive Dest where
  | none | m | d | md | dm | a | am | ma | ad | da | amd
  deriving DecidableEq, Repr

namespace Dest

/-- The spelling of a destination. -/
def text : Dest → String
  | none => ""
  | m => "M"
  | d => "D"
  | md => "MD"
  | dm => "DM"
  | a => "A"
  | am => "AM"
  | ma => "MA"
  | ad => "AD"
  | da => "DA"
  | amd => "AMD"

/-- The bits of a destination: `A`, `D`, `M` from the most significant on. -/
def bits : Dest → Nat
  | none => 0b000
  | m => 0b001
  | d => 0b010
  | md | dm => 0b011
  | a => 0b100
  | am | ma => 0b101
  | ad | da => 0b110
  | amd => 0b111

/-- Whether the result goes to the register `A`. -/
def toA (x : Dest) : Bool := x.bits.testBit 2

/-- Whether the result goes to the register `D`. -/
def toD (x : Dest) : Bool := x.bits.testBit 1

/-- Whether the result goes to the memory cell. -/
def toM (x : Dest) : Bool := x.bits.testBit 0

/-- Every destination. -/
def all : List Dest := [none, m, d, md, dm, a, am, ma, ad, da, amd]

/-- The destination of a spelling. -/
def ofText? (text : String) : Option Dest := all.find? (·.text == text)

@[simp] theorem ofText?_text (x : Dest) : ofText? x.text = some x := by
  cases x <;> decide

end Dest

/-! ## Jumps -/

/-- When the next instruction is the one that `A` points at, by the sign of
the result. -/
inductive Jump where
  | never | gt | eq | ge | lt | ne | le | always
  deriving DecidableEq, Repr

namespace Jump

/-- The mnemonic of a jump. -/
def text : Jump → String
  | never => ""
  | gt => "JGT"
  | eq => "JEQ"
  | ge => "JGE"
  | lt => "JLT"
  | ne => "JNE"
  | le => "JLE"
  | always => "JMP"

/-- The bits of a jump: on a negative, a zero, a positive result, from the most
significant on. -/
def bits : Jump → Nat
  | never => 0b000
  | gt => 0b001
  | eq => 0b010
  | ge => 0b011
  | lt => 0b100
  | ne => 0b101
  | le => 0b110
  | always => 0b111

/-- Whether a jump is taken on a result that is zero or not, negative or not. -/
def taken (j : Jump) (zero negative : Bool) : Bool :=
  (j.bits.testBit 2 && negative) || (j.bits.testBit 1 && zero)
    || (j.bits.testBit 0 && !zero && !negative)

/-- Every jump. -/
def all : List Jump := [never, gt, eq, ge, lt, ne, le, always]

/-- The jump of a mnemonic. -/
def ofText? (text : String) : Option Jump := all.find? (·.text == text)

@[simp] theorem ofText?_text (j : Jump) : ofText? j.text = some j := by
  cases j <;> decide

end Jump

/-! ## Computations -/

/-- The second operand of a computation: the register `A` or the cell that it
points at. The first operand is the register `D`. -/
inductive Operand where
  | a
  | m
  deriving DecidableEq, Repr

/-- The letter of an operand. -/
def Operand.text : Operand → String
  | .a => "A"
  | .m => "M"

/-- What the arithmetic unit is asked for; `y` is the second operand. -/
inductive Comp where
  | zero | one | minusOne
  | d | notD | negD | dPlusOne | dMinusOne
  | y (o : Operand)
  | notY (o : Operand)
  | negY (o : Operand)
  | yPlusOne (o : Operand)
  | yMinusOne (o : Operand)
  | dPlusY (o : Operand)
  | dMinusY (o : Operand)
  | yMinusD (o : Operand)
  | dAndY (o : Operand)
  | dOrY (o : Operand)
  deriving DecidableEq, Repr

namespace Comp

/-- The mnemonic of a computation. -/
def text : Comp → String
  | zero => "0"
  | one => "1"
  | minusOne => "-1"
  | d => "D"
  | notD => "!D"
  | negD => "-D"
  | dPlusOne => "D+1"
  | dMinusOne => "D-1"
  | y o => o.text
  | notY o => "!" ++ o.text
  | negY o => "-" ++ o.text
  | yPlusOne o => o.text ++ "+1"
  | yMinusOne o => o.text ++ "-1"
  | dPlusY o => "D+" ++ o.text
  | dMinusY o => "D-" ++ o.text
  | yMinusD o => o.text ++ "-D"
  | dAndY o => "D&" ++ o.text
  | dOrY o => "D|" ++ o.text

/-- The six control bits of a computation. -/
def bits : Comp → Nat
  | zero => 0b101010
  | one => 0b111111
  | minusOne => 0b111010
  | d => 0b001100
  | notD => 0b001101
  | negD => 0b001111
  | dPlusOne => 0b011111
  | dMinusOne => 0b001110
  | y _ => 0b110000
  | notY _ => 0b110001
  | negY _ => 0b110011
  | yPlusOne _ => 0b110111
  | yMinusOne _ => 0b110010
  | dPlusY _ => 0b000010
  | dMinusY _ => 0b010011
  | yMinusD _ => 0b000111
  | dAndY _ => 0b000000
  | dOrY _ => 0b010101

/-- The second operand; a computation without one is wired to `A`. -/
def operand : Comp → Operand
  | y o | notY o | negY o | yPlusOne o | yMinusOne o => o
  | dPlusY o | dMinusY o | yMinusD o | dAndY o | dOrY o => o
  | _ => .a

/-- The computations on a given second operand. -/
def onOperand (o : Operand) : List Comp :=
  [y o, notY o, negY o, yPlusOne o, yMinusOne o, dPlusY o, dMinusY o, yMinusD o, dAndY o, dOrY o]

/-- Every computation. -/
def all : List Comp :=
  [zero, one, minusOne, d, notD, negD, dPlusOne, dMinusOne] ++ onOperand .a ++ onOperand .m

/-- The computation of a mnemonic. -/
def ofText? (text : String) : Option Comp := all.find? (·.text == text)

@[simp] theorem ofText?_text (c : Comp) : ofText? c.text = some c := by
  rcases c with _ | _ | _ | _ | _ | _ | _ | _ | (_ | _) | (_ | _) | (_ | _) | (_ | _) | (_ | _) |
    (_ | _) | (_ | _) | (_ | _) | (_ | _) | (_ | _) <;> decide

end Comp

/-! ## Reading -/

/-- A mnemonic that is not known. -/
inductive MnemonicError where
  | computation (text : String)
  | jump (text : String)
  deriving DecidableEq, Repr

/-- The wording of a mnemonic error. -/
def MnemonicError.message : MnemonicError → String
  | .computation text => "Cómputo desconocido: " ++ text
  | .jump text => text

/-- Reads a computation. -/
def Comp.read (text : String) : Except MnemonicError Comp :=
  match Comp.ofText? text with
  | some c => .ok c
  | none => .error (.computation text)

/-- Reads a jump. -/
def Jump.read (text : String) : Except MnemonicError Jump :=
  match Jump.ofText? text with
  | some j => .ok j
  | none => .error (.jump text)

end HackStack
