import HackStack.Asm.Line
import HackStack.Machine
import HackStack.Text.Numeral

/-!
# Loading a program

Assembly is loaded in **two passes**. The first gives every label the number
of instructions before it; the second decodes the instructions, and gives
each symbol that has no value yet the next cell from 16 on. Blank lines are
skipped, and blanks around a line do not matter.
-/

namespace HackStack

/-- Why a program is not loaded. -/
inductive LoadError where
  /-- A label is defined twice, or is a predefined symbol. -/
  | redefined (label : String)
  /-- An address operand is a number of more than fifteen bits. -/
  | tooWide (line : String)
  /-- An address operand looks like a number and is none. -/
  | numeral (e : Text.NumeralError)
  /-- A destination or a jump is not known. -/
  | invalid (line : String)
  /-- A computation is not known. -/
  | mnemonic (e : MnemonicError)
  deriving DecidableEq, Repr

/-- The wording of a load error. -/
def LoadError.message : LoadError → String
  | .redefined label => "Etiqueta redefinida: " ++ label
  | .tooWide line => "Constante fuera de rango: " ++ line
  | .numeral e => e.message
  | .invalid line => "Instrucción inválida: " ++ line
  | .mnemonic e => e.message

namespace Loading

/-- The lines that are not blank, without the blanks around them. -/
def source (lines : List String) : List (List Char) :=
  (lines.map fun line => Text.trim line.toList).filter (!·.isEmpty)

/-- **The first pass**: the table with all labels, and the lines that are
instructions. `address` is the number of instructions before the lines. -/
def labels (symbols : Symbols) (address : Nat) :
    List (List Char) → Except LoadError (Symbols × List (List Char))
  | [] => .ok (symbols, [])
  | line :: rest =>
    match labelName? line with
    | some name =>
      let name := String.ofList name
      if symbols.contains name then .error (.redefined name)
      else labels (symbols.insert name address) address rest
    | none => do
      let (symbols, code) ← labels symbols (address + 1) rest
      return (symbols, line :: code)

/-- A symbol table and the cell of the next variable. -/
structure Variables where
  symbols : Symbols
  next : Nat := Symbols.variableBase

/-- The value of a symbol, which becomes a variable when it has none. -/
def Variables.resolve (v : Variables) (name : String) : Nat × Variables :=
  match v.symbols.get? name with
  | some value => (value, v)
  | none => (v.next, ⟨v.symbols.insert name v.next, v.next + 1⟩)

/-- Whether an operand looks like a number. -/
def isNumber (operand : List Char) : Bool :=
  !operand.isEmpty && operand.all Text.isDigit

/-- Decodes an instruction. -/
def decode (v : Variables) (line : List Char) : Except LoadError (Instruction × Variables) :=
  match line with
  | '@' :: operand =>
    if isNumber operand then
      match Text.readNumeral operand with
      | .error e => .error (.numeral e)
      | .ok value =>
        if value < 0x8000 then .ok (.address value, v)
        else .error (.tooWide (String.ofList line))
    else
      let (value, v) := v.resolve (String.ofList operand)
      .ok (.address value, v)
  | _ =>
    let parts := splitCompute line
    match Dest.ofText? (String.ofList parts.dest), Jump.ofText? (String.ofList parts.jump) with
    | some dest, some jump =>
      match Comp.read (String.ofList parts.comp) with
      | .ok comp => .ok (.compute dest comp jump, v)
      | .error e => .error (.mnemonic e)
    | _, _ => .error (.invalid (String.ofList line))

/-- **The second pass**: the instructions, and the table with all variables. -/
def decodeAll (v : Variables) :
    List (List Char) → Except LoadError (List Instruction × Variables)
  | [] => .ok ([], v)
  | line :: rest => do
    let (instruction, v) ← decode v line
    let (instructions, v) ← decodeAll v rest
    return (instruction :: instructions, v)

end Loading

/-- **The machine with a program loaded**, at its start. -/
def Machine.load (lines : List String) : Except LoadError Machine := do
  let (symbols, code) ← Loading.labels .predefined 0 (Loading.source lines)
  let (rom, v) ← Loading.decodeAll { symbols := symbols } code
  return { rom := rom.toArray, symbols := v.symbols }

end HackStack
