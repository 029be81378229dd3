import HackStack.Asm.Mnemonic
import HackStack.Text.Blank

/-!
# Lines of assembly

A line of assembly is a **label**, an **address instruction** or a **compute
instruction**. `Line` is the typed form that code is generated in and `Line.text`
writes it out. The other direction starts from any text: `labelName?` and
`splitCompute` take a line apart, and `isInstruction` says whether it is well
formed.
-/

namespace HackStack

/-- A line of assembly. -/
inductive Line where
  /-- Names the place of the next instruction. -/
  | label (name : String)
  /-- Loads a number, or the value of a symbol, into `A`. -/
  | address (operand : String)
  | compute (dest : Dest) (comp : Comp) (jump : Jump)
  deriving DecidableEq, Repr

namespace Line

/-- The instruction that computes into a destination and goes on. -/
def set (dest : Dest) (comp : Comp) : Line := compute dest comp .never

/-- The instruction that computes and jumps. -/
def branch (comp : Comp) (jump : Jump) : Line := compute .none comp jump

/-- The instruction that loads an integer. -/
def constant (n : Int) : Line := address (toString n)

/-- **A line as text.** -/
def text : Line → String
  | label name => "(" ++ name ++ ")"
  | address operand => "@" ++ operand
  | compute dest comp jump =>
    (if dest = .none then "" else dest.text ++ "=") ++ comp.text
      ++ (if jump = .never then "" else ";" ++ jump.text)

/-- Whether a line is an instruction, and so takes a place in memory. -/
def isCode : Line → Bool
  | label _ => false
  | _ => true

end Line

/-! ## Taking a line apart -/

/-- The name that a label line defines: what stands between its brackets, at
least one character. Blanks around the line do not matter. -/
def labelName? (line : List Char) : Option (List Char) :=
  match Text.trim line with
  | '(' :: rest =>
    if 2 ≤ rest.length && rest.getLast? == some ')' then some rest.dropLast else none
  | _ => none

/-- The text before and after the first occurrence of a character. -/
def cutAt? (c : Char) (cs : List Char) : Option (List Char × List Char) :=
  if cs.contains c then some (cs.takeWhile (· != c), (cs.dropWhile (· != c)).drop 1) else none

/-- The three parts of a compute instruction as they are written. -/
structure ComputeText where
  dest : List Char
  comp : List Char
  jump : List Char
  deriving DecidableEq, Repr

/-- Divides a line at its first equals sign and the first semicolon after that;
a part that is not there is empty, and spaces are left out. -/
def splitCompute (line : List Char) : ComputeText :=
  let cs := line.filter (· != ' ')
  let (dest, rest) := (cutAt? '=' cs).getD ([], cs)
  let (comp, jump) := (cutAt? ';' rest).getD (rest, [])
  ⟨dest, comp, jump⟩

/-- Whether the three parts are mnemonics. -/
def ComputeText.isKnown (t : ComputeText) : Bool :=
  (Dest.ofText? (String.ofList t.dest)).isSome && (Comp.ofText? (String.ofList t.comp)).isSome
    && (Jump.ofText? (String.ofList t.jump)).isSome

/-- **Whether a line is well formed**: a label, an address instruction with an
operand, or a compute instruction whose parts are known. -/
def isInstruction (line : List Char) : Bool :=
  let cs := Text.trim line
  if (labelName? cs).isSome then true
  else match cs with
    | '@' :: rest => !rest.isEmpty
    | _ => (splitCompute cs).isKnown

end HackStack
