import HackStack.Text.Blank

/-!
# Memory segments

The stack language reaches memory through eight **segments**. `constant` is
no memory at all, `static` cells have a symbol of their own, `pointer` and
`temp` are fixed blocks of cells, and the other four are **indirect**: a
cell of the machine holds their base.
-/

namespace HackStack

/-- The cells that hold the base of an indirect segment. -/
inductive Base where
  | lcl
  | arg
  | thisPtr
  | thatPtr
  deriving DecidableEq, Repr

/-- The memory segments. -/
inductive Segment where
  | constant
  | static
  | pointer
  | temp
  | indirect (base : Base)
  deriving DecidableEq, Repr

namespace Segment

/-- The name of a segment in the source. -/
def name : Segment → String
  | constant => "constant"
  | static => "static"
  | pointer => "pointer"
  | temp => "temp"
  | indirect .lcl => "local"
  | indirect .arg => "argument"
  | indirect .thisPtr => "this"
  | indirect .thatPtr => "that"

/-- Every segment, in the order in which they are listed to the user. -/
def all : List Segment :=
  [constant, static, pointer, temp, indirect .lcl, indirect .arg, indirect .thisPtr,
    indirect .thatPtr]

/-- The segment of a name. -/
def ofName? (name : String) : Option Segment :=
  all.find? (·.name == name)

/-- The segment that a token names; blanks around it do not matter. -/
def ofToken? (token : String) : Option Segment :=
  ofName? (Text.strip token)

@[simp] theorem ofName?_name (s : Segment) : ofName? s.name = some s := by
  rcases s with _ | _ | _ | _ | (_ | _ | _ | _) <;> decide

/-- A segment's name, alone, is a token for it. -/
@[simp] theorem ofToken?_name (s : Segment) : ofToken? s.name = some s := by
  rcases s with _ | _ | _ | _ | (_ | _ | _ | _) <;> decide

/-- The names of the segments, as they are listed to the user. -/
def namesText : String := ", ".intercalate (all.map name)

/-- A block of cells at a fixed place. -/
structure Block where
  base : Nat
  size : Nat
  deriving DecidableEq, Repr

/-- The block of a segment that has one. -/
def block? : Segment → Option Block
  | pointer => some ⟨3, 2⟩
  | temp => some ⟨5, 8⟩
  | _ => none

end Segment

/-- The greatest constant that an address instruction can load: fifteen bits. -/
def maxConstant : Nat := 0x7FFF

end HackStack
