
/-!
# Symbol tables

A **symbol table** gives values to symbols. It starts with the predefined
symbols of the machine; labels and variables are added to it and nothing is
ever taken out or changed.
-/

namespace HackStack

/-- A table of symbols and their values. -/
structure Symbols where
  entries : List (String × Nat)
  deriving DecidableEq, Repr

namespace Symbols

/-- The value of a symbol. -/
def get? (t : Symbols) (name : String) : Option Nat := t.entries.lookup name

/-- Whether a symbol has a value. -/
def contains (t : Symbols) (name : String) : Bool := (t.get? name).isSome

/-- A table with one more symbol. -/
def insert (t : Symbols) (name : String) (value : Nat) : Symbols :=
  ⟨(name, value) :: t.entries⟩

@[simp] theorem get?_insert_self (t : Symbols) (name : String) (value : Nat) :
    (t.insert name value).get? name = some value := by
  simp [get?, insert]

theorem get?_insert_of_ne (t : Symbols) {name other : String} (value : Nat) (h : other ≠ name) :
    (t.insert name value).get? other = t.get? other := by
  have hne : (other == name) = false := by simpa using h
  simp [get?, insert, List.lookup_cons, hne]

/-- The symbols that the machine defines: the cells of the calling convention,
the sixteen registers and the two devices. -/
def predefined : Symbols :=
  ⟨[("SP", 0), ("LCL", 1), ("ARG", 2), ("THIS", 3), ("THAT", 4),
    ("SCREEN", 0x4000), ("KBD", 0x6000),
    ("R0", 0), ("R1", 1), ("R2", 2), ("R3", 3), ("R4", 4), ("R5", 5), ("R6", 6), ("R7", 7),
    ("R8", 8), ("R9", 9), ("R10", 10), ("R11", 11), ("R12", 12), ("R13", 13), ("R14", 14),
    ("R15", 15)]⟩

/-- The address of the first variable. -/
def variableBase : Nat := 16

end Symbols

end HackStack
