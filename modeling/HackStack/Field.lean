import HackStack.Text.Quoted

/-!
# Fields

The counts and names of a command that nobody has checked yet are
**fields**: a count should be an integer and a name a text, but a client
may hand over anything. A field is shown in two ways: as it is, inside the
text of a command, and quoted, in messages that refuse it.

The name of a program, a module or a function in force can only be missing;
`shownName` is what code and messages have in its place.
-/

namespace HackStack

/-- A value that stands where a count or a name is expected. -/
inductive Field where
  | absent
  | flag (b : Bool)
  | int (n : Int)
  /-- The number `digits / 10 ^ places`. -/
  | decimal (digits : Int) (places : Nat)
  | text (s : String)
  deriving DecidableEq, Repr

namespace Field

/-- A number with decimal places, in positional notation. -/
def decimalText (digits : Int) (places : Nat) : String :=
  let scale := Nat.pow 10 places
  let whole := digits.natAbs / scale
  let part := toString (digits.natAbs % scale)
  let zeros := String.ofList (List.replicate (places - part.length) '0')
  (if digits < 0 then "-" else "") ++ toString whole ++ "." ++ zeros ++ part

/-- How a field is shown, given the way to show a text. -/
def showWith (text : String → String) : Field → String
  | absent => "None"
  | flag true => "True"
  | flag false => "False"
  | int n => toString n
  | decimal digits places => decimalText digits places
  | .text s => text s

/-- A field as it is. -/
def plain (f : Field) : String := f.showWith id

/-- A field with text in quotes. -/
def quoted (f : Field) : String := f.showWith Text.quote

/-- A name that may be missing, as a field. -/
def ofName : Option String → Field
  | none => absent
  | some name => .text name

end Field

/-- A name that may be missing, as code and messages show it. -/
def shownName (name : Option String) : String := (Field.ofName name).plain

@[simp] theorem shownName_some (name : String) : shownName (some name) = name := rfl

end HackStack
