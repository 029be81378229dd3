import HackStack.Text.Digit
import HackStack.Text.Quoted

/-!
# Numerals

A **numeral** is a row of decimal digits, of one script or of several. Its
value is read in base ten. Numerals of more than `maxDigits` digits are
refused, whatever their value: leading zeros count.
-/

namespace HackStack.Text

/-- Why a text is not read as a number. -/
inductive NumeralError where
  /-- The numeral has this many digits, more than are read. -/
  | tooLong (digits : Nat)
  /-- The text has a character that is no decimal digit. -/
  | notDecimal (text : String)
  deriving DecidableEq, Repr

/-- The number of digits above which a numeral is refused. -/
def maxDigits : Nat := 4300

/-- The message of a numeral error. A long text is shown in part: the
first 200 characters of its quoted form. -/
def NumeralError.message : NumeralError → String
  | .tooLong digits =>
    s!"Exceeds the limit ({maxDigits} digits) for integer string conversion: value has "
      ++ s!"{digits} digits; use sys.set_int_max_str_digits() to increase the limit"
  | .notDecimal text =>
    "invalid literal for int() with base 10: " ++ String.ofList ((quote text).toList.take 200)

/-- The value of a row of digits, the most significant first. A character
that is no digit counts as zero. -/
def decimalOf (cs : List Char) : Nat :=
  cs.foldl (fun n c => 10 * n + (decimalValue? c).getD 0) 0

/-- **Reads a numeral.** The length limit is on the digits that the text
starts with, and is checked before the rest of the text is looked at. -/
def readNumeral (cs : List Char) : Except NumeralError Nat :=
  let digits := cs.takeWhile isDecimal
  if maxDigits < digits.length then .error (.tooLong digits.length)
  else if digits.length < cs.length || cs.isEmpty then .error (.notDecimal (String.ofList cs))
  else .ok (decimalOf digits)

/-- The sign and the digits of an integer numeral: an optional plus or minus
and at least one decimal digit. -/
def splitSign? : List Char → Option (Bool × List Char)
  | '-' :: cs => if !cs.isEmpty && cs.all isDecimal then some (true, cs) else none
  | '+' :: cs => if !cs.isEmpty && cs.all isDecimal then some (false, cs) else none
  | cs => if !cs.isEmpty && cs.all isDecimal then some (false, cs) else none

end HackStack.Text
