/-!
# Machine words

Cells and registers hold integers, and **words** are the integers from 0 to
65535: sixteen bits. `wrap` takes any integer to the word it is congruent
to, `signed` reads a word in two's complement. The bitwise operations are
those of two's complement with no bound on the width, so they make sense
before a value is wrapped as well as after.
-/

namespace HackStack.Word

/-- The number of words. -/
def modulus : Int := 65536

/-- The word that an integer is congruent to. -/
def wrap (x : Int) : Int := x % modulus

/-- The value of a word in two's complement, from -32768 to 32767. -/
def signed (x : Int) : Int :=
  if wrap x < 32768 then wrap x else wrap x - modulus

/-- The complement of every bit. -/
def complement (x : Int) : Int := -x - 1

/-- The bits that two integers have in common. A negative integer has
infinitely many leading ones. -/
def conj : Int → Int → Int
  | .ofNat x, .ofNat y => .ofNat (x &&& y)
  | .ofNat x, .negSucc y => .ofNat (x - (x &&& y))
  | .negSucc x, .ofNat y => .ofNat (y - (y &&& x))
  | .negSucc x, .negSucc y => .negSucc (x ||| y)

/-- What is wrong with a question about widths. -/
inductive WidthError where
  /-- The width is zero or negative. -/
  | notPositive
  deriving DecidableEq, Repr

/-- The wording of a width error. -/
def WidthError.message : WidthError → String
  | .notPositive => "n debe ser positivo"

/-- Whether an integer is an unsigned number of `width` bits: at least zero, and
below `2 ^ width`. The bits are counted, and the bound is never built. -/
def isUnsigned (x width : Int) : Except WidthError Bool :=
  if width ≤ 0 then .error .notPositive
  else .ok (0 ≤ x && x.toNat.log2 < width.toNat)

theorem wrap_nonneg (x : Int) : 0 ≤ wrap x := Int.emod_nonneg x (by decide)

theorem wrap_lt (x : Int) : wrap x < 65536 := Int.emod_lt_of_pos x (by decide)

/-- A word is left as it is. -/
theorem wrap_of_word {x : Int} (h₀ : 0 ≤ x) (h₁ : x < 65536) : wrap x = x :=
  Int.emod_eq_of_lt h₀ h₁

@[simp] theorem wrap_wrap (x : Int) : wrap (wrap x) = wrap x :=
  wrap_of_word (wrap_nonneg x) (wrap_lt x)

end HackStack.Word
