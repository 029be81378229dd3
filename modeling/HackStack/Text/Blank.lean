/-!
# Blanks and words

A line of source is cut into words at its **blanks**: the ASCII white
space and separators, and the spaces of the other scripts. The class is
`isBlank`; `trim` drops blanks from both ends of a text and `words` is
what stands between the blanks.
-/

namespace HackStack.Text

/-- The characters that separate words. Besides tabs, line ends and the
space these are the four information separators and the wide, narrow and
unbreakable spaces; a zero-width space or a byte-order mark is none. -/
def isBlank (c : Char) : Bool :=
  let n := c.toNat
  (0x09 ≤ n && n ≤ 0x0D) || (0x1C ≤ n && n ≤ 0x20) || n == 0x85 || n == 0xA0
    || n == 0x1680 || (0x2000 ≤ n && n ≤ 0x200A) || n == 0x2028 || n == 0x2029
    || n == 0x202F || n == 0x205F || n == 0x3000

/-- A text without the blanks at its end. -/
def trimEnd (cs : List Char) : List Char :=
  (cs.reverse.dropWhile isBlank).reverse

/-- A text without the blanks at its two ends. -/
def trim (cs : List Char) : List Char :=
  trimEnd (cs.dropWhile isBlank)

/-- `trim` on strings. -/
def strip (s : String) : String :=
  String.ofList (trim s.toList)

/-- Whether a text starts inside a word: its first character is no blank. -/
def startsWord : List Char → Bool
  | [] => false
  | c :: _ => !isBlank c

/-- Puts a character in front of the first of some words. -/
def joinFirst (c : Char) : List (List Char) → List (List Char)
  | [] => [[c]]
  | w :: ws => (c :: w) :: ws

/-- **The words of a text**: the longest stretches without a blank, in
order. A character that is no blank joins the word that starts right after
it, and is a word of its own when none does. -/
def words : List Char → List (List Char)
  | [] => []
  | c :: cs =>
    if isBlank c then words cs
    else if startsWord cs then joinFirst c (words cs)
    else [c] :: words cs

/-- A blank in front changes no word. -/
theorem words_cons_blank {c : Char} (h : isBlank c = true) (cs : List Char) :
    words (c :: cs) = words cs := by
  simp [words, h]

/-- The text before a stretch of two slashes, or all of it. -/
def beforeComment : List Char → List Char
  | [] => []
  | '/' :: '/' :: _ => []
  | c :: cs => c :: beforeComment cs

/-- **The core of a source line**: what stands before its comment,
without the blanks around it. -/
def core (line : List Char) : List Char :=
  trim (beforeComment line)

end HackStack.Text
