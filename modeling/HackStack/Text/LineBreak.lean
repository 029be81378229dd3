/-!
# Line breaks

A text is cut into lines at any **line break**: a line feed, a carriage
return, the two together, or one of the vertical separators. `lines` is
the list of lines without their breaks; a break at the very end of the
text opens no further line.
-/

namespace HackStack.Text

/-- The characters that end a line. -/
def isLineBreak (c : Char) : Bool :=
  let n := c.toNat
  (0x0A ≤ n && n ≤ 0x0D) || (0x1C ≤ n && n ≤ 0x1E) || n == 0x85 || n == 0x2028 || n == 0x2029

/-- **The lines of a text**, in order and without their breaks. A carriage
return and the line feed after it are one break. -/
def lines : List Char → List (List Char)
  | [] => []
  | '\r' :: '\n' :: cs => [] :: lines cs
  | c :: cs =>
    if isLineBreak c then [] :: lines cs
    else match lines cs with
      | [] => [[c]]
      | l :: ls => (c :: l) :: ls

/-- A text in which every carriage return, alone or before a line feed, has
become a line feed: how the text of a file is read. -/
def unifyNewlines : List Char → List Char
  | [] => []
  | '\r' :: '\n' :: cs => '\n' :: unifyNewlines cs
  | '\r' :: cs => '\n' :: unifyNewlines cs
  | c :: cs => c :: unifyNewlines cs

end HackStack.Text
