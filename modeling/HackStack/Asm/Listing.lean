import HackStack.Text.Blank

/-!
# Listings

The text of an assembly file: every line without the blanks around it, and
a line feed after each.
-/

namespace HackStack

/-- **The text of a file with the given lines.** -/
def listing (lines : List String) : String :=
  String.join (lines.map fun line => Text.strip line ++ "\n")

end HackStack
