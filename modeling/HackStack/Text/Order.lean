/-!
# Order by name

Names are put in the order of their code points.
-/

namespace HackStack.Text

/-- Names in order. -/
def sortNames (names : List String) : List String :=
  names.mergeSort fun x y => !decide (y < x)

/-- Sorting loses no name and adds none. -/
theorem sortNames_perm (names : List String) : (sortNames names).Perm names :=
  List.mergeSort_perm names _

end HackStack.Text
