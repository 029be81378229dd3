/-!
# Symbols

Labels and functions are named by **symbols**: letters, digits and the four
marks `_ . $ :`, with no digit in front. A line feed right at the end is
let through.
-/

namespace HackStack

/-- The characters that a symbol may start with. -/
def isSymbolStart (c : Char) : Bool :=
  c.isAlpha || c == '_' || c == '.' || c == '$' || c == ':'

/-- The characters of a symbol. -/
def isSymbolChar (c : Char) : Bool :=
  isSymbolStart c || c.isDigit

/-- Whether a text can follow the first character of a symbol. -/
def isSymbolRest : List Char → Bool
  | [] => true
  | ['\n'] => true
  | c :: cs => isSymbolChar c && isSymbolRest cs

/-- Whether a text is a symbol. -/
def isSymbol : List Char → Bool
  | [] => false
  | c :: cs => isSymbolStart c && isSymbolRest cs

/-- The part of a name before its first dot: the class of a function. -/
def classOf (name : String) : String :=
  String.ofList (name.toList.takeWhile (· != '.'))

end HackStack
