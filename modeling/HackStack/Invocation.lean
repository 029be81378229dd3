import HackStack.Program
import HackStack.Text.CodePoint
import HackStack.Text.Digit

/-!
# Invocations

The words of a command line and what they ask for. Words are marked texts,
like the names in them. They are first sorted into **tokens**, options and
values; the tokens are then taken from left to right. An option can be
abbreviated as long as one option is meant, its argument can be attached to
it, and two dashes make values of all words after them.
-/

namespace HackStack

/-- What the tool is asked to do. -/
structure Invocation where
  source : String
  output : Option String := none
  bootstrap : Bootstrap := .auto
  deriving DecidableEq, Repr

/-- The options. -/
inductive Switch where
  | help
  | output
  | bootstrap
  deriving DecidableEq, Repr

namespace Switch

/-- The long spelling of an option. -/
def long : Switch → String
  | help => "--help"
  | output => "--output"
  | bootstrap => "--bootstrap"

/-- The letter of an option that has a short spelling. -/
def ofLetter? (c : Char) : Option Switch :=
  if c == 'h' then some help else if c == 'o' then some output else none

/-- What messages call an option. -/
def title : Switch → String
  | help => "-h/--help"
  | output => "-o/--output"
  | bootstrap => "--bootstrap"

/-- Every option. -/
def all : List Switch := [help, output, bootstrap]

end Switch

/-- What is wrong with a command line. -/
inductive UsageError where
  | missingSource
  | unrecognized (words : List String)
  | expectedArgument (s : Switch)
  | invalidChoice (value : String)
  /-- An argument is attached to an option that takes none. -/
  | ignoredArgument (s : Switch) (value : String)
  | ambiguous (word : String) (candidates : List Switch)
  deriving DecidableEq, Repr

/-- The names of the bootstrap modes, in alphabetical order. -/
def Bootstrap.names : List (String × Bootstrap) :=
  [("always", .always), ("auto", .auto), ("never", .never)]

/-- The wording of a usage error. -/
def UsageError.message : UsageError → String
  | .missingSource => "the following arguments are required: source"
  | .unrecognized words => "unrecognized arguments: " ++ " ".intercalate words
  | .expectedArgument s => "argument " ++ s.title ++ ": expected one argument"
  | .invalidChoice value =>
    "argument " ++ Switch.bootstrap.title ++ ": invalid choice: " ++ Text.quoteName value
      ++ " (choose from " ++ ", ".intercalate (Bootstrap.names.map (Text.quote ·.1)) ++ ")"
  | .ignoredArgument s value =>
    "argument " ++ s.title ++ ": ignored explicit argument " ++ Text.quoteName value
  | .ambiguous word candidates =>
    "ambiguous option: " ++ word ++ " could match " ++ ", ".intercalate (candidates.map Switch.long)

namespace Invocation

/-! ## Tokens -/

/-- An argument attached to an option: after an equals sign, or right after the
letter of a short option. -/
inductive Attached where
  | none
  | afterEquals (value : List Char)
  | afterLetter (value : List Char)
  deriving DecidableEq, Repr

/-- A word of the command line. -/
inductive Token where
  | value (word : String)
  /-- Two dashes: only values follow. -/
  | separator
  /-- An option in its short or its long spelling. -/
  | switch (s : Switch) (isShort : Bool) (argument : Attached)
  /-- It looks like an option and is none. -/
  | unknown (word : String)
  deriving DecidableEq, Repr

/-- Whether a text is decimal digits, one at least. -/
def isDigits (cs : List Char) : Bool := !cs.isEmpty && cs.all Text.isDecimal

/-- Whether what follows a dash makes it a negative number: digits, or digits
behind a point. A line feed at the end is let through. -/
def isNegated (cs : List Char) : Bool :=
  let cs := if cs.getLast? == some '\n' then cs.dropLast else cs
  isDigits cs || match cs.dropWhile Text.isDecimal with
    | '.' :: rest => isDigits rest
    | _ => false

/-- The text before the first equals sign, and the argument after it. -/
def splitEquals (cs : List Char) : List Char × Attached :=
  match cs.dropWhile (· != '=') with
  | [] => (cs, .none)
  | _ :: value => (cs.takeWhile (· != '='), .afterEquals value)

/-- A word that looks like an option and is not spelled like one. A number, or
a word with a space, is a value after all. -/
def otherToken (rest : List Char) (word : String) : Token :=
  if isNegated rest || rest.contains ' ' then .value word else .unknown word

/-- The token of a word before any separator. -/
def tokenOf (word : String) : Except UsageError Token :=
  match word.toList with
  | '-' :: '-' :: rest =>
    let (stem, argument) := splitEquals ('-' :: '-' :: rest)
    match Switch.all.find? (·.long.toList == stem) with
    | some s => .ok (.switch s false argument)
    | none =>
      match Switch.all.filter fun s => stem.isPrefixOf s.long.toList with
      | [] => .ok (otherToken ('-' :: rest) word)
      | [s] => .ok (.switch s false argument)
      | candidates => .error (.ambiguous word candidates)
  | '-' :: c :: rest =>
    match Switch.ofLetter? c, rest with
    | some s, [] => .ok (.switch s true .none)
    | some s, '=' :: value => .ok (.switch s true (.afterEquals value))
    | some s, value => .ok (.switch s true (.afterLetter value))
    | none, _ => .ok (otherToken (c :: rest) word)
  | _ => .ok (.value word)

/-- The tokens of a command line. -/
def tokens : List String → Except UsageError (List Token)
  | [] => .ok []
  | word :: words =>
    if word = "--" then .ok (.separator :: words.map .value)
    else do
      let token ← tokenOf word
      let rest ← tokens words
      return token :: rest

/-! ## Taking tokens -/

/-- Why a command line leads to no invocation. -/
inductive Exit where
  /-- The user asks for help. -/
  | help
  | usage (e : UsageError)
  /-- The bootstrap option is given without a mode. -/
  | noMode
  deriving DecidableEq, Repr

/-- Whether the tokens that follow start with a value. -/
def startsWithValue : List Token → Bool
  | .value _ :: _ => true
  | _ => false

/-- What the letters behind `-h` lead to. They have to be short options
themselves, up to the first that takes an argument; this one needs it, behind
it or in the next word. -/
def helpLetters (next : Bool) : List Char → Exit
  | [] => .help
  | c :: cs =>
    match Switch.ofLetter? c with
    | some .help => helpLetters next cs
    | some s => if cs.isEmpty && !next then .usage (.expectedArgument s) else .help
    | none => .usage (.ignoredArgument .help (String.ofList (c :: cs)))

/-- What asking for help leads to, with something attached or not. What is
attached to the short spelling, behind an equals sign or not, is read as
more letters. -/
def helpExit (isShort : Bool) (next : Bool) : Attached → Exit
  | .none => .help
  | .afterEquals value | .afterLetter value =>
    if isShort && !value.isEmpty then helpLetters next value
    else .usage (.ignoredArgument .help (String.ofList value))

/-- The argument that is attached to an option. Two dashes are none. -/
def attachedArgument (value : List Char) : Option String :=
  if value = ['-', '-'] then none else some (String.ofList value)

/-- What has been taken so far. -/
structure Taken where
  source : Option String := none
  output : Option String := none
  /-- The mode of the bootstrap; none when the option has no argument. -/
  bootstrap : Option Bootstrap := some .auto
  /-- Words that nothing asked for. -/
  extras : List String := []

/-- One more word that nothing asked for. -/
def Taken.extra (t : Taken) (word : String) : Taken := { t with extras := t.extras ++ [word] }

/-- An option with its argument, which replaces an earlier one. -/
def Taken.set (t : Taken) (s : Switch) (argument : Option String) : Except Exit Taken :=
  match s, argument with
  | .help, _ => .error .help
  | .output, value => .ok { t with output := value }
  | .bootstrap, none => .ok { t with bootstrap := none }
  | .bootstrap, some value =>
    match Bootstrap.names.lookup value with
    | some mode => .ok { t with bootstrap := some mode }
    | none => .error (.usage (.invalidChoice value))

/-- Takes tokens from left to right. The first value is the source, and a
separator next to it belongs to it; `atSource` says that the source was the
token just before. -/
def take (t : Taken) (atSource : Bool) : List Token → Except Exit Taken
  | [] => .ok t
  | .value word :: rest =>
    if t.source.isNone then take { t with source := some word } true rest
    else take (t.extra word) false rest
  | .separator :: rest =>
    if atSource || (t.source.isNone && startsWithValue rest) then take t false rest
    else take (t.extra "--") false rest
  | .unknown word :: rest => take (t.extra word) false rest
  | .switch .help isShort argument :: rest =>
    .error (helpExit isShort (startsWithValue rest) argument)
  | .switch s _ (.afterEquals value) :: rest => do
    take (← t.set s (attachedArgument value)) false rest
  | .switch s _ (.afterLetter value) :: rest => do
    take (← t.set s (attachedArgument value)) false rest
  | .switch s _ .none :: .value value :: rest => do take (← t.set s (some value)) false rest
  | .switch s _ .none :: _ => .error (.usage (.expectedArgument s))

/-- **What a command line asks for.** A missing source is reported before words
that nothing asked for, and these before a bootstrap without a mode. -/
def ofArguments (words : List String) : Except Exit Invocation := do
  let tokens ← (tokens words).mapError .usage
  let t ← take {} false tokens
  match t.source with
  | none => throw (.usage .missingSource)
  | some source =>
    if !t.extras.isEmpty then throw (.usage (.unrecognized t.extras))
    match t.bootstrap with
    | none => throw .noMode
    | some mode => return ⟨source, t.output, mode⟩

/-! ## The texts for the user -/

/-- The name that the tool goes by. -/
def toolName : String := "hack-vm"

/-- The one-line summary of the command line. -/
def usage : String :=
  "usage: " ++ toolName ++ " [-h] [-o OUTPUT] [--bootstrap \x7balways,auto,never\x7d] source\n"

/-- The help text. -/
def help : String :=
  usage ++ "\n"
    ++ "Traductor VM -> ensamblador Hack\n"
    ++ "\n"
    ++ "positional arguments:\n"
    ++ "  source                archivo .vm o directorio con archivos .vm\n"
    ++ "\n"
    ++ "options:\n"
    ++ "  -h, --help            show this help message and exit\n"
    ++ "  -o OUTPUT, --output OUTPUT\n"
    ++ "                        archivo .asm de salida (por defecto junto a la\n"
    ++ "                        entrada)\n"
    ++ "  --bootstrap \x7balways,auto,never\x7d\n"
    ++ "                        emitir el arranque SP=256; call Sys.init 0 (auto: si\n"
    ++ "                        existe Sys.init)\n"

/-- The text about a usage error. -/
def usageText (e : UsageError) : String :=
  usage ++ toolName ++ ": error: " ++ e.message ++ "\n"

end Invocation

end HackStack
