import HackStack.Proofs.Parsed
import Mathlib.Data.Nat.Digits.Defs

/-!
# The grammar of source text

A line of source, without its comment, is blank or one of a few rows of words.
The rows are listed by `Denotes`, with the command that each stands for, and
their parts by `IsName` and `IsCount`; nothing here refers to how a line is
read.

Reading accepts exactly this grammar. Every line gives the item that
`LineGives` says: none when it is blank, the command that its words denote, or
an error when they denote nothing. A bad line does not disturb the others
(`Reading.ofText_grammar`). The one thing that could stop the reading is an
integer of too many digits.
-/

namespace HackStack

/-! ## Parts of a line -/

/-- **A name**: letters, digits and four marks, with no digit in front. -/
def IsName (x : String) : Prop :=
  ∃ c cs, x.toList = c :: cs ∧ c.isDigit = false ∧
    ∀ d ∈ c :: cs, d.isAlphanum = true ∨ d ∈ ['_', '.', '$', ':']

/-- **An integer**: at least one decimal digit, of any script, and maybe a sign in
front. -/
def IsInteger (token : List Char) (minus : Bool) (digits : List Char) : Prop :=
  (token = digits ∧ minus = false ∨ token = '+' :: digits ∧ minus = false ∨
    token = '-' :: digits ∧ minus = true) ∧
  digits ≠ [] ∧ ∀ c ∈ digits, Text.isDecimal c = true

/-- The number that a row of digits is in base ten. -/
def digitsValue (digits : List Char) : Nat :=
  Nat.ofDigits 10 (digits.reverse.map fun c => (Text.decimalValue? c).getD 0)

/-- **A count**: an integer that is not negative. -/
def IsCount (token : String) (n : Nat) : Prop :=
  ∃ minus digits, IsInteger token.toList minus digits ∧
    (n : Int) = if minus then -(digitsValue digits : Int) else digitsValue digits

/-- **The rows of words that are commands**, and the commands that they denote. -/
inductive Denotes : List String → Command → Prop
  | arithmetic (op : Operator) : Denotes [op.name] (.arithmetic op)
  | ret : Denotes ["return"] .ret
  | label {x : String} (hx : IsName x) : Denotes ["label", x] (.label x)
  | goto {x : String} (hx : IsName x) : Denotes ["goto", x] (.goto x)
  | ifGoto {x : String} (hx : IsName x) : Denotes ["if-goto", x] (.ifGoto x)
  | push {token : String} {n : Nat} (segment : Segment) (hn : IsCount token n) :
      Denotes ["push", segment.name, token] (.push segment n)
  | pop {token : String} {n : Nat} {segment : Segment} (hsegment : segment ≠ .constant)
      (hn : IsCount token n) : Denotes ["pop", segment.name, token] (.pop segment n)
  | function {x token : String} {n : Nat} (hx : IsName x) (hn : IsCount token n) :
      Denotes ["function", x, token] (.function x n)
  | call {x token : String} {n : Nat} (hx : IsName x) (hn : IsCount token n) :
      Denotes ["call", x, token] (.call x n)

/-- The words of a line, without its comment. -/
def lineWords (line : List Char) : List String :=
  (Text.words (Text.beforeComment line)).map String.ofList

/-- **What a line gives**: nothing when it is blank but for a comment, else the
one command that its words denote, or an error when they denote none. -/
inductive LineGives (name place : Option String) (number : Nat) (line : List Char) :
    Option Item → Prop
  | blank (h : ∀ c ∈ Text.beforeComment line, Text.isBlank c = true) :
      LineGives name place number line none
  | command {c : Command} (h : ¬∀ c ∈ Text.beforeComment line, Text.isBlank c = true)
      (hc : Denotes (lineWords line) c) (hunique : ∀ c', Denotes (lineWords line) c' → c' = c) :
      LineGives name place number line (some (.command ⟨c, number, name⟩))
  | diagnostic {d : Diagnostic} (h : ¬∀ c ∈ Text.beforeComment line, Text.isBlank c = true)
      (hnone : ∀ c, ¬Denotes (lineWords line) c) (hseverity : d.severity = .error)
      (hline : d.line = some number) (hfile : d.file = place) :
      LineGives name place number line (some (.diagnostic d))

/-! ## Integers -/

namespace Text

theorem decimalOf_eq_digitsValue (digits : List Char) : decimalOf digits = digitsValue digits := by
  rw [decimalOf, digitsValue, Nat.ofDigits_eq_foldr, List.foldr_map, List.foldr_reverse]
  refine congrArg (fun f => digits.foldl f 0) ?_
  funext n c
  rw [Nat.cast_id, Nat.add_comm]

theorem splitSign?_eq_some_iff {cs digits : List Char} {minus : Bool} :
    splitSign? cs = some (minus, digits) ↔ IsInteger cs minus digits := by
  have hrow (sign : Bool) (ds : List Char) :
      (if !ds.isEmpty && ds.all isDecimal then some (sign, ds) else none) = some (minus, digits) ↔
        sign = minus ∧ ds = digits ∧ digits ≠ [] ∧ ∀ c ∈ digits, isDecimal c = true := by
    constructor
    · intro h
      split at h
      next hds =>
        obtain ⟨rfl, rfl⟩ := Prod.mk.inj (Option.some.inj h)
        exact ⟨rfl, rfl, by simpa using hds⟩
      next => cases h
    · rintro ⟨rfl, rfl, hds⟩
      rw [if_pos (by simpa using hds)]
  -- a sign is no digit, so it is told from the digits by its first character
  have hsign {c : Char} {ds : List Char} (hc : isDecimal c = false)
      (hdigits : ∀ d ∈ digits, isDecimal d = true) : c :: ds ≠ digits := by
    rintro rfl
    rw [hdigits c List.mem_cons_self] at hc
    cases hc
  unfold splitSign?
  split
  next ds =>
    rw [hrow]
    constructor
    · rintro ⟨rfl, rfl, h⟩
      exact ⟨.inr (.inr ⟨rfl, rfl⟩), h⟩
    · rintro ⟨⟨h, -⟩ | ⟨h, -⟩ | ⟨h, rfl⟩, hdigits⟩
      · exact absurd h (hsign (by decide) hdigits.2)
      · cases h
      · exact ⟨rfl, (List.cons.inj h).2, hdigits⟩
  next ds =>
    rw [hrow]
    constructor
    · rintro ⟨rfl, rfl, h⟩
      exact ⟨.inr (.inl ⟨rfl, rfl⟩), h⟩
    · rintro ⟨⟨h, -⟩ | ⟨h, rfl⟩ | ⟨h, -⟩, hdigits⟩
      · exact absurd h (hsign (by decide) hdigits.2)
      · exact ⟨rfl, (List.cons.inj h).2, hdigits⟩
      · cases h
  next hminus hplus =>
    rw [hrow]
    constructor
    · rintro ⟨rfl, rfl, h⟩
      exact ⟨.inl ⟨rfl, rfl⟩, h⟩
    · rintro ⟨⟨rfl, rfl⟩ | ⟨rfl, -⟩ | ⟨rfl, -⟩, hdigits⟩
      · exact ⟨rfl, rfl, hdigits⟩
      · exact absurd rfl (hplus digits)
      · exact absurd rfl (hminus digits)

/-- A row of digits that is not too long is read. -/
theorem readNumeral_of_digits {digits : List Char} (hne : digits ≠ [])
    (hdigits : ∀ c ∈ digits, isDecimal c = true) (hlen : digits.length ≤ maxDigits) :
    readNumeral digits = .ok (digitsValue digits) := by
  unfold readNumeral
  rw [List.takeWhile_eq_self_iff.mpr hdigits]
  dsimp only
  rw [if_neg (by omega), if_neg (by simpa using hne), decimalOf_eq_digitsValue]

end Text

/-- A token that is no integer of too many digits. -/
def Short (token : List Char) : Prop :=
  ∀ minus digits, IsInteger token minus digits → digits.length ≤ 4300

theorem Short.of_length {token : List Char} (h : token.length ≤ 4300) : Short token := by
  rintro minus digits ⟨⟨rfl, -⟩ | ⟨rfl, -⟩ | ⟨rfl, -⟩, -⟩
  · exact h
  · exact (Nat.le_succ _).trans h
  · exact (Nat.le_succ _).trans h

/-- An integer that is short is read as its sign and the value of its digits. -/
theorem readCount_of_isInteger {token : String} {minus : Bool} {digits : List Char}
    (hshort : Short token.toList) (h : IsInteger token.toList minus digits) (role : Role) :
    readCount role token = if minus && digitsValue digits != 0
      then .error (.fault (.negative role (-(digitsValue digits : Int))))
      else .ok (digitsValue digits) := by
  unfold readCount
  rw [Text.splitSign?_eq_some_iff.mpr h]
  dsimp only
  rw [Text.readNumeral_of_digits h.2.1 h.2.2 (hshort minus digits h)]

theorem readCount_of_not_isInteger {token : String}
    (h : ∀ minus digits, ¬IsInteger token.toList minus digits) (role : Role) :
    readCount role token = .error (.fault (.notNumeral role token)) := by
  unfold readCount
  cases hsplit : Text.splitSign? token.toList with
  | none => rfl
  | some split => exact absurd (Text.splitSign?_eq_some_iff.mp hsplit) (h split.1 split.2)

/-- **A count is read as its number.** -/
theorem readCount_eq_ok_iff {token : String} {n : Nat} {role : Role}
    (hshort : Short token.toList) : readCount role token = .ok n ↔ IsCount token n := by
  by_cases hinteger : ∃ minus digits, IsInteger token.toList minus digits
  · obtain ⟨minus, digits, h⟩ := hinteger
    -- the sign and the digits of an integer are determined by it
    have hcount : IsCount token n ↔
        (n : Int) = if minus then -(digitsValue digits : Int) else digitsValue digits := by
      constructor
      · rintro ⟨minus', digits', h', hn⟩
        rw [← Text.splitSign?_eq_some_iff] at h h'
        obtain ⟨rfl, rfl⟩ := Prod.mk.inj (Option.some.inj (h.symm.trans h'))
        exact hn
      · exact fun hn => ⟨minus, digits, h, hn⟩
    rw [readCount_of_isInteger hshort h, hcount]
    cases minus with
    | false =>
      rw [Bool.false_and, if_neg Bool.false_ne_true, if_neg Bool.false_ne_true, Except.ok.injEq]
      omega
    | true =>
      rw [Bool.true_and, if_pos rfl]
      by_cases hzero : digitsValue digits = 0
      · rw [if_neg (by simpa using hzero), Except.ok.injEq]
        omega
      · rw [if_pos (by simpa using hzero)]
        exact ⟨(nomatch ·), fun hn => by omega⟩
  · rw [not_exists] at hinteger
    simp only [not_exists] at hinteger
    rw [readCount_of_not_isInteger hinteger]
    refine ⟨(nomatch ·), ?_⟩
    rintro ⟨minus, digits, h, -⟩
    exact absurd h (hinteger minus digits)


/-! ## Names and segments -/

theorem isSymbolChar_iff {c : Char} :
    isSymbolChar c = true ↔ c.isAlphanum = true ∨ c ∈ ['_', '.', '$', ':'] := by
  simp only [isSymbolChar, isSymbolStart, Char.isAlphanum, Bool.or_eq_true, beq_iff_eq,
    List.mem_cons, List.not_mem_nil, or_false]
  tauto

/-- A symbol starts with any of its characters but a digit. -/
theorem isSymbolStart_iff {c : Char} :
    isSymbolStart c = true ↔ isSymbolChar c = true ∧ c.isDigit = false := by
  constructor
  · intro h
    have hc : isSymbolChar c = true := by rw [isSymbolChar, h]; rfl
    have hall : ∀ n < 128, isSymbolStart (Char.ofNat n) = true →
        (Char.ofNat n).isDigit = false := by decide +kernel
    exact ⟨hc, Text.forall_of_lt (P := fun c => isSymbolStart c = true → c.isDigit = false) hall
      (toNat_of_isSymbolChar hc) h⟩
  · rintro ⟨hc, hdigit⟩
    rwa [isSymbolChar, hdigit, Bool.or_false] at hc

/-- Without a line feed, only the characters count. -/
theorem isSymbolRest_iff {cs : List Char} (hcs : '\n' ∉ cs) :
    isSymbolRest cs = true ↔ ∀ c ∈ cs, isSymbolChar c = true := by
  induction cs with
  | nil => simp [isSymbolRest]
  | cons c cs ih =>
    rw [List.mem_cons, not_or] at hcs
    rw [isSymbolRest.eq_3 c cs (fun hc _ => hcs.1 hc.symm), Bool.and_eq_true, ih hcs.2,
      List.forall_mem_cons]

/-- **In a word, a symbol is a name.** -/
theorem isSymbol_iff {x : String} (hx : ∀ c ∈ x.toList, Text.isBlank c = false) :
    isSymbol x.toList = true ↔ IsName x := by
  have hfeed : '\n' ∉ x.toList := fun hmem => absurd (hx _ hmem) (by decide)
  unfold IsName
  cases hcons : x.toList with
  | nil => simp [isSymbol]
  | cons c cs =>
    rw [hcons, List.mem_cons, not_or] at hfeed
    rw [isSymbol, Bool.and_eq_true, isSymbolStart_iff, isSymbolRest_iff hfeed.2]
    simp only [← isSymbolChar_iff]
    constructor
    · rintro ⟨⟨hc, hdigit⟩, hcs⟩
      exact ⟨c, cs, rfl, hdigit, List.forall_mem_cons.mpr ⟨hc, hcs⟩⟩
    · rintro ⟨c', cs', hcons, hdigit, hall⟩
      obtain ⟨rfl, rfl⟩ := List.cons.inj hcons
      exact ⟨⟨hall c List.mem_cons_self, hdigit⟩, (List.forall_mem_cons.mp hall).2⟩

theorem readSymbol_eq_ok_iff {token x : String}
    (htoken : ∀ c ∈ token.toList, Text.isBlank c = false) {role : Role} :
    readSymbol role token = .ok x ↔ token = x ∧ IsName x := by
  unfold readSymbol
  by_cases hsymbol : isSymbol token.toList = true
  · rw [if_pos hsymbol, Except.ok.injEq]
    constructor
    · rintro rfl
      exact ⟨rfl, (isSymbol_iff htoken).mp hsymbol⟩
    · exact And.left
  · rw [if_neg hsymbol]
    constructor
    · intro h
      cases h
    · rintro ⟨rfl, hname⟩
      exact absurd ((isSymbol_iff htoken).mpr hname) hsymbol

theorem readSegment_eq_ok_iff {token : String} {segment : Segment}
    (htoken : ∀ c ∈ token.toList, Text.isBlank c = false) :
    readSegment token = .ok segment ↔ token = segment.name := by
  have hstrip : Text.strip token = token := by
    rw [Text.strip, Text.trim_of_isBlank htoken, String.ofList_toList]
  have hread := @Segment.read_eq_ok_iff token segment
  rw [hstrip] at hread
  rw [← hread, readSegment]
  cases Segment.read token <;> simp [Except.mapError]

/-! ## Commands -/

namespace Operation

@[simp] theorem ofWord?_word (op : Operation) : ofWord? op.word = some op := by
  rcases op with ((_ | _) | (_ | _ | _ | _) | (_ | _ | _)) | _ | _ | _ | _ | _ | _ | _ | _
  all_goals decide

theorem word_of_ofWord? {word : String} {op : Operation} (h : ofWord? word = some op) :
    word = op.word := by
  have hfound := List.find?_some h
  exact (eq_of_beq hfound).symm

variable {op : Operation} {args : List String} {c : Command}
  (hblank : ∀ a ∈ args, ∀ ch ∈ a.toList, Text.isBlank ch = false)
  (hshort : ∀ a ∈ args, Short a.toList)

include hblank hshort

/-- **What is read is denoted.** -/
theorem denotes_of_read (h : op.read args = .ok c) : Denotes (op.word :: args) c := by
  unfold Operation.read at h
  split at h
  · obtain rfl := Except.ok.inj h
    exact .arithmetic _
  · obtain rfl := Except.ok.inj h
    exact .ret
  · obtain ⟨segment, hsegment, h⟩ := bind_eq_ok h
    obtain ⟨n, hn, h⟩ := bind_eq_ok h
    obtain rfl := Except.ok.inj h
    rw [(readSegment_eq_ok_iff (hblank _ (by simp))).mp hsegment]
    exact .push segment ((readCount_eq_ok_iff (hshort _ (by simp))).mp hn)
  · obtain ⟨segment, hsegment, h⟩ := bind_eq_ok h
    obtain ⟨n, hn, h⟩ := bind_eq_ok h
    by_cases hc : segment = .constant
    · rw [if_pos hc] at h
      cases h
    · rw [if_neg hc] at h
      obtain rfl := Except.ok.inj h
      rw [(readSegment_eq_ok_iff (hblank _ (by simp))).mp hsegment]
      exact .pop hc ((readCount_eq_ok_iff (hshort _ (by simp))).mp hn)
  · obtain ⟨x, hx, h⟩ := bind_eq_ok h
    obtain ⟨rfl, hname⟩ := (readSymbol_eq_ok_iff (hblank _ (by simp))).mp hx
    obtain rfl := Except.ok.inj h
    exact .label hname
  · obtain ⟨x, hx, h⟩ := bind_eq_ok h
    obtain ⟨rfl, hname⟩ := (readSymbol_eq_ok_iff (hblank _ (by simp))).mp hx
    obtain rfl := Except.ok.inj h
    exact .goto hname
  · obtain ⟨x, hx, h⟩ := bind_eq_ok h
    obtain ⟨rfl, hname⟩ := (readSymbol_eq_ok_iff (hblank _ (by simp))).mp hx
    obtain rfl := Except.ok.inj h
    exact .ifGoto hname
  · obtain ⟨x, hx, h⟩ := bind_eq_ok h
    obtain ⟨n, hn, h⟩ := bind_eq_ok h
    obtain ⟨rfl, hname⟩ := (readSymbol_eq_ok_iff (hblank _ (by simp))).mp hx
    obtain rfl := Except.ok.inj h
    exact .function hname ((readCount_eq_ok_iff (hshort _ (by simp))).mp hn)
  · obtain ⟨x, hx, h⟩ := bind_eq_ok h
    obtain ⟨n, hn, h⟩ := bind_eq_ok h
    obtain ⟨rfl, hname⟩ := (readSymbol_eq_ok_iff (hblank _ (by simp))).mp hx
    obtain rfl := Except.ok.inj h
    exact .call hname ((readCount_eq_ok_iff (hshort _ (by simp))).mp hn)
  · cases h

end Operation

/-- **What is denoted is read.** -/
theorem Denotes.exists_read {ws : List String} {c : Command} (h : Denotes ws c)
    (hblank : ∀ w ∈ ws, ∀ ch ∈ w.toList, Text.isBlank ch = false)
    (hshort : ∀ w ∈ ws, Short w.toList) :
    ∃ (op : Operation) (args : List String), ws = op.word :: args ∧ op.read args = .ok c := by
  cases h with
  | arithmetic op => exact ⟨.arithmetic op, [], rfl, rfl⟩
  | ret => exact ⟨.ret, [], rfl, rfl⟩
  | @label x hx =>
    refine ⟨.label, [x], rfl, ?_⟩
    rw [Operation.read, (readSymbol_eq_ok_iff (hblank x (by simp))).mpr ⟨rfl, hx⟩]
    rfl
  | @goto x hx =>
    refine ⟨.goto, [x], rfl, ?_⟩
    rw [Operation.read, (readSymbol_eq_ok_iff (hblank x (by simp))).mpr ⟨rfl, hx⟩]
    rfl
  | @ifGoto x hx =>
    refine ⟨.ifGoto, [x], rfl, ?_⟩
    rw [Operation.read, (readSymbol_eq_ok_iff (hblank x (by simp))).mpr ⟨rfl, hx⟩]
    rfl
  | @push token n segment hn =>
    refine ⟨.push, [segment.name, token], rfl, ?_⟩
    rw [Operation.read, (readSegment_eq_ok_iff (hblank segment.name (by simp))).mpr rfl,
      (readCount_eq_ok_iff (hshort token (by simp))).mpr hn]
    rfl
  | @pop token n segment hsegment hn =>
    refine ⟨.pop, [segment.name, token], rfl, ?_⟩
    rw [Operation.read, (readSegment_eq_ok_iff (hblank segment.name (by simp))).mpr rfl,
      (readCount_eq_ok_iff (hshort token (by simp))).mpr hn]
    show (if segment = .constant then _ else _) = _
    rw [if_neg hsegment]
    rfl
  | @function x token n hx hn =>
    refine ⟨.function, [x, token], rfl, ?_⟩
    rw [Operation.read, (readSymbol_eq_ok_iff (hblank x (by simp))).mpr ⟨rfl, hx⟩,
      (readCount_eq_ok_iff (hshort token (by simp))).mpr hn]
    rfl
  | @call x token n hx hn =>
    refine ⟨.call, [x, token], rfl, ?_⟩
    rw [Operation.read, (readSymbol_eq_ok_iff (hblank x (by simp))).mpr ⟨rfl, hx⟩,
      (readCount_eq_ok_iff (hshort token (by simp))).mpr hn]
    rfl

/-! ## Lines -/

/-- A result that does not stop the reading: an error in it is one of its line
only. -/
def GoesOn {α : Type} (x : Except LineError α) : Prop := ∀ e, x ≠ .error (.numeral e)

namespace GoesOn

theorem ok {α : Type} (a : α) : GoesOn (.ok a) := fun _ => (nomatch ·)

theorem fault {α : Type} (f : Fault) : GoesOn (.error (.fault f) : Except LineError α) :=
  fun _ => (nomatch ·)

theorem bind {α β : Type} {x : Except LineError α} {f : α → Except LineError β} (hx : GoesOn x)
    (hf : ∀ a, GoesOn (f a)) : GoesOn (x >>= f) := by
  cases x with
  | ok a => exact hf a
  | error e =>
    cases e with
    | fault e => exact fault e
    | numeral e => exact absurd rfl (hx e)

theorem readSymbol (role : Role) (token : String) : GoesOn (readSymbol role token) := by
  unfold HackStack.readSymbol
  split
  · exact ok token
  · exact fault _

theorem readSegment (token : String) : GoesOn (readSegment token) := by
  unfold HackStack.readSegment
  cases Segment.read token with
  | ok segment => exact ok segment
  | error f => exact fault f

theorem readCount {token : String} (hshort : Short token.toList) (role : Role) :
    GoesOn (readCount role token) := by
  by_cases hinteger : ∃ minus digits, IsInteger token.toList minus digits
  · obtain ⟨minus, digits, h⟩ := hinteger
    rw [readCount_of_isInteger hshort h]
    split
    · exact fault _
    · exact ok _
  · simp only [not_exists] at hinteger
    rw [readCount_of_not_isInteger hinteger]
    exact fault _

theorem read (op : Operation) {args : List String} (hshort : ∀ a ∈ args, Short a.toList) :
    GoesOn (op.read args) := by
  unfold Operation.read
  split
  · exact ok _
  · exact ok _
  · exact (readSegment _).bind fun _ => (readCount (hshort _ (by simp)) _).bind fun _ => ok _
  · refine (readSegment _).bind fun segment => (readCount (hshort _ (by simp)) _).bind fun n => ?_
    split
    · exact fault _
    · exact ok _
  · exact (readSymbol _ _).bind fun _ => ok _
  · exact (readSymbol _ _).bind fun _ => ok _
  · exact (readSymbol _ _).bind fun _ => ok _
  · exact (readSymbol _ _).bind fun _ => (readCount (hshort _ (by simp)) _).bind fun _ => ok _
  · exact (readSymbol _ _).bind fun _ => (readCount (hshort _ (by simp)) _).bind fun _ => ok _
  · exact fault _

end GoesOn

namespace Command

variable {line : List Char} (hshort : ∀ w ∈ Text.words line, Short w)

include hshort

/-- **A line is read as the command that its words denote.** -/
theorem read_eq_ok_iff {c : Command} :
    read line = .ok c ↔ Denotes ((Text.words line).map String.ofList) c := by
  have hwords : ∀ w ∈ (Text.words line).map String.ofList,
      (∀ ch ∈ w.toList, Text.isBlank ch = false) ∧ Short w.toList := by
    intro w hw
    obtain ⟨cs, hcs, rfl⟩ := List.mem_map.mp hw
    rw [String.toList_ofList]
    exact ⟨Text.isBlank_of_mem_words hcs, hshort cs hcs⟩
  unfold read splitOperation
  cases hmap : (Text.words line).map String.ofList with
  | nil =>
    have hnone : Operation.ofWord? "" = none := by decide
    dsimp only
    rw [hnone]
    exact ⟨(nomatch ·), (nomatch ·)⟩
  | cons first args =>
    rw [hmap] at hwords
    dsimp only
    constructor
    · intro h
      cases hop : Operation.ofWord? first with
      | none => rw [hop] at h; cases h
      | some op =>
        rw [hop] at h
        rw [Operation.word_of_ofWord? hop]
        exact Operation.denotes_of_read (fun a ha => (hwords a (List.mem_cons_of_mem first ha)).1)
          (fun a ha => (hwords a (List.mem_cons_of_mem first ha)).2) h
    · intro h
      obtain ⟨op, args', hcons, hread⟩ :=
        h.exists_read (fun w hw => (hwords w hw).1) fun w hw => (hwords w hw).2
      obtain ⟨rfl, rfl⟩ := List.cons.inj hcons
      rw [Operation.ofWord?_word]
      exact hread

theorem goesOn_read : GoesOn (read line) := by
  have hargs : ∀ a ∈ (splitOperation line).2, Short a.toList := by
    intro a ha
    unfold splitOperation at ha
    split at ha
    next => cases ha
    next op args hmap =>
      have hmem : a ∈ (Text.words line).map String.ofList := hmap ▸ List.mem_cons_of_mem op ha
      obtain ⟨cs, hcs, rfl⟩ := List.mem_map.mp hmem
      rw [String.toList_ofList]
      exact hshort cs hcs
  unfold read
  dsimp only
  split
  next => exact .fault _
  next op hop => exact .read op hargs

end Command

/-- **A line gives what the grammar says.** -/
theorem exists_readLine {line : List Char}
    (hshort : ∀ w ∈ Text.words (Text.beforeComment line), Short w)
    (name place : Option String) (number : Nat) :
    ∃ item, readLine name place number line = .ok item ∧
      LineGives name place number line item := by
  have hwords : Text.words (Text.core line) = Text.words (Text.beforeComment line) :=
    Text.words_trim _
  rw [← hwords] at hshort
  have hread {c : Command} :
      Command.read (Text.core line) = .ok c ↔ Denotes (lineWords line) c := by
    rw [lineWords, ← hwords]
    exact Command.read_eq_ok_iff hshort
  unfold readLine
  dsimp only
  by_cases hcore : Text.core line = []
  · rw [hcore]
    exact ⟨none, rfl, .blank (Text.trim_eq_nil_iff.mp hcore)⟩
  · have hblank := mt Text.trim_eq_nil_iff.mpr hcore
    rw [if_neg (by simpa using hcore)]
    cases hresult : Command.read (Text.core line) with
    | ok c =>
      refine ⟨_, rfl, .command hblank (hread.mp hresult) fun c' hc' => ?_⟩
      rw [← hread, hresult] at hc'
      exact (Except.ok.inj hc').symm
    | error e =>
      cases e with
      | fault f =>
        refine ⟨_, rfl, .diagnostic hblank (fun c hc => ?_) rfl rfl rfl⟩
        rw [← hread, hresult] at hc
        cases hc
      | numeral e => exact absurd hresult (Command.goesOn_read hshort e)

/-- **Lines give their items one by one**, each with its own number. -/
theorem exists_readLines {lines : List (List Char)}
    (hshort : ∀ line ∈ lines, ∀ w ∈ Text.words (Text.beforeComment line), Short w)
    (name place : Option String) (number : Nat) :
    ∃ items : List (Option Item), readLines name place number lines = .ok (items.filterMap id) ∧
      List.Forall₂ (fun line item => LineGives name place line.2 line.1 item)
        (lines.zipIdx number) items := by
  induction lines generalizing number with
  | nil => exact ⟨[], rfl, .nil⟩
  | cons line rest ih =>
    obtain ⟨item, hitem, hgives⟩ :=
      exists_readLine (hshort line List.mem_cons_self) name place number
    obtain ⟨items, hitems, hrest⟩ :=
      ih (fun l hl => hshort l (List.mem_cons_of_mem line hl)) (number + 1)
    refine ⟨item :: items, ?_, .cons hgives hrest⟩
    rw [readLines, hitem, hitems]
    cases item <;> rfl

/-- **Reading accepts exactly the grammar, line by line.** When no integer of
the text has more than 4300 digits, reading succeeds. Every line gives its own
item, and the items, in order, make up the commands and the diagnostics, which
name the file, or else the module. The lines of the text, the parts before
comments and the words are those that the relations for them describe. -/
theorem Reading.ofText_grammar {text : String} (name file : Option String)
    (hshort : ∀ line ∈ Text.lines text.toList, ∀ w ∈ Text.words (Text.beforeComment line),
      ∀ minus digits, IsInteger w minus digits → digits.length ≤ 4300) :
    (∃ items : List (Option Item),
      Reading.ofText text name file = .ok (.ofItems (items.filterMap id)) ∧
      List.Forall₂ (fun line item => LineGives name (file.or name) line.2 line.1 item)
        ((Text.lines text.toList).zipIdx 1) items) ∧
    (∀ ls, Text.AreLines text.toList ls ↔ ls = Text.lines text.toList) ∧
    (∀ line part, Text.Uncommented line part ↔ part = Text.beforeComment line) ∧
    ∀ part ws, Text.AreWords part ws ↔ ws = Text.words part := by
  refine ⟨?_, fun _ => Text.areLines_iff, fun _ _ => Text.uncommented_iff,
    fun _ _ => Text.areWords_iff⟩
  obtain ⟨items, hitems, hgives⟩ := exists_readLines hshort name (file.or name) 1
  refine ⟨items, ?_, hgives⟩
  rw [Reading.ofText, hitems]
  rfl

/-- A text with a number in other digits, a comment right behind it, line
breaks of several kinds, and two bad lines. -/
def Sample.mixed : String :=
  "push constant +٣// tres\r\npop constant 1\n\n // nada\x0cif-goto LOOP\tx\u2028 call f -0"

/-- Of the six lines of the sample two give commands, two errors and two
nothing. -/
theorem Reading.ofText_grammar_sample : ∃ items : List (Option Item),
    Reading.ofText Sample.mixed (some "M") none = .ok (.ofItems (items.filterMap id)) ∧
    List.Forall₂ (fun line item => LineGives (some "M") (some "M") line.2 line.1 item)
      ((Text.lines Sample.mixed.toList).zipIdx 1) items ∧
    items.length = 6 ∧
    (Reading.ofText Sample.mixed (some "M") none).toOption.map
        (fun r => (r.commands, r.diagnostics.map Diagnostic.line))
      = some ([⟨.push .constant 3, 1, some "M"⟩, ⟨.call "f" 0, 6, some "M"⟩],
          [some 2, some 5]) := by
  have hwords : ∀ line ∈ Text.lines Sample.mixed.toList,
      ∀ w ∈ Text.words (Text.beforeComment line), w.length ≤ 4300 := by decide +kernel
  obtain ⟨⟨items, hitems, hgives⟩, -⟩ := Reading.ofText_grammar (some "M") none
    fun line hline w hw => Short.of_length (hwords line hline w hw)
  have hlength : (Text.lines Sample.mixed.toList).length = 6 := by decide +kernel
  refine ⟨items, hitems, hgives, ?_, by decide +kernel⟩
  rw [← hgives.length_eq, List.length_zipIdx, hlength]

end HackStack
