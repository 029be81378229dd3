import HackStack.Command.Symbol
import HackStack.Emitter
import HackStack.Proofs.Blocks
import HackStack.Proofs.Written

/-!
# Names and numbers in generated code

What code writes behind an at sign is read back as it was meant. Numbers
come back as the same numbers (`Text.readNumeral_toString`), and the names
that code makes up, as well as symbols of the source, are neither shortened
nor taken for numbers (`Plain`).
-/

namespace HackStack

/-! ## Digits -/

namespace Text

/-- What holds of the first characters one by one holds of each of them. -/
theorem forall_of_lt {b : Nat} {P : Char → Prop} (h : ∀ n < b, P (Char.ofNat n)) {c : Char}
    (hc : c.toNat < b) : P c := by
  have := h c.toNat hc
  rwa [Char.ofNat_toNat] at this

theorem toNat_of_isDigit {c : Char} (h : c.isDigit = true) : c.toNat < 128 := by
  simp only [Char.isDigit, Bool.and_eq_true, decide_eq_true_eq, UInt32.le_iff_toNat_le] at h
  have h₂ : c.val.toNat ≤ 57 := h.2
  show c.val.toNat < 128
  omega

/-- The ASCII digits have the values they look like. -/
theorem decimalValue?_of_isDigit {c : Char} (h : c.isDigit = true) :
    decimalValue? c = some (c.toNat - '0'.toNat) := by
  have hall : ∀ n < 128, (Char.ofNat n).isDigit = true →
      decimalValue? (Char.ofNat n) = some ((Char.ofNat n).toNat - '0'.toNat) := by decide +kernel
  exact forall_of_lt
    (P := fun c => c.isDigit = true → decimalValue? c = some (c.toNat - '0'.toNat))
    hall (toNat_of_isDigit h) h

theorem isBlank_of_isDigit {c : Char} (h : c.isDigit = true) : isBlank c = false := by
  have hall : ∀ n < 128, (Char.ofNat n).isDigit = true → isBlank (Char.ofNat n) = false := by
    decide +kernel
  exact forall_of_lt (P := fun c => c.isDigit = true → isBlank c = false) hall
    (toNat_of_isDigit h) h

theorem isDecimal_of_isDigit {c : Char} (h : c.isDigit = true) : isDecimal c = true := by
  rw [isDecimal, decimalValue?_of_isDigit h]
  rfl

/-! ## Numbers -/

theorem isDigit_of_mem_toString {n : Nat} {c : Char} (h : c ∈ (toString n).toList) :
    c.isDigit = true := by
  rw [Nat.toString_eq_ofList_toDigits, String.toList_ofList] at h
  exact Nat.isDigit_of_mem_toDigits (by decide) (by decide) h

theorem toString_ne_nil (n : Nat) : (toString n).toList ≠ [] := by
  rw [Nat.toString_eq_ofList_toDigits, String.toList_ofList]
  exact Nat.toDigits_ne_nil

theorem trimEnd_toString (n : Nat) : trimEnd (toString n).toList = (toString n).toList :=
  trimEnd_of_forall fun _ h => isBlank_of_isDigit (isDigit_of_mem_toString h)

theorem isNumber_toString (n : Nat) : Loading.isNumber (toString n).toList = true := by
  have hne : (toString n).toList.isEmpty = false :=
    List.isEmpty_eq_false_iff.mpr (toString_ne_nil n)
  have hall : (toString n).toList.all isDigit = true := List.all_eq_true.mpr fun _ h =>
    isDigit_of_isDecimal (isDecimal_of_isDigit (isDigit_of_mem_toString h))
  rw [Loading.isNumber, hne, hall]
  rfl

/-- The digits of a number have its value. -/
theorem decimalOf_toString (n : Nat) : decimalOf (toString n).toList = n := by
  have hfold (cs : List Char) (hcs : ∀ c ∈ cs, c.isDigit = true) (a : Nat) :
      cs.foldl (fun n c => 10 * n + (decimalValue? c).getD 0) a = Nat.ofDigitChars 10 cs a := by
    induction cs generalizing a with
    | nil => rw [Nat.ofDigitChars_nil, List.foldl_nil]
    | cons c cs ih =>
      rw [List.foldl_cons, Nat.ofDigitChars_cons, decimalValue?_of_isDigit (hcs c (by simp)),
        Option.getD_some]
      exact ih (fun x hx => hcs x (List.mem_cons_of_mem c hx)) _
  rw [decimalOf, hfold _ (fun _ h => isDigit_of_mem_toString h),
    Nat.toString_eq_ofList_toDigits, String.toList_ofList, Nat.ofDigitChars_ten_toDigits]

/-- **A number that is written is read back**, unless it has too many digits. -/
theorem readNumeral_toString {n : Nat} (h : (toString n).length ≤ maxDigits) :
    readNumeral (toString n).toList = .ok n := by
  have htake : (toString n).toList.takeWhile isDecimal = (toString n).toList := by
    rw [← List.append_nil (toString n).toList, List.takeWhile_append_of_pos
      fun c hc => isDecimal_of_isDigit (isDigit_of_mem_toString hc), List.takeWhile_nil]
  have hlen : (toString n).toList.length ≤ maxDigits := by rwa [String.length_toList]
  rw [readNumeral, htake, if_neg (by omega), if_neg (by simp), decimalOf_toString]

theorem length_toString_le {n k : Nat} (hk : 0 < k) (h : n < 10 ^ k) : (toString n).length ≤ k := by
  rw [Nat.toString_eq_ofList_toDigits, String.length_ofList]
  exact (Nat.length_toDigits_le_iff (by decide) hk).mpr h

theorem toString_injective : Function.Injective (toString : Nat → String) := by
  intro n k h
  rw [← decimalOf_toString n, ← decimalOf_toString k, h]

end Text

/-! ## Plain names -/

theorem toNat_of_isSymbolChar {c : Char} (h : isSymbolChar c = true) : c.toNat < 128 := by
  have hbelow {d : Char} (hd : d.toNat < 128) (h : c.val ≤ d.val) : c.toNat < 128 :=
    (UInt32.le_iff_toNat_le.mp h).trans_lt hd
  change ((c.isUpper || c.isLower) || c == '_' || c == '.' || c == '$' || c == ':' || c.isDigit)
    = true at h
  simp only [Bool.or_eq_true, beq_iff_eq] at h
  rcases h with (((((h | h) | rfl) | rfl) | rfl) | rfl) | h
  · exact hbelow (d := 'Z') (by decide) (of_decide_eq_true h).2
  · exact hbelow (d := 'z') (by decide) (of_decide_eq_true (Bool.and_eq_true_iff.mp h).2)
  · decide
  · decide
  · decide
  · decide
  · exact hbelow (d := '9') (by decide) (of_decide_eq_true (Bool.and_eq_true_iff.mp h).2)

theorem isDigit_of_isSymbolStart {c : Char} (h : isSymbolStart c = true) :
    Text.isDigit c = false := by
  have hall : ∀ n < 128, isSymbolStart (Char.ofNat n) = true →
      Text.isDigit (Char.ofNat n) = false := by decide +kernel
  have hc : isSymbolChar c = true := by rw [isSymbolChar, h]; rfl
  exact Text.forall_of_lt (P := fun c => isSymbolStart c = true → Text.isDigit c = false) hall
    (toNat_of_isSymbolChar hc) h

/-- A symbol of the source: it has no blanks, not even at its end. -/
structure SourceSymbol (x : String) : Prop where
  isSymbol : isSymbol x.toList = true
  isBlank : ∀ c ∈ x.toList, Text.isBlank c = false

theorem isNumber_eq_false {cs : List Char} {c : Char} (hc : c ∈ cs) (h : Text.isDigit c = false) :
    Loading.isNumber cs = false := by
  rw [Loading.isNumber, Bool.and_eq_false_iff, List.all_eq_false]
  exact .inr ⟨c, hc, by rw [h]; decide⟩

theorem SourceSymbol.ne_nil {x : String} (h : SourceSymbol x) : x.toList ≠ [] := by
  intro hnil
  have := h.isSymbol
  rw [hnil] at this
  cases this

theorem SourceSymbol.plain {x : String} (h : SourceSymbol x) : Plain x := by
  refine ⟨Text.trimEnd_of_forall h.isBlank, ?_⟩
  have hsym := h.isSymbol
  cases hx : x.toList with
  | nil => rw [hx] at hsym; cases hsym
  | cons c cs =>
    rw [hx, HackStack.isSymbol, Bool.and_eq_true] at hsym
    exact isNumber_eq_false (List.mem_cons_self ..) (isDigit_of_isSymbolStart hsym.1)

/-- A name is plain when it ends without a blank and is more than digits. -/
theorem plain_append {a b : String} (hne : b.toList ≠ [])
    (hblank : ∀ c ∈ b.toList, Text.isBlank c = false) {c : Char} (hc : c ∈ a.toList)
    (hdigit : Text.isDigit c = false) : Plain (a ++ b) := by
  have hend : Text.trimEnd (a.toList ++ b.toList) = a.toList ++ b.toList := by
    have hlast := hblank _ (List.getLast_mem hne)
    rw [← List.dropLast_append_getLast hne, ← List.append_assoc]
    exact Text.trimEnd_append_singleton hlast _
  refine ⟨by rw [String.toList_append]; exact hend, ?_⟩
  rw [String.toList_append]
  exact isNumber_eq_false (List.mem_append_left _ hc) hdigit

theorem plain_append_toString {a : String} (n : Nat) {c : Char} (hc : c ∈ a.toList)
    (hdigit : Text.isDigit c = false) : Plain (a ++ toString n) :=
  plain_append (Text.toString_ne_nil n)
    (fun _ h => Text.isBlank_of_isDigit (Text.isDigit_of_mem_toString h)) hc hdigit

/-! ## Names that code makes up -/

namespace Emitter

theorem plain_returnLabel (n : Nat) : Plain (returnLabel n) :=
  plain_append_toString n (c := 'F') (by decide) (isDigit_of_isSymbolStart (by decide))

theorem plain_trueLabel (n : Nat) : Plain (trueLabel n) :=
  plain_append (c := 'C') (by decide) (Text.forall_of_all (by decide))
    (by rw [String.toList_append]; exact List.mem_append_left _ (by decide))
    (isDigit_of_isSymbolStart (by decide))

theorem plain_falseLabel (n : Nat) : Plain (falseLabel n) :=
  plain_append (c := 'C') (by decide) (Text.forall_of_all (by decide))
    (by rw [String.toList_append]; exact List.mem_append_left _ (by decide))
    (isDigit_of_isSymbolStart (by decide))

theorem plain_staticSymbol (e : Emitter) (index : Nat) : Plain (e.staticSymbol index) :=
  plain_append_toString index (c := '.')
    (by rw [String.toList_append]; exact List.mem_append_right _ (by decide))
    (isDigit_of_isSymbolStart (by decide))

theorem plain_qualify (e : Emitter) {label : String} (h : SourceSymbol label) :
    Plain (e.qualify label) :=
  plain_append h.ne_nil h.isBlank (c := '$')
    (by rw [String.toList_append]; exact List.mem_append_right _ (by decide))
    (isDigit_of_isSymbolStart (by decide))

end Emitter

/-! ## Values in a loaded program -/

theorem Symbols.value?_toString (t : Symbols) {n : Nat}
    (h : (toString n).length ≤ Text.maxDigits) :
    t.value? (toString n) = (some n).filter (· < 2 ^ 15) := by
  rw [Symbols.value?, Text.trimEnd_toString, if_pos (Text.isNumber_toString n),
    Text.readNumeral_toString h]
  rfl

namespace Symbols.Lists

variable {t : Symbols} {labels : List (String × Nat)} {names : List String}
  (h : t.Lists labels names)

include h

theorem value_predefined {name : String} {x : Nat} (hplain : Plain name)
    (hx : predefined.get? name = some x) : t.value name = x := by
  rw [hplain.value_eq, h.get?_predefined hx, Option.getD_some]

/-- **Numbers and registers are themselves.** -/
theorem standard : Standard t.value where
  numeral n hn := by
    have hlen : (toString n).length ≤ Text.maxDigits :=
      (Text.length_toString_le (k := 5) (by decide) (by omega)).trans (by decide)
    show t.value (toString n) = n
    rw [Symbols.value, Symbols.value?_toString _ hlen,
      Option.filter_some_pos (by simpa using hn), Option.getD_some]
  register n hn := by
    have hall : ∀ n < 16, predefined.get? ("R" ++ toString n) = some n := by decide
    exact h.value_predefined
      (plain_append_toString n (c := 'R') (by decide) (isDigit_of_isSymbolStart (by decide)))
      (hall n hn)

end Symbols.Lists

namespace Machine.Holds

variable {m : Machine} {ls : List Line} {names : List String} (h : m.Holds ls names)

include h

/-- A number that the program loads has fifteen bits. -/
theorem lt_of_constant {n : Nat} (hn : Line.constant n ∈ ls) (hlen : n < 10 ^ Text.maxDigits) :
    n < 32768 := by
  have hsome := h.value (toString n) hn
  rw [Symbols.value?_toString _ (Text.length_toString_le (by decide) hlen)] at hsome
  by_contra hge
  rw [Option.filter_some_neg (by simpa using hge)] at hsome
  cases hsome

end Machine.Holds

end HackStack
