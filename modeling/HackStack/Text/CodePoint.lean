import HackStack.Text.Quoted

/-!
# Code points

The bytes of a file name need not be UTF-8. A byte that is not read as part
of a character is kept as a **lone surrogate**, a code point that is no
character and that no UTF-8 text can hold. So a name is a row of code points,
and so is every text that a name has gone into.

Such a row is kept as a **marked text**. The mark and the character that is
0x800 below a surrogate stand for the surrogate, and two marks stand for the
character that the mark itself is. Marked texts are in the order of their
code points.
-/

namespace HackStack.Text

/-- The mark: the first character behind the surrogates. -/
def mark : Char := Char.ofNat 0xE000

/-- A text of characters, marked. -/
def marked (cs : List Char) : List Char :=
  cs.flatMap fun c => if c = mark then [mark, mark] else [c]

/-- Whether a code point is a surrogate. -/
def isSurrogate (n : Nat) : Bool := 0xD800 ≤ n && n ≤ 0xDFFF

/-- **The code points of a marked text.** -/
def codePoints : List Char → List Nat
  | [] => []
  | [c] => [c.toNat]
  | c :: d :: cs =>
    if c = mark ∧ d = mark then mark.toNat :: codePoints cs
    else if c = mark ∧ isSurrogate (d.toNat + 0x800) then (d.toNat + 0x800) :: codePoints cs
    else c.toNat :: codePoints (d :: cs)

theorem codePoints_cons_of_ne {c : Char} (h : c ≠ mark) (cs : List Char) :
    codePoints (c :: cs) = c.toNat :: codePoints cs := by
  cases cs with
  | nil => rfl
  | cons d cs => rw [codePoints, if_neg fun hc => h hc.1, if_neg fun hc => h hc.1]

theorem toNat_ofNat {n : Nat} (h : n.isValidChar) : (Char.ofNat n).toNat = n := by
  rw [Char.ofNat, dif_pos h]
  rfl

theorem ofNat_ne_mark {n : Nat} (h : n < 0xD800) : Char.ofNat n ≠ mark := by
  intro heq
  have hnat := toNat_ofNat (Or.inl h)
  rw [heq, show mark.toNat = 0xE000 from rfl] at hnat
  omega

/-- A surrogate, as it stands in a marked text. -/
theorem codePoints_surrogate {n : Nat} (h : isSurrogate n = true) (cs : List Char) :
    codePoints (mark :: Char.ofNat (n - 0x800) :: cs) = n :: codePoints cs := by
  have hrange : 0xD800 ≤ n ∧ n ≤ 0xDFFF := by simpa [isSurrogate] using h
  have hpoint : (Char.ofNat (n - 0x800)).toNat + 0x800 = n := by
    rw [toNat_ofNat (Or.inl (by omega))]
    omega
  rw [codePoints, if_neg fun hc => ofNat_ne_mark (by omega) hc.2, hpoint, if_pos ⟨rfl, h⟩]

/-- A text that was marked has the code points of its characters. -/
theorem codePoints_marked (cs : List Char) : codePoints (marked cs) = cs.map Char.toNat := by
  induction cs with
  | nil => rfl
  | cons c cs ih =>
    rw [marked, List.flatMap_cons, ← marked, List.map_cons, ← ih]
    by_cases hc : c = mark
    · rw [if_pos hc, hc]
      exact if_pos ⟨rfl, rfl⟩
    · rw [if_neg hc]
      exact codePoints_cons_of_ne hc _

/-- Without the mark there is nothing to mark. -/
theorem marked_eq_self {cs : List Char} (h : mark ∉ cs) : marked cs = cs := by
  induction cs with
  | nil => rfl
  | cons c cs ih =>
    rw [List.mem_cons, not_or] at h
    rw [marked, List.flatMap_cons, ← marked, if_neg (Ne.symm h.1), ih h.2]
    rfl

/-- The characters of a marked text without surrogates. -/
def characters (s : String) : String :=
  String.ofList ((codePoints s.toList).map Char.ofNat)

/-! ## Names -/

/-- Whether a surrogate stands for a byte of a name. -/
def isByte (n : Nat) : Bool := 0xDC80 ≤ n && n ≤ 0xDCFF

/-- The bytes of a code point in a name: those of its character, or the one byte
that a surrogate stands for. -/
def pointBytes (n : Nat) : List UInt8 :=
  if isSurrogate n then [UInt8.ofNat n] else String.utf8EncodeChar (Char.ofNat n)

/-- The bytes of a name. -/
def nameBytes (name : String) : List UInt8 := (codePoints name.toList).flatMap pointBytes

/-- A byte, as it stands in a name. -/
theorem exists_codePoints_byte (b : UInt8) : ∃ front n, pointBytes n = [b] ∧
    ∀ cs, codePoints (front ++ cs) = n :: codePoints cs := by
  have hlt := b.toNat_lt
  by_cases hb : b.toNat < 0x80
  · refine ⟨[Char.ofNat b.toNat], b.toNat, ?_, fun cs => ?_⟩
    · have hsurrogate : isSurrogate b.toNat = false := by
        simp [isSurrogate]
        omega
      have hnat : (Char.ofNat b.toNat).val.toNat = b.toNat :=
        toNat_ofNat (Or.inl (by omega))
      rw [pointBytes, hsurrogate, if_neg Bool.false_ne_true, String.utf8EncodeChar, hnat]
      rw [if_pos (by omega)]
      simp
    · rw [List.singleton_append, codePoints_cons_of_ne (ofNat_ne_mark (by omega)),
        toNat_ofNat (Or.inl (by omega))]
  · have hsurrogate : isSurrogate (0xDC00 + b.toNat) = true := by
      simp [isSurrogate]
      omega
    refine ⟨[mark, Char.ofNat (0xDC00 + b.toNat - 0x800)], 0xDC00 + b.toNat, ?_,
      codePoints_surrogate hsurrogate⟩
    rw [pointBytes, if_pos hsurrogate]
    simp

/-- **Every row of bytes is a name**, UTF-8 or not. -/
theorem exists_nameBytes (bytes : List UInt8) : ∃ name, nameBytes name = bytes := by
  induction bytes with
  | nil => exact ⟨"", rfl⟩
  | cons b bytes ih =>
    obtain ⟨name, hname⟩ := ih
    obtain ⟨front, n, hn, hfront⟩ := exists_codePoints_byte b
    refine ⟨String.ofList (front ++ name.toList), ?_⟩
    rw [nameBytes, String.toList_ofList, hfront, List.flatMap_cons, hn, ← nameBytes, hname]
    rfl

/-- How a code point is written between quotes `q`. -/
def escapePoint (q : Char) (n : Nat) : List Char :=
  if isSurrogate n then '\\' :: 'u' :: hex 4 n else escape q (Char.ofNat n)

/-- **A name between quotes.** -/
def quoteName (name : String) : String :=
  let q := quoteFor name.toList
  String.ofList (q :: (codePoints name.toList).flatMap (escapePoint q) ++ [q])

/-! ## Bytes -/

/-- Surrogates in a text that cannot be encoded: where the first of them stands,
and the row that starts there. -/
structure EncodeError where
  start : Nat
  row : List Nat
  deriving DecidableEq, Repr

/-- The wording of an encoding error. -/
def EncodeError.message (e : EncodeError) : String :=
  let what := match e.row with
    | [n] =>
      "character '" ++ String.ofList ('\\' :: 'u' :: hex 4 n) ++ "' in position "
        ++ toString e.start
    | row =>
      "characters in position " ++ toString e.start ++ "-" ++ toString (e.start + row.length - 1)
  "'utf-8' codec can't encode " ++ what ++ ": surrogates not allowed"

/-- The first surrogates that are not allowed. -/
def refused? (allowed : Nat → Bool) (points : List Nat) : Option EncodeError :=
  (points.findIdx? fun n => isSurrogate n && !allowed n).map fun i =>
    ⟨i, (points.drop i).takeWhile isSurrogate⟩

/-- **The bytes of a marked text in UTF-8**, which has none for a surrogate. -/
def encode (s : String) : Except EncodeError (List UInt8) :=
  match refused? (fun _ => false) (codePoints s.toList) with
  | some e => .error e
  | none => .ok ((characters s).toList.flatMap String.utf8EncodeChar)

end HackStack.Text
