/-!
# Strict UTF-8

Reading bytes as UTF-8 text. Overlong forms, surrogates and code points
beyond the last plane are refused, and the failure names the **offset of
the first byte** of the sequence at fault.
-/

namespace HackStack.Text.Utf8

/-- What is wrong with a sequence of bytes. -/
inductive Reason where
  /-- Its first byte starts no sequence. -/
  | startByte
  /-- A later byte is outside the range that the first one calls for. -/
  | continuationByte
  /-- The bytes end before the sequence does. -/
  | endOfData
  deriving DecidableEq, Repr

/-- The wording of a reason. -/
def Reason.message : Reason → String
  | .startByte => "invalid start byte"
  | .continuationByte => "invalid continuation byte"
  | .endOfData => "unexpected end of data"

/-- A sequence of bytes that is not UTF-8, by the offset of its first byte. -/
structure Error where
  reason : Reason
  offset : Nat
  deriving DecidableEq, Repr

/-- An inclusive range of byte values. -/
abbrev Range := Nat × Nat

/-- The range of a continuation byte that nothing narrows. -/
def tail : Range := (0x80, 0xBF)

/-- What a first byte announces: the bits that it gives to the code point, and
the ranges of the bytes that must follow. The first range is narrower
where it rules out overlong forms, surrogates or code points past the last. -/
def lead? (b : UInt8) : Option (Nat × List Range) :=
  let n := b.toNat
  if n < 0x80 then some (n, [])
  else if n < 0xC2 then none
  else if n < 0xE0 then some (n - 0xC0, [tail])
  else if n == 0xE0 then some (0, [(0xA0, 0xBF), tail])
  else if n == 0xED then some (0xD, [(0x80, 0x9F), tail])
  else if n < 0xF0 then some (n - 0xE0, [tail, tail])
  else if n == 0xF0 then some (0, [(0x90, 0xBF), tail, tail])
  else if n < 0xF4 then some (n - 0xF0, [tail, tail, tail])
  else if n == 0xF4 then some (4, [(0x80, 0x8F), tail, tail])
  else none

/-- Reads bytes from `offset` on, inside a sequence that began at `start`, has
given the bits `point` so far and waits for a byte in each range of
`waiting`. -/
def decodeFrom (offset start point : Nat) (waiting : List Range) :
    List UInt8 → Except Error (List Char)
  | [] => if waiting.isEmpty then .ok [] else .error ⟨.endOfData, start⟩
  | b :: bs =>
    match waiting with
    | (lo, hi) :: more =>
      if lo ≤ b.toNat && b.toNat ≤ hi then
        let point := point * 64 + b.toNat % 64
        if more.isEmpty then
          (Char.ofNat point :: ·) <$> decodeFrom (offset + 1) start point [] bs
        else decodeFrom (offset + 1) start point more bs
      else .error ⟨.continuationByte, start⟩
    | [] =>
      match lead? b with
      | none => .error ⟨.startByte, offset⟩
      | some (n, []) => (Char.ofNat n :: ·) <$> decodeFrom (offset + 1) offset 0 [] bs
      | some (n, more) => decodeFrom (offset + 1) offset n more bs

/-- **The text that bytes stand for.** -/
def decode (bytes : List UInt8) : Except Error (List Char) :=
  decodeFrom 0 0 0 [] bytes

end HackStack.Text.Utf8
