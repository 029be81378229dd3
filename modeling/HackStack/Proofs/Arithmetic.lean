import Mathlib.Tactic
import HackStack.Asm.Alu

/-!
# What the arithmetic unit computes

The control bits of a mnemonic spell out its computation by clearing,
complementing, adding and joining. This module says what comes out:
`Comp.value` is the integer that the mnemonic reads as, and the unit gives
**the word of that integer** (`Comp.apply_eq_wrap`), whatever the width of the
operands. Only the plain conjunction is not wrapped on its way out, and of
two words it is a word anyway (`Comp.apply_eq_of_words`).

A jump looks at the sign of a result. On a word this is the sign of its
value in two's complement (`Jump.takenOn_eq`).
-/

namespace HackStack

namespace Word

/-- The integers that are words. -/
def IsWord (x : Int) : Prop := 0 ≤ x ∧ x < 65536

instance (x : Int) : Decidable (IsWord x) := inferInstanceAs (Decidable (_ ∧ _))

theorem isWord_wrap (x : Int) : IsWord (wrap x) := ⟨wrap_nonneg x, wrap_lt x⟩

theorem IsWord.wrap_eq {x : Int} (h : IsWord x) : wrap x = x := wrap_of_word h.1 h.2

theorem wrap_eq_emod (x : Int) : wrap x = x % 65536 := rfl

/-- The bits that at least one of two integers has. -/
def disj (x y : Int) : Int := complement (conj (complement x) (complement y))

/-! ## Conjunction and wrapping

Everything about the conjunction of two integers comes from its lowest bit
and the conjunction of their halves, which is the same rule for naturals
and for the infinitely many leading ones of a negative integer. -/

theorem and_halves (x y : Nat) :
    x &&& y = 2 * (x / 2 &&& y / 2) + x % 2 * (y % 2) := by
  have hmod : (x &&& y) % 2 = x % 2 * (y % 2) := by
    rw [show (x &&& y) % 2 = (x % 2) &&& (y % 2) from Nat.and_mod_two_pow (n := 1)]
    rcases Nat.mod_two_eq_zero_or_one x with hx | hx <;>
      rcases Nat.mod_two_eq_zero_or_one y with hy | hy <;> rw [hx, hy] <;> rfl
  have hdiv : (x &&& y) / 2 = (x / 2 &&& y / 2) := Nat.and_div_two
  rw [← hdiv, ← hmod]
  exact (Nat.div_add_mod _ _).symm

theorem or_halves (x y : Nat) :
    x ||| y = 2 * (x / 2 ||| y / 2) + (x % 2 + y % 2 - x % 2 * (y % 2)) := by
  have hmod : (x ||| y) % 2 = x % 2 + y % 2 - x % 2 * (y % 2) := by
    rw [show (x ||| y) % 2 = (x % 2) ||| (y % 2) from Nat.or_mod_two_pow (n := 1)]
    rcases Nat.mod_two_eq_zero_or_one x with hx | hx <;>
      rcases Nat.mod_two_eq_zero_or_one y with hy | hy <;> rw [hx, hy] <;> rfl
  have hdiv : (x ||| y) / 2 = (x / 2 ||| y / 2) := Nat.or_div_two
  rw [← hdiv, ← hmod]
  exact (Nat.div_add_mod _ _).symm

theorem conj_comm (x y : Int) : conj x y = conj y x := by
  cases x <;> cases y <;> simp [conj, Nat.and_comm, Nat.or_comm]

theorem disj_comm (x y : Int) : disj x y = disj y x := by
  rw [disj, disj, conj_comm]

theorem conj_ofNat_negSucc_halves (x y : Nat) :
    conj (.ofNat x) (.negSucc y)
      = 2 * conj (.ofNat (x / 2)) (.negSucc (y / 2)) + x % 2 * (Int.negSucc y % 2) := by
  have h := and_halves x y
  have hle : (x / 2 &&& y / 2) ≤ x / 2 := Nat.and_le_left
  simp only [conj, Int.ofNat_eq_natCast]
  rcases Nat.mod_two_eq_zero_or_one x with hx | hx <;>
    rcases Nat.mod_two_eq_zero_or_one y with hy | hy <;>
    rw [hx, hy] at h
  · rw [show ((x : Nat) : Int) % 2 = 0 by omega]; omega
  · rw [show ((x : Nat) : Int) % 2 = 0 by omega]; omega
  · rw [show ((x : Nat) : Int) % 2 = 1 by omega]; omega
  · rw [show ((x : Nat) : Int) % 2 = 1 by omega]; omega

/-- **A conjunction bit by bit**: the lowest bit is the product of the lowest
bits, and the rest is the conjunction of the halves. -/
theorem conj_halves (x y : Int) :
    conj x y = 2 * conj (x / 2) (y / 2) + x % 2 * (y % 2) := by
  have hneg (n : Nat) : Int.negSucc n / 2 = Int.negSucc (n / 2) := by omega
  have hpos (n : Nat) : Int.ofNat n / 2 = Int.ofNat (n / 2) := rfl
  cases x with
  | ofNat x =>
    rw [hpos]
    cases y with
    | ofNat y =>
      rw [hpos]
      simp only [conj, and_halves x y]
      rfl
    | negSucc y =>
      rw [hneg]
      exact conj_ofNat_negSucc_halves x y
  | negSucc x =>
    rw [hneg]
    cases y with
    | ofNat y =>
      rw [hpos, conj_comm, conj_comm (Int.negSucc _), mul_comm (Int.negSucc x % 2)]
      exact conj_ofNat_negSucc_halves y x
    | negSucc y =>
      rw [hneg]
      have h := or_halves x y
      simp only [conj]
      rcases Nat.mod_two_eq_zero_or_one x with hx | hx <;>
        rcases Nat.mod_two_eq_zero_or_one y with hy | hy <;>
        rw [hx, hy] at h
      · rw [show Int.negSucc x % 2 = 1 by omega]; omega
      · rw [show Int.negSucc x % 2 = 1 by omega]; omega
      · rw [show Int.negSucc x % 2 = 0 by omega]; omega
      · rw [show Int.negSucc x % 2 = 0 by omega]; omega

/-- **The low bits of a conjunction depend on the low bits of its parts.** -/
theorem dvd_conj_add (k : Nat) (x y c d : Int) :
    2 ^ k ∣ conj (x + 2 ^ k * c) (y + 2 ^ k * d) - conj x y := by
  induction k generalizing x y with
  | zero => exact ⟨_, (one_mul _).symm⟩
  | succ k ih =>
    -- halving both parts takes one factor off the difference
    have hsplit (z e : Int) : z + 2 ^ (k + 1) * e = z + 2 * (2 ^ k * e) := by ring
    have hdiv (z e : Int) : (z + 2 ^ (k + 1) * e) / 2 = z / 2 + 2 ^ k * e := by
      rw [hsplit]
      omega
    have hmod (z e : Int) : (z + 2 ^ (k + 1) * e) % 2 = z % 2 := by
      rw [hsplit]
      omega
    obtain ⟨q, hq⟩ := ih (x / 2) (y / 2)
    refine ⟨q, ?_⟩
    rw [conj_halves, hdiv, hdiv, hmod, hmod, conj_halves x y]
    linear_combination 2 * hq

/-- Wrapping the parts of a conjunction first changes no bit of its word. -/
theorem wrap_conj_wrap (x y : Int) : wrap (conj (wrap x) (wrap y)) = wrap (conj x y) := by
  have hz (z : Int) : wrap z = z + 2 ^ 16 * (-(z / 65536)) := by
    rw [wrap_eq_emod]
    omega
  rw [hz x, hz y]
  exact Int.emod_eq_emod_iff_emod_sub_eq_zero.mpr
    (Int.emod_eq_zero_of_dvd (dvd_conj_add 16 x y _ _))

theorem and_ones (n : Nat) : 65535 &&& n = n % 65536 := by
  rw [Nat.and_comm]
  exact Nat.and_two_pow_sub_one_eq_mod n 16

/-- **Joined with sixteen ones, an integer gives its word.** -/
theorem conj_ones (x : Int) : conj 65535 x = wrap x := by
  cases x with
  | ofNat n =>
    show ((65535 &&& n : Nat) : Int) = (n : Int) % 65536
    rw [and_ones]
    omega
  | negSucc n =>
    show ((65535 - (65535 &&& n) : Nat) : Int) = Int.negSucc n % 65536
    rw [and_ones]
    omega

/-- The conjunction of two words is a word. -/
theorem isWord_conj {x y : Int} (hx : IsWord x) (hy : IsWord y) : IsWord (conj x y) := by
  obtain ⟨x, rfl⟩ := Int.eq_ofNat_of_zero_le hx.1
  obtain ⟨y, rfl⟩ := Int.eq_ofNat_of_zero_le hy.1
  have hle : x &&& y ≤ x := Nat.and_le_left
  have hlt := hx.2
  show 0 ≤ ((x &&& y : Nat) : Int) ∧ ((x &&& y : Nat) : Int) < 65536
  omega

theorem wrap_complement_wrap (x : Int) : wrap (complement (wrap x)) = wrap (complement x) := by
  simp only [wrap_eq_emod, complement]
  omega

end Word

/-! ## Mnemonics -/

open Word

/-- **What a mnemonic reads as**: `x` is the register `D`, `y` the second
operand. -/
def Comp.value (c : Comp) (x y : Int) : Int :=
  match c with
  | .zero => 0
  | .one => 1
  | .minusOne => -1
  | .d => x
  | .notD => complement x
  | .negD => -x
  | .dPlusOne => x + 1
  | .dMinusOne => x - 1
  | .y _ => y
  | .notY _ => complement y
  | .negY _ => -y
  | .yPlusOne _ => y + 1
  | .yMinusOne _ => y - 1
  | .dPlusY _ => x + y
  | .dMinusY _ => x - y
  | .yMinusD _ => y - x
  | .dAndY _ => conj x y
  | .dOrY _ => disj x y

/-- Whether a mnemonic is the plain conjunction, the one computation whose
result is not wrapped. -/
def Comp.isConjunction : Comp → Bool
  | .dAndY _ => true
  | _ => false

/-- **The arithmetic unit gives the word of what the mnemonic reads as**, for
operands of any width. -/
theorem Comp.apply_eq_wrap {c : Comp} (h : c.isConjunction = false) (x y : Int) :
    c.control.apply x y = wrap (c.value x y) := by
  have hones : wrap (complement 0) = 65535 := by decide
  have hright (z : Int) : conj z 65535 = wrap z := by rw [conj_comm, conj_ones]
  cases c with
  | dAndY o => exact absurd h (by simp [Comp.isConjunction])
  | dOrY o =>
    have hc : (Comp.dOrY o).control = ⟨false, true, false, true, false, true⟩ := by
      cases o <;> decide
    rw [hc]
    show wrap (complement (conj (wrap (complement x)) (wrap (complement y))))
      = wrap (complement (conj (complement x) (complement y)))
    rw [← wrap_complement_wrap, wrap_conj_wrap, wrap_complement_wrap]
  | d | notD =>
    simp only [Control.apply, Control.prepare, Comp.control, Control.ofBits, Comp.bits, Comp.value]
    norm_num [hones, hright, wrap_complement_wrap]
  | y o | notY o =>
    simp only [Control.apply, Control.prepare, Comp.control, Control.ofBits, Comp.bits, Comp.value]
    norm_num [hones, conj_ones, wrap_complement_wrap]
  | _ =>
    simp only [Control.apply, Control.prepare, Comp.control, Control.ofBits, Comp.bits, Comp.value]
    norm_num [hones, wrap_eq_emod, complement] <;> omega

/-- The plain conjunction comes out as it is. -/
theorem Comp.apply_dAndY (o : Operand) (x y : Int) :
    (Comp.dAndY o).control.apply x y = conj x y := by
  have hc : (Comp.dAndY o).control = ⟨false, false, false, false, false, false⟩ := by
    cases o <;> decide
  rw [hc]
  rfl

/-- On two words the unit gives the word of what the mnemonic reads as,
without exception. -/
theorem Comp.apply_eq_of_words (c : Comp) {x y : Int} (hx : IsWord x) (hy : IsWord y) :
    c.control.apply x y = wrap (c.value x y) := by
  by_cases h : c.isConjunction = true
  · cases c with
    | dAndY o =>
      rw [Comp.apply_dAndY]
      exact (isWord_conj hx hy).wrap_eq.symm
    | _ => exact absurd h (by simp [Comp.isConjunction])
  · exact Comp.apply_eq_wrap (by simpa using h) x y

/-! ## Jumps -/

/-- When a jump is taken, by the sign of an integer. -/
def Jump.holds : Jump → Int → Bool
  | .never, _ => false
  | .gt, x => 0 < x
  | .eq, x => x = 0
  | .ge, x => 0 ≤ x
  | .lt, x => x < 0
  | .ne, x => x ≠ 0
  | .le, x => x ≤ 0
  | .always, _ => true

/-- **A jump on a word looks at its value in two's complement.** -/
theorem Jump.takenOn_eq (j : Jump) {x : Int} (h : IsWord x) :
    j.takenOn x = j.holds (signed x) := by
  have hx := h.wrap_eq
  have hzero : (x == 0) = decide (signed x = 0) := by
    unfold signed modulus
    rw [hx, beq_eq_decide, decide_eq_decide]
    have := h.2
    split <;> omega
  unfold Jump.takenOn isNegative
  rw [hzero]
  cases j <;> simp [Jump.taken, Jump.bits, Jump.holds, Nat.testBit] <;> grind

end HackStack
