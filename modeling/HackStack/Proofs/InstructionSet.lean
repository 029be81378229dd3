import HackStack.Proofs.WordMachine

/-!
# The instruction set

What a step of the machine does, said as a manual of the instruction set says
it: in words of sixteen bits, with the letters of the mnemonics, and with
nothing about control bits. `Comp.meaning` is what the arithmetic unit is asked
for by a mnemonic, as an operation on words; the six bits behind it are only
the way in which the unit is told (`Comp.ofInt_apply`).

`Machine.after` is the machine after an instruction. All reads come before all
writes: the operand, the cell that is written and the target of the jump go by
the `A` from before, also when `A` is a destination itself. And there is one
thing that can go wrong, an `A` behind the last cell in an instruction that
names `M`. Nothing has been written then (`Machine.step_implements`).
-/

namespace HackStack

open Word

/-! ## Words as rows of bits -/

namespace Word

/-- The bits of an integer below the sixteenth are those of its word. -/
theorem ofInt_wrap (x : Int) : BitVec.ofInt 16 (wrap x) = BitVec.ofInt 16 x := by
  apply BitVec.eq_of_toNat_eq
  rw [BitVec.toNat_ofInt, BitVec.toNat_ofInt]
  show (x % 65536 % 65536).toNat = (x % 65536).toNat
  rw [Int.emod_emod_of_dvd x (dvd_refl 65536)]

/-- Read as a number from 0 on, the bits of an integer are its word. -/
theorem toNat_ofInt (x : Int) : ((BitVec.ofInt 16 x).toNat : Int) = wrap x := by
  rw [BitVec.toNat_ofInt]
  exact Int.toNat_of_nonneg (wrap_nonneg x)

/-- Read in two's complement, they are its signed value. -/
theorem toInt_ofInt (x : Int) : (BitVec.ofInt 16 x).toInt = signed x := by
  have hword := toNat_ofInt x
  rw [BitVec.toInt_eq_toNat_cond, signed, ← hword, modulus]
  split <;> split <;> omega

theorem ofInt_sub (x y : Int) :
    BitVec.ofInt 16 (x - y) = BitVec.ofInt 16 x - BitVec.ofInt 16 y := by
  rw [Int.sub_eq_add_neg, BitVec.ofInt_add, BitVec.ofInt_neg, BitVec.sub_eq_add_neg]

theorem ofInt_complement (x : Int) : BitVec.ofInt 16 (complement x) = ~~~BitVec.ofInt 16 x := by
  rw [complement, ofInt_sub, BitVec.ofInt_neg, BitVec.not_eq_neg_add]
  rfl

/-- **The conjunction of two integers, bit by bit.** Their words are natural
numbers, and of these it is the conjunction that is built in. -/
theorem ofInt_conj (x y : Int) :
    BitVec.ofInt 16 (conj x y) = BitVec.ofInt 16 x &&& BitVec.ofInt 16 y := by
  obtain ⟨n, hn⟩ := Int.eq_ofNat_of_zero_le (wrap_nonneg x)
  obtain ⟨k, hk⟩ := Int.eq_ofNat_of_zero_le (wrap_nonneg y)
  have hconj : conj (wrap x) (wrap y) = ((n &&& k : Nat) : Int) := by
    rw [hn, hk]
    rfl
  calc BitVec.ofInt 16 (conj x y)
      = BitVec.ofInt 16 (conj (wrap x) (wrap y)) := by
        rw [← ofInt_wrap, ← wrap_conj_wrap, ofInt_wrap]
    _ = BitVec.ofNat 16 n &&& BitVec.ofNat 16 k := by
        rw [hconj, BitVec.ofInt_natCast, BitVec.ofNat_and]
    _ = BitVec.ofInt 16 x &&& BitVec.ofInt 16 y := by
        rw [← ofInt_wrap x, ← ofInt_wrap y, hn, hk, BitVec.ofInt_natCast, BitVec.ofInt_natCast]

theorem ofInt_disj (x y : Int) :
    BitVec.ofInt 16 (disj x y) = BitVec.ofInt 16 x ||| BitVec.ofInt 16 y := by
  rw [disj, ofInt_complement, ofInt_conj, ofInt_complement, ofInt_complement, BitVec.not_and,
    BitVec.not_not, BitVec.not_not]

end Word

/-! ## Mnemonics -/

namespace Comp

/-- **What a mnemonic asks for**, as an operation on words of sixteen bits: `x`
is the register `D`, and `y` the register `A` or the cell that it points at. -/
def meaning (c : Comp) (x y : BitVec 16) : BitVec 16 :=
  match c with
  | zero => 0
  | one => 1
  | minusOne => -1
  | d => x
  | notD => ~~~x
  | negD => -x
  | dPlusOne => x + 1
  | dMinusOne => x - 1
  | .y _ => y
  | notY _ => ~~~y
  | negY _ => -y
  | yPlusOne _ => y + 1
  | yMinusOne _ => y - 1
  | dPlusY _ => x + y
  | dMinusY _ => x - y
  | yMinusD _ => y - x
  | dAndY _ => x &&& y
  | dOrY _ => x ||| y

/-- The integer that a mnemonic reads as has the bits that it asks for. -/
theorem ofInt_value (c : Comp) (x y : Int) :
    BitVec.ofInt 16 (c.value x y) = c.meaning (BitVec.ofInt 16 x) (BitVec.ofInt 16 y) := by
  cases c with
  | zero | one | minusOne => rfl
  | d | y o => rfl
  | notD | notY o => exact ofInt_complement _
  | negD | negY o => exact BitVec.ofInt_neg
  | dPlusOne | yPlusOne o => exact BitVec.ofInt_add _ _
  | dPlusY o => exact BitVec.ofInt_add _ _
  | dMinusOne | yMinusOne o => exact ofInt_sub _ _
  | dMinusY o | yMinusD o => exact ofInt_sub _ _
  | dAndY o => exact ofInt_conj _ _
  | dOrY o => exact ofInt_disj _ _

/-- **The arithmetic unit does what the mnemonic asks for**, on the last sixteen
bits of integers of any size and either sign. -/
theorem ofInt_apply (c : Comp) (x y : Int) :
    BitVec.ofInt 16 (c.control.apply x y)
      = c.meaning (BitVec.ofInt 16 x) (BitVec.ofInt 16 y) := by
  by_cases h : c.isConjunction = true
  · cases c with
    | dAndY o =>
      rw [apply_dAndY]
      exact ofInt_conj x y
    | _ => cases h
  · rw [apply_eq_wrap (by simpa using h), ofInt_wrap, ofInt_value]

/-- A computation works on the cell when its mnemonic has the letter for it. -/
theorem operand_eq_m (c : Comp) : c.operand = .m ↔ 'M' ∈ c.text.toList := by
  rcases c with _ | _ | _ | _ | _ | _ | _ | _ | (_ | _) | (_ | _) | (_ | _) | (_ | _) | (_ | _) |
    (_ | _) | (_ | _) | (_ | _) | (_ | _) | (_ | _) <;> decide

end Comp

/-! The bits of a destination are its letters. -/

namespace Dest

theorem toM_eq (x : Dest) : x.toM = decide ('M' ∈ x.text.toList) := by cases x <;> decide

theorem toD_eq (x : Dest) : x.toD = decide ('D' ∈ x.text.toList) := by cases x <;> decide

theorem toA_eq (x : Dest) : x.toA = decide ('A' ∈ x.text.toList) := by cases x <;> decide

end Dest

/-! ## Instructions -/

/-- Whether an instruction reads or writes `M`: it has the letter in its
computation or in its destination. -/
def Instruction.NamesCell : Instruction → Prop
  | address _ => False
  | compute dest comp _ => 'M' ∈ comp.text.toList ∨ 'M' ∈ dest.text.toList

instance : DecidablePred Instruction.NamesCell
  | .address _ => inferInstanceAs (Decidable False)
  | .compute _ _ _ => inferInstanceAs (Decidable (_ ∨ _))

theorem Instruction.reaches_iff (ins : Instruction) : ins.Reaches ↔ ins.NamesCell := by
  cases ins with
  | address value => rfl
  | compute dest comp jump =>
    show comp.operand = .m ∨ dest.toM = true ↔ _
    rw [comp.operand_eq_m, dest.toM_eq, decide_eq_true_iff]
    rfl

namespace Machine

variable {m : Machine}

/-- The word that a computation gives. -/
def computed (m : Machine) (comp : Comp) : BitVec 16 :=
  comp.meaning (BitVec.ofInt 16 m.d)
    (BitVec.ofInt 16 (if 'M' ∈ comp.text.toList then m.ram.cell m.a else m.a))

/-- **The machine after an instruction.** The result of a computation goes to the
cell that `A` pointed at, to `D` and to `A`, as the letters of the destination
say, and by its sign the jump is taken to where `A` pointed, or not. Nothing
else changes, and the instruction has been counted. -/
def after (m : Machine) : Instruction → Machine
  | .address value => { m with a := value, pc := m.pc + 1, steps := m.steps + 1 }
  | .compute dest comp jump =>
    let r := m.computed comp
    { m with
      ram := if 'M' ∈ dest.text.toList then m.ram.store m.a r.toNat else m.ram
      d := if 'D' ∈ dest.text.toList then r.toNat else m.d
      a := if 'A' ∈ dest.text.toList then r.toNat else m.a
      pc := if jump.holds r.toInt then m.a else m.pc + 1
      steps := m.steps + 1 }

/-- A computation gives the bits of the integer that its mnemonic reads as. -/
theorem computed_eq (m : Machine) (comp : Comp) :
    m.computed comp
      = BitVec.ofInt 16 (comp.value m.d (Line.secondOperand m.data comp.operand)) := by
  have hoperand : Line.secondOperand m.data comp.operand
      = if 'M' ∈ comp.text.toList then m.ram.cell m.a else m.a := by
    by_cases h : 'M' ∈ comp.text.toList
    · rw [if_pos h, comp.operand_eq_m.mpr h]
      rfl
    · cases hop : comp.operand with
      | a =>
        rw [if_neg h]
        rfl
      | m => exact absurd (comp.operand_eq_m.mp hop) h
  rw [computed, ← hoperand, ← Comp.ofInt_value]

theorem after_eq_effect (m : Machine) (ins : Instruction) : m.after ins = ins.effect m := by
  cases ins with
  | address value => rfl
  | compute dest comp jump =>
    have hsigned (x : Int) : signed (wrap x) = signed x := by rw [signed, signed, wrap_wrap]
    simp only [after, Instruction.effect, Instruction.result, computed_eq, toNat_ofInt, toInt_ofInt,
      dest.toM_eq, dest.toD_eq, dest.toA_eq, decide_eq_true_iff, hsigned]
    rfl

/-- **A step implements the instruction set.** Let the registers and the cells
hold words, and the program counter point at an instruction. If this names `M`
while `A` is behind the last cell, the step ends with an error and has left all
as it was, but for the count of instructions; else it leads to the machine
after the instruction. And what the arithmetic unit computes for a mnemonic has
the last sixteen bits that the mnemonic asks for, whatever integers it is
given. -/
theorem step_implements (hpc : 0 ≤ m.pc ∧ m.pc < m.rom.size) (ha : IsWord m.a) (hd : IsWord m.d)
    (hram : m.ram.Words) :
    (∃ ins, m.rom[m.pc.toNat]? = some ins ∧
      m.step = if ins.NamesCell ∧ 32768 ≤ m.a
        then .error ⟨ins.failure, { m with steps := m.steps + 1 }⟩
        else .ok (m.after ins)) ∧
    ∀ (c : Comp) (x y : Int), BitVec.ofInt 16 ((Control.ofBits c.bits).apply x y)
      = c.meaning (BitVec.ofInt 16 x) (BitVec.ofInt 16 y) := by
  have hi : m.pc.toNat < m.rom.size := by omega
  have hrom : m.rom[m.pc.toNat]? = some m.rom[m.pc.toNat] := Array.getElem?_eq_getElem hi
  have hfetch : m.fetch? = some m.rom[m.pc.toNat] := (fetch?_eq hpc.1).trans hrom
  refine ⟨⟨_, hrom, ?_⟩, Comp.ofInt_apply⟩
  -- the cell is there just when `A` is not behind the last one
  have hcell : (m.rom[m.pc.toNat].Reaches → IsCell m.a)
      ↔ ¬(m.rom[m.pc.toNat].NamesCell ∧ 32768 ≤ m.a) := by
    rw [Instruction.reaches_iff, not_and, not_le]
    exact imp_congr_right fun _ => and_iff_right ha.1
  rw [step_eq ⟨ha, hd, hram⟩ hfetch, if_congr hcell rfl rfl, ite_not, after_eq_effect]

end Machine

/-! ## A sample -/

namespace Sample

/-- A machine with one instruction, which has all three destinations and a
jump. -/
def difference (a : Int) : Machine where
  rom := #[.compute .amd (.dMinusY .m) .lt]
  symbols := .predefined
  a := a
  d := 1
  ram := Memory.empty.store 300 32768

theorem words_difference (a : Int) : (difference a).ram.Words := by
  have h : IsWord 32768 := by decide
  exact Memory.words_empty.store 300 h

end Sample

/-- The result, 1 - 32768, is negative as a word, and the jump goes to the old
`A`. With an `A` that has no cell there is no step. -/
theorem Machine.step_implements_sample :
    (∃ m₀, Machine.load ["AMD=D-M;JLT"] = .ok m₀ ∧ m₀.rom = (Sample.difference 300).rom) ∧
    (∃ m', (Sample.difference 300).step = .ok m' ∧ m'.a = 32769 ∧ m'.d = 32769 ∧
      m'.ram.cell 300 = 32769 ∧ m'.pc = 300 ∧ m'.steps = 1) ∧
    (Sample.difference 40000).step
      = .error ⟨.read, { Sample.difference 40000 with steps := 1 }⟩ := by
  have hload : (Machine.load ["AMD=D-M;JLT"]).toOption.any
      (fun m₀ => decide (m₀.rom = (Sample.difference 300).rom)) = true := by decide +kernel
  obtain ⟨m₀, hm₀, hrom⟩ := Loading.exists_load hload
  refine ⟨⟨m₀, hm₀, of_decide_eq_true hrom⟩, ?_, ?_⟩
  · obtain ⟨⟨ins, hins, hstep⟩, -⟩ := step_implements (m := Sample.difference 300) (by decide)
      (by decide) (by decide) (Sample.words_difference 300)
    obtain rfl : Instruction.compute .amd (.dMinusY .m) .lt = ins := Option.some.inj hins
    have hcell : IsCell 300 := by decide
    have hresult : (Sample.difference 300).computed (.dMinusY .m) = 32769#16 := by
      show BitVec.ofInt 16 1 - BitVec.ofInt 16 ((Memory.empty.store 300 32768).cell 300) = _
      rw [Memory.cell_store_self _ hcell]
      decide
    rw [if_neg (by decide)] at hstep
    refine ⟨_, hstep, ?_⟩
    simp only [after, hresult]
    exact ⟨by decide, by decide, Memory.cell_store_self _ hcell _, by decide, rfl⟩
  · obtain ⟨⟨ins, hins, hstep⟩, -⟩ := step_implements (m := Sample.difference 40000) (by decide)
      (by decide) (by decide) (Sample.words_difference 40000)
    obtain rfl : Instruction.compute .amd (.dMinusY .m) .lt = ins := Option.some.inj hins
    rw [if_pos (by decide)] at hstep
    exact hstep

end HackStack
