import HackStack.Proofs.StackEffects

/-!
# Comparisons by the sign of a difference

The code of a comparison takes the difference of its operands and looks at
its sign. The difference is a word, and its sign is that of the true
difference as long as this is a number of sixteen bits in two's complement
(`Comparison.Fits`). Beyond that the sign is the other one, and both orders
come out the wrong way round: `lt` finds that -32768 is not less than 1.
Equality looks at no sign and is always right.

`Comparison.eval_eq` says this of two words, and
`Emitter.comparison_by_difference` of the block in any program.
-/

namespace HackStack

open Word

/-! ## Differences -/

namespace Word

theorem signed_bounds (x : Int) : -32768 ≤ signed x ∧ signed x ≤ 32767 := by
  obtain ⟨hlo, hhi⟩ := isWord_wrap x
  unfold signed modulus
  split <;> omega

theorem signed_emod (x : Int) : signed x % 65536 = x % 65536 := by
  unfold signed modulus
  rw [wrap_eq_emod]
  split <;> omega

/-- The value of a word in two's complement is the only number of sixteen bits
that is congruent to it. -/
theorem signed_eq {x z : Int} (hlo : -32768 ≤ z) (hhi : z ≤ 32767) (h : z % 65536 = x % 65536) :
    signed x = z := by
  have hbounds := signed_bounds x
  have hmod := signed_emod x
  omega

/-- **The difference of two words**, as a word in two's complement: the true
difference, or where this is too great or too small, one turn less or more. -/
theorem signed_sub (x y : Int) :
    signed (wrap (x - y)) = if 32767 < signed x - signed y then signed x - signed y - 65536
      else if signed x - signed y < -32768 then signed x - signed y + 65536
      else signed x - signed y := by
  have hx := signed_bounds x
  have hy := signed_bounds y
  have hmod : (signed x - signed y) % 65536 = wrap (x - y) % 65536 := by
    have hx' := signed_emod x
    have hy' := signed_emod y
    rw [wrap_eq_emod]
    omega
  split
  · exact signed_eq (by omega) (by omega) (by omega)
  · split
    · exact signed_eq (by omega) (by omega) (by omega)
    · exact signed_eq (by omega) (by omega) hmod

end Word

namespace Comparison

/-- What a comparison says of two words, as numbers in two's complement. -/
def Says : Comparison → Int → Int → Prop
  | .eq, x, y => signed x = signed y
  | .gt, x, y => signed x > signed y
  | .lt, x, y => signed x < signed y

instance (x y : Int) : (op : Comparison) → Decidable (op.Says x y)
  | .eq => inferInstanceAs (Decidable (_ = _))
  | .gt => inferInstanceAs (Decidable (_ > _))
  | .lt => inferInstanceAs (Decidable (_ < _))

/-- Whether a comparison can be told by the sign of a difference of sixteen
bits. -/
def Fits : Comparison → Int → Int → Prop
  | .eq, _, _ => True
  | .gt, x, y | .lt, x, y => -32768 ≤ signed x - signed y ∧ signed x - signed y ≤ 32767

instance (x y : Int) : (op : Comparison) → Decidable (op.Fits x y)
  | .eq => inferInstanceAs (Decidable True)
  | .gt | .lt => inferInstanceAs (Decidable (_ ∧ _))

/-- The sign of a difference answers right where the difference fits, and only
there. -/
theorem holds_sub (op : Comparison) (x y : Int) :
    op.holds (signed (wrap (x - y))) = true ↔ (op.Fits x y ↔ op.Says x y) := by
  have hx := signed_bounds x
  have hy := signed_bounds y
  rw [signed_sub]
  split
  next hgt => cases op <;> simp only [holds, Fits, Says, decide_eq_true_eq, true_iff] <;> omega
  next =>
    split
    next hlt => cases op <;> simp only [holds, Fits, Says, decide_eq_true_eq, true_iff] <;> omega
    next => cases op <;> simp only [holds, Fits, Says, decide_eq_true_eq, true_iff] <;> omega

/-- **The outcome of a comparison of words** is right where their difference fits,
and the opposite of what is right elsewhere. -/
theorem eval_eq (op : Comparison) (x y : Int) :
    op.eval x y = if op.Fits x y then (if op.Says x y then 65535 else 0)
      else (if op.Says x y then 0 else 65535) := by
  have hiff := op.holds_sub x y
  unfold eval
  by_cases hfits : op.Fits x y <;> by_cases hsays : op.Says x y <;>
    simp [hiff, hfits, hsays]

end Comparison

/-! ## The block -/

namespace Emitter

open Machine

section

variable {e : Emitter} {op : Comparison} {m₀ m : Machine} {p : Nat} {block : List Line}
  {s x y : Int}
  (h : m.AtBlock e (.arithmetic (.comparison op)) m₀ p block) (hname : e.regs.sp = "SP")
  (hs : m.ram.cell 0 = s) (hlo : 258 ≤ s) (hhi : s ≤ 32767) (hx : m.ram.cell (s - 2) = x)
  (hy : m.ram.cell (s - 1) = y)

include h hname hs hlo hhi hx hy

theorem arrives_comparison :
    m.Arrives p block ⟨(p + Line.size block : Nat),
      (m.ram.store 0 (s - 1)).store (s - 2) (op.eval x y)⟩ := by
  have hsp : m₀.symbols.value e.regs.sp = 0 := by
    rw [hname]
    exact h.embeds.predefined "SP" 0 (by decide +kernel) (by decide)
  have hcell : ((e.regs.cells m₀.symbols.value).sp : Int) = 0 := by exact_mod_cast hsp
  have htop {n : Nat} {t : Int} (ht : s - n = t) (h₀ : 256 ≤ t) :
      m.ram.fromTop (e.regs.cells m₀.symbols.value) n = t ∧
        (e.regs.cells m₀.symbols.value).OffPointer t := by
    unfold Memory.fromTop Cells.OffPointer
    rw [hcell, hs, ht]
    exact ⟨IsWord.wrap_eq ⟨by omega, by omega⟩, ⟨by omega, by omega⟩, by omega⟩
  obtain ⟨htop₁, hoff₁⟩ := htop (n := 1) (t := s - 1) rfl (by omega)
  obtain ⟨htop₂, hoff₂⟩ := htop (n := 2) (t := s - 2) rfl (by omega)
  have hready : (Command.arithmetic (.comparison op)).StackReady (e.regs.cells m₀.symbols.value)
      (e.site m₀.symbols.value (p + Line.size block)) m.ram :=
    ⟨htop₁.symm ▸ hoff₁, htop₂.symm ▸ hoff₂⟩
  have harrives := arrives_operator h (by rw [hsp]; decide) hready
  rwa [Command.stackEffect, htop₁, htop₂, hcell, hx, hy] at harrives

/-- **The block of a comparison compares by the sign of a difference.** With the
stack pointer at its usual place and from 258 to 32767, in any program and
with any number of comparisons before, the two words on top of the stack are
replaced by the outcome, -1 or 0 as a word. Where their difference in two's
complement has sixteen bits, and always for `eq`, this is the signed comparison
of the words; otherwise it is just the opposite. -/
theorem comparison_by_difference :
    m.Arrives p block ⟨(p + Line.size block : Nat), (m.ram.store 0 (s - 1)).store (s - 2)
      (if op.Fits x y then (if op.Says x y then 65535 else 0)
        else (if op.Says x y then 0 else 65535))⟩ := by
  rw [← Comparison.eval_eq]
  exact arrives_comparison h hname hs hlo hhi hx hy

end

end Emitter

/-! ## Samples -/

namespace Sample

/-- An emitter that has seen seven comparisons. -/
def comparer : Emitter where
  program := none
  functionName := none
  staticScope := none
  comparisons := 7

/-- Two words at the bottom of the stack. -/
def twoWords (x y : Int) : Memory := ((Memory.empty.store 0 258).store 256 x).store 257 y

theorem cell_twoWords (x y : Int) : (twoWords x y).cell 0 = 258 ∧
    (twoWords x y).cell (258 - 2) = x ∧ (twoWords x y).cell (258 - 1) = y := by
  unfold twoWords
  refine ⟨?_, ?_, Memory.cell_store_self _ (by decide) _⟩
  · rw [Memory.cell_store_of_ne _ (by decide), Memory.cell_store_of_ne _ (by decide),
      Memory.cell_store_self _ (by decide)]
  · rw [Memory.cell_store_of_ne _ (by decide)]
    exact Memory.cell_store_self _ (by decide) _

/-- A machine at a comparison of two words. -/
theorem exists_comparer (op : Comparison) {x y : Int} (hx : IsWord x) (hy : IsWord y) :
    ∃ m₀ m : Machine, m.AtBlock comparer (.arithmetic (.comparison op)) m₀ 0
      (comparer.operatorCode (.comparison op)) ∧ m.ram = twoWords x y := by
  have hload : (Machine.load ([] ++ (comparer.operatorCode (.comparison op)).map Line.text
      ++ [])).toOption.any (fun _ => true) = true := by cases op <;> decide +kernel
  obtain ⟨m₀, hm₀, -⟩ := Loading.exists_load hload
  have hsp : IsWord 258 := by decide
  have hcheck : (Draft.arithmetic (Operator.comparison op).name).check
      = .ok (.arithmetic (.comparison op)) := by rw [Draft.check, Operator.ofName?_name]
  exact ⟨m₀, _, .of_load hcheck rfl hm₀
    (((Memory.words_empty.store 0 hsp).store 256 hx).store 257 hy), rfl⟩

end Sample

namespace Emitter

/-- 5 is greater than -1. -/
theorem comparison_by_difference_sample : ∃ m₀ m : Machine,
    m.AtBlock Sample.comparer (.arithmetic (.comparison .gt)) m₀ 0
      (Sample.comparer.operatorCode (.comparison .gt)) ∧ m.ram = Sample.twoWords 5 65535 ∧
    m.Arrives 0 (Sample.comparer.operatorCode (.comparison .gt))
      ⟨22, (m.ram.store 0 257).store 256 65535⟩ := by
  obtain ⟨m₀, m, hat, hram⟩ :=
    Sample.exists_comparer .gt (x := 5) (y := 65535) (by decide) (by decide)
  obtain ⟨hs, hx, hy⟩ := Sample.cell_twoWords 5 65535
  rw [← hram] at hs hx hy
  exact ⟨m₀, m, hat, hram, comparison_by_difference hat rfl hs (by decide) (by decide) hx hy⟩

/-- **Where the difference does not fit, a comparison is wrong**: -32768 is
less than 1, and the block of `lt` leaves 0 and not -1. -/
theorem comparison_overflows : ∃ m₀ m : Machine,
    m.AtBlock Sample.comparer (.arithmetic (.comparison .lt)) m₀ 0
      (Sample.comparer.operatorCode (.comparison .lt)) ∧
    m.ram = Sample.twoWords 32768 1 ∧ signed 32768 < signed 1 ∧
    m.Arrives 0 (Sample.comparer.operatorCode (.comparison .lt))
      ⟨22, (m.ram.store 0 257).store 256 0⟩ := by
  obtain ⟨m₀, m, hat, hram⟩ :=
    Sample.exists_comparer .lt (x := 32768) (y := 1) (by decide) (by decide)
  obtain ⟨hs, hx, hy⟩ := Sample.cell_twoWords 32768 1
  rw [← hram] at hs hx hy
  exact ⟨m₀, m, hat, hram, by decide, arrives_comparison hat rfl hs (by decide) (by decide) hx hy⟩

end Emitter

end HackStack
