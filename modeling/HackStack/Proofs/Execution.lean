import HackStack.Proofs.Frames

/-!
# Generated code does what its command means

The code of a command, lying in a program from some address on, is run by
the machine from that address. This module puts the straight-line parts of
the code together with its jumps and proves, for each of the nine kinds of
command, that the machine comes out with the memory and the program counter
that the command's meaning asks for (`Emitter.executes`). On its way the
machine stays inside the code.

What is left open is where labels and variables lie. The values of symbols
are any function `v` under which numerals and numbered registers are
themselves, the cells of the calling convention can be told apart, and the
labels of the code have the addresses where they stand.
-/

namespace HackStack

open Word

variable {v : String → Nat}

/-! ## Ways through code -/

namespace Machine

/-- The machine at another address, with other data and another count of steps. -/
def place (m : Machine) (q : Int) (s : Data) (t : Nat) : Machine :=
  { m with pc := q, a := s.a, d := s.d, ram := s.ram, steps := t }

theorem rom_place (m : Machine) (q : Int) (s : Data) (t : Nat) : (m.place q s t).rom = m.rom := rfl

/-- **The program of `m` leads from one address and data to another** in `n`
steps, through addresses strictly between `lo` and `hi`. -/
def Leads (m : Machine) (lo hi : Int) (n : Nat) (q : Int) (s : Data) (q' : Int) (s' : Data) :
    Prop := ∀ t, Passage lo hi n (m.place q s t) (m.place q' s' (t + n))

variable {m : Machine} {p : Nat} {ls : List Line} {lo hi : Int} {s s' : Data}

theorem Leads.trans {n k : Nat} {q q₁ q' : Int} {s₁ : Data} (h₁ : m.Leads lo hi n q s q₁ s₁)
    (h₂ : m.Leads lo hi k q₁ s₁ q' s') (hmeet : lo < q₁ ∧ q₁ < hi) :
    m.Leads lo hi (n + k) q s q' s' := fun t => by
  rw [← Nat.add_assoc]
  exact (h₁ t).trans (h₂ (t + n)) fun _ _ => hmeet

theorem Leads.single {q q' : Int}
    (h : ∀ t, (m.place q s t).step = .ok (m.place q' s' (t + 1))) :
    m.Leads lo hi 1 q s q' s' := fun t => Passage.single (h t)

/-- Lines without a jump lead straight on. -/
theorem HasLines.leads (h : m.HasLines v p ls) (hs : ls.all Line.isStraight = true)
    (hr : runLines v ls s = some s') (hlo : lo ≤ p) (hhi : (p + Line.size ls : Nat) ≤ hi) :
    m.Leads lo hi (Line.size ls) p s (p + Line.size ls : Nat) s' := fun t =>
  HasLines.passage (show (m.place p s t).HasLines v p ls from h) rfl hs hr hlo hhi

/-- A computation that is only looked at by its jump. -/
theorem HasLines.step_branch {c : Comp} {j : Jump} (h : m.HasLines v p (.branch c j :: ls))
    (hc : c.operand = .a) (t : Nat) :
    (m.place p s t).step
      = .ok (m.place (if j.takenOn (c.control.apply s.d s.a) then s.a else p + 1) s (t + 1)) := by
  have hf := HasLines.fetch? (show (m.place p s t).HasLines v p _ from h) rfl rfl
  have hreach : ¬ (c.operand = .m ∨ Dest.none.toM = true) := by
    rw [hc]
    decide
  rw [step_compute hf (fun hr => absurd hr hreach) rfl, hc]
  rfl

/-- The jump that is always taken. -/
theorem HasLines.leads_always (h : m.HasLines v p (Line.branch .zero .always :: ls)) :
    m.Leads lo hi 1 p s s.a s := Leads.single fun t => by
  have hzero : Comp.zero.control.apply s.d s.a = 0 := Comp.apply_eq_wrap rfl _ _
  have htaken : Jump.always.takenOn 0 = true := by decide
  rw [h.step_branch rfl t, hzero, if_pos htaken]

/-- A jump on a word in `D`. -/
theorem HasLines.leads_branch {j : Jump} (h : m.HasLines v p (.branch .d j :: ls))
    (hd : IsWord s.d) :
    m.Leads lo hi 1 p s (if j.holds (signed s.d) then s.a else (p + 1 : Nat)) s :=
  Leads.single fun t => by
    have hval : Comp.d.control.apply s.d s.a = s.d := by
      rw [Comp.apply_eq_wrap rfl]
      exact hd.wrap_eq
    rw [h.step_branch rfl t, hval, Jump.takenOn_eq j hd, Int.natCast_add, Int.natCast_one]

/-! ## Outcomes -/

/-- **The machine has come to an outcome**: its program counter and its memory,
some cells apart, are as asked for, and it is still the same program. -/
structure Ends (cells : List Int) (o : Outcome) (m m' : Machine) : Prop where
  rom : m'.rom = m.rom
  symbols : m'.symbols = m.symbols
  pc : m'.pc = o.pc
  ram : Memory.AgreeOutside cells m'.ram o.ram
  words : m'.ram.Words

/-- Code is carried out in `n` steps: a machine at its start passes through it
and comes to an outcome. -/
def ExecutesIn (m : Machine) (n : Nat) (cells : List Int) (p : Nat) (code : List Line)
    (o : Outcome) : Prop := ∃ m', Passage p (p + Line.size code : Nat) n m m' ∧ Ends cells o m m'

/-- **Code is carried out.** Only code without instructions takes no step. -/
def Executes (m : Machine) (cells : List Int) (p : Nat) (code : List Line) (o : Outcome) : Prop :=
  ∃ n, (Line.size code = 0 ∨ 0 < n) ∧ m.ExecutesIn n cells p code o

variable {cells : List Int} {code : List Line} {o : Outcome}

/-- Memory may be asked for up to the cells that are left open. -/
theorem ExecutesIn.agree {n : Nat} {q : Int} {ram ram' : Memory}
    (h : m.ExecutesIn n cells p code ⟨q, ram⟩) (hram : Memory.AgreeOutside cells ram ram') :
    m.ExecutesIn n cells p code ⟨q, ram'⟩ :=
  let ⟨m', hpass, hends⟩ := h
  ⟨m', hpass, hends.rom, hends.symbols, hends.pc, hends.ram.trans hram, hends.words⟩

theorem Leads.executesIn {n size : Nat} (h : m.Leads p (p + size : Nat) n p m.data o.pc s)
    (hsize : Line.size code = size) (hpc : m.pc = p)
    (hram : Memory.AgreeOutside cells s.ram o.ram) (hwords : s.ram.Words) :
    m.ExecutesIn n cells p code o := by
  subst hsize
  have hm : m.place p m.data m.steps = m := by
    rw [← hpc]
    rfl
  have hpass := h m.steps
  rw [hm] at hpass
  exact ⟨_, hpass, rfl, rfl, rfl, hram, hwords⟩

theorem Leads.executes {n size : Nat} (h : m.Leads p (p + size : Nat) n p m.data o.pc s)
    (hsize : Line.size code = size) (hpc : m.pc = p) (hn : size = 0 ∨ 0 < n)
    (hram : Memory.AgreeOutside cells s.ram o.ram) (hwords : s.ram.Words) :
    m.Executes cells p code o :=
  ⟨n, hsize ▸ hn, h.executesIn hsize hpc hram hwords⟩

/-- Straight-line code is carried out to its end. -/
theorem HasLines.executes_straight {ram : Memory} (h : m.HasLines v p code) (hpc : m.pc = p)
    (hs : code.all Line.isStraight = true) (hr : runLines v code m.data = some s)
    (hram : Memory.AgreeOutside cells s.ram ram) (hwords : s.ram.Words) :
    m.Executes cells p code ⟨(p + Line.size code : Nat), ram⟩ :=
  (h.leads hs hr le_rfl le_rfl).executes rfl hpc (by omega) hram hwords

/-- Straight-line code and a jump at its end, which goes to where the code has
put `A`; labels behind it do not matter. -/
theorem HasLines.executesIn_jump {ks : List Line} {ram : Memory}
    (h : m.HasLines v p (code ++ Line.branch .zero .always :: ks)) (hpc : m.pc = p)
    (hs : code.all Line.isStraight = true) (hr : runLines v code m.data = some s)
    (hram : Memory.AgreeOutside cells s.ram ram) (hwords : s.ram.Words)
    (hks : Line.size ks = 0) (hsize : 0 < Line.size code) :
    m.ExecutesIn (Line.size code + 1) cells p (code ++ Line.branch .zero .always :: ks)
      ⟨s.a, ram⟩ := by
  have htotal : Line.size (code ++ Line.branch .zero .always :: ks) = Line.size code + 1 := by
    rw [Line.size_append, Line.branch, Line.size_cons_compute, hks]
  exact ((h.append_left.leads hs hr le_rfl (by omega)).trans h.append_right.leads_always
    (by omega)).executesIn htotal hpc hram hwords

end Machine

/-! ## Places -/

/-- What a place offers, when labels and variables have the values `v`. -/
def Emitter.site (e : Emitter) (v : String → Nat) (next : Nat) : Site where
  next := next
  static index := v (e.staticSymbol index)
  label target := v (e.qualify target)
  function := v

/-- Labels of code that have the addresses where they stand. -/
def LabelsAt (v : String → Nat) (p : Nat) (code : List Line) : Prop :=
  ∀ pre name post, code = pre ++ Line.label name :: post → v name = p + Line.size pre

/-- Whether the numbers that the code of a command loads have fifteen bits. -/
def Command.Loads : Command → Prop
  | .push segment index | .pop segment index => segment.Loads index
  | .call _ args => args < 32768
  | _ => True

/-- The number that the code of a command loads, if nothing has bounded it. -/
def Command.loaded? : Command → Option Nat
  | .push (.indirect _) index | .pop (.indirect _) index => some index
  | .call _ args => some args
  | _ => none

theorem Command.loads_iff {c : Command} : c.Loads ↔ ∀ n, c.loaded? = some n → n < 32768 := by
  cases c with
  | push segment index | pop segment index =>
    cases segment <;> simp [Loads, loaded?, Segment.Loads]
  | call name args => simp [Loads, loaded?]
  | _ => simp [Loads, loaded?]

/-- Whether a command reaches for a cell of a segment that is there. -/
def Command.Reaches (k : Cells) (site : Site) (m : Memory) : Command → Prop
  | .push segment index => segment ≠ .constant → IsCell (segment.address k site m index)
  | .pop segment index => IsCell (segment.address k site m index)
  | _ => True

/-! ## Comparisons -/

namespace Emitter

/-- The part of a comparison before its first jump. -/
def compareLoad (n : Nat) : List Line := [.set .d (.yMinusD .m), .address (trueLabel n)]

def compareSetup (sp : String) (n : Nat) : List Line :=
  Block.popD sp ++ Block.shrink sp ++ Block.toStack sp ++ compareLoad n

/-- The part of a comparison that does not hold, before its jump to the end. -/
def settleFalse (sp : String) (n : Nat) : List Line :=
  Block.toStack sp ++ [.set .m .zero, .address (falseLabel n)]

/-- The end of a comparison. -/
def growFalse (sp : String) (n : Nat) : List Line := .label (falseLabel n) :: Block.grow sp

/-- The part of a comparison that holds. -/
def settleTrue (sp : String) (n : Nat) : List Line :=
  .label (trueLabel n) :: Block.toStack sp ++ [.set .m .minusOne]

theorem comparisonCode_eq (sp : String) (n : Nat) (op : Comparison) :
    comparisonCode sp n op ++ Block.grow sp
      = compareSetup sp n ++ (Line.branch .d (comparisonJump op) ::
        (settleFalse sp n ++ (Line.branch .zero .always :: (settleTrue sp n ++ growFalse sp n)))) :=
  rfl

section Comparison

variable {m : Memory} {a d : Int} {r : RegisterFile} {n : Nat} (hsp : IsCell (v r.sp))
  (hm : m.Words)

include hsp hm

/-- The difference of the operands is in `D`, and both are off the stack. -/
theorem runLines_compareSetup (h₁ : (r.cells v).OffPointer (m.fromTop (r.cells v) 1))
    (h₂ : (r.cells v).OffPointer (m.fromTop (r.cells v) 2)) :
    runLines v (compareSetup r.sp n) ⟨a, d, m⟩
      = some ⟨v (trueLabel n), wrap (m.cell (m.fromTop (r.cells v) 2)
          - m.cell (m.fromTop (r.cells v) 1)), (m.drop (r.cells v)).drop (r.cells v)⟩ := by
  rw [compareSetup, runLines_append, runLines_popTwo hsp hm h₁.1 h₁.2,
    Option.bind_some, compareLoad, runLines_set_d _ rfl (fun _ => h₂.1), runLines_address,
    runLines_nil]
  simp only [Comp.value, Comp.operand, Line.secondOperand]
  rw [Memory.cell_drop h₂.2, Memory.cell_drop h₂.2]

/-- The stack pointer, two words down, points at the place of the outcome. -/
theorem runLines_toStack_drop :
    runLines v (Block.toStack r.sp) ⟨a, d, (m.drop (r.cells v)).drop (r.cells v)⟩
      = some ⟨m.fromTop (r.cells v) 2, d, (m.drop (r.cells v)).drop (r.cells v)⟩ := by
  rw [runLines_toStack hsp hm.drop.drop, Memory.cell_sp_drop hsp, Memory.fromTop_drop hsp]

theorem runLines_settleFalse (h₂ : IsCell (m.fromTop (r.cells v) 2)) :
    runLines v (settleFalse r.sp n) ⟨a, d, (m.drop (r.cells v)).drop (r.cells v)⟩
      = some ⟨v (falseLabel n), d,
          ((m.drop (r.cells v)).drop (r.cells v)).store (m.fromTop (r.cells v) 2) 0⟩ := by
  rw [settleFalse, runLines_append, runLines_toStack_drop hsp hm, Option.bind_some,
    runLines_set_m _ rfl h₂, runLines_address, runLines_nil]
  rfl

theorem runLines_settleTrue (h₂ : IsCell (m.fromTop (r.cells v) 2)) :
    runLines v (settleTrue r.sp n) ⟨a, d, (m.drop (r.cells v)).drop (r.cells v)⟩
      = some ⟨m.fromTop (r.cells v) 2, d,
          ((m.drop (r.cells v)).drop (r.cells v)).store (m.fromTop (r.cells v) 2) 65535⟩ := by
  rw [settleTrue, List.cons_append, runLines_label, runLines_append,
    runLines_toStack_drop hsp hm, Option.bind_some, runLines_set_m _ rfl h₂, runLines_nil]
  rfl

omit hm in
theorem runLines_growFalse (h₂ : (r.cells v).OffPointer (m.fromTop (r.cells v) 2)) (x : Int) :
    runLines v (growFalse r.sp n)
        ⟨a, d, ((m.drop (r.cells v)).drop (r.cells v)).store (m.fromTop (r.cells v) 2) x⟩
      = some ⟨v r.sp, d, (m.drop (r.cells v)).store (m.fromTop (r.cells v) 2) x⟩ := by
  rw [growFalse, runLines_label]
  exact runLines_grow_drop hsp h₂.2 h₂.1

end Comparison

end Emitter

namespace Machine

variable {m : Machine} {cells : List Int} {p n : Nat} {r : RegisterFile}
  (hsp : IsCell (v r.sp)) (hm : m.ram.Words)

include hsp hm

/-- The two operands are taken off the stack, and the jump looks at their
difference. -/
theorem HasLines.leads_compare {op : Comparison} {ls : List Line} {diff : Int}
    (h : m.HasLines v p
      (Emitter.compareSetup r.sp n ++ Line.branch .d (Emitter.comparisonJump op) :: ls))
    (h₁ : (r.cells v).OffPointer (m.ram.fromTop (r.cells v) 1))
    (h₂ : (r.cells v).OffPointer (m.ram.fromTop (r.cells v) 2))
    (hdiff : wrap (m.ram.cell (m.ram.fromTop (r.cells v) 2)
      - m.ram.cell (m.ram.fromTop (r.cells v) 1)) = diff) :
    m.Leads p (p + 22 : Nat) 12 p m.data
      (if op.holds (signed diff) then (v (Emitter.trueLabel n) : Int) else (p + 12 : Nat))
      ⟨v (Emitter.trueLabel n), diff, (m.ram.drop (r.cells v)).drop (r.cells v)⟩ := by
  subst hdiff
  have hsetup : m.Leads p (p + 22 : Nat) 11 p m.data (p + 11 : Nat) _ := h.append_left.leads rfl
    (Emitter.runLines_compareSetup hsp hm h₁ h₂) le_rfl (by
      show ((p + 11 : Nat) : Int) ≤ _
      omega)
  have hbranch : m.HasLines v (p + 11) _ := h.append_right
  have hholds (x : Int) : (Emitter.comparisonJump op).holds x = op.holds x := by
    cases op <;> rfl
  have hchoice := hsetup.trans (hbranch.leads_branch (isWord_wrap _)) (by omega)
  rw [hholds] at hchoice
  exact hchoice

/-- From the label of a comparison that holds, its outcome is stored. -/
theorem HasLines.leads_settleTrue {q : Nat} {ls : List Line} {a d : Int}
    (h : m.HasLines v q (Emitter.settleTrue r.sp n ++ ls))
    (h₂ : IsCell (m.ram.fromTop (r.cells v) 2)) {lo hi : Int} (hlo : lo ≤ q)
    (hhi : (q + 3 : Nat) ≤ hi) :
    m.Leads lo hi 3 q ⟨a, d, (m.ram.drop (r.cells v)).drop (r.cells v)⟩ (q + 3 : Nat)
      ⟨m.ram.fromTop (r.cells v) 2, d,
        ((m.ram.drop (r.cells v)).drop (r.cells v)).store (m.ram.fromTop (r.cells v) 2) 65535⟩ :=
  h.append_left.leads rfl (Emitter.runLines_settleTrue hsp hm h₂) hlo hhi

/-- Behind the jump of a comparison that does not hold, its outcome is stored
and the other one jumped over. -/
theorem HasLines.leads_settleFalse {q : Nat} {ls : List Line} {a d : Int}
    (h : m.HasLines v q (Emitter.settleFalse r.sp n ++ Line.branch .zero .always :: ls))
    (h₂ : IsCell (m.ram.fromTop (r.cells v) 2)) {lo hi : Int} (hlo : lo ≤ q)
    (hhi : (q + 5 : Nat) ≤ hi) :
    m.Leads lo hi 5 q ⟨a, d, (m.ram.drop (r.cells v)).drop (r.cells v)⟩ (v (Emitter.falseLabel n))
      ⟨v (Emitter.falseLabel n), d,
        ((m.ram.drop (r.cells v)).drop (r.cells v)).store (m.ram.fromTop (r.cells v) 2) 0⟩ := by
  have hsettle : m.Leads lo hi 4 q ⟨a, d, _⟩ (q + 4 : Nat) _ :=
    h.append_left.leads rfl (Emitter.runLines_settleFalse hsp hm h₂) hlo (by
      show ((q + 4 : Nat) : Int) ≤ _
      omega)
  have hjump : m.HasLines v (q + 4) (Line.branch .zero .always :: ls) := h.append_right
  exact hsettle.trans hjump.leads_always (by omega)

/-- **The code of a comparison is carried out**, by one of two ways through it. -/
theorem HasLines.executes_comparison (op : Comparison)
    (h : m.HasLines v p (Emitter.comparisonCode r.sp n op ++ Block.grow r.sp)) (hpc : m.pc = p)
    (hlabels : LabelsAt v p (Emitter.comparisonCode r.sp n op ++ Block.grow r.sp))
    (h₁ : (r.cells v).OffPointer (m.ram.fromTop (r.cells v) 1))
    (h₂ : (r.cells v).OffPointer (m.ram.fromTop (r.cells v) 2)) :
    m.Executes cells p (Emitter.comparisonCode r.sp n op ++ Block.grow r.sp)
      ⟨(p + 22 : Nat), (m.ram.drop (r.cells v)).store (m.ram.fromTop (r.cells v) 2)
        (op.eval (m.ram.cell (m.ram.fromTop (r.cells v) 2))
          (m.ram.cell (m.ram.fromTop (r.cells v) 1)))⟩ := by
  have htrue : v (Emitter.trueLabel n) = p + 17 := hlabels
    (Emitter.compareSetup r.sp n ++ (Line.branch .d (Emitter.comparisonJump op) ::
      (Emitter.settleFalse r.sp n ++ [Line.branch .zero .always]))) _ _ rfl
  have hfalse : v (Emitter.falseLabel n) = p + 20 := hlabels
    (Emitter.compareSetup r.sp n ++ (Line.branch .d (Emitter.comparisonJump op) ::
      (Emitter.settleFalse r.sp n ++ (Line.branch .zero .always :: Emitter.settleTrue r.sp n))))
    _ _ rfl
  have hsize : Line.size (Emitter.comparisonCode r.sp n op ++ Block.grow r.sp) = 22 := rfl
  -- where the parts lie
  rw [Emitter.comparisonCode_eq] at h
  have hfirst : m.HasLines v (p + 12) (Emitter.settleFalse r.sp n ++ _) :=
    (show m.HasLines v (p + 11) _ from h.append_right).tail rfl
  have hsecond : m.HasLines v (p + 17) (Emitter.settleTrue r.sp n ++ Emitter.growFalse r.sp n) :=
    (show m.HasLines v (p + 16) _ from hfirst.append_right).tail rfl
  have hlast : m.HasLines v (p + 20) (Emitter.growFalse r.sp n) := hsecond.append_right
  have hchoice := h.leads_compare hsp hm h₁ h₂ rfl
  have hgrow (x a d : Int) : m.Leads p (p + 22 : Nat) 2 (p + 20 : Nat) ⟨a, d, _⟩ (p + 22 : Nat) _ :=
    hlast.leads rfl (Emitter.runLines_growFalse hsp h₂ x) (by omega) le_rfl
  unfold Comparison.eval
  split
  next hc =>
    rw [if_pos hc, htrue] at hchoice
    have hway :=
      hchoice.trans (hsecond.leads_settleTrue hsp hm h₂.1 (by omega) (by omega)) (by omega)
    exact (hway.trans (hgrow 65535 _ _) (by omega)).executes
      hsize hpc (.inr (by decide)) (Memory.AgreeOutside.refl _ _) (hm.drop.store _ (by decide))
  next hc =>
    rw [if_neg hc] at hchoice
    have hway :=
      hchoice.trans (hfirst.leads_settleFalse hsp hm h₂.1 (by omega) (by omega)) (by omega)
    rw [hfalse] at hway
    exact (hway.trans (hgrow 0 _ _) (by omega)).executes
      hsize hpc (.inr (by decide)) (Memory.AgreeOutside.refl _ _) (hm.drop.store _ (by decide))

/-- **The code of a conditional jump is carried out.** -/
theorem HasLines.executes_ifGoto {target : String}
    (h : m.HasLines v p (Block.popD r.sp ++ [Line.address target, Line.branch .d .ne]))
    (hpc : m.pc = p) (h₁ : (r.cells v).OffPointer (m.ram.fromTop (r.cells v) 1)) :
    m.Executes cells p (Block.popD r.sp ++ [Line.address target, Line.branch .d .ne])
      ⟨if m.ram.cell (m.ram.fromTop (r.cells v) 1) = 0 then (p + 7 : Nat) else v target,
        m.ram.drop (r.cells v)⟩ := by
  set x := m.ram.cell (m.ram.fromTop (r.cells v) 1) with hx
  have hsplit :
      m.HasLines v p ((Block.popD r.sp ++ [Line.address target]) ++ [Line.branch .d .ne]) := h
  have hrun : runLines v (Block.popD r.sp ++ [Line.address target]) m.data
      = some ⟨v target, x, m.ram.drop (r.cells v)⟩ := by
    rw [runLines_append, data, runLines_popD hsp hm h₁.1 h₁.2, Option.bind_some]
    rfl
  have hpop : m.Leads p (p + 7 : Nat) 6 p m.data (p + 6 : Nat) _ :=
    hsplit.append_left.leads rfl hrun le_rfl (by
      show ((p + 6 : Nat) : Int) ≤ _
      omega)
  have hbranch : m.HasLines v (p + 6) [Line.branch .d .ne] := hsplit.append_right
  have hway := hpop.trans (hbranch.leads_branch (hm _)) (by omega)
  -- a word is zero in two's complement only when it is zero
  have hzero : Jump.ne.holds (signed x) = decide (x ≠ 0) := by
    have hword : IsWord x := hm _
    have hwrap := hword.wrap_eq
    unfold Jump.holds signed modulus
    rw [hwrap, decide_eq_decide]
    have := hword.2
    split <;> omega
  rw [hzero] at hway
  have hpcs : (if decide (x ≠ 0) then ((v target : Nat) : Int) else (p + 6 + 1 : Nat))
      = if x = 0 then ((p + 7 : Nat) : Int) else v target := by
    by_cases h0 : x = 0 <;> simp [h0, Nat.add_assoc]
  dsimp only at hway
  rw [hpcs] at hway
  exact hway.executes rfl hpc (.inr (by decide)) (Memory.AgreeOutside.refl _ _) hm.drop

end Machine

/-! ## Any command -/

namespace Emitter

open Machine

variable {e : Emitter} {cells : List Int} {code : List Line} {m : Machine} {p : Nat}

/-- The base cells are there. -/
theorem isCell_base (hk : (e.regs.cells v).Apart) (b : Base) : IsCell (v (e.regs.base b)) := by
  refine hk.isCell_main ?_
  cases b <;> simp [RegisterFile.base, Cells.main]

theorem isStraight_addressCode {segment : Segment} {index : Nat} {address : List Line}
    (h : e.addressCode segment index = .ok address) : address.all Line.isStraight = true := by
  cases segment with
  | constant =>
    unfold addressCode at h
    dsimp only at h
    split at h
    next => cases h
    next => exact Except.ok.inj h ▸ rfl
  | static | indirect b => exact Except.ok.inj h ▸ rfl
  | pointer | temp =>
    obtain ⟨-, rfl⟩ := addressCode_block rfl rfl h
    rfl

theorem isStraight_pushCode {segment : Segment} {index : Nat}
    (h : e.pushCode segment index = .ok code) : code.all Line.isStraight = true := by
  obtain ⟨address, haddress, rfl⟩ := pushCode_eq_ok h
  rw [List.all_append, List.all_append, isStraight_addressCode haddress]
  rfl

theorem isStraight_popCode {segment : Segment} {index : Nat}
    (h : e.popCode segment index = .ok code) : code.all Line.isStraight = true := by
  obtain ⟨-, address, haddress, rfl⟩ := popCode_eq_ok h
  rw [List.all_append, List.all_append, List.all_append, isStraight_addressCode haddress]
  rfl

section Stack

variable (hlines : m.HasLines v p code) (hpc : m.pc = p) (hv : Standard v)
  (hsp : IsCell (v e.regs.sp)) (hm : m.ram.Words)

include hlines hpc hsp hm

section Segment

variable {segment : Segment} {index next : Nat} (hbase : ∀ b, IsCell (v (e.regs.base b)))
  (hnext : p + Line.size code = next) (hloads : segment.Loads index)

include hv hbase hnext hloads

/-- **The code of a push is carried out.** -/
theorem executes_push (hcode : e.pushCode segment index = .ok code)
    (hreach : segment ≠ .constant →
      IsCell (segment.address (e.regs.cells v) (e.site v next) m.ram index))
    (hs : (e.regs.cells v).OffPointer (m.ram.cell (v e.regs.sp))) :
    m.Executes cells p code
      ⟨next, m.ram.push (e.regs.cells v)
        (segment.word (e.regs.cells v) (e.site v next) m.ram index)⟩ := by
  obtain ⟨s, hrun, hram, hwords⟩ := runLines_pushCode (a := m.a) (d := m.d) hv hloads hm
    (show (e.site v next).static index = _ from rfl) hbase hsp hcode hs.1 hs.2 hreach
  rw [← hram, ← hnext]
  exact hlines.executes_straight hpc (isStraight_pushCode hcode) hrun
    (Memory.AgreeOutside.refl _ _) hwords

/-- **The code of a pop is carried out.** It keeps the address of the target in
the cell for it, before the stack changes. -/
theorem executes_pop (hcode : e.popCode segment index = .ok code)
    (hscratch : IsCell (v e.regs.scratch)) (hapart : v e.regs.scratch ≠ v e.regs.sp)
    (hreach : IsCell (segment.address (e.regs.cells v) (e.site v next) m.ram index))
    (ht : (e.regs.cells v).OffPointer (m.ram.fromTop (e.regs.cells v) 1))
    (hts : m.ram.fromTop (e.regs.cells v) 1 ≠ v e.regs.scratch) :
    m.Executes cells p code
      ⟨next, ((m.ram.store (v e.regs.scratch)
          (segment.address (e.regs.cells v) (e.site v next) m.ram index)).drop
            (e.regs.cells v)).store
        (segment.address (e.regs.cells v) (e.site v next) m.ram index)
        (m.ram.cell (m.ram.fromTop (e.regs.cells v) 1))⟩ := by
  obtain ⟨s, hrun, hram, hwords⟩ := runLines_popCode (a := m.a) (d := m.d) hv hloads hm
    (show (e.site v next).static index = _ from rfl) hbase hsp hcode hscratch hapart ht.1 ht.2
    hts hreach
  rw [← hram, ← hnext]
  exact hlines.executes_straight hpc (isStraight_popCode hcode) hrun
    (Memory.AgreeOutside.refl _ _) hwords

end Segment

/-- **The code of an operator is carried out.** -/
theorem executes_operator (op : Operator) (hcode : e.operatorCode op = code)
    (hlabels : LabelsAt v p code)
    (hstack : ∀ b ∈ (Command.arithmetic op).stackCells (e.regs.cells v) m.ram,
      (e.regs.cells v).OffPointer b) (site : Site) (hnext : p + Line.size code = site.next) :
    m.Executes cells p code
      ((Command.arithmetic op).meaning (e.regs.cells v) site m.ram) := by
  subst hcode
  cases op with
  | unary op =>
    have ht := hstack _ (List.mem_singleton_self _)
    obtain ⟨s, hrun, hram⟩ := runLines_unary (a := m.a) (d := m.d) hsp hm op ht.1 ht.2
    have hwords : s.ram.Words := hram ▸ hm.store _ (by cases op <;> exact isWord_wrap _)
    have hex := hlines.executes_straight hpc rfl hrun
      (Memory.AgreeOutside.refl cells _) hwords
    rw [hnext, hram] at hex
    exact hex
  | binary op =>
    have ht₁ := hstack _ (List.mem_cons_self ..)
    have ht₂ := hstack _ (List.mem_cons_of_mem _ (List.mem_singleton_self _))
    obtain ⟨s, hrun, hram⟩ := runLines_binary (a := m.a) (d := m.d) hsp hm op ht₁.1 ht₁.2
      ht₂.1 ht₂.2
    have hwords : s.ram.Words := hram ▸ hm.drop.store _ (by cases op <;> exact isWord_wrap _)
    have hex := hlines.executes_straight hpc rfl hrun
      (Memory.AgreeOutside.refl cells _) hwords
    rw [hnext, hram] at hex
    exact hex
  | comparison op =>
    have ht₁ := hstack _ (List.mem_cons_self ..)
    have ht₂ := hstack _ (List.mem_cons_of_mem _ (List.mem_singleton_self _))
    have hex : m.Executes cells p _ _ :=
      hlines.executes_comparison hsp hm op hpc hlabels ht₁ ht₂
    rw [show p + 22 = site.next from hnext] at hex
    exact hex

end Stack

section Frame

variable (hlines : m.HasLines v p code) (hpc : m.pc = p) (hv : Standard v)
  (hk : (e.regs.cells v).Apart) (hm : m.ram.Words)

include hlines hpc hv hk hm

theorem executes_function {name : String} {locals next : Nat}
    (hcode : e.functionCode name locals = code) (hnext : p + Line.size code = next)
    (hroom : m.ram.Room (e.regs.cells v) locals) :
    m.Executes cells p code
      ⟨next, (fun ram => ram.push (e.regs.cells v) 0)^[locals] m.ram⟩ := by
  obtain ⟨s, hrun, hram, hwords⟩ := runLines_zeros (a := m.a) (d := m.d) hk hv hm locals hroom
  have hstraight : code.all Line.isStraight = true := by
    rw [← hcode, functionCode, List.all_cons, List.all_flatten]
    simp [Line.isStraight, Line.constant, Line.set, Block.pushD, Block.toStack, Block.grow]
  rw [← hram, ← hnext]
  refine hlines.executes_straight hpc hstraight ?_ (Memory.AgreeOutside.refl _ _) hwords
  rw [← hcode, functionCode, data, runLines_label]
  exact hrun

section Call

variable {name : String} {args next : Nat} (hcode : e.callCode name args = code)
  (hnext : p + Line.size code = next) (hlabels : LabelsAt v p code) (hargs : args < 32768)
  (hword : next < 65536) (hroom : m.ram.Room (e.regs.cells v) 5)

include hcode hnext hlabels hargs hword hroom

/-- **The code of a call is carried out**, in as many steps as it has
instructions. -/
theorem executesIn_call :
    m.ExecutesIn 49 cells p code ⟨v name, m.ram.enter (e.regs.cells v) next args⟩ := by
  have hcode' : code = (e.callSetup args ++ [Line.address name]) ++
      Line.branch .zero .always :: [Line.label (returnLabel e.returns)] := hcode ▸ rfl
  -- the callee returns to the end of the code
  have hret : v (returnLabel e.returns) = next := by
    rw [hlabels (e.callSetup args ++ [Line.address name, Line.branch .zero .always]) _ []
      (hcode ▸ rfl), ← hnext, ← hcode, callCode_eq, Line.size_append, Line.size_append]
    rfl
  obtain ⟨s, hrun, hram⟩ := runLines_callSetup (a := m.a) (d := m.d) hk rfl hv hm hargs
    (by rw [hret]; exact ⟨by omega, by omega⟩) hroom
  have hwords : s.ram.Words := by
    rw [hram, hret]
    refine ((hm.foldl_push fun x hx => ?_).store _ (isWord_wrap _)).store _ (isWord_wrap _)
    simp only [List.mem_cons, List.not_mem_nil, or_false] at hx
    obtain rfl | rfl | rfl | rfl | rfl := hx
    · exact ⟨by omega, by omega⟩
    all_goals exact hm _
  rw [hret] at hram
  rw [hcode'] at hlines ⊢
  refine hlines.executesIn_jump (s := ⟨v name, s.d, s.ram⟩) hpc rfl ?_
    (hram ▸ Memory.AgreeOutside.refl _ _) hwords rfl (by
      show 0 < 48
      decide)
  rw [runLines_append, data, hrun, Option.bind_some]
  rfl

theorem executes_call :
    m.Executes cells p code ⟨v name, m.ram.enter (e.regs.cells v) next args⟩ :=
  ⟨49, .inr (by decide),
    executesIn_call hlines hpc hv hk hm hcode hnext hlabels hargs hword hroom⟩

end Call

section Return

variable (hcode : returnCode e.regs = code)
  (hstack : ∀ b ∈ Command.ret.stackCells (e.regs.cells v) m.ram, (e.regs.cells v).Free b)
  (hbase : ∀ b ∈ Command.ret.baseCells (e.regs.cells v) m.ram, (e.regs.cells v).Free b)

include hcode hstack hbase

/-- **The code of a return is carried out**, in as many steps as it has
instructions. It keeps the end of the frame and the return address in the
cells for them. -/
theorem executesIn_returnCode :
    m.ExecutesIn 50 cells p code
      ⟨m.ram.cell (m.ram.fromFrame (e.regs.cells v) 5),
        ((m.ram.leave (e.regs.cells v)).store (v e.regs.endFrame)
          (m.ram.cell (v e.regs.lcl))).store (v e.regs.retAddr)
          (m.ram.cell (m.ram.fromFrame (e.regs.cells v) 5))⟩ := by
  have ht := hstack _ (List.mem_singleton_self _)
  have hg := hbase _ (List.mem_cons_self ..)
  have hf (j : Nat) (hj : j < 5) :
      (e.regs.cells v).Free (m.ram.fromFrame (e.regs.cells v) (j + 1)) :=
    hbase _ (List.mem_cons_of_mem _ (List.mem_map.mpr ⟨j, List.mem_range.mpr hj, rfl⟩))
  obtain ⟨s, hrun, ha, hram, hwords⟩ :=
    runLines_returnSetup (a := m.a) (d := m.d) hk hv hm ht hg hf
  have hsize : Line.size (returnSetup e.regs) = 49 := rfl
  rw [← hcode, returnCode_eq] at hlines
  rw [← hcode, returnCode_eq, ← hram, ← ha]
  exact hlines.executesIn_jump hpc rfl hrun (Memory.AgreeOutside.refl _ _) hwords rfl (by omega)

/-- Work in progress apart, a return leaves what it means. -/
theorem executesIn_ret (site : Site) :
    m.ExecutesIn 50 (Command.ret.work (e.regs.cells v)) p code
      (Command.ret.meaning (e.regs.cells v) site m.ram) := by
  have hkept := Memory.AgreeOutside.refl (Command.ret.work (e.regs.cells v))
    (m.ram.leave (e.regs.cells v))
  exact (executesIn_returnCode hlines hpc hv hk hm hcode hstack hbase).agree
    ((hkept.store_left (by simp [Command.work]) _).store_left (by simp [Command.work]) _)

end Return

end Frame

/-- **The code of every command is carried out**: from the address where it lies
the machine comes to where the command's meaning leads, with the memory
that it asks for. -/
theorem executes {c : Command} (hcode : e.code c = .ok code) (hlines : m.HasLines v p code)
    (hpc : m.pc = p) (hv : Standard v) (hk : (e.regs.cells v).Apart) (hm : m.ram.Words)
    (hlabels : LabelsAt v p code) (hnext : p + Line.size code < 65536) (hloads : c.Loads)
    (hreach : c.Reaches (e.regs.cells v) (e.site v (p + Line.size code)) m.ram)
    (hstack : ∀ b ∈ c.stackCells (e.regs.cells v) m.ram, (e.regs.cells v).Free b)
    (hret : c = .ret → ∀ b ∈ c.baseCells (e.regs.cells v) m.ram, (e.regs.cells v).Free b) :
    m.Executes (c.work (e.regs.cells v)) p code
      (c.meaning (e.regs.cells v) (e.site v (p + Line.size code)) m.ram) := by
  have hagree := Memory.AgreeOutside.refl [] m.ram
  have hroom {n : Nat} (h : ∀ b ∈ (List.range n).map fun j : Nat =>
      wrap (m.ram.cell (e.regs.cells v).sp + j), (e.regs.cells v).Free b) :
      m.ram.Room (e.regs.cells v) n := fun j hj =>
    h _ (List.mem_map.mpr ⟨j, List.mem_range.mpr hj, rfl⟩)
  cases c with
  | push segment index =>
    exact executes_push hlines hpc hv hk.isCell_sp hm (isCell_base hk) rfl hloads hcode hreach
      (hstack _ (List.mem_singleton_self _)).offPointer
  | pop segment index =>
    have hscratch := Cells.scratch_mem_work (e.regs.cells v)
    have ht := hstack _ (List.mem_singleton_self _)
    obtain ⟨n, hn, hex⟩ : m.Executes [(v e.regs.scratch : Int)] p code _ := executes_pop hlines
      hpc hv hk.isCell_sp hm (isCell_base hk) rfl hloads hcode (hk.isCell_work hscratch)
      (by simpa using (hk.ne_of_mem (Cells.sp_mem_main _) hscratch).symm) hreach ht.offPointer
      (ht.ne (Cells.mem_all_of_mem_work hscratch))
    -- the cell that keeps the address of the target is for work in progress
    have hkept := (Memory.AgreeOutside.refl [(v e.regs.scratch : Int)] m.ram).store_left
      (List.mem_singleton_self _)
      (segment.address (e.regs.cells v) (e.site v (p + Line.size code)) m.ram index)
    have hcells : [(v e.regs.scratch : Int)] ⊆ (e.regs.cells v).work :=
      List.cons_subset.mpr ⟨hscratch, List.nil_subset _⟩
    exact ⟨n, hn, hex.agree ((hkept.drop hcells hk).store _ _)⟩
  | arithmetic op =>
    exact executes_operator hlines hpc hk.isCell_sp hm op (Except.ok.inj hcode) hlabels
      (fun b hb => (hstack b hb).offPointer) _ rfl
  | label name =>
    obtain rfl := Except.ok.inj hcode
    exact hlines.executes_straight hpc rfl rfl hagree hm
  | goto target =>
    obtain rfl := Except.ok.inj hcode
    have hsplit :
        m.HasLines v p ([Line.address (e.qualify target)] ++ Line.branch .zero .always :: []) :=
      hlines
    exact ⟨_, .inr (Nat.succ_pos _),
      hsplit.executesIn_jump hpc rfl rfl hagree hm rfl (Nat.succ_pos _)⟩
  | ifGoto target =>
    obtain rfl := Except.ok.inj hcode
    exact hlines.executes_ifGoto hk.isCell_sp hm hpc
      (hstack _ (List.mem_singleton_self _)).offPointer
  | function name locals =>
    exact executes_function hlines hpc hv hk hm (Except.ok.inj hcode) rfl (hroom hstack)
  | call name args =>
    exact executes_call hlines hpc hv hk hm (Except.ok.inj hcode) rfl hlabels hloads hnext
      (hroom hstack)
  | ret =>
    exact ⟨50, .inr (by decide), executesIn_ret hlines hpc hv hk hm (Except.ok.inj hcode) hstack
      (hret rfl) _⟩

end Emitter

end HackStack
