import HackStack.Proofs.StraightLine
import HackStack.Proofs.TwoPass

/-!
# The machine stays a machine of words

Nothing masks the value of an address instruction, and the arithmetic unit
lets a conjunction through as it is. Still, a machine that is started on
words works on words for ever: the values that a loaded program puts into
`A` are words because a program has no more variables than instructions
(`Loading.isWord_address`), and on words the unit gives words.

`Machine.step_eq` says all that one step of such a machine can do, failing
included; what a run keeps (`Machine.runTo_wordwise`) follows from it. The
program counter of a machine that is not done is inside the program, so
the only thing that can go wrong is an `A` behind the last cell.
-/

namespace HackStack

open Word

/-! ## The values a program loads -/

namespace Loading

/-- Labels stand among the instructions. -/
theorem labelEntries_le {a : Nat} {lines : List (List Char)} {entry : String × Nat}
    (h : entry ∈ labelEntries a lines) : entry.2 ≤ a + (codeLines lines).length := by
  induction lines generalizing a with
  | nil => cases h
  | cons line rest ih =>
    cases hname : labelName? line with
    | some name =>
      rw [labelEntries_cons_label rest hname] at h
      rw [codeLines_cons_label rest hname]
      rcases List.mem_cons.mp h with rfl | h
      · exact Nat.le_add_right _ _
      · exact ih h
    | none =>
      rw [labelEntries_cons_code rest hname] at h
      rw [codeLines_cons_code rest hname, List.length_cons]
      have := ih h
      omega

/-- The value of an address instruction is a number of fifteen bits or that of
a symbol. -/
theorem value_of_instruction? {t : Symbols} {line : List Char} {x : Nat}
    (h : instruction? t line = some (.address x)) : x < 2 ^ 15 ∨ ∃ name, t.get? name = some x := by
  unfold instruction? at h
  split at h
  next operand =>
    by_cases hnum : isNumber operand = true
    · rw [if_pos hnum] at h
      obtain ⟨y, hy, hyx⟩ := Option.map_eq_some_iff.mp h
      obtain rfl := Instruction.address.inj hyx
      exact .inl (of_decide_eq_true (Option.filter_eq_some_iff.mp hy).2)
    · rw [if_neg hnum] at h
      obtain ⟨y, hy, hyx⟩ := Option.map_eq_some_iff.mp h
      obtain rfl := Instruction.address.inj hyx
      exact .inr ⟨_, hy⟩
  next =>
    dsimp only at h
    split at h
    next => cases h
    next => cases h

variable {lines : List String} {m : Machine} (h : Machine.load lines = .ok m)
  (hsize : m.rom.size ≤ 32768)

include h hsize

/-- **A symbol of a program that fits the machine has a word as its value**:
variables follow one another, and there is an instruction for each. -/
theorem isWord_symbol {name : String} {x : Nat} (hx : m.symbols.get? name = some x) :
    IsWord x := by
  obtain ⟨-, hrom, names, hlists, hnames⟩ := load_eq_ok h
  have hlen : (codeLines (source lines)).length = m.rom.size := by
    rw [← List.length_map, hrom, List.length_map, Array.length_toList]
  have hpre : ∀ entry ∈ Symbols.predefined.entries, entry.2 < 65536 := by decide
  have hmem := Symbols.mem_of_get? hx
  rw [hlists.entries, List.mem_append, List.mem_append, List.mem_reverse, List.mem_reverse] at hmem
  refine ⟨Int.natCast_nonneg x, ?_⟩
  rcases hmem with hvar | hlabel | hpredefined
  · have hlt := (List.mem_zipIdx hvar).2.1
    unfold Symbols.variableBase at hlt
    omega
  · have hle := labelEntries_le hlabel
    dsimp only at hle
    omega
  · have := hpre _ hpredefined
    dsimp only at this
    omega

/-- **The address instructions of a program that fits the machine hold words.** -/
theorem isWord_address {x : Nat} (hx : Instruction.address x ∈ m.rom) : IsWord x := by
  obtain ⟨-, hrom, -⟩ := load_eq_ok h
  have hmem := List.mem_map_of_mem (f := some) (Array.mem_toList_iff.mpr hx)
  rw [← hrom] at hmem
  obtain ⟨line, -, hline⟩ := List.mem_map.mp hmem
  rcases value_of_instruction? hline with hlt | ⟨name, hget⟩
  · exact ⟨Int.natCast_nonneg x, by omega⟩
  · exact isWord_symbol h hsize hget

end Loading

/-! ## One step -/

/-- Registers and memory that hold words. -/
structure Data.Words (s : Data) : Prop where
  a : IsWord s.a
  d : IsWord s.d
  ram : s.ram.Words

theorem Data.Words.secondOperand {s : Data} (hs : s.Words) (o : Operand) :
    IsWord (Line.secondOperand s o) := by
  cases o with
  | a => exact hs.a
  | m => exact hs.ram s.a

namespace Machine

/-- **A machine of words**: its registers, its program counter and its cells
hold words. -/
structure Words (m : Machine) : Prop where
  a : IsWord m.a
  d : IsWord m.d
  pc : IsWord m.pc
  ram : m.ram.Words

variable {m : Machine}

/-- A program counter from 0 on is no index from the end. -/
theorem fetch?_eq (h : 0 ≤ m.pc) : m.fetch? = m.rom[m.pc.toNat]? := by
  unfold fetch? position?
  by_cases hlt : m.pc < m.rom.size
  · rw [dif_pos ⟨h, hlt⟩, Option.map_some]
    exact (Array.getElem?_eq_getElem (by omega)).symm
  · rw [dif_neg (by omega), dif_neg (by omega), Option.map_none, Array.getElem?_eq_none (by omega)]

end Machine

namespace Instruction

/-- Whether an instruction reads or writes the cell that `A` points at. -/
def Reaches : Instruction → Prop
  | address _ => False
  | compute dest comp _ => comp.operand = .m ∨ dest.toM = true

instance : DecidablePred Reaches
  | address _ => inferInstanceAs (Decidable False)
  | compute _ _ _ => inferInstanceAs (Decidable (_ ∨ _))

/-- What goes wrong when the cell is not there: it is read before it is
written. -/
def failure : Instruction → MachineError
  | compute _ comp _ => if comp.operand = .m then .read else .write
  | address _ => .read

/-- The word that an instruction computes. -/
def result (s : Data) : Instruction → Int
  | address value => value
  | compute _ comp _ => wrap (comp.value s.d (Line.secondOperand s comp.operand))

/-- **What an instruction makes of a machine of words**, when the cell that it
reaches for is there. A result is stored where `A` pointed before, and that is
where the jump goes. -/
def effect (m : Machine) : Instruction → Machine
  | address value => { m with a := value, pc := m.pc + 1, steps := m.steps + 1 }
  | compute dest comp jump =>
    let out := (compute dest comp jump).result m.data
    { m with
      ram := if dest.toM then m.ram.store m.a out else m.ram
      d := if dest.toD then out else m.d
      a := if dest.toA then out else m.a
      pc := if jump.holds (signed out) then m.a else m.pc + 1
      steps := m.steps + 1 }

variable {m : Machine} {ins : Instruction}

theorem rom_effect : (ins.effect m).rom = m.rom := by cases ins <;> rfl

theorem symbols_effect : (ins.effect m).symbols = m.symbols := by cases ins <;> rfl

theorem steps_effect : (ins.effect m).steps = m.steps + 1 := by cases ins <;> rfl

end Instruction

namespace Machine

variable {m : Machine} {ins : Instruction}

theorem Words.data (hm : m.Words) : m.data.Words := ⟨hm.a, hm.d, hm.ram⟩

/-- **One step on words.** It carries out the instruction at the program
counter, unless this reaches for a cell that is not there; then the step has
been counted and nothing else has changed. The program counter itself may be
any, as long as there is an instruction. -/
theorem step_eq (hm : m.data.Words) (hf : m.fetch? = some ins) :
    m.step = if ins.Reaches → IsCell m.a then .ok (ins.effect m)
      else .error ⟨ins.failure, { m with steps := m.steps + 1 }⟩ := by
  cases ins with
  | address value =>
    rw [if_pos (fun h => h.elim), step, hf]
    rfl
  | compute dest comp jump =>
    have hout := comp.apply_eq_of_words hm.d (hm.secondOperand comp.operand)
    split
    next hcell =>
      rw [step_compute hf hcell hout, settle, Jump.takenOn_eq _ (isWord_wrap _), wrap_wrap]
      rfl
    next hcell =>
      obtain ⟨hreach, hno⟩ := Classical.not_imp.mp hcell
      have ha : IsWord m.a := hm.a
      rw [step_compute_outside hf ha.1 hno hreach, MachineError.outside, if_pos]
      · rfl
      · have := ha.1
        have := ha.2
        omega

/-- Words stay words, if the program counter stays one. -/
theorem Words.effect (hm : m.Words) (hpc : m.pc + 1 < 65536)
    (hvalue : ∀ x, ins = .address x → IsWord x) : (ins.effect m).Words := by
  have hnext : IsWord (m.pc + 1) := ⟨by have := hm.pc.1; omega, hpc⟩
  cases ins with
  | address value => exact ⟨hvalue value rfl, hm.d, hnext, hm.ram⟩
  | compute dest comp jump =>
    have hout : IsWord ((Instruction.compute dest comp jump).result m.data) := isWord_wrap _
    constructor
    · show IsWord (if dest.toA then _ else m.a)
      split
      · exact hout
      · exact hm.a
    · show IsWord (if dest.toD then _ else m.d)
      split
      · exact hout
      · exact hm.d
    · show IsWord (if _ then m.a else m.pc + 1)
      split
      · exact hm.a
      · exact hnext
    · show Memory.Words (if dest.toM then _ else m.ram)
      split
      · exact hm.ram.store _ hout
      · exact hm.ram

/-! ## A run -/

/-- **A machine of words with the program of another.** -/
structure WordsOf (m₀ m : Machine) : Prop where
  rom : m.rom = m₀.rom
  symbols : m.symbols = m₀.symbols
  words : m.Words

/-- The instruction that a machine stands at is one of its program, and reaches
for the cell that `A` points at, behind the last there is. -/
structure OutOfReach (m : Machine) (reason : MachineError) : Prop where
  a : 32768 ≤ m.a
  instruction : ∃ ins, m.rom[m.pc.toNat]? = some ins ∧ ins.Reaches ∧ reason = ins.failure

/-- **How a run of at most `n` steps on words may end**: on words, either after
all its steps or where it is done; or short of that, at an instruction that
reaches behind the last cell. -/
def EndsOnWords (m₀ : Machine) (stop : Option Nat) (n : Nat) : Except Halt Machine → Prop
  | .ok m => m₀.WordsOf m ∧ (m.isDone stop = true ∨ m.steps = m₀.steps + n)
  | .error h => m₀.WordsOf h.machine ∧ h.machine.OutOfReach h.reason

/-- A program that fits the machine, and whose address instructions hold words. -/
structure Fits (rom : Array Instruction) : Prop where
  size : rom.size ≤ 32768
  address : ∀ x, Instruction.address x ∈ rom → IsWord x

theorem Words.exists_fetch? (hm : m.Words) {stop : Option Nat} (h : m.isDone stop ≠ true) :
    m.pc < m.rom.size ∧ ∃ ins, m.fetch? = some ins ∧ ins ∈ m.rom := by
  have hlt : m.pc < m.rom.size := by
    by_contra hge
    exact h (by rw [isDone, decide_eq_true (by omega), Bool.true_or])
  have hpos := hm.pc.1
  have hi : m.pc.toNat < m.rom.size := by omega
  rw [fetch?_eq hpos, Array.getElem?_eq_getElem hi]
  exact ⟨hlt, _, rfl, Array.getElem_mem hi⟩

/-- One step more in front of a run. -/
theorem EndsOnWords.cons {m' : Machine} {stop : Option Nat} {n : Nat} {r : Except Halt Machine}
    (hrom : m'.rom = m.rom) (hsymbols : m'.symbols = m.symbols) (hsteps : m'.steps = m.steps + 1)
    (h : m'.EndsOnWords stop n r) : m.EndsOnWords stop (n + 1) r := by
  cases r with
  | ok m₁ =>
    refine ⟨⟨h.1.rom.trans hrom, h.1.symbols.trans hsymbols, h.1.words⟩, h.2.imp id fun hs => ?_⟩
    rw [hs, hsteps, Nat.add_assoc, Nat.add_comm 1]
  | error e => exact ⟨⟨h.1.rom.trans hrom, h.1.symbols.trans hsymbols, h.1.words⟩, h.2⟩

/-- **A run on words stays on words.** -/
theorem runTo_wordwise (hrom : Fits m.rom) (hm : m.Words) (stop : Option Nat) (n : Nat) :
    m.EndsOnWords stop n (m.runTo stop n) := by
  induction n generalizing m with
  | zero => exact ⟨⟨rfl, rfl, hm⟩, .inr rfl⟩
  | succ n ih =>
    rw [runTo]
    split
    next hdone => exact ⟨⟨rfl, rfl, hm⟩, .inl hdone⟩
    next hdone =>
      obtain ⟨hlt, ins, hf, hmem⟩ := hm.exists_fetch? hdone
      rw [step_eq hm.data hf]
      split
      next hcell =>
        have hm' : (ins.effect m).Words := hm.effect (by have := hrom.size; omega)
          fun x hx => hrom.address x (hx ▸ hmem)
        exact (ih (by rw [Instruction.rom_effect]; exact hrom) hm').cons Instruction.rom_effect
          Instruction.symbols_effect Instruction.steps_effect
      next hcell =>
        obtain ⟨hreach, hno⟩ := Classical.not_imp.mp hcell
        refine ⟨⟨rfl, rfl, hm.a, hm.d, hm.pc, hm.ram⟩, ?_, ins, ?_, hreach, rfl⟩
        · by_contra hlt
          exact hno ⟨hm.a.1, Int.not_le.mp hlt⟩
        · exact (fetch?_eq hm.pc.1).symm.trans hf

/-- **The machine stays a machine of sixteen bits.** A program of at most 32768
instructions that was loaded, started on any memory of words, for any number
of steps and with any label to stop at: registers, program counter and cells
are words at the end, and the program is what it was. If the run stops
short, it is because an instruction of the program reads or writes memory
with an `A` of 32768 or more. -/
theorem run_sixteen_bit {lines : List String} {m₀ : Machine} (hload : Machine.load lines = .ok m₀)
    (hsize : m₀.rom.size ≤ 32768) {ram : Memory} (hram : ram.Words) (maxSteps : Int)
    (stopLabel : Option String) :
    EndsOnWords { m₀ with ram := ram } (stopLabel.bind m₀.symbols.get?) maxSteps.toNat
      (run { m₀ with ram := ram } maxSteps stopLabel) := by
  obtain ⟨hstart, -⟩ := Loading.load_eq_ok hload
  have hfits : Fits m₀.rom := ⟨hsize, fun _ hx => Loading.isWord_address hload hsize hx⟩
  have hzero : IsWord 0 := by decide
  have hwords : Words { m₀ with ram := ram } := by
    rw [hstart]
    exact ⟨hzero, hzero, hzero, hram⟩
  exact runTo_wordwise (m := { m₀ with ram := ram }) hfits hwords _ maxSteps.toNat

end Machine

/-- A program that lets `A` run down from zero. -/
def Sample.runaway : List String := ["@R1", "AM=M-1", "D=M"]

/-- Its last instruction finds no cell at 65535. -/
theorem Machine.run_sixteen_bit_sample :
    ∃ m₀, Machine.load Sample.runaway = .ok m₀ ∧ m₀.rom.size ≤ 32768 ∧
      (run { m₀ with ram := Memory.empty } 10 none).isOk = false ∧
      EndsOnWords { m₀ with ram := Memory.empty } none 10
        (run { m₀ with ram := Memory.empty } 10 none) := by
  have hload : (Machine.load Sample.runaway).toOption.any (fun m => decide (m.rom.size ≤ 32768) &&
      !(run { m with ram := Memory.empty } 10 none).isOk) = true := by decide +kernel
  obtain ⟨m₀, hm₀, hp⟩ := Loading.exists_load hload
  rw [Bool.and_eq_true, decide_eq_true_eq, Bool.not_eq_true'] at hp
  exact ⟨m₀, hm₀, hp.1, hp.2, run_sixteen_bit hm₀ hp.1 Memory.words_empty 10 none⟩

end HackStack
