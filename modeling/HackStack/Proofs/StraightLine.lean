import HackStack.Asm.Line
import HackStack.Machine.Running
import HackStack.Proofs.Cells

/-!
# Straight-line code

Generated code mostly runs straight on: an instruction that does not jump
changes the registers and memory and goes to the next one. `Line.act?` is
that change on its own, `runLines` the change a list of lines makes, with
nothing about program counters in either. `Machine.HasLines` says that
lines lie in a program from an address on, and the module's main result is
that **lines that lie in a program run as they read**
(`HasLines.passage`): the machine goes through them in as many steps as
they have instructions.

A `Machine.Passage` is a run that stays strictly inside a stretch of
addresses until it ends. It is what tells a block of code that is being
executed from one that is entered.
-/

namespace HackStack

open Word

/-- What instructions work on: the two registers and memory. -/
structure Data where
  a : Int
  d : Int
  ram : Memory

namespace Line

/-- The instruction of a line, given the values of operands; a label has
none. -/
def resolve (v : String → Nat) : Line → Option Instruction
  | label _ => none
  | address operand => some (.address (v operand))
  | compute dest comp jump => some (.compute dest comp jump)

/-- Whether the next line is the one after this one. -/
def isStraight : Line → Bool
  | compute _ _ jump => jump = .never
  | _ => true

/-- The second operand of a computation. -/
def secondOperand (s : Data) : Operand → Int
  | .a => s.a
  | .m => s.ram.cell s.a

/-- **What a line does to the data**, jumps apart. There is no result when it
reaches for a cell that is not there. -/
def act? (v : String → Nat) (s : Data) : Line → Option Data
  | label _ => some s
  | address operand => some { s with a := v operand }
  | compute dest comp _ =>
    if (comp.operand = .m ∨ dest.toM = true) → IsCell s.a then
      let out := comp.control.apply s.d (secondOperand s comp.operand)
      some ⟨if dest.toA then wrap out else s.a, if dest.toD then out else s.d,
        if dest.toM then s.ram.store s.a out else s.ram⟩
    else none

theorem act?_compute (v : String → Nat) (s : Data) (dest : Dest) (comp : Comp) (jump : Jump) :
    (compute dest comp jump).act? v s =
      if (comp.operand = .m ∨ dest.toM = true) → IsCell s.a then
        some ⟨if dest.toA then wrap (comp.control.apply s.d (secondOperand s comp.operand))
            else s.a,
          if dest.toD then comp.control.apply s.d (secondOperand s comp.operand) else s.d,
          if dest.toM then s.ram.store s.a (comp.control.apply s.d (secondOperand s comp.operand))
            else s.ram⟩
      else none := rfl

/-- The number of instructions among some lines. -/
def size (ls : List Line) : Nat := ls.countP isCode

@[simp] theorem size_nil : size [] = 0 := rfl

@[simp] theorem size_append (ls ks : List Line) : size (ls ++ ks) = size ls + size ks :=
  List.countP_append

@[simp] theorem size_cons_label (name : String) (ls : List Line) :
    size (label name :: ls) = size ls := List.countP_cons_of_neg (by simp [isCode])

@[simp] theorem size_cons_address (x : String) (ls : List Line) :
    size (address x :: ls) = size ls + 1 := List.countP_cons_of_pos rfl

@[simp] theorem size_cons_compute (dest : Dest) (comp : Comp) (jump : Jump) (ls : List Line) :
    size (compute dest comp jump :: ls) = size ls + 1 := List.countP_cons_of_pos rfl

theorem size_cons_of_isCode {l : Line} (h : l.isCode = true) (ls : List Line) :
    size (l :: ls) = 1 + size ls := by
  rw [size, List.countP_cons_of_pos h, Nat.add_comm, size]

/-- Only a label is no instruction. -/
theorem eq_label_of_resolve {v : String → Nat} {l : Line} (h : l.resolve v = none) :
    ∃ name, l = label name := by
  cases l with
  | label name => exact ⟨name, rfl⟩
  | _ => cases h

theorem isCode_of_resolve {v : String → Nat} {l : Line} {ins : Instruction}
    (h : l.resolve v = some ins) : l.isCode = true := by
  cases l with
  | label name => cases h
  | _ => rfl

@[simp] theorem length_filterMap_resolve (v : String → Nat) (ls : List Line) :
    (ls.filterMap (resolve v)).length = size ls := by
  induction ls with
  | nil => rfl
  | cons l ls ih => cases l <;> simp [List.filterMap_cons, resolve, ih]

end Line

/-- What lines do to the data, one after the other. -/
def runLines (v : String → Nat) : List Line → Data → Option Data
  | [], s => some s
  | l :: ls, s => (l.act? v s).bind (runLines v ls)

@[simp] theorem runLines_nil (v : String → Nat) (s : Data) : runLines v [] s = some s := rfl

theorem runLines_cons (v : String → Nat) (l : Line) (ls : List Line) (s : Data) :
    runLines v (l :: ls) s = (l.act? v s).bind (runLines v ls) := rfl

theorem runLines_append (v : String → Nat) (ls ks : List Line) (s : Data) :
    runLines v (ls ++ ks) s = (runLines v ls s).bind (runLines v ks) := by
  induction ls generalizing s with
  | nil => rfl
  | cons l ls ih =>
    rw [List.cons_append, runLines_cons, runLines_cons, Option.bind_assoc]
    exact congrArg _ (funext ih)

namespace Machine

/-! ## Runs -/

theorem stepN_add (n k : Nat) (m : Machine) : m.stepN (n + k) = (m.stepN n >>= stepN k) := by
  induction n generalizing m with
  | zero => rw [Nat.zero_add]; rfl
  | succ n ih =>
    rw [Nat.succ_add]
    show (m.step >>= stepN (n + k)) = ((m.step >>= stepN n) >>= stepN k)
    cases m.step with
    | error e => rfl
    | ok m₁ => exact ih m₁

theorem stepN_add_of_ok {n : Nat} {m m' : Machine} (h : m.stepN n = .ok m') (k : Nat) :
    m.stepN (n + k) = m'.stepN k := by
  rw [stepN_add, h]
  rfl

theorem stepN_one (m : Machine) : m.stepN 1 = m.step := by
  show (m.step >>= stepN 0) = m.step
  cases m.step <;> rfl

/-- **A run through a stretch of addresses**: `n` steps lead from one machine to
the other, and at every step between, the program counter is strictly inside
the stretch. -/
structure Passage (lo hi : Int) (n : Nat) (m m' : Machine) : Prop where
  run : m.stepN n = .ok m'
  inside : ∀ k mk, 0 < k → k < n → m.stepN k = .ok mk → lo < mk.pc ∧ mk.pc < hi

namespace Passage

variable {lo hi : Int} {n k : Nat} {m m₁ m' : Machine}

theorem refl (lo hi : Int) (m : Machine) : Passage lo hi 0 m m :=
  ⟨rfl, fun _ _ _ h => absurd h (Nat.not_lt_zero _)⟩

theorem single (h : m.step = .ok m') : Passage lo hi 1 m m' :=
  ⟨by rw [stepN_one, h], fun _ _ h₀ h₁ => by omega⟩

/-- One passage after another, when they meet inside the stretch. -/
theorem trans (h₁ : Passage lo hi n m m₁) (h₂ : Passage lo hi k m₁ m')
    (hmeet : 0 < n → 0 < k → lo < m₁.pc ∧ m₁.pc < hi) : Passage lo hi (n + k) m m' := by
  refine ⟨by rw [stepN_add_of_ok h₁.run, h₂.run], fun j mj hj₀ hj hmj => ?_⟩
  rcases Nat.lt_trichotomy j n with hlt | heq | hgt
  · exact h₁.inside j mj hj₀ hlt hmj
  · subst heq
    obtain rfl : m₁ = mj := Except.ok.inj (h₁.run.symm.trans hmj)
    exact hmeet hj₀ (by omega)
  · obtain ⟨i, rfl⟩ := Nat.exists_eq_add_of_lt hgt
    rw [Nat.add_assoc, stepN_add_of_ok h₁.run] at hmj
    exact h₂.inside (i + 1) mj (Nat.succ_pos i) (by omega) hmj

/-- The first step of a passage. -/
theorem tail (h : Passage lo hi (n + 1) m m') : ∃ m₁, m.step = .ok m₁ ∧ Passage lo hi n m₁ m' ∧
    (0 < n → lo < m₁.pc ∧ m₁.pc < hi) := by
  have hrun := h.run
  rw [Nat.add_comm, stepN_add, stepN_one] at hrun
  cases hstep : m.step with
  | error e => rw [hstep] at hrun; cases hrun
  | ok m₁ =>
    rw [hstep] at hrun
    have hfirst : m.stepN 1 = .ok m₁ := by rw [stepN_one, hstep]
    refine ⟨m₁, rfl, ⟨hrun, fun k mk h₀ hk hmk => ?_⟩, fun hn => ?_⟩
    · refine h.inside (1 + k) mk (by omega) (by omega) ?_
      rw [stepN_add_of_ok hfirst, hmk]
    · exact h.inside 1 m₁ Nat.one_pos (by omega) hfirst

end Passage

/-! ## Where code lies -/

/-- Lines that lie in the program of a machine from an address on. -/
def HasLines (m : Machine) (v : String → Nat) (p : Nat) (ls : List Line) : Prop :=
  ls.filterMap (Line.resolve v) <+: m.rom.toList.drop p

namespace HasLines

variable {m : Machine} {v : String → Nat} {p : Nat} {l : Line} {ls ks : List Line}

theorem append_left (h : m.HasLines v p (ls ++ ks)) : m.HasLines v p ls := by
  rw [HasLines, List.filterMap_append] at h
  exact (List.prefix_append _ _).trans h

theorem append_right (h : m.HasLines v p (ls ++ ks)) :
    m.HasLines v (p + Line.size ls) ks := by
  obtain ⟨rest, hrest⟩ := h
  refine ⟨rest, ?_⟩
  rw [← List.drop_drop, ← hrest, List.filterMap_append, List.append_assoc,
    List.drop_left' (Line.length_filterMap_resolve v ls)]

/-- The instruction at the front. -/
theorem getElem? {ins : Instruction} (h : m.HasLines v p (l :: ls))
    (hl : l.resolve v = some ins) : m.rom[p]? = some ins := by
  obtain ⟨rest, hrest⟩ := h
  rw [List.filterMap_cons, hl] at hrest
  have h₀ : (m.rom.toList.drop p)[0]? = some ins := by rw [← hrest]; rfl
  rw [List.getElem?_drop, Nat.add_zero, Array.getElem?_toList] at h₀
  exact h₀

theorem fetch? {ins : Instruction} (h : m.HasLines v p (l :: ls))
    (hl : l.resolve v = some ins) (hpc : m.pc = p) : m.fetch? = some ins := by
  have hp := h.getElem? hl
  obtain ⟨hlt, heq⟩ := Array.getElem?_eq_some_iff.mp hp
  unfold Machine.fetch? position?
  rw [hpc, dif_pos ⟨by omega, by omega⟩, Option.map_some]
  exact congrArg some heq

/-- The lines behind an instruction lie one further on. -/
theorem tail (h : m.HasLines v p (l :: ls)) (hl : l.isCode = true) :
    m.HasLines v (p + 1) ls := by
  have h' : m.HasLines v p ([l] ++ ls) := h
  have hrest := h'.append_right
  rwa [Line.size_cons_of_isCode hl, Line.size_nil] at hrest

end HasLines

/-! ## Running straight on -/

/-- The data of a machine. -/
def data (m : Machine) : Data := ⟨m.a, m.d, m.ram⟩

/-- The machine `n` instructions further on, with other data. -/
def advance (m : Machine) (n : Nat) (s : Data) : Machine :=
  { m with a := s.a, d := s.d, ram := s.ram, pc := m.pc + n, steps := m.steps + n }

@[simp] theorem pc_advance (m : Machine) (n : Nat) (s : Data) : (m.advance n s).pc = m.pc + n := rfl

theorem advance_zero (m : Machine) : m.advance 0 m.data = m := by
  simp [advance, data]

theorem advance_advance (m : Machine) (n k : Nat) (s t : Data) :
    (m.advance n s).advance k t = m.advance (n + k) t := by
  simp [advance, Int.add_assoc, Nat.add_assoc]

/-- The program is what it was, so lines lie where they lay. -/
theorem HasLines.advance {m : Machine} {v : String → Nat} {p : Nat} {ls : List Line}
    (h : m.HasLines v p ls) (n : Nat) (s : Data) : (m.advance n s).HasLines v p ls := h

section Compute

variable {m : Machine} {dest : Dest} {comp : Comp} {jump : Jump}
  (hf : m.fetch? = some (.compute dest comp jump))

include hf

/-- **A computation that finds the cells it reaches for**: its result is stored,
and the jump looks at it. -/
theorem step_compute (hcell : (comp.operand = .m ∨ dest.toM = true) → IsCell m.a) {out : Int}
    (hout : comp.control.apply m.d (Line.secondOperand m.data comp.operand) = out) :
    m.step = .ok (settle { m with
      ram := if dest.toM then m.ram.store m.a out else m.ram
      steps := m.steps + 1 } dest jump out) := by
  have hop : operand? { m with steps := m.steps + 1 } comp.operand
      = some (Line.secondOperand m.data comp.operand) := by
    cases ho : comp.operand with
    | a => rfl
    | m => exact Memory.get?_of_isCell _ (hcell (.inl ho))
  unfold step
  rw [hf]
  dsimp only
  rw [hop]
  dsimp only
  rw [hout, finish]
  by_cases hM : dest.toM = true
  · have hc : IsCell m.a := hcell (.inr hM)
    have hstore : m.ram.store m.a out = m.ram.set m.a.toNat out
        (by have := hc.2; unfold memorySize; omega) := by rw [Memory.store, dif_pos hc]
    simp only [hM, if_true, position?_of_isCell hc, hstore]
  · simp only [if_neg hM]

/-- **A computation that reaches for a cell that is not there** has been counted
and has done nothing else. -/
theorem step_compute_outside (h₀ : 0 ≤ m.a) (hno : ¬ IsCell m.a)
    (hreach : comp.operand = .m ∨ dest.toM = true) :
    m.step = .error ⟨.outside m.a (if comp.operand = .m then .read else .write),
      { m with steps := m.steps + 1 }⟩ := by
  have hpos := position?_of_not_isCell h₀ hno
  unfold step
  rw [hf]
  dsimp only
  cases ho : comp.operand with
  | m => simp only [operand?, Memory.get?, hpos, Option.map_none, if_true]
  | a =>
    have hM : dest.toM = true := hreach.resolve_left (by rw [ho]; decide)
    simp only [operand?, finish, hM, if_true, hpos, reduceCtorEq, if_false]

end Compute

/-- **One line that does not jump**, carried out by the machine. -/
theorem step_of_act? {m : Machine} {v : String → Nat} {l : Line} {ins : Instruction} {s : Data}
    (hf : m.fetch? = some ins) (hl : l.resolve v = some ins) (hs : l.isStraight = true)
    (ha : l.act? v m.data = some s) : m.step = .ok (m.advance 1 s) := by
  cases l with
  | label name => cases hl
  | address x =>
    obtain rfl : Instruction.address (v x) = ins := Option.some.inj hl
    obtain rfl : { m.data with a := v x } = s := Option.some.inj ha
    unfold step
    rw [hf]
    rfl
  | compute dest comp jump =>
    obtain rfl : Instruction.compute dest comp jump = ins := Option.some.inj hl
    obtain rfl : jump = .never := by simpa [Line.isStraight] using hs
    have hnever (out : Int) : Jump.never.takenOn out = false := by
      simp [Jump.takenOn, Jump.taken, Jump.bits]
    rw [Line.act?_compute] at ha
    split at ha
    next hcell =>
      obtain rfl := Option.some.inj ha
      rw [step_compute hf hcell rfl, settle]
      simp only [hnever]
      rfl
    next => cases ha

/-- A line leaves `A` at an address from 0 on. -/
theorem nonneg_of_act? {v : String → Nat} {l : Line} {s s' : Data} (h₀ : 0 ≤ s.a)
    (ha : l.act? v s = some s') : 0 ≤ s'.a := by
  cases l with
  | label name =>
    obtain rfl := Option.some.inj ha
    exact h₀
  | address x =>
    obtain rfl := Option.some.inj ha
    exact Int.natCast_nonneg _
  | compute dest comp jump =>
    rw [Line.act?_compute] at ha
    split at ha
    next =>
      obtain rfl := Option.some.inj ha
      dsimp only
      split
      · exact (isWord_wrap _).1
      · exact h₀
    next => cases ha

/-- A line that reaches for a cell that is not there stops the machine. -/
theorem step_of_act?_none {m : Machine} {v : String → Nat} {l : Line} {ins : Instruction}
    (hf : m.fetch? = some ins) (hl : l.resolve v = some ins) (h₀ : 0 ≤ m.a)
    (ha : l.act? v m.data = none) : ∃ h, m.step = .error h := by
  cases l with
  | label name => cases hl
  | address x => cases ha
  | compute dest comp jump =>
    obtain rfl : Instruction.compute dest comp jump = ins := Option.some.inj hl
    rw [Line.act?_compute] at ha
    split at ha
    next => cases ha
    next hcell =>
      obtain ⟨hreach, hno⟩ := Classical.not_imp.mp hcell
      exact ⟨_, step_compute_outside hf h₀ hno hreach⟩

/-- **The first of some lines, carried out**: a label costs no step and leaves all
as it was, and an instruction costs one. -/
theorem HasLines.step_cons {m : Machine} {v : String → Nat} {p : Nat} {l : Line} {ls : List Line}
    {s : Data} (h : m.HasLines v p (l :: ls)) (hpc : m.pc = p) (hs : l.isStraight = true)
    (ha : l.act? v m.data = some s) :
    (m.data = s ∧ Line.size (l :: ls) = Line.size ls ∧ m.HasLines v p ls) ∨
    (m.step = .ok (m.advance 1 s) ∧ Line.size (l :: ls) = 1 + Line.size ls ∧
      m.HasLines v (p + 1) ls) := by
  cases hl : l.resolve v with
  | none =>
    obtain ⟨name, rfl⟩ := Line.eq_label_of_resolve hl
    exact .inl ⟨Option.some.inj ha, Line.size_cons_label name ls, h⟩
  | some ins =>
    have hcode := Line.isCode_of_resolve hl
    exact .inr ⟨step_of_act? (h.fetch? hl hpc) hl hs ha, Line.size_cons_of_isCode hcode ls,
      h.tail hcode⟩

/-- **Lines that lie in a program run as they read**, and while they do the
program counter moves up through them. -/
theorem HasLines.passage {m : Machine} {v : String → Nat} {p : Nat} {ls : List Line} {s : Data}
    {lo hi : Int} (h : m.HasLines v p ls) (hpc : m.pc = p)
    (hs : ls.all Line.isStraight = true) (hr : runLines v ls m.data = some s)
    (hlo : lo ≤ p) (hhi : (p + Line.size ls : Nat) ≤ hi) :
    Passage lo hi (Line.size ls) m (m.advance (Line.size ls) s) := by
  induction ls generalizing m p with
  | nil =>
    obtain rfl : m.data = s := Option.some.inj hr
    rw [Line.size_nil, advance_zero]
    exact Passage.refl lo hi m
  | cons l ls ih =>
    rw [List.all_cons, Bool.and_eq_true] at hs
    obtain ⟨s₁, hact, hrest⟩ := Option.bind_eq_some_iff.mp hr
    rcases h.step_cons hpc hs.1 hact with ⟨rfl, hsize, hnext⟩ | ⟨hstep, hsize, hnext⟩
    · rw [hsize] at hhi ⊢
      exact ih hnext hpc hs.2 hrest hlo hhi
    · rw [hsize] at hhi ⊢
      rw [← advance_advance m 1 (Line.size ls) s₁ s]
      refine (Passage.single hstep).trans
        (ih (hnext.advance 1 s₁) (by simp [hpc]) hs.2 hrest (by omega) (by omega)) ?_
      intro _ hpos
      rw [pc_advance, hpc]
      omega

/-- **Lines that reach for a cell that is not there** stop the machine on its way
through them. -/
theorem HasLines.stuck {m : Machine} {v : String → Nat} {p : Nat} {ls : List Line}
    {lo hi : Int} (h : m.HasLines v p ls) (hpc : m.pc = p) (h₀ : 0 ≤ m.a)
    (hs : ls.all Line.isStraight = true) (hr : runLines v ls m.data = none)
    (hlo : lo ≤ p) (hhi : (p + Line.size ls : Nat) ≤ hi) :
    ∃ n m', Passage lo hi n m m' ∧ m'.pc = p + n ∧ n < Line.size ls ∧
      ∃ halt, m'.step = .error halt := by
  induction ls generalizing m p with
  | nil => cases hr
  | cons l ls ih =>
    rw [List.all_cons, Bool.and_eq_true] at hs
    rw [runLines_cons] at hr
    cases hact : l.act? v m.data with
    | none =>
      cases hl : l.resolve v with
      | none =>
        obtain ⟨name, rfl⟩ := Line.eq_label_of_resolve hl
        cases hact
      | some ins =>
        refine ⟨0, m, Passage.refl lo hi m, by simpa using hpc, ?_,
          step_of_act?_none (h.fetch? hl hpc) hl h₀ hact⟩
        rw [Line.size_cons_of_isCode (Line.isCode_of_resolve hl)]
        omega
    | some s₁ =>
      rw [hact, Option.bind_some] at hr
      rcases h.step_cons hpc hs.1 hact with ⟨rfl, hsize, hnext⟩ | ⟨hstep, hsize, hnext⟩
      · rw [hsize] at hhi ⊢
        exact ih hnext hpc h₀ hs.2 hr hlo hhi
      · rw [hsize] at hhi ⊢
        obtain ⟨n, m', hp, hpc', hn, hhalt⟩ := ih (hnext.advance 1 s₁) (by simp [hpc])
          (nonneg_of_act? h₀ hact) hs.2 hr (by omega) (by omega)
        refine ⟨1 + n, m', (Passage.single hstep).trans hp fun _ _ => ?_, by omega, by omega, hhalt⟩
        rw [pc_advance, hpc]
        omega

/-- Code that starts by loading `A` does not depend on what was there. -/
theorem HasLines.stuck_address {m : Machine} {v : String → Nat} {p : Nat} {x : String}
    {ls : List Line} {lo hi : Int} (h : m.HasLines v p (.address x :: ls)) (hpc : m.pc = p)
    (hs : ls.all Line.isStraight = true) (hr : runLines v (.address x :: ls) m.data = none)
    (hlo : lo ≤ p) (hhi : (p + Line.size (.address x :: ls) : Nat) ≤ hi) :
    ∃ n m', Passage lo hi n m m' ∧ 0 < n ∧ m'.pc = p + n ∧ n < Line.size (.address x :: ls) ∧
      ∃ halt, m'.step = .error halt := by
  have hstep : m.step = .ok (m.advance 1 { m.data with a := v x }) :=
    step_of_act? (v := v) (l := .address x) (h.fetch? rfl hpc) rfl rfl rfl
  have hnext : m.HasLines v (p + 1) ls := h.tail rfl
  rw [Line.size_cons_address] at hhi ⊢
  have hlo' : lo ≤ (p + 1 : Nat) := by omega
  have hhi' : (p + 1 + Line.size ls : Nat) ≤ hi := by omega
  obtain ⟨n, m', hp, hpc', hn, hhalt⟩ := (hnext.advance 1 { m.data with a := v x }).stuck
    (by simp [hpc]) (Int.natCast_nonneg _) hs hr hlo' hhi'
  refine ⟨1 + n, m', (Passage.single hstep).trans hp fun _ _ => ?_, by omega, by omega, by omega,
    hhalt⟩
  rw [pc_advance, hpc]
  omega

end Machine

end HackStack
