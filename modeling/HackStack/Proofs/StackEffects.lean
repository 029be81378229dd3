import HackStack.Proofs.Embedding

/-!
# What the block of a stack command does to memory

The exact memory that the code of a push, a pop or an operator leaves, for
any register file. The convention's cells may lie anywhere, as long as they
are told apart; the stack and the segments may run into them. What is asked
of a command (`Command.StackReady`) is only that the words it takes from the
stack or puts there have cells, and that none of these is the stack pointer,
or for a pop the cell that keeps the address of its target.

Under these conditions the block ends behind its last instruction, with the
stores of `Command.stackEffect` made in that order and no cell changed
besides (`Emitter.stack_block`).
-/

namespace HackStack

open Word

namespace Command

variable (k : Cells) (site : Site) (m : Memory)

/-- **Whether the cells that a stack command works on are there**, and are not
those that its code is working with meanwhile. Other commands are not spoken
of. -/
def StackReady : Command → Prop
  | .push segment index =>
    k.OffPointer (m.cell k.sp) ∧ (segment ≠ .constant → IsCell (segment.address k site m index))
  | .pop segment index =>
    k.OffPointer (m.fromTop k 1) ∧ m.fromTop k 1 ≠ k.scratch ∧
      IsCell (segment.address k site m index)
  | .arithmetic (.unary _) => k.OffPointer (m.fromTop k 1)
  | .arithmetic (.binary _) | .arithmetic (.comparison _) =>
    k.OffPointer (m.fromTop k 1) ∧ k.OffPointer (m.fromTop k 2)
  | _ => False

instance : DecidablePred (StackReady k site m)
  | .push _ _ => inferInstanceAs (Decidable (_ ∧ (_ → _)))
  | .pop _ _ => inferInstanceAs (Decidable (_ ∧ _ ∧ _))
  | .arithmetic (.unary _) => inferInstanceAs (Decidable (Cells.OffPointer _ _))
  | .arithmetic (.binary _) | .arithmetic (.comparison _) => inferInstanceAs (Decidable (_ ∧ _))
  | .label _ | .goto _ | .ifGoto _ | .function _ _ | .call _ _ | .ret =>
    inferInstanceAs (Decidable False)

/-- **The memory that a stack command leaves.** The address of the target of a
pop is that of before the pop, also where the target is the stack pointer or
the base it was found with. -/
def stackEffect : Command → Memory
  | .push segment index =>
    (m.store (m.cell k.sp) (segment.word k site m index)).store k.sp (wrap (m.cell k.sp + 1))
  | .pop segment index =>
    ((m.store k.scratch (segment.address k site m index)).store k.sp (m.fromTop k 1)).store
      (segment.address k site m index) (m.cell (m.fromTop k 1))
  | .arithmetic (.unary op) => m.store (m.fromTop k 1) (op.eval (m.cell (m.fromTop k 1)))
  | .arithmetic (.binary op) =>
    (m.store k.sp (m.fromTop k 1)).store (m.fromTop k 2)
      (op.eval (m.cell (m.fromTop k 2)) (m.cell (m.fromTop k 1)))
  | .arithmetic (.comparison op) =>
    (m.store k.sp (m.fromTop k 1)).store (m.fromTop k 2)
      (op.eval (m.cell (m.fromTop k 2)) (m.cell (m.fromTop k 1)))
  | _ => m

variable {k site m}

/-- The cells of an operator that is ready are off the stack pointer. -/
theorem StackReady.offPointer {op : Operator} (h : (arithmetic op).StackReady k site m) :
    ∀ b ∈ (arithmetic op).stackCells k m, k.OffPointer b := by
  cases op with
  | unary op => exact List.forall_mem_singleton.mpr h
  | binary op | comparison op =>
    exact List.forall_mem_cons.mpr ⟨h.1, List.forall_mem_singleton.mpr h.2⟩

theorem meaning_arithmetic (op : Operator) :
    (arithmetic op).meaning k site m = ⟨site.next, (arithmetic op).stackEffect k site m⟩ := by
  cases op <;> rfl

end Command

namespace Emitter

open Machine

variable {e : Emitter} {c : Command} {m₀ m : Machine} {p : Nat} {block : List Line}

/-- The block of an operator. Of the register file only the stack pointer
matters. -/
theorem arrives_operator {op : Operator} (h : m.AtBlock e (.arithmetic op) m₀ p block)
    (hsp : IsCell (m₀.symbols.value e.regs.sp))
    (hready : (Command.arithmetic op).StackReady (e.regs.cells m₀.symbols.value)
      (e.site m₀.symbols.value (p + Line.size block)) m.ram) :
    m.Arrives p block ⟨(p + Line.size block : Nat),
      (Command.arithmetic op).stackEffect (e.regs.cells m₀.symbols.value)
        (e.site m₀.symbols.value (p + Line.size block)) m.ram⟩ := by
  obtain rfl := Except.ok.inj h.code
  have hex : m.Executes [] p (e.operatorCode op) _ := executes_operator h.lines h.pc hsp h.words op
    rfl (h.embeds.labelsAt (e.plain_labelNames_operatorCode op)) hready.offPointer
    (e.site m₀.symbols.value (p + Line.size (e.operatorCode op))) rfl
  rw [Command.meaning_arithmetic] at hex
  exact hex.arrives

/-- **The block of a stack command, for any register file.** Let the names of the
stack pointer, the four bases and the scratch cell stand for six cells of
memory. From any memory of words that a push, a pop or an operator is ready
for, its block comes to the instruction behind it, and memory is as
`Command.stackEffect` says. -/
theorem stack_block (h : m.AtBlock e c m₀ p block) (hloads : c.Loads)
    (hregs : m₀.symbols.Separates e.regs.stackNames)
    (hready : c.StackReady (e.regs.cells m₀.symbols.value)
      (e.site m₀.symbols.value (p + Line.size block)) m.ram) :
    m.Arrives p block ⟨(p + Line.size block : Nat),
      c.stackEffect (e.regs.cells m₀.symbols.value)
        (e.site m₀.symbols.value (p + Line.size block)) m.ram⟩ := by
  have hv := h.embeds.standard
  have hsp : IsCell (m₀.symbols.value e.regs.sp) := hregs.isCell (by simp [RegisterFile.stackNames])
  have hbase (b : Base) : IsCell (m₀.symbols.value (e.regs.base b)) :=
    hregs.isCell (by cases b <;> simp [RegisterFile.stackNames, RegisterFile.base])
  have hcode := h.code
  cases c with
  | push segment index =>
    exact (executes_push h.lines h.pc hv hsp h.words hbase rfl hloads hcode hready.2
      hready.1).arrives
  | pop segment index =>
    have hscratch : IsCell (m₀.symbols.value e.regs.scratch) :=
      hregs.isCell (by simp [RegisterFile.stackNames])
    have hapart : m₀.symbols.value e.regs.scratch ≠ m₀.symbols.value e.regs.sp := by
      have hnd := hregs.nodup
      simp only [RegisterFile.stackNames, List.map_cons, List.map_nil, List.nodup_cons,
        List.mem_cons, not_or] at hnd
      exact fun heq => hnd.1.2.2.2.2.1 heq.symm
    have hex : m.Executes [] p block _ := executes_pop h.lines h.pc hv hsp h.words hbase rfl hloads
      hcode hscratch hapart hready.2.2 hready.1 hready.2.1
    -- the word that is kept has not moved the stack pointer
    rw [Memory.drop, Memory.fromTop,
      Memory.cell_store_of_ne _ (by exact_mod_cast hapart.symm)] at hex
    exact hex.arrives
  | arithmetic op => exact arrives_operator h hsp hready
  | _ => exact hready.elim

end Emitter

/-! ## A sample -/

namespace Sample

/-- A register file whose names are variables. -/
def renamed : RegisterFile where
  sp := "P"
  lcl := "L"
  arg := "G"
  thisPtr := "H"
  thatPtr := "T"
  scratch := "S"
  endFrame := "E"
  retAddr := "B"

/-- Lines that give these names the cells from 16 on. -/
def nameLines : List String := ["@P", "@L", "@G", "@H", "@T", "@S", "@E", "@B"]

/-- An emitter with these names. -/
def emitter : Emitter where
  program := none
  functionName := none
  staticScope := none
  regs := renamed

/-- A pop whose target is the stack pointer. -/
def popSelf : Command := .pop (.indirect .lcl) 2

def popLines : List Line := (emitter.code popSelf).toOption.getD []

/-- The word on top of the stack is 7, and the base of the segment two cells below
the stack pointer. -/
def popMemory : Memory := ((Memory.empty.store 16 300).store 17 14).store 299 7

theorem size_nameLines : Loading.size nameLines = 8 := by decide +kernel

theorem words_popMemory : popMemory.Words := by
  have h₁ : IsWord 300 := by decide
  have h₂ : IsWord 14 := by decide
  have h₃ : IsWord 7 := by decide
  exact ((Memory.words_empty.store 16 h₁).store 17 h₂).store 299 h₃

end Sample

/-- The word that is popped is the stack pointer afterwards. -/
theorem Emitter.stack_block_sample : ∃ m₀ m : Machine,
    m.AtBlock Sample.emitter Sample.popSelf m₀ 8 Sample.popLines ∧
    m₀.symbols.Separates Sample.renamed.stackNames ∧
    Sample.popSelf.StackReady (Sample.renamed.cells m₀.symbols.value)
      (Sample.emitter.site m₀.symbols.value (8 + Line.size Sample.popLines)) m.ram ∧
    m.Arrives 8 Sample.popLines ⟨(8 + Line.size Sample.popLines : Nat),
      Sample.popSelf.stackEffect (Sample.renamed.cells m₀.symbols.value)
        (Sample.emitter.site m₀.symbols.value (8 + Line.size Sample.popLines)) m.ram⟩ := by
  have hload : (Machine.load (Sample.nameLines ++ Sample.popLines.map Line.text ++ [])).toOption.any
      (fun m₀ => decide (m₀.symbols.Separates Sample.renamed.stackNames) &&
        decide (Sample.popSelf.StackReady (Sample.renamed.cells m₀.symbols.value)
          (Sample.emitter.site m₀.symbols.value (8 + Line.size Sample.popLines))
          Sample.popMemory)) = true := by decide +kernel
  obtain ⟨m₀, hm₀, hp⟩ := Loading.exists_load hload
  rw [Bool.and_eq_true, decide_eq_true_eq, decide_eq_true_eq] at hp
  have hat := Machine.AtBlock.of_load (d := .pop "local" (.int 2)) (c := Sample.popSelf)
    (e := Sample.emitter) (by decide) rfl hm₀ Sample.words_popMemory
  rw [Sample.size_nameLines] at hat
  have hloads : Sample.popSelf.Loads := fun _ _ => by decide
  have harrives := stack_block hat hloads hp.1 hp.2
  exact ⟨m₀, _, hat, hp.1, hp.2, harrives⟩

end HackStack
