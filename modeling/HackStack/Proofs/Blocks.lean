import HackStack.Emitter
import HackStack.Proofs.Meaning
import HackStack.Proofs.StraightLine

/-!
# Blocks that run straight on

What the generated blocks do to registers and memory when they are run as
straight-line code, from the two-line blocks that follow the stack pointer
up to a whole push, pop or operator. Each statement says exactly what the
block leaves in `A`, `D` and memory, under the weakest conditions on where
the stack and the cells lie, and the longer blocks are put together from the
shorter ones.

The conditions are the same throughout: memory holds words, the symbol of
the stack pointer stands for a cell, and a cell that the block stores in is
there and is not the stack pointer itself.
-/

namespace HackStack

open Word

variable {v : String → Nat} {m : Memory} {a d : Int}

/-! ## One line -/

theorem runLines_address (x : String) (ls : List Line) :
    runLines v (.address x :: ls) ⟨a, d, m⟩ = runLines v ls ⟨v x, d, m⟩ := rfl

theorem runLines_label (x : String) (ls : List Line) :
    runLines v (.label x :: ls) ⟨a, d, m⟩ = runLines v ls ⟨a, d, m⟩ := rfl

theorem runLines_set_d {c : Comp} (ls : List Line) (hc : c.isConjunction = false)
    (h : c.operand = .m → IsCell a) :
    runLines v (.set .d c :: ls) ⟨a, d, m⟩
      = runLines v ls ⟨a, wrap (c.value d (Line.secondOperand ⟨a, d, m⟩ c.operand)), m⟩ := by
  rw [Line.set, runLines_cons, Line.act?_compute,
    if_pos (fun ho => h (ho.resolve_right (by decide))), Comp.apply_eq_wrap hc]
  rfl

theorem runLines_set_a {c : Comp} (ls : List Line) (hc : c.isConjunction = false)
    (h : c.operand = .m → IsCell a) :
    runLines v (.set .a c :: ls) ⟨a, d, m⟩
      = runLines v ls ⟨wrap (c.value d (Line.secondOperand ⟨a, d, m⟩ c.operand)), d, m⟩ := by
  rw [Line.set, runLines_cons, Line.act?_compute,
    if_pos (fun ho => h (ho.resolve_right (by decide))), Comp.apply_eq_wrap hc, wrap_wrap]
  rfl

theorem runLines_set_m {c : Comp} (ls : List Line) (hc : c.isConjunction = false)
    (h : IsCell a) :
    runLines v (.set .m c :: ls) ⟨a, d, m⟩
      = runLines v ls
          ⟨a, d, m.store a (wrap (c.value d (Line.secondOperand ⟨a, d, m⟩ c.operand)))⟩ := by
  rw [Line.set, runLines_cons, Line.act?_compute, if_pos (fun _ => h), Comp.apply_eq_wrap hc]
  rfl

/-- On words every computation can be stored, the plain conjunction included. -/
theorem runLines_set_m_of_words {c : Comp} (ls : List Line) (hm : m.Words) (hd : IsWord d)
    (ha : IsCell a) :
    runLines v (.set .m c :: ls) ⟨a, d, m⟩
      = runLines v ls
          ⟨a, d, m.store a (wrap (c.value d (Line.secondOperand ⟨a, d, m⟩ c.operand)))⟩ := by
  have hy : IsWord (Line.secondOperand ⟨a, d, m⟩ c.operand) := by
    cases c.operand with
    | a => exact ⟨ha.1, by have := ha.2; show a < 65536; omega⟩
    | m => exact hm a
  rw [Line.set, runLines_cons, Line.act?_compute, if_pos (fun _ => ha),
    Comp.apply_eq_of_words c hd hy]
  rfl

/-- `A=M` follows a pointer. -/
theorem runLines_follow (ls : List Line) (hm : m.Words) (ha : IsCell a) :
    runLines v (.set .a (.y .m) :: ls) ⟨a, d, m⟩ = runLines v ls ⟨m.cell a, d, m⟩ := by
  rw [runLines_set_a ls rfl (fun _ => ha)]
  show runLines v ls ⟨wrap (m.cell a), d, m⟩ = _
  rw [hm.wrap_cell]

/-- `D=M` reads a cell. -/
theorem runLines_read (ls : List Line) (hm : m.Words) (ha : IsCell a) :
    runLines v (.set .d (.y .m) :: ls) ⟨a, d, m⟩ = runLines v ls ⟨a, m.cell a, m⟩ := by
  rw [runLines_set_d ls rfl (fun _ => ha)]
  show runLines v ls ⟨a, wrap (m.cell a), m⟩ = _
  rw [hm.wrap_cell]

/-- `D=A` keeps an address. -/
theorem runLines_keep (ls : List Line) (ha : IsWord a) :
    runLines v (.set .d (.y .a) :: ls) ⟨a, d, m⟩ = runLines v ls ⟨a, a, m⟩ := by
  rw [runLines_set_d ls rfl (fun h => by cases h)]
  show runLines v ls ⟨a, wrap a, m⟩ = _
  rw [ha.wrap_eq]

/-- `M=D` writes a cell. -/
theorem runLines_write (ls : List Line) (hd : IsWord d) (ha : IsCell a) :
    runLines v (.set .m .d :: ls) ⟨a, d, m⟩ = runLines v ls ⟨a, d, m.store a d⟩ := by
  rw [runLines_set_m ls rfl ha]
  show runLines v ls ⟨a, d, m.store a (wrap d)⟩ = _
  rw [hd.wrap_eq]

theorem IsCell.isWord {a : Int} (h : IsCell a) : IsWord a := ⟨h.1, by have := h.2; omega⟩

/-! ## Around the stack pointer -/

section Stack

variable {r : RegisterFile} (hsp : IsCell (v r.sp))

include hsp

theorem runLines_toStack (hm : m.Words) :
    runLines v (Block.toStack r.sp) ⟨a, d, m⟩ = some ⟨m.cell (v r.sp), d, m⟩ := by
  rw [Block.toStack, runLines_address, runLines_follow _ hm hsp]
  rfl

theorem runLines_grow :
    runLines v (Block.grow r.sp) ⟨a, d, m⟩
      = some ⟨v r.sp, d, m.store (v r.sp) (wrap (m.cell (v r.sp) + 1))⟩ := by
  rw [Block.grow, runLines_address, runLines_set_m _ rfl hsp]
  rfl

theorem runLines_shrink :
    runLines v (Block.shrink r.sp) ⟨a, d, m⟩ = some ⟨v r.sp, d, m.drop (r.cells v)⟩ := by
  rw [Block.shrink, runLines_address, runLines_set_m _ rfl hsp]
  rfl

/-- **The block that pushes `D`.** -/
theorem runLines_pushD (hm : m.Words) (hd : IsWord d) (hs : IsCell (m.cell (v r.sp)))
    (hne : m.cell (v r.sp) ≠ v r.sp) :
    runLines v (Block.pushD r.sp) ⟨a, d, m⟩ = some ⟨v r.sp, d, m.push (r.cells v) d⟩ := by
  rw [Block.pushD, runLines_append, runLines_append, runLines_toStack hsp hm, Option.bind_some,
    runLines_write _ hd hs, runLines_nil, Option.bind_some, runLines_grow hsp,
    Memory.cell_store_of_ne _ hne.symm]
  rfl

/-- **The block that pops into `D`.** It leaves `A` at the word that was on
top. -/
theorem runLines_popD (hm : m.Words) (ht : IsCell (m.fromTop (r.cells v) 1))
    (hne : m.fromTop (r.cells v) 1 ≠ v r.sp) :
    runLines v (Block.popD r.sp) ⟨a, d, m⟩
      = some ⟨m.fromTop (r.cells v) 1, m.cell (m.fromTop (r.cells v) 1), m.drop (r.cells v)⟩ := by
  have hm' : (m.drop (r.cells v)).Words := hm.store _ (isWord_wrap _)
  have hsp' : (m.drop (r.cells v)).cell (v r.sp) = m.fromTop (r.cells v) 1 :=
    Memory.cell_store_self m hsp _
  rw [Block.popD, runLines_append, runLines_append, runLines_shrink hsp, Option.bind_some,
    runLines_toStack hsp hm', Option.bind_some, hsp', runLines_read _ hm' ht]
  show some (Data.mk _ ((m.drop (r.cells v)).cell _) _) = _
  rw [Memory.drop, Memory.cell_store_of_ne m hne]

end Stack

namespace Memory

variable {k : Cells} (hsp : IsCell k.sp)

/-- One step up from a word on the stack is the word above it. -/
theorem wrap_fromTop_add_one (k : Cells) (m : Memory) (n : Nat) :
    wrap (m.fromTop k (n + 1) + 1) = m.fromTop k n := by
  simp only [fromTop, wrap_eq_emod]
  omega

theorem fromTop_zero {m : Memory} (hm : m.Words) : m.fromTop k 0 = m.cell k.sp := by
  rw [fromTop, Nat.cast_zero, Int.sub_zero, hm.wrap_cell]

theorem Words.drop {m : Memory} (hm : m.Words) : (m.drop k).Words := hm.store _ (isWord_wrap _)

theorem Words.push {m : Memory} {x : Int} (hm : m.Words) (hx : IsWord x) : (m.push k x).Words :=
  (hm.store _ hx).store _ (isWord_wrap _)

include hsp in
theorem cell_sp_drop (m : Memory) : (m.drop k).cell k.sp = m.fromTop k 1 :=
  cell_store_self m hsp _

theorem cell_drop {a : Int} (h : a ≠ k.sp) (m : Memory) : (m.drop k).cell a = m.cell a :=
  cell_store_of_ne m h _

include hsp in
/-- Without its top word, the stack is counted from one further down. -/
theorem fromTop_drop (m : Memory) (n : Nat) : (m.drop k).fromTop k n = m.fromTop k (n + 1) := by
  rw [fromTop, cell_sp_drop hsp]
  simp only [fromTop, wrap_eq_emod]
  omega

end Memory

/-! ## Operators -/

section Operators

variable {r : RegisterFile} (hsp : IsCell (v r.sp)) (hm : m.Words)

include hsp hm

/-- **The code of a unary operator** works on the top of the stack in place. -/
theorem runLines_unary (op : Unary) (ht : IsCell (m.fromTop (r.cells v) 1))
    (hne : m.fromTop (r.cells v) 1 ≠ v r.sp) :
    ∃ s, runLines v (Block.shrink r.sp ++ Block.toStack r.sp
        ++ [.set .m (Emitter.unaryComp op)] ++ Block.grow r.sp) ⟨a, d, m⟩ = some s ∧
      s.ram = m.store (m.fromTop (r.cells v) 1)
        (op.eval (m.cell (m.fromTop (r.cells v) 1))) := by
  have hcomp : (Emitter.unaryComp op).isConjunction = false := by cases op <;> rfl
  have hop : (Emitter.unaryComp op).operand = .m := by cases op <;> rfl
  have hval (x y : Int) : wrap ((Emitter.unaryComp op).value x y) = op.eval y := by
    cases op <;> rfl
  rw [runLines_append, runLines_append, runLines_append, runLines_shrink hsp, Option.bind_some,
    runLines_toStack hsp hm.drop, Option.bind_some, Memory.cell_sp_drop hsp,
    runLines_set_m _ hcomp ht, runLines_nil, Option.bind_some, runLines_grow hsp, hop, hval]
  refine ⟨_, rfl, Memory.ext_cell fun b _ => ?_⟩
  -- the stack pointer is back where it was
  show ((Memory.store _ _ _).store _ _).cell b = _
  rw [Memory.cell_store_of_ne _ hne.symm, Memory.cell_sp_drop hsp, Memory.wrap_fromTop_add_one,
    Memory.fromTop_zero hm]
  show ((Memory.store _ _ ((op.eval ((m.drop _).cell _)))).store _ _).cell b = _
  rw [Memory.cell_drop hne]
  by_cases hb : b = v r.sp
  · subst hb
    rw [Memory.cell_store_self _ hsp, Memory.cell_store_of_ne _ hne.symm]
  · rw [Memory.cell_store_of_ne _ hb, Memory.cell_store _ ht, Memory.cell_store _ ht,
      Memory.cell_drop hb]

/-- The block that takes the top word into `D` and lets `A` point at the word
below it. -/
theorem runLines_popTwo (ht : IsCell (m.fromTop (r.cells v) 1))
    (hne : m.fromTop (r.cells v) 1 ≠ v r.sp) :
    runLines v (Block.popD r.sp ++ Block.shrink r.sp ++ Block.toStack r.sp) ⟨a, d, m⟩
      = some ⟨m.fromTop (r.cells v) 2, m.cell (m.fromTop (r.cells v) 1),
          (m.drop (r.cells v)).drop (r.cells v)⟩ := by
  rw [runLines_append, runLines_append, runLines_popD hsp hm ht hne, Option.bind_some,
    runLines_shrink hsp, Option.bind_some, runLines_toStack hsp hm.drop.drop,
    Memory.cell_sp_drop hsp, Memory.fromTop_drop hsp]

omit hm in
/-- The stack pointer moves back up over a result. -/
theorem runLines_grow_drop {x : Int} (h₁ : m.fromTop (r.cells v) 2 ≠ v r.sp)
    (h₂ : IsCell (m.fromTop (r.cells v) 2)) :
    runLines v (Block.grow r.sp)
        ⟨a, d, ((m.drop (r.cells v)).drop (r.cells v)).store (m.fromTop (r.cells v) 2) x⟩
      = some ⟨v r.sp, d, (m.drop (r.cells v)).store (m.fromTop (r.cells v) 2) x⟩ := by
  rw [runLines_grow hsp, Memory.cell_store_of_ne _ h₁.symm, Memory.cell_sp_drop hsp,
    Memory.fromTop_drop hsp, Memory.wrap_fromTop_add_one]
  congr 2
  refine Memory.ext_cell fun b _ => ?_
  by_cases hb : b = v r.sp
  · subst hb
    rw [Memory.cell_store_self _ hsp, Memory.cell_store_of_ne _ h₁.symm, Memory.cell_sp_drop hsp]
  · rw [Memory.cell_store_of_ne _ hb, Memory.cell_store _ h₂, Memory.cell_store _ h₂,
      Memory.cell_drop hb]

/-- **The code of a binary operator** replaces the two words on top of the
stack. -/
theorem runLines_binary (op : Binary) (ht₁ : IsCell (m.fromTop (r.cells v) 1))
    (hne₁ : m.fromTop (r.cells v) 1 ≠ v r.sp) (ht₂ : IsCell (m.fromTop (r.cells v) 2))
    (hne₂ : m.fromTop (r.cells v) 2 ≠ v r.sp) :
    ∃ s, runLines v (Block.popD r.sp ++ Block.shrink r.sp ++ Block.toStack r.sp
        ++ [.set .m (Emitter.binaryComp op)] ++ Block.grow r.sp) ⟨a, d, m⟩ = some s ∧
      s.ram = (m.drop (r.cells v)).store (m.fromTop (r.cells v) 2)
        (op.eval (m.cell (m.fromTop (r.cells v) 2)) (m.cell (m.fromTop (r.cells v) 1))) := by
  have hop : (Emitter.binaryComp op).operand = .m := by cases op <;> rfl
  -- the first operand is in `M` and the second in `D`
  have hval (x y : Int) : wrap ((Emitter.binaryComp op).value y x) = op.eval x y := by
    cases op with
    | add => exact congrArg wrap (Int.add_comm y x)
    | sub => rfl
    | and => exact congrArg wrap (conj_comm y x)
    | or => exact congrArg wrap (disj_comm y x)
  rw [runLines_append, runLines_append, runLines_popTwo hsp hm ht₁ hne₁, Option.bind_some,
    runLines_set_m_of_words _ hm.drop.drop (hm _) ht₂, runLines_nil, Option.bind_some, hop, hval,
    runLines_grow_drop hsp hne₂ ht₂]
  refine ⟨_, rfl, ?_⟩
  show Memory.store _ _ (op.eval (((m.drop _).drop _).cell _) _) = _
  rw [Memory.cell_drop hne₂, Memory.cell_drop hne₂]

end Operators

/-! ## Segments -/

/-- The symbol of a static variable. -/
def Emitter.staticSymbol (e : Emitter) (index : Nat) : String :=
  shownName e.staticScope ++ "." ++ toString index

/-- Values of operands in which numerals have their own value and the numbered
registers stand for the first cells. -/
structure Standard (v : String → Nat) : Prop where
  numeral : ∀ n : Nat, n < 32768 → v (toString (n : Int)) = n
  register : ∀ n : Nat, n < 16 → v ("R" ++ toString n) = n

/-- A number of fifteen bits is loaded as it is. -/
theorem runLines_constant (hv : Standard v) {n : Int} (h : IsCell n) (ls : List Line) :
    runLines v (.constant n :: ls) ⟨a, d, m⟩ = runLines v ls ⟨n, d, m⟩ := by
  obtain ⟨i, rfl⟩ := Int.eq_ofNat_of_zero_le h.1
  have hi : v (toString (i : Int)) = i := hv.numeral i (by have := h.2; omega)
  rw [Line.constant, runLines_address, hi]

/-- Whether an index can be loaded where code has to load it: it is a number of
fifteen bits unless the segment needs no such number. -/
def Segment.Loads (s : Segment) (index : Nat) : Prop := ∀ b, s = .indirect b → index < 32768

namespace Emitter

variable {e : Emitter} {segment : Segment} {index : Nat} {code : List Line}

/-- The code of a push is its address code, a load and the push of `D`. -/
theorem pushCode_eq_ok (h : e.pushCode segment index = .ok code) :
    ∃ address, e.addressCode segment index = .ok address ∧
      code = address ++ [.set .d (if segment = .constant then .y .a else .y .m)]
        ++ Block.pushD e.regs.sp := by
  unfold pushCode at h
  cases ha : e.addressCode segment index with
  | error f => rw [ha] at h; cases h
  | ok address =>
    rw [ha] at h
    exact ⟨address, rfl, (Except.ok.inj h).symm⟩

/-- The code of a pop keeps the address, pops `D` and stores it there. -/
theorem popCode_eq_ok (h : e.popCode segment index = .ok code) :
    segment ≠ .constant ∧ ∃ address, e.addressCode segment index = .ok address ∧
      code = address ++ [.set .d (.y .a), .address e.regs.scratch, .set .m .d]
        ++ Block.popD e.regs.sp
        ++ [.address e.regs.scratch, .set .a (.y .m), .set .m .d] := by
  unfold popCode at h
  by_cases hc : segment = .constant
  · rw [if_pos hc] at h
    cases h
  · rw [if_neg hc] at h
    refine ⟨hc, ?_⟩
    cases ha : e.addressCode segment index with
    | error f => rw [ha] at h; cases h
    | ok address =>
      rw [ha] at h
      exact ⟨address, rfl, (Except.ok.inj h).symm⟩

/-- A cell of a fixed block is loaded by its register, and the index is inside
the block. -/
theorem addressCode_block {block : Segment.Block}
    (hs : e.addressCode segment index
      = (do let address ← segment.fixedAddress index; return [.address ("R" ++ toString address)]))
    (hb : segment.block? = some block) (h : e.addressCode segment index = .ok code) :
    index < block.size ∧ code = [.address ("R" ++ toString (block.base + index))] := by
  rw [hs, Segment.fixedAddress, hb] at h
  dsimp only at h
  split at h
  next hlt =>
    obtain rfl := Except.ok.inj h
    exact ⟨by omega, by rw [Int.toNat_natCast]⟩
  next => cases h

/-- **The code of an address** lets `A` hold the address of the cell, and
changes no cell. -/
theorem runLines_addressCode {site : Site} (h : e.addressCode segment index = .ok code)
    (hv : Standard v) (hl : segment.Loads index) (hm : m.Words)
    (hstatic : site.static index = v (e.staticSymbol index))
    (hbase : ∀ b, IsCell (v (e.regs.base b))) :
    ∃ d', runLines v code ⟨a, d, m⟩
      = some ⟨segment.address (e.regs.cells v) site m index, d', m⟩ := by
  cases segment with
  | constant =>
    unfold addressCode at h
    dsimp only at h
    split at h
    next => cases h
    next hle =>
      obtain rfl := Except.ok.inj h
      refine ⟨d, ?_⟩
      rw [runLines_constant hv ⟨by omega, by unfold maxConstant at hle; omega⟩]
      rfl
  | static =>
    obtain rfl := Except.ok.inj h
    refine ⟨d, ?_⟩
    rw [runLines_address]
    show some (Data.mk (v (e.staticSymbol index)) d m) = some ⟨site.static index, d, m⟩
    rw [hstatic]
  | pointer =>
    obtain ⟨hlt, rfl⟩ := addressCode_block rfl rfl h
    refine ⟨d, ?_⟩
    rw [runLines_address, hv.register _ (by dsimp only at hlt ⊢; omega)]
    rfl
  | temp =>
    obtain ⟨hlt, rfl⟩ := addressCode_block rfl rfl h
    refine ⟨d, ?_⟩
    rw [runLines_address, hv.register _ (by dsimp only at hlt ⊢; omega)]
    rfl
  | indirect b =>
    obtain rfl := Except.ok.inj h
    have hi : IsCell (index : Int) := ⟨by omega, by have := hl b rfl; omega⟩
    refine ⟨index, ?_⟩
    rw [Block.loadConstant, List.cons_append, List.cons_append, List.nil_append,
      runLines_constant hv hi, runLines_keep _ hi.isWord, runLines_address,
      runLines_follow _ hm (hbase b), runLines_set_a _ rfl (fun h => by cases h), runLines_nil,
      Segment.address, RegisterFile.base_cells]
    simp only [Comp.value, Comp.operand, Line.secondOperand, Int.add_comm]

/-! ## Push and pop -/

section PushPop

variable {site : Site} (hv : Standard v) (hl : segment.Loads index) (hm : m.Words)
  (hstatic : site.static index = v (e.staticSymbol index))
  (hbase : ∀ b, IsCell (v (e.regs.base b))) (hsp : IsCell (v e.regs.sp))

include hv hl hm hstatic hbase hsp

/-- **The code of a push.** -/
theorem runLines_pushCode (h : e.pushCode segment index = .ok code)
    (hs : IsCell (m.cell (v e.regs.sp))) (hne : m.cell (v e.regs.sp) ≠ v e.regs.sp)
    (ha : segment ≠ .constant → IsCell (segment.address (e.regs.cells v) site m index)) :
    ∃ s, runLines v code ⟨a, d, m⟩ = some s ∧
      s.ram = m.push (e.regs.cells v) (segment.word (e.regs.cells v) site m index) ∧
      s.ram.Words := by
  obtain ⟨address, haddress, rfl⟩ := pushCode_eq_ok h
  obtain ⟨d', hrun⟩ := runLines_addressCode (a := a) (d := d) haddress hv hl hm hstatic hbase
  rw [runLines_append, runLines_append, hrun, Option.bind_some]
  unfold Segment.word
  by_cases hc : segment = .constant
  · subst hc
    have hi : index ≤ 32767 := by
      unfold addressCode maxConstant at haddress
      dsimp only at haddress
      split at haddress
      next => cases haddress
      next hle => omega
    have hw : IsWord (index : Int) := ⟨by omega, by omega⟩
    rw [if_pos rfl, if_pos rfl, Segment.address, runLines_keep _ hw, runLines_nil,
      Option.bind_some, runLines_pushD hsp hm hw hs hne]
    exact ⟨_, rfl, rfl, hm.push hw⟩
  · rw [if_neg hc, if_neg hc, runLines_read _ hm (ha hc), runLines_nil, Option.bind_some,
      runLines_pushD hsp hm (hm _) hs hne]
    exact ⟨_, rfl, rfl, hm.push (hm _)⟩

/-- The code of a pop up to its last line, which finds the word in `D` and the
address in `A`. The address is found before the stack changes. -/
theorem runLines_popped {address : List Line} (h : e.addressCode segment index = .ok address)
    (hscratch : IsCell (v e.regs.scratch)) (hapart : v e.regs.scratch ≠ v e.regs.sp)
    (ht : IsCell (m.fromTop (e.regs.cells v) 1))
    (htsp : m.fromTop (e.regs.cells v) 1 ≠ v e.regs.sp)
    (htsc : m.fromTop (e.regs.cells v) 1 ≠ v e.regs.scratch)
    (ha : IsWord (segment.address (e.regs.cells v) site m index)) (ls : List Line) :
    runLines v (address ++ [Line.set .d (.y .a), Line.address e.regs.scratch, Line.set .m .d]
        ++ Block.popD e.regs.sp
        ++ Line.address e.regs.scratch :: Line.set .a (.y .m) :: ls) ⟨a, d, m⟩
      = runLines v ls ⟨segment.address (e.regs.cells v) site m index,
        m.cell (m.fromTop (e.regs.cells v) 1),
        (m.store (v e.regs.scratch) (segment.address (e.regs.cells v) site m index)).drop
          (e.regs.cells v)⟩ := by
  obtain ⟨d', hrun⟩ := runLines_addressCode (a := a) (d := d) h hv hl hm hstatic hbase
  generalize hadr : segment.address (e.regs.cells v) site m index = adr at *
  -- keeping the address moves neither the stack pointer nor the word on top
  have hm₁ : (m.store (v e.regs.scratch) adr).Words := hm.store _ ha
  have htop : (m.store (v e.regs.scratch) adr).fromTop (e.regs.cells v) 1
      = m.fromTop (e.regs.cells v) 1 := by
    unfold Memory.fromTop
    rw [Memory.cell_store_of_ne m (by simpa using hapart.symm)]
  have hword : (m.store (v e.regs.scratch) adr).cell (m.fromTop (e.regs.cells v) 1)
      = m.cell (m.fromTop (e.regs.cells v) 1) := Memory.cell_store_of_ne m htsc _
  have hkept : ((m.store (v e.regs.scratch) adr).drop (e.regs.cells v)).cell (v e.regs.scratch)
      = adr := by
    unfold Memory.drop
    rw [Memory.cell_store_of_ne _ (by simpa using hapart), Memory.cell_store_self m hscratch]
  rw [runLines_append, runLines_append, runLines_append, hrun, Option.bind_some,
    runLines_keep _ ha, runLines_address, runLines_write _ ha hscratch, runLines_nil,
    Option.bind_some, runLines_popD hsp hm₁ (by rw [htop]; exact ht) (by rw [htop]; exact htsp),
    Option.bind_some, runLines_address, runLines_follow _ hm₁.drop hscratch, hkept, htop, hword]

/-- **The code of a pop.** -/
theorem runLines_popCode (h : e.popCode segment index = .ok code)
    (hscratch : IsCell (v e.regs.scratch)) (hapart : v e.regs.scratch ≠ v e.regs.sp)
    (ht : IsCell (m.fromTop (e.regs.cells v) 1))
    (htsp : m.fromTop (e.regs.cells v) 1 ≠ v e.regs.sp)
    (htsc : m.fromTop (e.regs.cells v) 1 ≠ v e.regs.scratch)
    (ha : IsCell (segment.address (e.regs.cells v) site m index)) :
    ∃ s, runLines v code ⟨a, d, m⟩ = some s ∧
      s.ram = ((m.store (v e.regs.scratch) (segment.address (e.regs.cells v) site m index)).drop
          (e.regs.cells v)).store (segment.address (e.regs.cells v) site m index)
        (m.cell (m.fromTop (e.regs.cells v) 1)) ∧
      s.ram.Words := by
  obtain ⟨-, address, haddress, rfl⟩ := popCode_eq_ok h
  rw [runLines_popped hv hl hm hstatic hbase hsp haddress hscratch hapart ht htsp htsc ha.isWord,
    runLines_write _ (hm _) ha, runLines_nil]
  exact ⟨_, rfl, rfl, (hm.store _ ha.isWord).drop.store _ (hm _)⟩

end PushPop

end Emitter

end HackStack
