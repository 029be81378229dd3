import HackStack.Proofs.Blocks

/-!
# Code that builds and takes down frames

The straight-line parts of the code of a function, a call and a return, up
to the jump at the end. A function pushes a zero for every local variable, a
call pushes five words and moves two bases, a return puts the result in
place and reads four words back. What they leave in memory is said with the
operations of the language's meaning: repeated `Memory.push`,
`Memory.enter` and `Memory.leave`.

`Memory.Room` is the condition on the stack: the cells that the next words
go to are there, and are none of those of the calling convention.
-/

namespace HackStack

open Word

variable {v : String → Nat} {m : Memory} {a d : Int}

namespace Cells

variable {k : Cells}

theorem Free.ne {b c : Int} (h : k.Free b) (hc : c ∈ k.all) : b ≠ c :=
  fun hbc => h.2 (hbc ▸ hc)

/-- Whether an address is a cell other than the stack pointer. -/
def OffPointer (k : Cells) (a : Int) : Prop := IsCell a ∧ a ≠ k.sp

instance (a : Int) : Decidable (k.OffPointer a) := inferInstanceAs (Decidable (_ ∧ _))

instance (a : Int) : Decidable (k.Free a) := inferInstanceAs (Decidable (_ ∧ _))

theorem mem_all_of_mem_main {b : Int} (h : b ∈ k.main) : b ∈ k.all := List.mem_append_left _ h

theorem mem_all_of_mem_work {b : Int} (h : b ∈ k.work) : b ∈ k.all := List.mem_append_right _ h

theorem sp_mem_main (k : Cells) : (k.sp : Int) ∈ k.main := by simp [main]

theorem Free.offPointer {b : Int} (h : k.Free b) : k.OffPointer b :=
  ⟨h.1, h.ne (mem_all_of_mem_main k.sp_mem_main)⟩

theorem lcl_mem_main (k : Cells) : (k.lcl : Int) ∈ k.main := by simp [main]

theorem arg_mem_main (k : Cells) : (k.arg : Int) ∈ k.main := by simp [main]

theorem scratch_mem_work (k : Cells) : (k.scratch : Int) ∈ k.work := by simp [work]

theorem endFrame_mem_work (k : Cells) : (k.endFrame : Int) ∈ k.work := by simp [work]

theorem retAddr_mem_work (k : Cells) : (k.retAddr : Int) ∈ k.work := by simp [work]

namespace Apart

variable (h : k.Apart)

include h

theorem isCell_main {b : Int} (hb : b ∈ k.main) : IsCell b := h.isCell _ (mem_all_of_mem_main hb)

theorem isCell_work {b : Int} (hb : b ∈ k.work) : IsCell b := h.isCell _ (mem_all_of_mem_work hb)

theorem isCell_sp : IsCell k.sp := h.isCell_main k.sp_mem_main

/-- Work in progress is kept away from what commands see. -/
theorem ne_of_mem {b w : Int} (hb : b ∈ k.main) (hw : w ∈ k.work) : b ≠ w :=
  fun hbw => List.disjoint_of_nodup_append h.nodup hb (hbw ▸ hw)

theorem endFrame_ne_retAddr : (k.endFrame : Int) ≠ k.retAddr := by
  have hnd := (List.nodup_append.mp h.nodup).2.1
  simp only [work, List.nodup_cons, List.mem_singleton] at hnd
  exact hnd.2.1

theorem sp_ne {b : Int} (hb : b ∈ k.main.tail) : (k.sp : Int) ≠ b := by
  have hnd := (List.nodup_append.mp h.nodup).1
  exact fun hbs => (List.nodup_cons.mp hnd).1 (hbs ▸ hb)

end Apart

end Cells

namespace Memory.AgreeOutside

variable {k : Cells} {cells : List Int} {n : Memory} {b : Int} (h : AgreeOutside cells m n)
  (hcells : cells ⊆ k.work)

include h hcells

/-- What commands see does not depend on work in progress. -/
theorem cell_main (hk : k.Apart) (hb : b ∈ k.main) : m.cell b = n.cell b :=
  h b (hk.isCell_main hb) fun hw => hk.ne_of_mem hb (hcells hw) rfl

theorem cell_free (hb : k.Free b) : m.cell b = n.cell b :=
  h b hb.1 fun hw => hb.2 (Cells.mem_all_of_mem_work (hcells hw))

theorem fromTop_eq (hk : k.Apart) (i : Nat) : m.fromTop k i = n.fromTop k i := by
  rw [fromTop, fromTop, h.cell_main hcells hk k.sp_mem_main]

theorem drop (hk : k.Apart) : AgreeOutside cells (m.drop k) (n.drop k) := by
  unfold Memory.drop
  rw [h.fromTop_eq hcells hk]
  exact h.store _ _

end Memory.AgreeOutside

/-! ## Pushing one word after another -/

namespace Memory

variable {k : Cells} {x b : Int}

theorem cell_sp_push (hsp : IsCell k.sp) (m : Memory) (x : Int) :
    (m.push k x).cell k.sp = wrap (m.cell k.sp + 1) :=
  cell_store_self _ hsp _

theorem cell_push (h₁ : b ≠ k.sp) (h₂ : b ≠ m.cell k.sp) : (m.push k x).cell b = m.cell b := by
  rw [Memory.push, cell_store_of_ne _ h₁, cell_store_of_ne _ h₂]

/-- Room for `n` more words: the cells they go to are free. -/
def Room (k : Cells) (m : Memory) (n : Nat) : Prop := ∀ j < n, k.Free (wrap (m.cell k.sp + j))

theorem Room.free {n : Nat} (h : m.Room k (n + 1)) (hm : m.Words) : k.Free (m.cell k.sp) := by
  have h₀ := h 0 (Nat.succ_pos n)
  rwa [Nat.cast_zero, Int.add_zero, hm.wrap_cell] at h₀

/-- After a push there is room for one word less. -/
theorem Room.push {n : Nat} (h : m.Room k (n + 1)) (hsp : IsCell k.sp) (x : Int) :
    (m.push k x).Room k n := by
  intro j hj
  have hj' := h (j + 1) (by omega)
  rw [cell_sp_push hsp]
  have heq : wrap (wrap (m.cell k.sp + 1) + j) = wrap (m.cell k.sp + ((j + 1 : Nat) : Int)) := by
    simp only [wrap_eq_emod]
    omega
  rwa [heq]

theorem Words.foldl_push {xs : List Int} (hm : m.Words) (hxs : ∀ x ∈ xs, IsWord x) :
    (xs.foldl (Memory.push k) m).Words := by
  induction xs generalizing m with
  | nil => exact hm
  | cons x xs ih =>
    exact ih (hm.push (hxs x (by simp))) fun y hy => hxs y (List.mem_cons_of_mem x hy)

theorem cell_sp_foldl_push (hsp : IsCell k.sp) (hm : m.Words) (xs : List Int)
    (hxs : ∀ x ∈ xs, IsWord x) :
    (xs.foldl (Memory.push k) m).cell k.sp = wrap (m.cell k.sp + xs.length) := by
  induction xs generalizing m with
  | nil => rw [List.foldl_nil, List.length_nil, Nat.cast_zero, Int.add_zero, hm.wrap_cell]
  | cons x xs ih =>
    rw [List.foldl_cons,
      ih (hm.push (hxs x (by simp))) fun y hy => hxs y (List.mem_cons_of_mem x hy),
      cell_sp_push hsp, List.length_cons]
    simp only [wrap_eq_emod]
    omega

end Memory

/-! ## The parts of calls and returns -/

namespace Emitter

/-- The code that moves `ARG` to the arguments, which lie below the five words of
the frame, and `LCL` to the top of the stack. -/
def moveBases (r : RegisterFile) (args : Nat) : List Line :=
  [.address r.sp, .set .d (.y .m), .constant args, .set .d (.dMinusY .a),
    .constant 5, .set .d (.dMinusY .a), .address r.arg, .set .m .d,
    .address r.sp, .set .d (.y .m), .address r.lcl, .set .m .d]

/-- The code that puts the return address into `D`. -/
def loadReturn (e : Emitter) : List Line :=
  [.address (returnLabel e.returns), .set .d (.y .a)]

/-- The part of a call before its jump. -/
def callSetup (e : Emitter) (args : Nat) : List Line :=
  e.loadReturn ++ Block.pushD e.regs.sp ++ e.regs.frame.flatMap (saveCode e.regs.sp)
    ++ moveBases e.regs args

/-- The end of a call: the jump, and the place where the callee returns to. -/
def callJump (e : Emitter) (name : String) : List Line :=
  [.address name, .branch .zero .always, .label (returnLabel e.returns)]

theorem callCode_eq (e : Emitter) (name : String) (args : Nat) :
    e.callCode name args = e.callSetup args ++ e.callJump name := rfl

/-- The code that keeps the end of the frame and the return address. -/
def keepFrame (r : RegisterFile) : List Line :=
  [.address r.lcl, .set .d (.y .m), .address r.endFrame, .set .m .d,
    .constant 5, .set .a (.dMinusY .a), .set .d (.y .m), .address r.retAddr, .set .m .d]

/-- The code that puts the word on top of the stack where `ARG` points, and the
stack pointer behind it. -/
def putResult (r : RegisterFile) : List Line :=
  [.address r.sp, .set .a (.yMinusOne .m), .set .d (.y .m), .address r.arg,
    .set .a (.y .m), .set .m .d,
    .address r.arg, .set .d (.yPlusOne .m), .address r.sp, .set .m .d]

/-- The cells that a return reads back, and how far below the end of the frame
they are saved. -/
def saved (r : RegisterFile) : List (String × Nat) :=
  [(r.thatPtr, 1), (r.thisPtr, 2), (r.arg, 3), (r.lcl, 4)]

/-- The code that follows the return address. -/
def followReturn (r : RegisterFile) : List Line := [.address r.retAddr, .set .a (.y .m)]

/-- The part of a return before its jump. -/
def returnSetup (r : RegisterFile) : List Line :=
  keepFrame r ++ putResult r ++ (saved r).flatMap (fun c => restoreCode r c.1 c.2)
    ++ followReturn r

theorem returnCode_eq (r : RegisterFile) :
    returnCode r = returnSetup r ++ [.branch .zero .always] := rfl

end Emitter

/-! ## The start of a function -/

section Function

variable {r : RegisterFile} (hk : (r.cells v).Apart)

include hk

/-- A push onto a stack that has room for it. -/
theorem runLines_pushD_of_room {n : Nat} (hm : m.Words) (hd : IsWord d)
    (hroom : m.Room (r.cells v) (n + 1)) :
    runLines v (Block.pushD r.sp) ⟨a, d, m⟩ = some ⟨v r.sp, d, m.push (r.cells v) d⟩ :=
  have hfree := (hroom.free hm).offPointer
  runLines_pushD hk.isCell_sp hm hd hfree.1 hfree.2

/-- **The code of local variables** pushes as many zeros. -/
theorem runLines_zeros (hv : Standard v) (hm : m.Words) (n : Nat)
    (hroom : m.Room (r.cells v) n) :
    ∃ s, runLines v (List.replicate n
        ([Line.constant 0, .set .d (.y .a)] ++ Block.pushD r.sp)).flatten ⟨a, d, m⟩ = some s ∧
      s.ram = (fun m => m.push (r.cells v) 0)^[n] m ∧ s.ram.Words := by
  induction n generalizing a d m with
  | zero => exact ⟨_, rfl, rfl, hm⟩
  | succ n ih =>
    have h0 : IsWord 0 := by decide
    obtain ⟨s, hs, hram, hwords⟩ := ih (a := v r.sp) (d := 0) (hm.push (k := r.cells v) h0)
      (hroom.push hk.isCell_sp 0)
    refine ⟨s, ?_, by rw [Function.iterate_succ_apply, hram], hwords⟩
    rw [List.replicate_succ, List.flatten_cons, runLines_append, runLines_append,
      runLines_constant hv (by decide), runLines_keep _ h0, runLines_nil, Option.bind_some,
      runLines_pushD_of_room hk hm h0 hroom, Option.bind_some, hs]

/-! ## Calls -/

/-- The code that saves cells of the calling convention. A push changes none
of them, so each is saved with the value it had at first. -/
theorem runLines_saveAll (hm : m.Words) {cells : List String}
    (hcells : ∀ c ∈ cells, (v c : Int) ∈ (r.cells v).main.tail)
    (hroom : m.Room (r.cells v) cells.length) :
    ∃ s, runLines v (cells.flatMap (Emitter.saveCode r.sp)) ⟨a, d, m⟩ = some s ∧
      s.ram = (cells.map fun c => m.cell (v c)).foldl (Memory.push (r.cells v)) m := by
  induction cells generalizing a d m with
  | nil => exact ⟨_, rfl, rfl⟩
  | cons c cells ih =>
    rw [List.length_cons] at hroom
    have hc := hk.isCell_main (List.mem_of_mem_tail (hcells c (by simp)))
    have hfree := hroom.free hm
    have hkept : ∀ b ∈ cells, (m.push (r.cells v) (m.cell (v c))).cell (v b) = m.cell (v b) := by
      intro b hb
      have hb' := hcells b (List.mem_cons_of_mem c hb)
      exact Memory.cell_push (hk.sp_ne hb').symm
        (hfree.ne (Cells.mem_all_of_mem_main (List.mem_of_mem_tail hb'))).symm
    obtain ⟨s, hs, hram⟩ := ih (a := v r.sp) (d := m.cell (v c))
      (hm.push (k := r.cells v) (hm (v c)))
      (fun b hb => hcells b (List.mem_cons_of_mem c hb)) (hroom.push hk.isCell_sp _)
    refine ⟨s, ?_, ?_⟩
    · rw [List.flatMap_cons, runLines_append, Emitter.saveCode, runLines_append, runLines_address,
        runLines_read _ hm hc, runLines_nil, Option.bind_some,
        runLines_pushD_of_room hk hm (hm _) hroom, Option.bind_some, hs]
    · rw [hram, List.map_cons, List.foldl_cons, List.map_congr_left hkept]

theorem runLines_moveBases (hv : Standard v) (hm : m.Words) {args : Nat} (hargs : args < 32768) :
    ∃ s, runLines v (Emitter.moveBases r args) ⟨a, d, m⟩ = some s ∧
      s.ram = (m.store (v r.arg) (wrap (m.cell (v r.sp) - args - 5))).store (v r.lcl)
        (m.cell (v r.sp)) := by
  have hsp := hk.isCell_sp
  have harg := hk.isCell_main (Cells.arg_mem_main _)
  have hlcl := hk.isCell_main (Cells.lcl_mem_main _)
  have hne : (v r.sp : Int) ≠ v r.arg := hk.sp_ne (by simp [Cells.main])
  have hd : wrap (wrap (m.cell (v r.sp) - args) - 5) = wrap (m.cell (v r.sp) - args - 5) := by
    simp only [wrap_eq_emod]
    omega
  rw [Emitter.moveBases, runLines_address, runLines_read _ hm hsp,
    runLines_constant hv ⟨by omega, by omega⟩, runLines_set_d _ rfl (fun h => by cases h),
    runLines_constant hv (by decide), runLines_set_d _ rfl (fun h => by cases h),
    runLines_address]
  simp only [Comp.value, Comp.operand, Line.secondOperand]
  rw [hd, runLines_write _ (isWord_wrap _) harg, runLines_address,
    runLines_read _ (hm.store _ (isWord_wrap _)) hsp, runLines_address,
    Memory.cell_store_of_ne m hne, runLines_write _ (hm _) hlcl, runLines_nil]
  exact ⟨_, rfl, rfl⟩

/-- **The part of a call before its jump** pushes the frame and moves the
bases. -/
theorem runLines_callSetup {e : Emitter} {args : Nat} (hr : e.regs = r) (hv : Standard v)
    (hm : m.Words) (hargs : args < 32768) (hret : IsWord (v (Emitter.returnLabel e.returns)))
    (hroom : m.Room (r.cells v) 5) :
    ∃ s, runLines v (e.callSetup args) ⟨a, d, m⟩ = some s ∧
      s.ram = m.enter (r.cells v) (v (Emitter.returnLabel e.returns)) args := by
  subst hr
  have hfree := hroom.free hm
  have hframe : ∀ c ∈ e.regs.frame, (v c : Int) ∈ (e.regs.cells v).main.tail := by
    intro c hc
    simp only [RegisterFile.frame, List.mem_cons, List.not_mem_nil, or_false] at hc
    rcases hc with rfl | rfl | rfl | rfl <;> simp [Cells.main]
  -- the bases are saved as they were before the return address was pushed
  have hkept : ∀ c ∈ e.regs.frame,
      (m.push (e.regs.cells v) (v (Emitter.returnLabel e.returns))).cell (v c) = m.cell (v c) :=
    fun c hc => Memory.cell_push (hk.sp_ne (hframe c hc)).symm
      (hfree.ne (Cells.mem_all_of_mem_main (List.mem_of_mem_tail (hframe c hc)))).symm
  obtain ⟨s₁, hs₁, hram₁⟩ := runLines_saveAll (a := v e.regs.sp)
    (d := v (Emitter.returnLabel e.returns)) hk
    (hm.push (k := e.regs.cells v) hret) hframe (hroom.push hk.isCell_sp _)
  rw [List.map_congr_left hkept] at hram₁
  have hwords₁ : s₁.ram.Words := by
    rw [hram₁]
    refine (hm.push hret).foldl_push fun x hx => ?_
    obtain ⟨c, -, rfl⟩ := List.mem_map.mp hx
    exact hm _
  have hsp₁ : s₁.ram.cell (v e.regs.sp) = wrap (m.cell (v e.regs.sp) + 5) := by
    rw [hram₁, Memory.cell_sp_foldl_push (k := e.regs.cells v) hk.isCell_sp (hm.push hret),
      Memory.cell_sp_push hk.isCell_sp]
    · simp only [List.length_map, RegisterFile.frame, List.length_cons, List.length_nil,
        wrap_eq_emod]
      omega
    · intro x hx
      obtain ⟨c, -, rfl⟩ := List.mem_map.mp hx
      exact hm _
  obtain ⟨s, hs, hram⟩ := runLines_moveBases (a := s₁.a) (d := s₁.d) hk hv hwords₁ hargs
  refine ⟨s, ?_, ?_⟩
  · rw [Emitter.callSetup, Emitter.loadReturn, runLines_append, runLines_append, runLines_append,
      runLines_address, runLines_keep _ hret,
      runLines_nil, Option.bind_some, runLines_pushD_of_room hk hm hret hroom, Option.bind_some,
      hs₁, Option.bind_some, hs]
  · have hargs' : wrap (wrap (m.cell (v e.regs.sp) + 5) - args - 5)
        = wrap (m.cell (v e.regs.sp) - args) := by
      simp only [wrap_eq_emod]
      omega
    rw [hram, hsp₁, hargs', hram₁]
    simp only [Memory.enter, RegisterFile.frame, List.map_cons, List.map_nil, List.foldl_cons]

/-! ## Returns -/

theorem runLines_keepFrame (hv : Standard v) (hm : m.Words)
    (hf : (r.cells v).Free (m.fromFrame (r.cells v) 5)) :
    ∃ s, runLines v (Emitter.keepFrame r) ⟨a, d, m⟩ = some s ∧
      s.ram = (m.store (v r.endFrame) (m.cell (v r.lcl))).store (v r.retAddr)
        (m.cell (m.fromFrame (r.cells v) 5)) := by
  have hlcl := hk.isCell_main (Cells.lcl_mem_main _)
  have hend := hk.isCell_work (Cells.endFrame_mem_work _)
  have hret := hk.isCell_work (Cells.retAddr_mem_work _)
  rw [Emitter.keepFrame, runLines_address, runLines_read _ hm hlcl, runLines_address,
    runLines_write _ (hm _) hend, runLines_constant hv (by decide),
    runLines_set_a _ rfl (fun h => by cases h)]
  simp only [Comp.value, Comp.operand, Line.secondOperand]
  have hf₁ : wrap (m.cell (v r.lcl) - 5) = m.fromFrame (r.cells v) 5 := rfl
  rw [hf₁, runLines_read _ (hm.store _ (hm _)) hf.1, runLines_address,
    Memory.cell_store_of_ne m (hf.ne (Cells.mem_all_of_mem_work (Cells.endFrame_mem_work _))),
    runLines_write _ (hm _) hret, runLines_nil]
  exact ⟨_, rfl, rfl⟩

theorem runLines_putResult (hm : m.Words) (ht : (r.cells v).Free (m.fromTop (r.cells v) 1))
    (hg : (r.cells v).Free (m.cell (v r.arg))) :
    ∃ s, runLines v (Emitter.putResult r) ⟨a, d, m⟩ = some s ∧
      s.ram = (m.store (m.cell (v r.arg)) (m.cell (m.fromTop (r.cells v) 1))).store (v r.sp)
        (wrap (m.cell (v r.arg) + 1)) := by
  have hsp := hk.isCell_sp
  have harg := hk.isCell_main (Cells.arg_mem_main _)
  have ht₁ : wrap (m.cell (v r.sp) - 1) = m.fromTop (r.cells v) 1 := rfl
  rw [Emitter.putResult, runLines_address, runLines_set_a _ rfl (fun _ => hsp)]
  simp only [Comp.value, Comp.operand, Line.secondOperand]
  rw [ht₁, runLines_read _ hm ht.1, runLines_address, runLines_follow _ hm harg,
    runLines_write _ (hm _) hg.1, runLines_address, runLines_set_d _ rfl (fun _ => harg)]
  simp only [Comp.value, Comp.operand, Line.secondOperand]
  rw [Memory.cell_store_of_ne m (hg.ne (Cells.mem_all_of_mem_main (Cells.arg_mem_main _))).symm,
    runLines_address, runLines_write _ (isWord_wrap _) hsp, runLines_nil]
  exact ⟨_, rfl, rfl⟩

/-- Reading back bases and the stack pointer leaves the cells for work in
progress alone. -/
theorem cell_restored {cells : List (String × Nat)} {b : Int} (f : String × Nat → Int)
    (hcells : ∀ c ∈ cells, (v c.1 : Int) ∈ (r.cells v).main) (hb : b ∈ (r.cells v).work) :
    (cells.foldl (fun m' c => m'.store (v c.1) (f c)) m).cell b = m.cell b := by
  induction cells generalizing m with
  | nil => rfl
  | cons c cells ih =>
    rw [List.foldl_cons, ih (List.forall_mem_cons.mp hcells).2,
      Memory.cell_store_of_ne _ (hk.ne_of_mem (hcells c List.mem_cons_self) hb).symm]

/-- Cells are read back from the frame, which the cells read back before are no
part of: `n` is memory as it was before all of them. -/
theorem runLines_restoreAll (hv : Standard v) {n : Memory} (cells : List (String × Nat))
    (hm : m.Words) (hcells : ∀ c ∈ cells, (v c.1 : Int) ∈ (r.cells v).main)
    (hoffset : ∀ c ∈ cells, c.2 < 32768)
    (hfree : ∀ c ∈ cells, (r.cells v).Free (wrap (m.cell (v r.endFrame) - c.2)))
    (hagree : Memory.AgreeOutside (r.cells v).all m n) :
    ∃ s, runLines v (cells.flatMap fun c => Emitter.restoreCode r c.1 c.2) ⟨a, d, m⟩ = some s ∧
      s.ram = cells.foldl (fun m' c =>
        m'.store (v c.1) (n.cell (wrap (m.cell (v r.endFrame) - c.2)))) m ∧ s.ram.Words := by
  induction cells generalizing a d m with
  | nil => exact ⟨_, rfl, rfl, hm⟩
  | cons c cells ih =>
    have hc := hcells c (by simp)
    have hf := hfree c (by simp)
    have hend := hk.isCell_work (Cells.endFrame_mem_work _)
    have hread : m.cell (wrap (m.cell (v r.endFrame) - c.2))
        = n.cell (wrap (m.cell (v r.endFrame) - c.2)) := hagree _ hf.1 hf.2
    have hkept (x : Int) : (m.store (v c.1) x).cell (v r.endFrame) = m.cell (v r.endFrame) :=
      Memory.cell_store_of_ne m (hk.ne_of_mem hc (Cells.endFrame_mem_work _)).symm x
    obtain ⟨s, hs, hram, hwords⟩ := ih (a := v c.1)
      (d := n.cell (wrap (m.cell (v r.endFrame) - c.2)))
      (m := m.store (v c.1) (n.cell (wrap (m.cell (v r.endFrame) - c.2))))
      (by rw [← hread]; exact hm.store _ (hm _))
      (fun b hb => hcells b (List.mem_cons_of_mem c hb))
      (fun b hb => hoffset b (List.mem_cons_of_mem c hb))
      (fun b hb => by rw [hkept]; exact hfree b (List.mem_cons_of_mem c hb))
      (hagree.store_left (Cells.mem_all_of_mem_main hc) _)
    refine ⟨s, ?_, ?_, hwords⟩
    · have hoff : IsCell (c.2 : Int) := ⟨by omega, by have := hoffset c (by simp); omega⟩
      rw [List.flatMap_cons, runLines_append, Emitter.restoreCode, runLines_constant hv hoff,
        runLines_keep _ hoff.isWord, runLines_address, runLines_set_a _ rfl (fun _ => hend)]
      simp only [Comp.value, Comp.operand, Line.secondOperand]
      rw [runLines_read _ hm hf.1, runLines_address, runLines_write _ (hm _) (hk.isCell_main hc),
        runLines_nil, Option.bind_some, hread, hs]
    · rw [hram, List.foldl_cons]
      simp only [hkept]

/-- The end of the frame and the return address are kept in cells of their own,
and the result is put in place. Other cells are as if only the result had
been. -/
theorem runLines_result (hv : Standard v) (hm : m.Words)
    (ht : (r.cells v).Free (m.fromTop (r.cells v) 1)) (hg : (r.cells v).Free (m.cell (v r.arg)))
    (hf : (r.cells v).Free (m.fromFrame (r.cells v) 5)) :
    ∃ s, runLines v (Emitter.keepFrame r ++ Emitter.putResult r) ⟨a, d, m⟩ = some s ∧
      s.ram.Words ∧ s.ram.cell (v r.endFrame) = m.cell (v r.lcl) ∧
      s.ram.cell (v r.retAddr) = m.cell (m.fromFrame (r.cells v) 5) ∧
      Memory.AgreeOutside [(v r.endFrame : Int), (v r.retAddr : Int)] s.ram
        ((m.store (m.cell (v r.arg)) (m.cell (m.fromTop (r.cells v) 1))).store (v r.sp)
          (wrap (m.cell (v r.arg) + 1))) := by
  have hend := Cells.endFrame_mem_work (r.cells v)
  have hret := Cells.retAddr_mem_work (r.cells v)
  have hcells : [(v r.endFrame : Int), (v r.retAddr : Int)] ⊆ (r.cells v).work :=
    List.cons_subset.mpr ⟨hend, List.cons_subset.mpr ⟨hret, List.nil_subset _⟩⟩
  obtain ⟨s₁, hs₁, hram₁⟩ := runLines_keepFrame (a := a) (d := d) hk hv hm hf
  have hwords₁ : s₁.ram.Words := hram₁ ▸ (hm.store _ (hm _)).store _ (hm _)
  have hagree₁ : Memory.AgreeOutside [(v r.endFrame : Int), (v r.retAddr : Int)] s₁.ram m := by
    rw [hram₁]
    exact ((Memory.AgreeOutside.refl _ m).store_left (by simp) _).store_left (by simp) _
  -- what the result is made of was not touched
  have hg₁ : s₁.ram.cell (v r.arg) = m.cell (v r.arg) :=
    hagree₁.cell_main hcells hk (Cells.arg_mem_main (r.cells v))
  have ht₁ : s₁.ram.fromTop (r.cells v) 1 = m.fromTop (r.cells v) 1 :=
    hagree₁.fromTop_eq hcells hk 1
  obtain ⟨s₂, hs₂, hram₂⟩ := runLines_putResult (a := s₁.a) (d := s₁.d) hk hwords₁
    (by rw [ht₁]; exact ht) (by rw [hg₁]; exact hg)
  rw [hg₁, ht₁, hagree₁.cell_free hcells ht] at hram₂
  have hkept {b : Int} (hb : b ∈ (r.cells v).work) : s₂.ram.cell b = s₁.ram.cell b := by
    rw [hram₂, Memory.cell_store_of_ne _ (hk.ne_of_mem (Cells.sp_mem_main (r.cells v)) hb).symm,
      Memory.cell_store_of_ne _ (hg.ne (Cells.mem_all_of_mem_work hb)).symm]
  refine ⟨s₂, ?_, ?_, ?_, ?_, ?_⟩
  · rw [runLines_append, hs₁, Option.bind_some, hs₂]
  · exact hram₂ ▸ (hwords₁.store _ (hm _)).store _ (isWord_wrap _)
  · rw [hkept hend, hram₁, Memory.cell_store_of_ne _ hk.endFrame_ne_retAddr,
      Memory.cell_store_self _ (hk.isCell_work hend)]
  · rw [hkept hret, hram₁, Memory.cell_store_self _ (hk.isCell_work hret)]
  · rw [hram₂]
    exact (hagree₁.store _ _).store _ _

/-- **The part of a return before its jump** takes down the frame. It leaves the
end of the frame and the return address in the cells for them, and the
return address in `A`. -/
theorem runLines_returnSetup (hv : Standard v) (hm : m.Words)
    (ht : (r.cells v).Free (m.fromTop (r.cells v) 1)) (hg : (r.cells v).Free (m.cell (v r.arg)))
    (hf : ∀ j < 5, (r.cells v).Free (m.fromFrame (r.cells v) (j + 1))) :
    ∃ s, runLines v (Emitter.returnSetup r) ⟨a, d, m⟩ = some s ∧
      s.a = m.cell (m.fromFrame (r.cells v) 5) ∧
      s.ram = ((m.leave (r.cells v)).store (v r.endFrame) (m.cell (v r.lcl))).store (v r.retAddr)
        (m.cell (m.fromFrame (r.cells v) 5)) ∧ s.ram.Words := by
  have hend := Cells.endFrame_mem_work (r.cells v)
  have hret := Cells.retAddr_mem_work (r.cells v)
  have hsaved : ∀ c ∈ Emitter.saved r, (v c.1 : Int) ∈ (r.cells v).main := by
    simp [Emitter.saved, Cells.main]
  obtain ⟨s₁, hs₁, hwords₁, hend₁, hret₁, hagree₁⟩ :=
    runLines_result (a := a) (d := d) hk hv hm ht hg (hf 4 (by decide))
  -- the bases are read back from memory with the result in place
  set n := m.store (m.cell (v r.arg)) (m.cell (m.fromTop (r.cells v) 1)) with hn
  have hall : Memory.AgreeOutside (r.cells v).all s₁.ram n := by
    intro b hb hb'
    have hbs : b ≠ v r.sp := by
      rintro rfl
      exact hb' (Cells.mem_all_of_mem_main (Cells.sp_mem_main (r.cells v)))
    have hwork : b ∉ [(v r.endFrame : Int), (v r.retAddr : Int)] := by
      rw [List.mem_pair]
      rintro (rfl | rfl)
      · exact hb' (Cells.mem_all_of_mem_work hend)
      · exact hb' (Cells.mem_all_of_mem_work hret)
    rw [hagree₁ b hb hwork, Memory.cell_store_of_ne _ hbs]
  obtain ⟨s₂, hs₂, hram₂, hwords₂⟩ := runLines_restoreAll (a := s₁.a) (d := s₁.d) (n := n) hk hv
    (Emitter.saved r) hwords₁ hsaved (by simp [Emitter.saved]) (by
      rw [hend₁]
      simp only [Emitter.saved, List.mem_cons, List.not_mem_nil, or_false, forall_eq_or_imp,
        forall_eq]
      exact ⟨hf 0 (by decide), hf 1 (by decide), hf 2 (by decide), hf 3 (by decide)⟩) hall
  have hend₂ : s₂.ram.cell (v r.endFrame) = m.cell (v r.lcl) := by
    rw [hram₂, cell_restored hk _ hsaved hend, hend₁]
  have hret₂ : s₂.ram.cell (v r.retAddr) = m.cell (m.fromFrame (r.cells v) 5) := by
    rw [hram₂, cell_restored hk _ hsaved hret, hret₁]
  have hagree₂ : Memory.AgreeOutside [(v r.endFrame : Int), (v r.retAddr : Int)] s₂.ram
      (m.leave (r.cells v)) := by
    rw [hram₂, hend₁, Emitter.saved, List.foldl_cons, List.foldl_cons, List.foldl_cons,
      List.foldl_cons, List.foldl_nil]
    unfold Memory.leave
    exact (((hagree₁.store _ _).store _ _).store _ _).store _ _
  refine ⟨⟨m.cell (m.fromFrame (r.cells v) 5), s₂.d, s₂.ram⟩, ?_, rfl, ?_, hwords₂⟩
  · rw [Emitter.returnSetup, runLines_append, runLines_append, hs₁, Option.bind_some, hs₂,
      Option.bind_some, Emitter.followReturn, runLines_address,
      runLines_follow _ hwords₂ (hk.isCell_work hret), hret₂, runLines_nil]
  · have heq := hagree₂.store_right.store_right.eq
    rwa [hend₂, hret₂] at heq

end Function

end HackStack
