import HackStack.Proofs.StackEffects

/-!
# What the blocks of a call and a return do to memory

The exact memory that the code of a call and of a return leaves, for any
register file whose eight names stand for eight cells. A call stores its
frame word by word and moves three of these cells; a return reads the frame
back while it overwrites the cells that it finds the frame with. All that is
asked (`Command.FrameReady`) is that the words of the frame, the result and
its place have cells that are none of the eight. How these lie to one
another is left open: without arguments the result goes where the return
address is saved, and the word on top of the stack may be one of the frame.

The meaning of a call pushes its frame with a stack pointer that moves along;
`Memory.foldl_push_eq` says that this is to store the frame at once and move
the stack pointer in the end.
-/

namespace HackStack

open Word

namespace Memory

/-! ## A row of words -/

/-- Memory with words stored one after the other from an address on. -/
def storeAll (m : Memory) (a : Int) : List Int → Memory
  | [] => m
  | x :: xs => (m.store a x).storeAll (wrap (a + 1)) xs

variable {k : Cells}

/-- A store that is made first may be made last. -/
theorem store_rotate (m : Memory) {a b c : Int} (hab : a ≠ b) (hac : a ≠ c) (x y z : Int) :
    ((m.store a x).store b y).store c z = ((m.store b y).store c z).store a x := by
  rw [store_comm m hab, store_comm _ hac]

/-- A row that stays off an address can be stored before or after it. -/
theorem storeAll_store (m : Memory) {a b : Int} (x : Int) (xs : List Int) (ha : IsWord a)
    (h : ∀ j < xs.length, wrap (a + (j : Nat)) ≠ b) :
    (m.store b x).storeAll a xs = (m.storeAll a xs).store b x := by
  induction xs generalizing m a with
  | nil => rfl
  | cons y ys ih =>
    have hne : b ≠ a := by
      have h₀ := h 0 (Nat.succ_pos _)
      rw [Nat.cast_zero, Int.add_zero, ha.wrap_eq] at h₀
      exact h₀.symm
    rw [storeAll, storeAll, store_comm m hne]
    refine ih _ (isWord_wrap _) fun j hj => ?_
    have hj' := h (j + 1) (Nat.succ_lt_succ hj)
    have heq : wrap (wrap (a + 1) + j) = wrap (a + ((j + 1 : Nat) : Int)) := by
      simp only [wrap_eq_emod]
      omega
    rwa [heq]

/-- The address after another, when it is one. -/
theorem wrap_natCast_succ {a : Nat} (h : a < 65535) : wrap ((a : Int) + 1) = (a + 1 : Nat) := by
  rw [wrap_eq_emod]
  omega

/-- A row is stored off the cells outside of it. -/
theorem cell_storeAll_of_not_mem {a : Nat} {xs : List Int} (m : Memory)
    (hrow : a + xs.length ≤ 32768) {b : Int} (hb : ¬ (a ≤ b ∧ b < a + xs.length)) :
    (m.storeAll a xs).cell b = m.cell b := by
  induction xs generalizing m a with
  | nil => rfl
  | cons x xs ih =>
    rw [List.length_cons] at hrow hb
    rw [storeAll, wrap_natCast_succ (by omega), ih _ (by omega) (by omega),
      cell_store_of_ne _ (by omega)]

/-- Each word of a row is in its cell. -/
theorem cell_storeAll {a : Nat} {xs : List Int} (m : Memory) (hrow : a + xs.length ≤ 32768)
    {j : Nat} {x : Int} (hx : xs[j]? = some x) : (m.storeAll a xs).cell (a + j : Nat) = x := by
  induction xs generalizing m a j with
  | nil => cases hx
  | cons y xs ih =>
    rw [List.length_cons] at hrow
    rw [storeAll, wrap_natCast_succ (by omega)]
    cases j with
    | zero =>
      obtain rfl := Option.some.inj hx
      rw [cell_storeAll_of_not_mem _ (by omega) (by omega), Nat.add_zero,
        cell_store_self _ ⟨by omega, by omega⟩]
    | succ j =>
      have hj : a + (j + 1) = a + 1 + j := by omega
      rw [hj]
      exact ih _ (by omega) hx

/-- **Words that are pushed one after the other are a row on the stack**, with
the stack pointer behind it. -/
theorem foldl_push_eq {m : Memory} (hsp : IsCell k.sp) (hm : m.Words) {xs : List Int}
    (hxs : ∀ x ∈ xs, IsWord x) (hroom : m.Room k xs.length) :
    xs.foldl (push k) m
      = (m.storeAll (m.cell k.sp) xs).store k.sp (wrap (m.cell k.sp + xs.length)) := by
  induction xs generalizing m with
  | nil =>
    rw [List.foldl_nil, storeAll, List.length_nil, Nat.cast_zero, Int.add_zero, hm.wrap_cell,
      store_cell]
  | cons x xs ih =>
    have hrest := hroom.push (n := xs.length) hsp x
    have htop :
        wrap (wrap (m.cell k.sp + 1) + xs.length) = wrap (m.cell k.sp + (x :: xs).length) := by
      rw [List.length_cons]
      simp only [wrap_eq_emod]
      omega
    rw [List.foldl_cons, ih (hm.push (hxs x (by simp)))
      (fun y hy => hxs y (List.mem_cons_of_mem x hy)) hrest, cell_sp_push hsp, htop, push,
      storeAll_store _ _ _ (isWord_wrap _), store_store, storeAll]
    intro j hj
    have hfree := (hrest j hj).offPointer
    rw [cell_sp_push hsp] at hfree
    exact hfree.2

end Memory

/-! ## Calls and returns -/

theorem Symbols.Separates.apart {t : Symbols} {r : RegisterFile} (h : t.Separates r.names) :
    (r.cells t.value).Apart := by
  have hall : (r.cells t.value).all = (r.names.map t.value).map Nat.cast := rfl
  constructor
  · intro a ha
    rw [hall, List.map_map] at ha
    obtain ⟨x, hx, rfl⟩ := List.mem_map.mp ha
    exact h.isCell hx
  · rw [hall]
    exact h.nodup.map Nat.cast_injective

namespace Command

variable (k : Cells) (site : Site) (m : Memory)

/-- **Whether the words that a call or a return works on have cells**, and none
of those of the calling convention. Other commands are not spoken of. -/
def FrameReady : Command → Prop
  | .call _ _ => ∀ j < 5, k.Free (wrap (m.cell k.sp + (j : Nat)))
  | .ret => (∀ j < 5, k.Free (m.fromFrame k (j + 1))) ∧ k.Free (m.cell k.arg) ∧
    k.Free (m.fromTop k 1)
  | _ => False

instance : DecidablePred (FrameReady k m)
  | .call _ _ => inferInstanceAs (Decidable (∀ j < 5, _))
  | .ret => inferInstanceAs (Decidable ((∀ j < 5, _) ∧ _ ∧ _))
  | .push _ _ | .pop _ _ | .arithmetic _ | .label _ | .goto _ | .ifGoto _ | .function _ _ =>
    inferInstanceAs (Decidable False)

/-- **Where a call or a return goes, and the memory that it leaves.** A call
stores the return address and the four bases from the first free cell on. A
return goes where the frame said before anything was written; it reads the
bases back after the result was put in place, and leaves the end of the
frame and the return address in the cells for them. -/
def frameOutcome : Command → Outcome
  | .call f args =>
    ⟨site.function f,
      (((m.storeAll (m.cell k.sp) [(site.next : Int), m.cell k.lcl, m.cell k.arg, m.cell k.thisPtr,
        m.cell k.thatPtr]).store k.arg (wrap (m.cell k.sp - args))).store k.lcl
        (wrap (m.cell k.sp + 5))).store k.sp (wrap (m.cell k.sp + 5))⟩
  | .ret =>
    ⟨m.cell (m.fromFrame k 5),
      ((m.leave k).store k.endFrame (m.cell k.lcl)).store k.retAddr (m.cell (m.fromFrame k 5))⟩
  | _ => ⟨site.next, m⟩

variable {k m}

/-- What a call means, without a stack pointer that moves. -/
theorem meaning_call (hk : k.Apart) (hm : m.Words) (hnext : IsWord site.next)
    (hroom : m.Room k 5) (f : String) (args : Nat) :
    (call f args).meaning k site m = (call f args).frameOutcome k site m := by
  have hwords : ∀ x ∈ [(site.next : Int), m.cell k.lcl, m.cell k.arg, m.cell k.thisPtr,
      m.cell k.thatPtr], IsWord x := by
    simp only [List.forall_mem_cons]
    exact ⟨hnext, hm _, hm _, hm _, hm _, List.forall_mem_nil _⟩
  have hlcl : (k.sp : Int) ≠ k.lcl := hk.sp_ne (by simp [Cells.main])
  have harg : (k.sp : Int) ≠ k.arg := hk.sp_ne (by simp [Cells.main])
  have hpushes := Memory.foldl_push_eq hk.isCell_sp hm hwords hroom
  refine congrArg (Outcome.mk _) ?_
  unfold Memory.enter
  dsimp only
  rw [hpushes]
  exact Memory.store_rotate _ harg hlcl _ _ _

end Command

namespace Emitter

open Machine

variable {e : Emitter} {c : Command} {m₀ m : Machine} {p : Nat} {block : List Line}

/-- **The blocks of a call and a return, for any register file.** Let its eight
names stand for eight cells of memory, in a program of at most 32768
instructions. From any memory of words that the command is ready for, its
block comes to where `Command.frameOutcome` says, with exactly that memory. -/
theorem frame_block (h : m.AtBlock e c m₀ p block) (hsize : m₀.rom.size ≤ 32768)
    (hloads : c.Loads) (hregs : m₀.symbols.Separates e.regs.names)
    (hready : c.FrameReady (e.regs.cells m₀.symbols.value) m.ram) :
    m.Arrives p block (c.frameOutcome (e.regs.cells m₀.symbols.value)
      (e.site m₀.symbols.value (p + Line.size block)) m.ram) := by
  have hcode := h.code
  have hnext : p + Line.size block < 65536 := by
    have := h.embeds.size
    omega
  have hword : IsWord (p + Line.size block : Nat) := ⟨Int.natCast_nonneg _, by omega⟩
  cases c with
  | call f args =>
    obtain rfl := Except.ok.inj hcode
    rw [← Command.meaning_call (e.site m₀.symbols.value _) hregs.apart h.words hword hready]
    exact (executes_call h.lines h.pc h.embeds.standard hregs.apart h.words rfl rfl
      (h.embeds.labelsAt (e.plain_labelNames_callCode f args)) hloads hnext hready).arrives
  | ret =>
    refine (executesIn_returnCode h.lines h.pc h.embeds.standard hregs.apart h.words
      (Except.ok.inj hcode) (List.forall_mem_singleton.mpr hready.2.2) ?_).arrives
    refine List.forall_mem_cons.mpr ⟨hready.2.1, fun b hb => ?_⟩
    obtain ⟨j, hj, rfl⟩ := List.mem_map.mp hb
    exact hready.1 j (List.mem_range.mp hj)
  | _ => exact hready.elim

end Emitter

/-! ## A sample -/

namespace Sample

def returnLines : List Line := Emitter.returnCode renamed

/-- A call without arguments that is about to return: the result goes where the
return address, 42, is saved. -/
def returnMemory : Memory :=
  ((((Memory.empty.store 16 306).store 17 305).store 18 300).store 300 42).store 305 7

theorem words_returnMemory : returnMemory.Words := by
  have h₁ : IsWord 306 := by decide
  have h₂ : IsWord 305 := by decide
  have h₃ : IsWord 300 := by decide
  have h₄ : IsWord 42 := by decide
  have h₅ : IsWord 7 := by decide
  exact ((((Memory.words_empty.store 16 h₁).store 17 h₂).store 18 h₃).store 300 h₄).store 305 h₅

end Sample

/-- The return goes to 42 all the same. -/
theorem Emitter.frame_block_sample : ∃ m₀ m : Machine,
    m.AtBlock Sample.emitter .ret m₀ 8 Sample.returnLines ∧ m₀.rom.size ≤ 32768 ∧
    m₀.symbols.Separates Sample.renamed.names ∧
    Command.ret.FrameReady (Sample.renamed.cells m₀.symbols.value) m.ram ∧
    (Command.ret.frameOutcome (Sample.renamed.cells m₀.symbols.value)
      (Sample.emitter.site m₀.symbols.value (8 + Line.size Sample.returnLines)) m.ram).pc = 42 ∧
    m.Arrives 8 Sample.returnLines
      (Command.ret.frameOutcome (Sample.renamed.cells m₀.symbols.value)
        (Sample.emitter.site m₀.symbols.value (8 + Line.size Sample.returnLines)) m.ram) := by
  have hload :
      (Machine.load (Sample.nameLines ++ Sample.returnLines.map Line.text ++ [])).toOption.any
        (fun m₀ => decide (m₀.rom.size ≤ 32768 ∧ m₀.symbols.Separates Sample.renamed.names ∧
          Command.ret.FrameReady (Sample.renamed.cells m₀.symbols.value) Sample.returnMemory ∧
          Sample.returnMemory.cell (Sample.returnMemory.fromFrame
            (Sample.renamed.cells m₀.symbols.value) 5) = 42)) = true := by
    decide +kernel
  obtain ⟨m₀, hm₀, hp⟩ := Loading.exists_load hload
  obtain ⟨hsize, hregs, hready, hpc⟩ := of_decide_eq_true hp
  have hat := Machine.AtBlock.of_load (d := .ret) (c := .ret) (e := Sample.emitter) rfl rfl hm₀
    Sample.words_returnMemory
  rw [Sample.size_nameLines] at hat
  have harrives := frame_block hat hsize trivial hregs hready
  exact ⟨m₀, _, hat, hsize, hregs, hready, hpc, harrives⟩

end HackStack
