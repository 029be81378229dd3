import HackStack.Proofs.Simulation

/-!
# Calls that have not returned

A call leaves five words on the stack: the address to return to and the
caller's bases. While the function runs they lie right below its locals, and
below them lie the frames of the calls further out. An `Activation` is such a
call, and `Memory.InCall` says that memory holds the frames of a list of them, the
innermost first, each where the bases of the next one further in say.

What commands may do to the stack is asked of them one by one
(`Command.Disciplined`): they leave what lies below the locals alone. Then
every command but a call and a return keeps the frames
(`Memory.InCall.meaning`), a call adds one (`Memory.InCall.enter`), and a
return takes the innermost one away and brings back the bases that it has
saved (`Memory.InCall.leave`).
-/

namespace HackStack

open Word

/-- **A call that has not returned.** -/
structure Activation where
  /-- The stack pointer before the call. -/
  sp : Int
  /-- The number of arguments. -/
  args : Nat
  /-- The address after the call. -/
  ret : Int
  lcl : Int
  arg : Int
  thisPtr : Int
  thatPtr : Int

namespace Activation

/-- The words of the frame. -/
def words (a : Activation) : List Int := [a.ret, a.lcl, a.arg, a.thisPtr, a.thatPtr]

/-- The frame lies in memory, between the arguments and the locals. -/
structure Saved (a : Activation) (m : Memory) : Prop where
  low : 256 ≤ a.sp - a.args
  high : a.sp + 5 ≤ 32768
  word : ∀ (j : Nat) x, a.words[j]? = some x → m.cell (a.sp + j) = x

end Activation

/-- **Frames on the stack**, the innermost first, under the bases `LCL` and
`ARG`. -/
def Stacked (m : Memory) : Int → Int → List Activation → Prop
  | _, _, [] => True
  | lcl, arg, a :: rest => lcl = a.sp + 5 ∧ arg = a.sp - a.args ∧ a.Saved m ∧
      (∀ b, rest.head? = some b → b.sp + 5 ≤ a.sp - a.args) ∧ Stacked m a.lcl a.arg rest

namespace Stacked

variable {m m' : Memory} {lcl arg : Int} {acts : List Activation}

/-- All frames lie on the stack, below the locals. -/
theorem le (h : Stacked m lcl arg acts) :
    ∀ a ∈ acts, 256 ≤ a.sp ∧ a.sp + 5 ≤ lcl ∧ a.sp + 5 ≤ 32768 := by
  induction acts generalizing lcl arg with
  | nil => exact fun a ha => nomatch ha
  | cons b rest ih =>
    obtain ⟨hlcl, -, hsaved, hbelow, hrest⟩ := h
    have hlow := hsaved.low
    have hhigh := hsaved.high
    intro a ha
    rcases List.mem_cons.mp ha with rfl | ha
    · omega
    · have hle := ih hrest a ha
      cases rest with
      | nil => cases ha
      | cons c rest =>
        have hc := hbelow c rfl
        have hlcl' : b.lcl = c.sp + 5 := hrest.1
        omega

/-- Frames stay where nothing is written to them. -/
theorem congr (h : Stacked m lcl arg acts)
    (heq : ∀ a ∈ acts, ∀ b, a.sp ≤ b → b < a.sp + 5 → m'.cell b = m.cell b) :
    Stacked m' lcl arg acts := by
  induction acts generalizing lcl arg with
  | nil => exact h
  | cons a rest ih =>
    obtain ⟨hlcl, harg, hsaved, hbelow, hrest⟩ := h
    refine ⟨hlcl, harg, ⟨hsaved.low, hsaved.high, fun j x hx => ?_⟩, hbelow,
      ih hrest fun b hb => heq b (List.mem_cons_of_mem a hb)⟩
    have hj : j < 5 := (List.getElem?_eq_some_iff.mp hx).1
    rw [heq a (List.mem_cons_self ..) _ (by omega) (by omega)]
    exact hsaved.word j x hx

end Stacked

/-- **Memory inside of calls**: their frames are on the stack, and the stack does
not end below the locals. -/
structure Memory.InCall (m : Memory) (acts : List Activation) : Prop where
  stacked : Stacked m (m.cell 1) (m.cell 2) acts
  above : m.cell 1 ≤ m.cell 0

/-! ## Pushing words -/

namespace Memory

variable {t : Symbols} {m : Memory}

theorem push_cells (t : Symbols) (m : Memory) (x : Int) :
    m.push t.cells x = (m.store (m.cell 0) x).store 0 (wrap (m.cell 0 + 1)) := rfl

/-- **Words that are pushed** lie one above the other, and nothing else
changes. -/
theorem foldl_push (xs : List Int) {s : Int} (hs : m.cell 0 = s) (hlo : 256 ≤ s)
    (hhi : s + xs.length ≤ 32768) :
    (xs.foldl (push t.cells) m).cell 0 = s + xs.length ∧
      (∀ (j : Nat) x, xs[j]? = some x → (xs.foldl (push t.cells) m).cell (s + j) = x) ∧
      ∀ b, b ≠ 0 → b < s ∨ s + xs.length ≤ b →
        (xs.foldl (push t.cells) m).cell b = m.cell b := by
  induction xs generalizing m s with
  | nil => exact ⟨by simpa using hs, fun j x hx => by simp at hx, fun b _ _ => rfl⟩
  | cons x xs ih =>
    rw [List.length_cons, Nat.cast_succ] at hhi
    have hzero : IsCell 0 := by decide
    have hcell : IsCell s := ⟨by omega, by omega⟩
    have hnext : (m.push t.cells x).cell 0 = s + 1 := by
      rw [push_cells, cell_store_self _ hzero, hs, wrap_eq_emod]
      omega
    have hother (b : Int) (h0 : b ≠ 0) (hb : b ≠ s) : (m.push t.cells x).cell b = m.cell b := by
      rw [push_cells, cell_store_of_ne _ h0, hs, cell_store_of_ne _ hb]
    have hx : (m.push t.cells x).cell s = x := by
      rw [push_cells, cell_store_of_ne _ (by omega), hs, cell_store_self _ hcell]
    obtain ⟨hsp, hwords, hrest⟩ := ih hnext (by omega) (by omega)
    rw [List.foldl_cons, List.length_cons, Nat.cast_succ]
    refine ⟨by omega, fun j y hy => ?_, fun b h0 hb => ?_⟩
    · cases j with
      | zero =>
        rw [List.getElem?_cons_zero, Option.some.injEq] at hy
        rw [Nat.cast_zero, Int.add_zero, hrest s (by omega) (by omega), hx, hy]
      | succ j =>
        rw [List.getElem?_cons_succ] at hy
        rw [← hwords j y hy]
        congr 1
        omega
    · rw [hrest b h0 (by omega), hother b h0 (by omega)]

/-! ## Calls and returns -/

/-- The activation of a call. -/
def activation (m : Memory) (args : Nat) (ret : Int) : Activation :=
  ⟨m.cell 0, args, ret, m.cell 1, m.cell 2, m.cell 3, m.cell 4⟩

theorem enter_cells (t : Symbols) (m : Memory) (ret : Int) (args : Nat) :
    m.enter t.cells ret args = (((m.activation args ret).words.foldl (push t.cells) m).store 2
      (wrap (m.cell 0 - args))).store 1 (wrap (m.cell 0 + 5)) := rfl

/-- **A call adds a frame.** Its arguments have to lie above the frame of the
function that calls, if that was called itself. -/
theorem InCall.enter {acts : List Activation} {args : Nat} {ret : Int}
    (h : Stacked m (m.cell 1) (m.cell 2) acts) (hlo : 256 ≤ m.cell 0 - args)
    (hhi : m.cell 0 + 5 ≤ 32768)
    (hbelow : ∀ b, acts.head? = some b → b.sp + 5 ≤ m.cell 0 - args) :
    (m.enter t.cells ret args).InCall (m.activation args ret :: acts) := by
  obtain ⟨hsp, hwords, hrest⟩ := foldl_push (t := t) (m.activation args ret).words rfl
    (by omega : 256 ≤ m.cell 0) hhi
  have hlcl : (m.enter t.cells ret args).cell 1 = m.cell 0 + 5 := by
    rw [enter_cells, cell_store_self _ (by decide), wrap_eq_emod]
    omega
  have harg : (m.enter t.cells ret args).cell 2 = m.cell 0 - args := by
    rw [enter_cells, cell_store_of_ne _ (by decide), cell_store_self _ (by decide), wrap_eq_emod]
    omega
  have hother (b : Int) (h₁ : b ≠ 1) (h₂ : b ≠ 2) : (m.enter t.cells ret args).cell b
      = ((m.activation args ret).words.foldl (push t.cells) m).cell b := by
    rw [enter_cells, cell_store_of_ne _ h₁, cell_store_of_ne _ h₂]
  have hframes := h.le
  refine ⟨?_, ?_⟩
  · rw [hlcl, harg]
    refine ⟨rfl, rfl, ⟨hlo, hhi, fun j x hx => ?_⟩, hbelow, h.congr fun a ha b hb hb' => ?_⟩
    · have hj : j < 5 := (List.getElem?_eq_some_iff.mp hx).1
      show (m.enter t.cells ret args).cell (m.cell 0 + j) = x
      rw [hother _ (by omega) (by omega)]
      exact hwords j x hx
    · -- the frames further out lie below the arguments
      have hle := hframes a ha
      have hsp : a.sp + 5 ≤ m.cell 0 - args := by
        cases acts with
        | nil => cases ha
        | cons c rest =>
          have hc := hbelow c rfl
          have hlcl' : m.cell 1 = c.sp + 5 := h.1
          omega
      rw [hother b (by omega) (by omega), hrest b (by omega) (by omega)]
  · rw [hlcl, hother 0 (by decide) (by decide), hsp]
    exact le_rfl

/-- The result of a call, where its first argument was. -/
def returned (m : Memory) : Memory := m.store (m.cell 2) (m.cell (wrap (m.cell 0 - 1)))

theorem leave_cells (t : Symbols) (m : Memory) : m.leave t.cells =
    ((((m.returned.store 0 (wrap (m.cell 2 + 1))).store 4
      (m.returned.cell (wrap (m.cell 1 - 1)))).store 3
      (m.returned.cell (wrap (m.cell 1 - 2)))).store 2
      (m.returned.cell (wrap (m.cell 1 - 3)))).store 1
      (m.returned.cell (wrap (m.cell 1 - 4))) := rfl

section Leave

variable {a : Activation} {rest : List Activation} (h : m.InCall (a :: rest))

include h

/-- The caller's bases, counted down from the end of the frame, once the result
is in place. -/
theorem InCall.cell_fromFrame {d : Int} {j : Nat} {x : Int} (hd : d + j = 5) (hj : 0 < j)
    (hx : a.words[j]? = some x) : m.returned.cell (wrap (m.cell 1 - d)) = x := by
  obtain ⟨hlcl, harg, hsaved, -, -⟩ := h.stacked
  have hlow := hsaved.low
  have hhigh := hsaved.high
  have hlt : j < 5 := (List.getElem?_eq_some_iff.mp hx).1
  have hwrap : wrap (m.cell 1 - d) = a.sp + j := by
    rw [wrap_eq_emod, hlcl]
    omega
  rw [hwrap, returned, cell_store_of_ne _ (by omega), hsaved.word j x hx]

/-- The address to return to is read before the result is put in place. -/
theorem InCall.cell_ret : m.cell (m.fromFrame t.cells 5) = a.ret := by
  obtain ⟨hlcl, -, hsaved, -, -⟩ := h.stacked
  have hlow := hsaved.low
  have hhigh := hsaved.high
  have hwrap : m.fromFrame t.cells 5 = a.sp + (0 : Nat) := by
    show wrap (m.cell 1 - 5) = _
    rw [wrap_eq_emod, hlcl]
    omega
  rw [hwrap, hsaved.word 0 a.ret rfl]

/-- What a return reaches through the bases is on the stack. -/
theorem InCall.baseCells_ret :
    ∀ b ∈ Command.ret.baseCells t.cells m, 256 ≤ b ∧ b < 32768 := by
  obtain ⟨hlcl, harg, hsaved, -, -⟩ := h.stacked
  have hlow := hsaved.low
  have hhigh := hsaved.high
  intro b hb
  rcases List.mem_cons.mp hb with rfl | hb
  · show 256 ≤ m.cell 2 ∧ m.cell 2 < 32768
    omega
  · obtain ⟨j, hj, rfl⟩ := List.mem_map.mp hb
    have hj := List.mem_range.mp hj
    have hwrap : m.fromFrame t.cells (j + 1) = a.sp + 5 - (j + 1) := by
      show wrap (m.cell 1 - (j + 1 : Nat)) = _
      rw [wrap_eq_emod, hlcl]
      omega
    rw [hwrap]
    omega

/-- **What a return leaves**: the caller's bases, the stack without the
arguments, and the result on top of it. -/
theorem InCall.leave_words (hm : m.Words) :
    (m.leave t.cells).cell 0 = a.sp - a.args + 1 ∧ (m.leave t.cells).cell 1 = a.lcl ∧
      (m.leave t.cells).cell 2 = a.arg ∧ (m.leave t.cells).cell 3 = a.thisPtr ∧
      (m.leave t.cells).cell 4 = a.thatPtr ∧
      (m.leave t.cells).cell (a.sp - a.args) = m.cell (m.cell 0 - 1) ∧
      ∀ b, 4 < b → b ≠ a.sp - a.args → (m.leave t.cells).cell b = m.cell b := by
  obtain ⟨hlcl, harg, hsaved, -, -⟩ := h.stacked
  have hlow := hsaved.low
  have hhigh := hsaved.high
  have habove := h.above
  have hword := hm 0
  have htop : wrap (m.cell 0 - 1) = m.cell 0 - 1 := by
    have := hword.2
    rw [wrap_eq_emod]
    omega
  have hsp : wrap (m.cell 2 + 1) = a.sp - a.args + 1 := by
    rw [wrap_eq_emod, harg]
    omega
  have hresult : IsCell (a.sp - a.args) := ⟨by omega, by omega⟩
  have hput : m.returned = m.store (a.sp - a.args) (m.cell (m.cell 0 - 1)) := by
    rw [returned, htop, harg]
  rw [leave_cells, h.cell_fromFrame (d := 1) (j := 4) (by decide) (by decide) rfl,
    h.cell_fromFrame (d := 2) (j := 3) (by decide) (by decide) rfl,
    h.cell_fromFrame (d := 3) (j := 2) (by decide) (by decide) rfl,
    h.cell_fromFrame (d := 4) (j := 1) (by decide) (by decide) rfl, hsp, hput]
  refine ⟨?_, ?_, ?_, ?_, ?_, ?_, fun b hb hne => ?_⟩
  · rw [cell_store_of_ne _ (by decide), cell_store_of_ne _ (by decide),
      cell_store_of_ne _ (by decide), cell_store_of_ne _ (by decide), cell_store_self _ (by decide)]
  · rw [cell_store_self _ (by decide)]
  · rw [cell_store_of_ne _ (by decide), cell_store_self _ (by decide)]
  · rw [cell_store_of_ne _ (by decide), cell_store_of_ne _ (by decide),
      cell_store_self _ (by decide)]
  · rw [cell_store_of_ne _ (by decide), cell_store_of_ne _ (by decide),
      cell_store_of_ne _ (by decide), cell_store_self _ (by decide)]
  · rw [cell_store_of_ne _ (by omega), cell_store_of_ne _ (by omega), cell_store_of_ne _ (by omega),
      cell_store_of_ne _ (by omega), cell_store_of_ne _ (by omega), cell_store_self _ hresult]
  · rw [cell_store_of_ne _ (by omega), cell_store_of_ne _ (by omega), cell_store_of_ne _ (by omega),
      cell_store_of_ne _ (by omega), cell_store_of_ne _ (by omega), cell_store_of_ne _ hne]

/-- **A return takes the innermost frame away.** -/
theorem InCall.leave (hm : m.Words) (hrest : rest ≠ []) : (m.leave t.cells).InCall rest := by
  obtain ⟨hsp, hlcl, harg, -, -, -, hother⟩ := h.leave_words (t := t) hm
  obtain ⟨-, -, hsaved, hbelow, hstacked⟩ := h.stacked
  cases rest with
  | nil => exact absurd rfl hrest
  | cons b rest =>
    have hb := hbelow b rfl
    have hlcl' : a.lcl = b.sp + 5 := hstacked.1
    have hframes := hstacked.le
    refine ⟨?_, by omega⟩
    rw [hlcl, harg]
    refine hstacked.congr fun c hc x hx hx' => ?_
    have hle := hframes c hc
    exact hother x (by omega) (by omega)

end Leave

end Memory

/-! ## Discipline -/

namespace Command

variable (k : Cells) (m : Memory)

/-- The cells of the operands of a command. -/
def operands : Command → List Int
  | .pop _ _ | .arithmetic (.unary _) | .ifGoto _ => [m.fromTop k 1]
  | .arithmetic (.binary _) | .arithmetic (.comparison _) => [m.fromTop k 1, m.fromTop k 2]
  | _ => []

/-- The cell from which on the arguments of a call lie. -/
def arguments : Command → List Int
  | .call _ args => [m.cell k.sp - args]
  | _ => []

/-- The cell that a pop writes through a base. -/
def targets : Command → List Int
  | .pop (.indirect b) index => [wrap (m.cell (k.base b) + index)]
  | _ => []

/-- **What is asked of a command** while calls are pending, whose frames start at
the given cells: the stack stays in its place, operands lie above the start
of the locals, and so do the arguments of a call made inside of another; and
no pop writes through a base to the stack pointer, to `LCL` or `ARG`, or to
one of the frames. -/
structure Disciplined (pending : List Int) (c : Command) : Prop where
  stack : ∀ b ∈ c.stackCells k m, 256 ≤ b ∧ b ≤ 32767
  operands : ∀ b ∈ c.operands k m, m.cell k.lcl ≤ b
  arguments : pending ≠ [] → ∀ b ∈ c.arguments k m, m.cell k.lcl ≤ b
  targets : ∀ b ∈ c.targets k m, 2 < b ∧ ∀ s ∈ pending, b < s ∨ s + 5 ≤ b

instance (pending : List Int) (c : Command) : Decidable (c.Disciplined k m pending) :=
  decidable_of_iff ((∀ b ∈ c.stackCells k m, 256 ≤ b ∧ b ≤ 32767) ∧
      (∀ b ∈ c.operands k m, m.cell k.lcl ≤ b) ∧
      (pending ≠ [] → ∀ b ∈ c.arguments k m, m.cell k.lcl ≤ b) ∧
      ∀ b ∈ c.targets k m, 2 < b ∧ ∀ s ∈ pending, b < s ∨ s + 5 ≤ b)
    ⟨fun ⟨h₁, h₂, h₃, h₄⟩ => ⟨h₁, h₂, h₃, h₄⟩, fun h => ⟨h.1, h.2, h.3, h.4⟩⟩

end Command

namespace Memory.InCall

variable {t : Symbols} {m m' : Memory} {acts : List Activation} (h : m.InCall acts)

include h

/-- Writing the stack pointer. -/
theorem store_sp {x : Int} (hx : m.cell 1 ≤ x) : (m.store 0 x).InCall acts := by
  have hframes := h.stacked.le
  refine ⟨?_, ?_⟩
  · rw [cell_store_of_ne _ (by decide), cell_store_of_ne _ (by decide)]
    refine h.stacked.congr fun a ha b hb _ => cell_store_of_ne _ ?_ _
    have := hframes a ha
    omega
  · rw [cell_store_of_ne _ (by decide), cell_store_self _ (by decide)]
    exact hx

/-- Writing a cell outside of the frames. -/
theorem store {b : Int} (hb : 2 < b) (hframe : ∀ a ∈ acts, b < a.sp ∨ a.sp + 5 ≤ b) (x : Int) :
    (m.store b x).InCall acts := by
  refine ⟨?_, ?_⟩
  · rw [cell_store_of_ne _ (by omega), cell_store_of_ne _ (by omega)]
    refine h.stacked.congr fun a ha c hc hc' => cell_store_of_ne _ ?_ _
    have := hframe a ha
    omega
  · rw [cell_store_of_ne _ (by omega), cell_store_of_ne _ (by omega)]
    exact h.above

/-- Writing a cell of the stack. -/
theorem store_above {b : Int} (hb : 2 < b) (hlcl : m.cell 1 ≤ b) (x : Int) :
    (m.store b x).InCall acts := by
  refine h.store hb (fun a ha => ?_) x
  have := h.stacked.le a ha
  omega

theorem push (hs : 256 ≤ m.cell 0 ∧ m.cell 0 ≤ 32767) (x : Int) :
    (m.push t.cells x).InCall acts := by
  have habove := h.above
  refine (h.store_above (by omega) habove x).store_sp ?_
  rw [cell_store_of_ne _ (by omega)]
  show m.cell 1 ≤ wrap (m.cell 0 + 1)
  rw [wrap_eq_emod]
  omega

theorem pushes (hm : m.Words) {n : Nat}
    (hs : ∀ j < n, 256 ≤ wrap (m.cell 0 + (j : Nat)) ∧ wrap (m.cell 0 + (j : Nat)) ≤ 32767) :
    ((fun m => m.push t.cells 0)^[n] m).InCall acts := by
  induction n generalizing m with
  | zero => exact h
  | succ n ih =>
    have hfirst := hs 0 (Nat.succ_pos n)
    rw [Nat.cast_zero, Int.add_zero, hm.wrap_cell] at hfirst
    rw [Function.iterate_succ_apply]
    refine ih (h.push hfirst 0) (hm.push (by decide)) fun j hj => ?_
    have hnext : (m.push t.cells 0).cell 0 = wrap (m.cell 0 + 1) := by
      rw [push_cells, cell_store_self _ (by decide)]
    have heq : wrap (wrap (m.cell 0 + 1) + j) = wrap (m.cell 0 + ((j + 1 : Nat) : Int)) := by
      simp only [wrap_eq_emod]
      omega
    rw [hnext, heq]
    exact hs (j + 1) (by omega)

/-- Work in progress is not kept in the frames. -/
theorem agree {cells : List Int} (hagree : AgreeOutside cells m' m)
    (hcells : ∀ b ∈ cells, 4 < b ∧ b < 256) : m'.InCall acts := by
  have heq (b : Int) (hcell : IsCell b) (hb : b ≤ 4 ∨ 256 ≤ b) : m'.cell b = m.cell b :=
    hagree b hcell fun hmem => by
      have := hcells b hmem
      omega
  have hzero := heq 0 (by decide) (.inl (by decide))
  have hone := heq 1 (by decide) (.inl (by decide))
  have htwo := heq 2 (by decide) (.inl (by decide))
  refine ⟨?_, by rw [hzero, hone]; exact h.above⟩
  rw [hone, htwo]
  refine h.stacked.congr fun a ha b hb hb' => ?_
  have := h.stacked.le a ha
  exact heq b ⟨by omega, by omega⟩ (.inr (by omega))

/-- **Commands keep the frames**, but for calls and returns. -/
theorem meaning {c : Command} {site : Site} (hm : m.Words)
    (hd : c.Disciplined t.cells m (acts.map (·.sp))) (hcall : ∀ name args, c ≠ .call name args)
    (hret : c ≠ .ret) (hfixed : ∀ segment index, c = .pop segment index →
      (∃ b, segment = .indirect b) ∨ (2 < segment.address t.cells site m index ∧
        segment.address t.cells site m index < 256)) :
    (c.meaning t.cells site m).ram.InCall acts := by
  have hone : (t.cells.lcl : Int) = 1 := rfl
  have hstack := hd.stack
  have hoperands := hd.operands
  have hframes := h.stacked.le
  rw [hone] at hoperands
  cases c with
  | push segment index => exact h.push (hstack _ (List.mem_singleton_self _)) _
  | pop segment index =>
    have hlcl := hoperands _ (List.mem_singleton_self _)
    refine (h.store_sp hlcl).store ?_ ?_ _
    · rcases hfixed segment index rfl with ⟨b, rfl⟩ | hlt
      · exact (hd.targets _ (List.mem_singleton_self _)).1
      · exact hlt.1
    · intro a ha
      rcases hfixed segment index rfl with ⟨b, rfl⟩ | hlt
      · exact (hd.targets _ (List.mem_singleton_self _)).2 _ (List.mem_map_of_mem ha)
      · have := hframes a ha
        omega
  | arithmetic op =>
    cases op with
    | unary op =>
      have hlo := hstack _ (List.mem_singleton_self _)
      exact h.store_above (by omega) (hoperands _ (List.mem_singleton_self _)) _
    | binary op | comparison op =>
      have hlo := hstack _ (List.mem_cons_of_mem _ (List.mem_singleton_self _))
      have hfirst := hoperands _ (List.mem_cons_self ..)
      have hsecond := hoperands _ (List.mem_cons_of_mem _ (List.mem_singleton_self _))
      refine (h.store_sp hfirst).store_above (by omega) ?_ _
      rw [cell_store_of_ne _ (by decide)]
      exact hsecond
  | label name => exact h
  | goto name => exact h
  | ifGoto name => exact h.store_sp (hoperands _ (List.mem_singleton_self _))
  | function name locals =>
    exact h.pushes hm fun j hj => hstack _ (List.mem_map.mpr ⟨j, List.mem_range.mpr hj, rfl⟩)
  | call name args => exact absurd rfl (hcall name args)
  | ret => exact absurd rfl hret

end Memory.InCall

end HackStack
