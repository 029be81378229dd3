import HackStack.Proofs.Activations

/-!
# Calls return

A machine runs a linked program from a call on. The call is followed by the
code of the function, which may call others and itself, to any depth; at
last comes the return that matches the call. `Layout.follow` runs the machine
step by step and keeps the stack pointers of the calls that are pending, as
they can be seen from outside: where the code of a call starts there is one
more, and where that of a return starts there is one less.

If no command breaks the discipline of the stack, the return that matches
finds what the call has left. It goes on behind the call, with the caller's
bases back in place and the result in the place of the arguments. The frames
of all pending calls are the invariant that carries this from one command to
the next (`Program.Boundary`); inside the code of a command nothing is said
about them.
-/

namespace HackStack

open Word

/-! ## Following a machine -/

namespace Layout

variable (L : Layout)

/-- **The command whose code starts at an address.** -/
def commandAt? (pc : Int) : Option Command :=
  ((List.range L.commands.length).find? fun i =>
    (L.address i : Int) = pc ∧ L.address i < L.address (i + 1)).bind (L.commands[·]?)

/-- The calls that are pending after the next step. -/
def pendingAfter (k : Cells) (m : Machine) (pending : List Int) : List Int :=
  match L.commandAt? m.pc with
  | some (.call _ _) => m.ram.cell k.sp :: pending
  | some .ret => pending.tail
  | _ => pending

/-- Whether the command that starts here keeps the discipline of the stack. -/
def allows (k : Cells) (m : Machine) (pending : List Int) : Bool :=
  (L.commandAt? m.pc).all fun c => c.Disciplined k m.ram pending

/-- **Follows a machine** for a number of steps, with the stack pointers of the
calls that are pending. There is no result if the machine stops, if a command
breaks the discipline, or if no call is pending any more. -/
def follow (k : Cells) : Nat → Machine → List Int → Option (Machine × List Int)
  | 0, m, pending => some (m, pending)
  | n + 1, m, pending =>
    if L.allows k m pending ∧ L.pendingAfter k m pending ≠ [] then
      match m.step with
      | .ok m' => follow k n m' (L.pendingAfter k m pending)
      | .error _ => none
    else none

variable {L} {i j : Nat} {c : Command} {k : Cells}

theorem address_le_succ (i : Nat) : L.address i ≤ L.address (i + 1) := by
  cases h : L.commands[i]? with
  | some c =>
    rw [address_succ h]
    exact Nat.le_add_right _ _
  | none =>
    rw [address, address, before, before, List.take_add_one, h]
    simp

theorem address_mono (h : i ≤ j) : L.address i ≤ L.address j :=
  monotone_nat_of_le_succ address_le_succ h

/-- No code starts strictly inside the code of a command. -/
theorem commandAt?_inside {pc : Int} (hlo : L.address i < pc) (hhi : pc < L.address (i + 1)) :
    L.commandAt? pc = none := by
  rw [commandAt?, List.find?_eq_none.mpr, Option.bind_none]
  intro j _ hj
  have hj := of_decide_eq_true hj
  rcases Nat.lt_or_ge i j with hlt | hge
  · have := address_mono (L := L) (show i + 1 ≤ j from hlt)
    omega
  · have := address_mono (L := L) hge
    omega

/-- No code starts behind the last command. -/
theorem commandAt?_end {pc : Int} (h : L.address L.commands.length ≤ pc) :
    L.commandAt? pc = none := by
  rw [commandAt?, List.find?_eq_none.mpr, Option.bind_none]
  intro j hj hj'
  have hj' := of_decide_eq_true hj'
  have := address_mono (L := L) (show j + 1 ≤ L.commands.length from List.mem_range.mp hj)
  omega

theorem commandAt?_address (hc : L.commands[i]? = some c)
    (hsize : L.address i < L.address (i + 1)) : L.commandAt? (L.address i) = some c := by
  have hlt := (List.getElem?_eq_some_iff.mp hc).1
  unfold commandAt?
  cases hfind : (List.range L.commands.length).find? fun j =>
      decide ((L.address j : Int) = L.address i ∧ L.address j < L.address (j + 1)) with
  | none =>
    have hnot := List.find?_eq_none.mp hfind i (List.mem_range.mpr hlt)
    simp [hsize] at hnot
  | some j =>
    have hfound := List.find?_some hfind
    obtain ⟨heq, hsize'⟩ := of_decide_eq_true hfound
    have hij : j = i := by
      rcases Nat.lt_trichotomy j i with hlt | heq | hgt
      · have := address_mono (L := L) (show j + 1 ≤ i from hlt)
        omega
      · exact heq
      · have := address_mono (L := L) (show i + 1 ≤ j from hgt)
        omega
    rw [hij, Option.bind_some, hc]

/-- From every place the code goes on at a command that has some, or at the
end. -/
theorem exists_start (hi : i ≤ L.commands.length) : ∃ j, L.address j = L.address i ∧
    (j = L.commands.length ∨ ∃ c, L.commands[j]? = some c ∧ L.address j < L.address (j + 1)) := by
  induction hd : L.commands.length - i generalizing i with
  | zero => exact ⟨i, rfl, .inl (by omega)⟩
  | succ n ih =>
    rcases Nat.lt_or_ge (L.address i) (L.address (i + 1)) with hlt | hge
    · exact ⟨i, rfl, .inr ⟨_, List.getElem?_eq_getElem (by omega), hlt⟩⟩
    · obtain ⟨j, hj, hstart⟩ := ih (i := i + 1) (by omega) (by omega)
      exact ⟨j, hj.trans (Nat.le_antisymm hge (address_le_succ i)), hstart⟩

variable {m m' mr : Machine} {pending rest : List Int} {n r : Nat}

/-- One step of following a machine. -/
theorem follow_succ (h : L.follow k (r + 1) m pending = some (mr, rest)) :
    L.allows k m pending = true ∧ L.pendingAfter k m pending ≠ [] ∧
      ∃ m', m.step = .ok m' ∧ L.follow k r m' (L.pendingAfter k m pending) = some (mr, rest) := by
  rw [follow] at h
  split at h
  next hok =>
    split at h
    next m' hstep => exact ⟨hok.1, hok.2, m', hstep, h⟩
    next => cases h
  next => cases h

/-- Following a machine is running it. -/
theorem stepN_of_follow (h : L.follow k r m pending = some (mr, rest)) : m.stepN r = .ok mr := by
  induction r generalizing m pending with
  | zero =>
    obtain ⟨rfl, -⟩ := Prod.mk.inj (Option.some.inj h)
    rfl
  | succ r ih =>
    obtain ⟨-, -, m', hstep, h⟩ := follow_succ h
    rw [Nat.add_comm, Machine.stepN_add, Machine.stepN_one, hstep]
    exact ih h

/-- Nothing is seen inside the code of a command. -/
theorem follow_inside (hend : (L.commandAt? mr.pc).isSome = true)
    (hp : Machine.Passage (L.address i) (L.address (i + 1)) n m m')
    (hpc : L.address i < m.pc ∧ m.pc < L.address (i + 1))
    (h : L.follow k r m pending = some (mr, rest)) :
    n ≤ r ∧ L.follow k (r - n) m' pending = some (mr, rest) := by
  induction n generalizing m r with
  | zero =>
    obtain rfl : m = m' := Except.ok.inj hp.run
    exact ⟨Nat.zero_le r, h⟩
  | succ n ih =>
    have hnone := commandAt?_inside hpc.1 hpc.2
    cases r with
    | zero =>
      -- the run cannot end here
      obtain ⟨rfl, -⟩ := Prod.mk.inj (Option.some.inj h)
      rw [hnone] at hend
      cases hend
    | succ r =>
      obtain ⟨m₁, hstep, hrest, hin⟩ := hp.tail
      obtain ⟨-, -, m₁', hstep', h⟩ := follow_succ h
      obtain rfl : m₁ = m₁' := Except.ok.inj (hstep.symm.trans hstep')
      have hsame : L.pendingAfter k m pending = pending := by rw [pendingAfter, hnone]
      rw [hsame] at h
      rw [Nat.succ_le_succ_iff, Nat.succ_sub_succ]
      rcases Nat.eq_zero_or_pos n with rfl | hn
      · obtain rfl : m₁ = m' := Except.ok.inj hrest.run
        exact ⟨Nat.zero_le r, h⟩
      · exact ih hrest (hin hn) h

/-- **Following a machine through the code of a command.** -/
theorem follow_block (hend : (L.commandAt? mr.pc).isSome = true)
    (hp : Machine.Passage (L.address i) (L.address (i + 1)) n m m') (hn : 0 < n)
    (h : L.follow k (r + 1) m pending = some (mr, rest)) :
    n ≤ r + 1 ∧ L.follow k (r + 1 - n) m' (L.pendingAfter k m pending) = some (mr, rest) := by
  obtain ⟨n, rfl⟩ := Nat.exists_eq_succ_of_ne_zero (Nat.pos_iff_ne_zero.mp hn)
  obtain ⟨m₁, hstep, hrest, hin⟩ := hp.tail
  obtain ⟨-, -, m₁', hstep', h⟩ := follow_succ h
  obtain rfl : m₁ = m₁' := Except.ok.inj (hstep.symm.trans hstep')
  rw [Nat.succ_le_succ_iff, Nat.succ_sub_succ]
  rcases Nat.eq_zero_or_pos n with rfl | hn
  · obtain rfl : m₁ = m' := Except.ok.inj hrest.run
    exact ⟨Nat.zero_le r, h⟩
  · exact follow_inside hend hrest (hin hn) h

/-- A machine that stops inside the code of a command is not followed to where
a command starts. -/
theorem not_follow_stuck {halt : Halt} (hend : (L.commandAt? mr.pc).isSome = true)
    (hp : Machine.Passage (L.address i) (L.address (i + 1)) n m m') (hn : 0 < n)
    (hpc : L.address i < m'.pc ∧ m'.pc < L.address (i + 1)) (hstep : m'.step = .error halt) :
    L.follow k (r + 1) m pending ≠ some (mr, rest) := by
  intro h
  obtain ⟨-, h⟩ := follow_block hend hp hn h
  cases hr : r + 1 - n with
  | zero =>
    rw [hr] at h
    obtain ⟨rfl, -⟩ := Prod.mk.inj (Option.some.inj h)
    rw [commandAt?_inside hpc.1 hpc.2] at hend
    cases hend
  | succ r' =>
    rw [hr] at h
    obtain ⟨-, -, m'', hstep', -⟩ := follow_succ h
    rw [hstep] at hstep'
    cases hstep'

end Layout

/-! ## Code that reaches outside of memory -/

namespace Emitter

variable {v : String → Nat} {e : Emitter} {b : Base} {index : Nat} {m : Memory} {a d : Int}
  {code : List Line}

/-- A push from a cell that is not there has no result. -/
theorem runLines_push_none (hcode : e.pushCode (.indirect b) index = .ok code) (hv : Standard v)
    (hk : (e.regs.cells v).Apart) (hindex : index < 32768) (hm : m.Words)
    (hno : ¬ IsCell (wrap (m.cell (v (e.regs.base b)) + index))) :
    runLines v code ⟨a, d, m⟩ = none := by
  obtain ⟨address, haddress, rfl⟩ := pushCode_eq_ok hcode
  have hstatic : (e.site v 0).static index = v (e.staticSymbol index) := rfl
  obtain ⟨d', hrun⟩ := runLines_addressCode (a := a) (d := d) haddress hv (fun _ _ => hindex) hm
    hstatic (isCell_base hk)
  rw [Segment.address, RegisterFile.base_cells] at hrun
  rw [List.append_assoc, runLines_append, hrun, Option.bind_some, List.singleton_append,
    if_neg (by rintro ⟨⟩), runLines_cons, Line.set, Line.act?_compute, if_neg, Option.bind_none]
  exact fun h => hno (h (.inl rfl))

/-- A pop to a cell that is not there has no result. -/
theorem runLines_pop_none (hcode : e.popCode (.indirect b) index = .ok code) (hv : Standard v)
    (hk : (e.regs.cells v).Apart) (hindex : index < 32768) (hm : m.Words)
    (ht : (e.regs.cells v).Free (m.fromTop (e.regs.cells v) 1))
    (hno : ¬ IsCell (wrap (m.cell (v (e.regs.base b)) + index))) :
    runLines v code ⟨a, d, m⟩ = none := by
  obtain ⟨-, address, haddress, rfl⟩ := popCode_eq_ok hcode
  have hscratch := Cells.scratch_mem_work (e.regs.cells v)
  have hsp := Cells.sp_mem_main (e.regs.cells v)
  have hword : IsWord (Segment.address (e.regs.cells v) (e.site v 0) m index (.indirect b)) :=
    isWord_wrap _
  rw [runLines_popped hv (fun _ _ => hindex) hm rfl (isCell_base hk) hk.isCell_sp haddress
    (hk.isCell_work hscratch) (by simpa using (hk.ne_of_mem hsp hscratch).symm) ht.1
    (ht.ne (Cells.mem_all_of_mem_main hsp)) (ht.ne (Cells.mem_all_of_mem_work hscratch)) hword,
    Segment.address, RegisterFile.base_cells, runLines_cons, Line.set, Line.act?_compute, if_neg,
    Option.bind_none]
  exact fun h => hno (h (.inr rfl))

/-- The code of a push or a pop through a base starts by loading the index. -/
theorem exists_code_indirect (hcode : e.pushCode (.indirect b) index = .ok code ∨
    e.popCode (.indirect b) index = .ok code) :
    ∃ x ls, code = Line.address x :: ls := by
  rcases hcode with hcode | hcode
  · obtain ⟨address, haddress, rfl⟩ := pushCode_eq_ok hcode
    obtain rfl := Except.ok.inj haddress
    exact ⟨_, _, rfl⟩
  · obtain ⟨-, address, haddress, rfl⟩ := popCode_eq_ok hcode
    obtain rfl := Except.ok.inj haddress
    exact ⟨_, _, rfl⟩

end Emitter

namespace Program.Runnable

variable {modules : List Module} {o : LinkOptions} {p : Program} {m₀ m : Machine} {i : Nat}
  {c : Command} (h : Runnable modules o p m₀)

include h

/-- A command that reaches outside of memory has lines without a jump, and
these have no result. -/
theorem runLines_lines_none (hc : (layout modules o).commands[i]? = some c) (hm : m.ram.Words)
    (hstack : ∀ b ∈ c.stackCells m₀.symbols.cells m.ram, 256 ≤ b ∧ b < 32768) (hret : c ≠ .ret)
    (hno : ¬ ∀ b ∈ c.baseCells m₀.symbols.cells m.ram, IsCell b) :
    (∃ x ls, ((layout modules o).emitterAt i).lines c = Line.address x :: ls) ∧
      (((layout modules o).emitterAt i).lines c).all Line.isStraight = true ∧
      runLines m₀.symbols.value (((layout modules o).emitterAt i).lines c) m.data = none := by
  obtain ⟨hcells, hapart, hlow⟩ := h.spare
  have hcode := Emitter.code_spare (h.regs i) hret ▸ h.code hc
  have hloads := h.loads hc
  have hstandard := (h.embeds hc).standard
  have hbase (b : Base) : m₀.symbols.cells.base b
      = m₀.symbols.value (RegisterFile.spare.base b) := by
    have hspare := RegisterFile.base_cells RegisterFile.spare m₀.symbols.value b
    rw [hcells] at hspare
    rw [← hspare]
    cases b <;> rfl
  generalize ((layout modules o).emitterAt i).lines c = code at *
  cases c with
  | push segment index =>
    cases segment with
    | indirect b =>
      rw [Command.baseCells, List.forall_mem_singleton, hbase] at hno
      exact ⟨Emitter.exists_code_indirect (.inl hcode), Emitter.isStraight_pushCode hcode,
        Emitter.runLines_push_none hcode hstandard hapart (hloads b rfl) hm hno⟩
    | _ => exact absurd (List.forall_mem_nil _) hno
  | pop segment index =>
    cases segment with
    | indirect b =>
      have hcode : Emitter.popCode { (layout modules o).emitterAt i with regs := .spare }
        (.indirect b) index = .ok code := hcode
      rw [Command.baseCells, List.forall_mem_singleton, hbase] at hno
      have htop : Memory.fromTop (RegisterFile.spare.cells m₀.symbols.value) m.ram 1
          = m.ram.fromTop m₀.symbols.cells 1 := by
        rw [hcells]
        rfl
      refine ⟨Emitter.exists_code_indirect (.inr hcode), Emitter.isStraight_popCode hcode,
        Emitter.runLines_pop_none hcode hstandard hapart (hloads b rfl) hm ?_ hno⟩
      exact Cells.free_of_le hlow (htop ▸ hstack _ (List.mem_singleton_self _))
    | _ => exact absurd (List.forall_mem_nil _) hno
  | ret => exact absurd rfl hret
  | _ => exact absurd (List.forall_mem_nil _) hno

/-- **A command that reaches outside of memory stops the machine** before its code
ends. -/
theorem stuck (hc : (layout modules o).commands[i]? = some c) (hrom : m.rom = m₀.rom)
    (hpc : m.pc = (layout modules o).address i) (hm : m.ram.Words)
    (hstack : ∀ b ∈ c.stackCells m₀.symbols.cells m.ram, 256 ≤ b ∧ b < 32768) (hret : c ≠ .ret)
    (hno : ¬ ∀ b ∈ c.baseCells m₀.symbols.cells m.ram, IsCell b) :
    ∃ n m', Machine.Passage ((layout modules o).address i) ((layout modules o).address (i + 1))
        n m m' ∧ 0 < n ∧ (layout modules o).address i < m'.pc ∧
      m'.pc < (layout modules o).address (i + 1) ∧ ∃ halt, m'.step = .error halt := by
  obtain ⟨⟨x, ls, hlines⟩, hs, hnone⟩ := h.runLines_lines_none hc hm hstack hret hno
  have hhas := h.hasLines hc hrom
  rw [Layout.address_succ hc]
  rw [hlines] at hs hnone hhas ⊢
  rw [List.all_cons, Bool.and_eq_true] at hs
  obtain ⟨n, m', hp, hn, hpc', hlt, hhalt⟩ := hhas.stuck_address hpc hs.2 hnone le_rfl le_rfl
  exact ⟨n, m', hp, hn, by omega, by omega, hhalt⟩

/-- **The loop at the end is never left.** -/
theorem halted {k : Cells} {mr : Machine} {pending rest : List Int} {r : Nat}
    (hplain : Plain (shownName o.haltLabel)) (hrom : m.rom = m₀.rom)
    (hpc : m.pc = (layout modules o).address (layout modules o).commands.length ∨
      (m.pc = ((layout modules o).address (layout modules o).commands.length + 1 : Nat) ∧
        m.a = (layout modules o).address (layout modules o).commands.length))
    (hf : (layout modules o).follow k r m pending = some (mr, rest)) :
    (layout modules o).commandAt? mr.pc = none := by
  have hembeds : m₀.Embeds ((layout modules o).address (layout modules o).commands.length)
      [Line.label (shownName o.haltLabel), Line.address (shownName o.haltLabel),
        Line.branch .zero .always] :=
    h.embeds_of_lines (by rw [List.append_nil]; exact h.linked.lines)
  have hvalue := hembeds.label [] _ _ rfl hplain
  induction r generalizing m pending with
  | zero =>
    obtain ⟨rfl, -⟩ := Prod.mk.inj (Option.some.inj hf)
    exact Layout.commandAt?_end (by omega)
  | succ r ih =>
    have hloop : m.HasLines m₀.symbols.value
        ((layout modules o).address (layout modules o).commands.length)
        ([Line.address (shownName o.haltLabel)] ++ [Line.branch .zero .always]) := by
      rw [Machine.HasLines, hrom]
      exact hembeds.lines
    obtain ⟨-, -, m', hstep, hf⟩ := Layout.follow_succ hf
    rcases hpc with hpc | ⟨hpc, ha⟩
    · have hload := Machine.step_of_act? (m := m) (v := m₀.symbols.value)
        (l := .address (shownName o.haltLabel)) (hloop.fetch? rfl hpc) rfl rfl rfl
      obtain rfl := Except.ok.inj (hstep.symm.trans hload)
      refine ih ?_ (.inr ⟨?_, ?_⟩) hf
      · exact hrom
      · rw [Machine.pc_advance, hpc]
        rfl
      · exact congrArg Nat.cast hvalue
    · have hjump : m.Leads 0 0 1 ((layout modules o).address (layout modules o).commands.length + 1
          : Nat) m.data m.a m.data := hloop.append_right.leads_always
      have hback := (hjump m.steps).run
      rw [← hpc, Machine.stepN_one] at hback
      obtain rfl := Except.ok.inj (hstep.symm.trans hback)
      refine ih ?_ (.inl ?_) hf
      · exact hrom
      · exact ha

/-- A command other than a return goes on at a place of the program. -/
theorem exists_place (hc : (layout modules o).commands[i]? = some c) (hret : c ≠ .ret) (k : Cells)
    (ram : Memory) : ∃ j ≤ (layout modules o).commands.length,
      (c.meaning k ((layout modules o).site m₀.symbols i) ram).pc
        = (layout modules o).address j := by
  have hlt := (List.getElem?_eq_some_iff.mp hc).1
  have hresolves := h.closed.resolves hc
  have hfound {j : Nat} {q : Nat → Bool}
      (hj : (List.range (layout modules o).commands.length).find? q = some j) :
      j ≤ (layout modules o).commands.length :=
    Nat.le_of_lt (List.mem_range.mp (List.mem_of_find?_eq_some hj))
  have hlabel (name : String) (hsome : ((layout modules o).labelPlace? i name).isSome = true) :
      ∃ j ≤ (layout modules o).commands.length,
        ((layout modules o).site m₀.symbols i).label name = (layout modules o).address j := by
    obtain ⟨j, hj⟩ := Option.isSome_iff_exists.mp hsome
    refine ⟨j, hfound hj, ?_⟩
    simp only [Layout.site]
    rw [hj, Option.map_some, Option.getD_some]
  have hnext : ((layout modules o).site m₀.symbols i).next = (layout modules o).address (i + 1) :=
    rfl
  cases c with
  | push segment index | pop segment index | label name | function name locals =>
    exact ⟨i + 1, hlt, congrArg Nat.cast hnext⟩
  | arithmetic op => cases op <;> exact ⟨i + 1, hlt, congrArg Nat.cast hnext⟩
  | goto name =>
    obtain ⟨j, hj, haddress⟩ := hlabel name hresolves
    exact ⟨j, hj, congrArg Nat.cast haddress⟩
  | ifGoto name =>
    obtain ⟨j, hj, haddress⟩ := hlabel name hresolves
    by_cases hzero : ram.cell (ram.fromTop k 1) = 0
    · exact ⟨i + 1, hlt, (if_pos hzero).trans (congrArg Nat.cast hnext)⟩
    · exact ⟨j, hj, (if_neg hzero).trans (congrArg Nat.cast haddress)⟩
  | call name args =>
    obtain ⟨j, hj⟩ := Option.isSome_iff_exists.mp hresolves
    refine ⟨j, hfound hj, ?_⟩
    simp only [Command.meaning, Layout.site]
    rw [hj, Option.map_some, Option.getD_some]
  | ret => exact absurd rfl hret

end Program.Runnable

/-! ## From command to command -/

theorem Emitter.size_call (e : Emitter) (name : String) (args : Nat) :
    0 < Line.size (e.lines (.call name args)) := by
  have hcode : e.lines (.call name args) = Line.address (returnLabel e.returns) ::
      (e.callCode name args).tail := Emitter.lines_of_ok rfl
  rw [hcode, Line.size_cons_address]
  exact Nat.succ_pos _

/-- **A machine between two commands**, inside of calls: it is where the code of a
command starts, or at the end, and the frames of the calls are on the stack. -/
structure Program.Boundary (modules : List Module) (o : LinkOptions) (m₀ m : Machine) (i : Nat)
    (acts : List Activation) : Prop where
  rom : m.rom = m₀.rom
  words : m.ram.Words
  place : i ≤ (layout modules o).commands.length
  pc : m.pc = (layout modules o).address i
  frames : m.ram.InCall acts
  /-- Every call returns to a command. -/
  returns : ∀ a ∈ acts, ∃ j ≤ (layout modules o).commands.length,
    a.ret = (layout modules o).address j

theorem Program.Boundary.commandAt? {modules : List Module} {o : LinkOptions} {m₀ m : Machine}
    {i : Nat} {acts : List Activation} {c : Command} (hb : Boundary modules o m₀ m i acts)
    (hc : (layout modules o).commands[i]? = some c)
    (hsize : (layout modules o).address i < (layout modules o).address (i + 1)) :
    (layout modules o).commandAt? m.pc = some c := by
  rw [hb.pc]
  exact Layout.commandAt?_address hc hsize

/-- **The code of one command leads to another**, with a frame on the stack for
each call that is pending then. The outermost call stays pending. -/
def Program.Advances (modules : List Module) (o : LinkOptions) (m₀ m : Machine) (i : Nat)
    (acts : List Activation) : Prop :=
  ∃ n m' j acts', 0 < n ∧
    Machine.Passage ((layout modules o).address i) ((layout modules o).address (i + 1)) n m m' ∧
    Boundary modules o m₀ m' j acts' ∧ acts' ≠ [] ∧ acts'.getLast? = acts.getLast? ∧
    (layout modules o).pendingAfter m₀.symbols.cells m (acts.map (·.sp)) = acts'.map (·.sp)

namespace Program.Runnable

variable {modules : List Module} {o : LinkOptions} {p : Program} {m₀ m m' : Machine} {i n : Nat}
  {c : Command} {acts : List Activation} (h : Runnable modules o p m₀)

include h

/-- The cells for work in progress lie between the bases and the stack. -/
theorem work_range (hc : (layout modules o).commands[i]? = some c) :
    ∀ b ∈ c.work m₀.symbols.cells, 4 < b ∧ b < 256 := by
  cases c with
  | pop segment index =>
    intro b hb
    rw [List.mem_singleton.mp hb]
    show (4 : Int) < 13 ∧ (13 : Int) < 256
    decide
  | ret =>
    have hend := h.value_variable_lt hc (h.mem_dataSymbols_ret i).1
    have hret := h.value_variable_lt hc (h.mem_dataSymbols_ret i).2
    simp only [Command.work, Symbols.cells, List.mem_cons, List.not_mem_nil, or_false]
    rintro b (rfl | rfl) <;> omega
  | _ => exact List.forall_mem_nil _

/-- A pop that does not go through a base writes between `ARG` and the stack. -/
theorem target_range {segment : Segment} {index : Nat} (ram : Memory)
    (hc : (layout modules o).commands[i]? = some (.pop segment index)) :
    (∃ b, segment = .indirect b) ∨
      (2 < segment.address m₀.symbols.cells ((layout modules o).site m₀.symbols i) ram index ∧
        segment.address m₀.symbols.cells ((layout modules o).site m₀.symbols i) ram index
          < 256) := by
  obtain ⟨hne, address, haddress, -⟩ := Emitter.popCode_eq_ok (h.code hc)
  cases segment with
  | constant => exact absurd rfl hne
  | static =>
    have hlt := h.value_variable_lt hc (List.mem_singleton_self _)
    refine .inr ?_
    simp only [Segment.address, Layout.site]
    omega
  | pointer =>
    have hlt : index < 2 := (Emitter.addressCode_block rfl rfl haddress).1
    refine .inr ?_
    rw [Segment.address]
    omega
  | temp =>
    have hlt : index < 8 := (Emitter.addressCode_block rfl rfl haddress).1
    refine .inr ?_
    rw [Segment.address]
    omega
  | indirect b => exact .inl ⟨b, rfl⟩

/-- A command that neither calls nor returns. -/
theorem boundary_plain (hb : Boundary modules o m₀ m i acts)
    (hc : (layout modules o).commands[i]? = some c) (hcall : ∀ name args, c ≠ .call name args)
    (hret : c ≠ .ret) (hd : c.Disciplined m₀.symbols.cells m.ram (acts.map (·.sp)))
    (hbase : ∀ b ∈ c.baseCells m₀.symbols.cells m.ram, IsCell b) :
    ∃ n m' j, (Line.size (((layout modules o).emitterAt i).lines c) = 0 ∨ 0 < n) ∧
      Machine.Passage ((layout modules o).address i) ((layout modules o).address (i + 1)) n m m' ∧
      Boundary modules o m₀ m' j acts := by
  obtain ⟨n, hn, m', hpassage, hends⟩ := h.executes_of_ne_ret hc hret hb.rom hb.pc hb.words
    (fun b hb => by have := hd.stack b hb; omega) hbase
  obtain ⟨j, hj, hpc⟩ := h.exists_place hc hret m₀.symbols.cells m.ram
  rw [← Layout.address_succ hc] at hpassage
  refine ⟨n, m', j, hn, hpassage, hends.rom.trans hb.rom, hends.words, hj, hends.pc.trans hpc, ?_,
    hb.returns⟩
  refine (hb.frames.meaning hb.words hd hcall hret ?_).agree hends.ram (h.work_range hc)
  rintro segment index rfl
  exact h.target_range m.ram hc

/-- **A call goes to its function** with one more frame on the stack. -/
theorem boundary_call {name : String} {args : Nat} (hrom : m.rom = m₀.rom) (hm : m.ram.Words)
    (hpc : m.pc = (layout modules o).address i)
    (hframes : Stacked m.ram (m.ram.cell 1) (m.ram.cell 2) acts)
    (hreturns : ∀ a ∈ acts, ∃ j ≤ (layout modules o).commands.length,
      a.ret = (layout modules o).address j)
    (hc : (layout modules o).commands[i]? = some (.call name args))
    (hstack : ∀ b ∈ (Command.call name args).stackCells m₀.symbols.cells m.ram,
      256 ≤ b ∧ b ≤ 32767)
    (hlo : 256 ≤ m.ram.cell 0 - args)
    (hbelow : ∀ b, acts.head? = some b → b.sp + 5 ≤ m.ram.cell 0 - args) :
    ∃ n m' j, 0 < n ∧
      Machine.Passage ((layout modules o).address i) ((layout modules o).address (i + 1)) n m m' ∧
      Boundary modules o m₀ m' j
        (m.ram.activation args ((layout modules o).address (i + 1)) :: acts) := by
  have hlt := (List.getElem?_eq_some_iff.mp hc).1
  obtain ⟨n, hn, m', hpassage, hends⟩ := h.executes_of_ne_ret hc (fun h => nomatch h) hrom hpc hm
    (fun b hb => by have := hstack b hb; omega) fun b hb => nomatch hb
  obtain ⟨j, hj, hplace⟩ := h.exists_place hc (fun h => nomatch h) m₀.symbols.cells m.ram
  rw [← Layout.address_succ hc] at hpassage
  have hhi : m.ram.cell 0 + 5 ≤ 32768 := by
    have htop := hstack (wrap (m.ram.cell 0 + (4 : Nat)))
      (List.mem_map.mpr ⟨4, by decide, rfl⟩)
    have hword := hm 0
    rw [wrap_eq_emod] at htop
    have := hword.1
    have := hword.2
    omega
  have hin : (m.ram.enter m₀.symbols.cells ((layout modules o).address (i + 1)) args).InCall
      (m.ram.activation args ((layout modules o).address (i + 1)) :: acts) :=
    Memory.InCall.enter hframes hlo hhi hbelow
  refine ⟨n, m', j, ?_, hpassage, hends.rom.trans hrom, hends.words, hj, hends.pc.trans hplace,
    hin.agree hends.ram (h.work_range hc), fun a ha => ?_⟩
  · have := Emitter.size_call ((layout modules o).emitterAt i) name args
    omega
  · rcases List.mem_cons.mp ha with rfl | ha
    · exact ⟨i + 1, hlt, rfl⟩
    · exact hreturns a ha

/-- **A return inside of another call** goes on behind the call that it
matches. -/
theorem boundary_ret {a : Activation} (hb : Boundary modules o m₀ m i (a :: acts))
    (hne : acts ≠ []) (hc : (layout modules o).commands[i]? = some .ret)
    (hstack : ∀ b ∈ Command.ret.stackCells m₀.symbols.cells m.ram, 256 ≤ b ∧ b ≤ 32767) :
    ∃ m' j, Machine.Passage ((layout modules o).address i) ((layout modules o).address (i + 1))
        50 m m' ∧ Boundary modules o m₀ m' j acts := by
  obtain ⟨m', hpassage, hends⟩ := h.executesIn_ret hc hb.rom hb.pc hb.words
    (fun b hb => by have := hstack b hb; omega) hb.frames.baseCells_ret
  obtain ⟨j, hj, hret⟩ := hb.returns a (List.mem_cons_self ..)
  rw [← Layout.address_succ hc] at hpassage
  refine ⟨m', j, hpassage, hends.rom.trans hb.rom, hends.words, hj, ?_,
    (hb.frames.leave hb.words hne).agree hends.ram (h.work_range hc),
    fun b hb' => hb.returns b (List.mem_cons_of_mem a hb')⟩
  rw [hends.pc, ← hret]
  exact hb.frames.cell_ret

/-- A command that neither calls nor returns leads to the next one. -/
theorem advances_plain (hb : Boundary modules o m₀ m i acts) (hne : acts ≠ [])
    (hc : (layout modules o).commands[i]? = some c)
    (hsize : (layout modules o).address i < (layout modules o).address (i + 1))
    (hcall : ∀ name args, c ≠ .call name args) (hret : c ≠ .ret)
    (hd : c.Disciplined m₀.symbols.cells m.ram (acts.map (·.sp)))
    (hbase : ∀ b ∈ c.baseCells m₀.symbols.cells m.ram, IsCell b) :
    Advances modules o m₀ m i acts := by
  obtain ⟨n, m', j, hn, hpassage, hb'⟩ := h.boundary_plain hb hc hcall hret hd hbase
  have hat := hb.commandAt? hc hsize
  rw [Layout.address_succ hc] at hsize
  refine ⟨n, m', j, acts, by omega, hpassage, hb', hne, rfl, ?_⟩
  rw [Layout.pendingAfter, hat]
  cases c with
  | call name args => exact absurd rfl (hcall name args)
  | ret => exact absurd rfl hret
  | _ => rfl

/-- A call leads to its function. -/
theorem advances_call {name : String} {args : Nat} (hb : Boundary modules o m₀ m i acts)
    (hne : acts ≠ []) (hc : (layout modules o).commands[i]? = some (.call name args))
    (hsize : (layout modules o).address i < (layout modules o).address (i + 1))
    (hd : (Command.call name args).Disciplined m₀.symbols.cells m.ram (acts.map (·.sp))) :
    Advances modules o m₀ m i acts := by
  obtain ⟨b, others, rfl⟩ := List.exists_cons_of_ne_nil hne
  have hlcl : m.ram.cell 1 = b.sp + 5 := hb.frames.stacked.1
  have hframe := hb.frames.stacked.le b (List.mem_cons_self ..)
  have hargs : m.ram.cell 1 ≤ m.ram.cell 0 - args :=
    hd.arguments (List.cons_ne_nil _ _) _ (List.mem_singleton_self _)
  obtain ⟨n, m', j, hn, hpassage, hb'⟩ := h.boundary_call hb.rom hb.words hb.pc
    hb.frames.stacked hb.returns hc hd.stack (by omega) fun a ha => by
      obtain rfl := Option.some.inj ha
      omega
  refine ⟨n, m', j, _, hn, hpassage, hb', List.cons_ne_nil _ _, List.getLast?_cons_cons, ?_⟩
  rw [Layout.pendingAfter, hb.commandAt? hc hsize]
  rfl

/-- A return that leaves a call pending leads behind the call that it matches. -/
theorem advances_ret (hb : Boundary modules o m₀ m i acts) (hne : acts ≠ [])
    (hc : (layout modules o).commands[i]? = some .ret)
    (hsize : (layout modules o).address i < (layout modules o).address (i + 1))
    (hd : Command.ret.Disciplined m₀.symbols.cells m.ram (acts.map (·.sp)))
    (hpending : (layout modules o).pendingAfter m₀.symbols.cells m (acts.map (·.sp)) ≠ []) :
    Advances modules o m₀ m i acts := by
  obtain ⟨a, others, rfl⟩ := List.exists_cons_of_ne_nil hne
  have hafter : (layout modules o).pendingAfter m₀.symbols.cells m ((a :: others).map (·.sp))
      = others.map (·.sp) := by
    rw [Layout.pendingAfter, hb.commandAt? hc hsize]
    rfl
  have hothers : others ≠ [] := by
    rintro rfl
    exact hpending hafter
  obtain ⟨m', j, hpassage, hb'⟩ := h.boundary_ret hb hothers hc hd.stack
  obtain ⟨b, others, rfl⟩ := List.exists_cons_of_ne_nil hothers
  exact ⟨50, m', j, _, by decide, hpassage, hb', hothers, List.getLast?_cons_cons.symm, hafter⟩

/-- **From command to command**: the machine is followed through the code of one
command, and comes to the next with the frames of the calls that are pending
then. The outermost call stays the same. -/
theorem boundary_step {mr : Machine} {rest : List Int} {r : Nat}
    (hb : Boundary modules o m₀ m i acts) (hne : acts ≠ [])
    (hc : (layout modules o).commands[i]? = some c)
    (hsize : (layout modules o).address i < (layout modules o).address (i + 1))
    (hend : ((layout modules o).commandAt? mr.pc).isSome = true)
    (hf : (layout modules o).follow m₀.symbols.cells (r + 1) m (acts.map (·.sp))
      = some (mr, rest)) :
    ∃ r' m' j acts', r' ≤ r ∧ acts' ≠ [] ∧ acts'.getLast? = acts.getLast? ∧
      Boundary modules o m₀ m' j acts' ∧
      (layout modules o).follow m₀.symbols.cells r' m' (acts'.map (·.sp)) = some (mr, rest) := by
  obtain ⟨hallows, hpending, -⟩ := Layout.follow_succ hf
  have hd : c.Disciplined m₀.symbols.cells m.ram (acts.map (·.sp)) := by
    rw [Layout.allows, hb.commandAt? hc hsize, Option.all_some] at hallows
    exact of_decide_eq_true hallows
  have hadvances : Advances modules o m₀ m i acts := by
    by_cases hcall : ∃ name args, c = .call name args
    · obtain ⟨name, args, rfl⟩ := hcall
      exact h.advances_call hb hne hc hsize hd
    by_cases hret : c = .ret
    · subst hret
      exact h.advances_ret hb hne hc hsize hd hpending
    by_cases hbase : ∀ b ∈ c.baseCells m₀.symbols.cells m.ram, IsCell b
    · exact h.advances_plain hb hne hc hsize (fun name args hc' => hcall ⟨name, args, hc'⟩) hret hd
        hbase
    · -- the machine would have stopped inside the code
      obtain ⟨n, m', hpassage, hn, hlo, hhi, halt, hstep⟩ := h.stuck hc hb.rom hb.pc hb.words
        (fun b hb => by have := hd.stack b hb; omega) hret hbase
      exact absurd hf (Layout.not_follow_stuck hend hpassage hn ⟨hlo, hhi⟩ hstep)
  obtain ⟨n, m', j, acts', hn, hpassage, hb', hne', hlast, hafter⟩ := hadvances
  obtain ⟨-, hf'⟩ := Layout.follow_block hend hpassage hn hf
  rw [hafter] at hf'
  exact ⟨r + 1 - n, m', j, acts', by omega, hne', hlast, hb', hf'⟩

/-- **What is there when the return comes** that matches the outermost call. -/
theorem boundary_run {mr : Machine} {s : Int} {r : Nat}
    (hplain : Plain (shownName o.haltLabel)) (hb : Boundary modules o m₀ m i acts)
    (hne : acts ≠ []) (hret : (layout modules o).commandAt? mr.pc = some .ret)
    (hf : (layout modules o).follow m₀.symbols.cells r m (acts.map (·.sp)) = some (mr, [s])) :
    ∃ j a, (layout modules o).commands[j]? = some .ret ∧ acts.getLast? = some a ∧
      Boundary modules o m₀ mr j [a] := by
  induction r using Nat.strong_induction_on generalizing m i acts with
  | _ r ih =>
    obtain ⟨j, haddress, hstart⟩ := Layout.exists_start hb.place
    have hpc : m.pc = (layout modules o).address j := by rw [hb.pc, haddress]
    rcases hstart with rfl | ⟨c, hc, hsize⟩
    · rw [h.halted hplain hb.rom (.inl hpc) hf] at hret
      cases hret
    have hj := (List.getElem?_eq_some_iff.mp hc).1
    have hb' : Boundary modules o m₀ m j acts :=
      ⟨hb.rom, hb.words, Nat.le_of_lt hj, hpc, hb.frames, hb.returns⟩
    cases r with
    | zero =>
      obtain ⟨rfl, hacts⟩ := Prod.mk.inj (Option.some.inj hf)
      rw [hpc, Layout.commandAt?_address hc hsize, Option.some.injEq] at hret
      subst hret
      obtain ⟨a, rfl⟩ : ∃ a, acts = [a] := by
        rw [← List.length_eq_one_iff, ← List.length_map (f := (·.sp)), hacts]
        rfl
      exact ⟨j, a, hc, rfl, hb'⟩
    | succ r =>
      obtain ⟨r', m', j', acts', hle, hne', hlast, hb'', hf'⟩ :=
        h.boundary_step hb' hne hc hsize (by rw [hret]; rfl) hf
      rw [← hlast]
      exact ih r' (by omega) hb'' hne' hf'

/-- **The return that matches the outermost call** goes on behind it. -/
theorem outermost_ret {a : Activation} (hb : Boundary modules o m₀ m i [a])
    (hc : (layout modules o).commands[i]? = some .ret)
    (hstack : ∀ b ∈ Command.ret.stackCells m₀.symbols.cells m.ram, 256 ≤ b ∧ b ≤ 32767) :
    ∃ m', m.stepN 50 = .ok m' ∧ m'.pc = a.ret ∧ m'.ram.cell 0 = a.sp - a.args + 1 ∧
      m'.ram.cell (a.sp - a.args) = m.ram.cell (m.ram.cell 0 - 1) ∧ m'.ram.cell 1 = a.lcl ∧
      m'.ram.cell 2 = a.arg ∧ m'.ram.cell 3 = a.thisPtr ∧ m'.ram.cell 4 = a.thatPtr := by
  obtain ⟨m', hpassage, hends⟩ := h.executesIn_ret hc hb.rom hb.pc hb.words
    (fun b hb => by have := hstack b hb; omega) hb.frames.baseCells_ret
  obtain ⟨hsp, hlcl, harg, hthis, hthat, hresult, -⟩ :=
    hb.frames.leave_words (t := m₀.symbols) hb.words
  have hwork := h.work_range hc
  -- none of these cells is one for work in progress
  have hsame (b : Int) (hcell : IsCell b) (hout : b ≤ 4 ∨ 256 ≤ b) :
      m'.ram.cell b = (m.ram.leave m₀.symbols.cells).cell b := by
    refine hends.ram b hcell fun hmem => ?_
    have := hwork b hmem
    omega
  have hsaved := hb.frames.stacked.2.2.1
  have hlow := hsaved.low
  have hhigh := hsaved.high
  refine ⟨m', hpassage.run, hends.pc.trans hb.frames.cell_ret, ?_, ?_, ?_, ?_, ?_, ?_⟩
  · rw [hsame 0 (by decide) (.inl (by decide)), hsp]
  · rw [hsame _ ⟨by omega, by omega⟩ (.inr (by omega)), hresult]
  · rw [hsame 1 (by decide) (.inl (by decide)), hlcl]
  · rw [hsame 2 (by decide) (.inl (by decide)), harg]
  · rw [hsame 3 (by decide) (.inl (by decide)), hthis]
  · rw [hsame 4 (by decide) (.inl (by decide)), hthat]

end Program.Runnable

/-! ## The round trip -/

/-- **A call returns.** A machine is at the code of a call, with the arguments on
the stack. It is followed, through calls nested to any depth, to the return
that matches the call: the first one that leaves no call pending. After the
fifty steps of that return the program goes on behind the call, the stack
ends behind the place of the first argument, which holds the word that was on
top, and the bases are those of the caller.

The label of the loop at the end has to be a plain name. The loop of a number
jumps to that address, into the middle of some code, and not to itself. -/
theorem Program.call_returns {modules : List Module} {o : LinkOptions} {p : Program}
    {m₀ m mr : Machine} {i r args : Nat} {name : String} {s : Int} (h : Runnable modules o p m₀)
    (hplain : Plain (shownName o.haltLabel))
    (hc : (layout modules o).commands[i]? = some (.call name args)) (hrom : m.rom = m₀.rom)
    (hpc : m.pc = (layout modules o).address i) (hm : m.ram.Words)
    (hargs : 256 ≤ m.ram.cell 0 - args)
    (hrun : (layout modules o).follow m₀.symbols.cells r m [] = some (mr, [s]))
    (hret : (layout modules o).commandAt? mr.pc = some .ret)
    (hallows : (layout modules o).allows m₀.symbols.cells mr [s] = true) :
    m.stepN r = .ok mr ∧ ∃ m', mr.stepN 50 = .ok m' ∧
      m'.pc = (layout modules o).address (i + 1) ∧
      m'.ram.cell 0 = m.ram.cell 0 - args + 1 ∧
      m'.ram.cell (m.ram.cell 0 - args) = mr.ram.cell (mr.ram.cell 0 - 1) ∧
      m'.ram.cell 1 = m.ram.cell 1 ∧ m'.ram.cell 2 = m.ram.cell 2 ∧
      m'.ram.cell 3 = m.ram.cell 3 ∧ m'.ram.cell 4 = m.ram.cell 4 := by
  refine ⟨Layout.stepN_of_follow hrun, ?_⟩
  have hsize : (layout modules o).address i < (layout modules o).address (i + 1) := by
    have := Emitter.size_call ((layout modules o).emitterAt i) name args
    rw [Layout.address_succ hc]
    omega
  have hat := Layout.commandAt?_address hc hsize
  rw [← hpc] at hat
  cases r with
  | zero => cases hrun
  | succ r =>
    -- the call
    have hd : (Command.call name args).Disciplined m₀.symbols.cells m.ram [] := by
      have hfirst := (Layout.follow_succ hrun).1
      rw [Layout.allows, hat, Option.all_some] at hfirst
      exact of_decide_eq_true hfirst
    have hnone : Stacked m.ram (m.ram.cell 1) (m.ram.cell 2) [] := trivial
    obtain ⟨n, m₁, j, hn, hpassage, hb⟩ := h.boundary_call hrom hm hpc hnone
      (fun _ hmem => nomatch hmem) hc hd.stack hargs fun _ hhead => nomatch hhead
    have hend : ((layout modules o).commandAt? mr.pc).isSome = true := by rw [hret]; rfl
    obtain ⟨-, hrest⟩ := Layout.follow_block hend hpassage hn hrun
    rw [Layout.pendingAfter, hat] at hrest
    -- the way to the return
    obtain ⟨j', a, hc', ha, hb'⟩ := h.boundary_run hplain hb (List.cons_ne_nil _ _) hret hrest
    obtain rfl := Option.some.inj ha
    rw [Layout.allows, hret, Option.all_some] at hallows
    exact h.outermost_ret hb' hc' (of_decide_eq_true hallows).stack

/-- The outer call of the sample returns, after the inner one has. -/
theorem Program.call_returns_sample : ∃ mr m', Sample.atCall.stepN 155 = .ok mr ∧
    (layout [Sample.nested] {}).commandAt? mr.pc = some .ret ∧ mr.stepN 50 = .ok m' ∧
    m'.pc = (layout [Sample.nested] {}).address 1 ∧ m'.ram.cell 0 = 257 ∧
    m'.ram.cell 256 = mr.ram.cell (mr.ram.cell 0 - 1) := by
  have hfollow : ((layout [Sample.nested] {}).follow Sample.machine.symbols.cells 155
      Sample.atCall []).any (fun w => w.2 = [257] &&
        (layout [Sample.nested] {}).commandAt? w.1.pc = some .ret &&
        (layout [Sample.nested] {}).allows Sample.machine.symbols.cells w.1 [257]) = true := by
    decide +kernel
  obtain ⟨⟨mr, pending⟩, hrun, hw⟩ := (Option.any_eq_true _ _).mp hfollow
  simp only [Bool.and_eq_true, decide_eq_true_eq] at hw
  obtain ⟨⟨rfl, hret⟩, hallows⟩ := hw
  obtain ⟨hstep, m', hstep', hnext, hsp, htop, -⟩ := call_returns Sample.runnable
    (by decide +kernel) Sample.call_atCall Sample.rom_atCall Sample.pc_atCall Sample.words_atCall
    (by rw [Sample.sp_atCall]; decide) hrun hret hallows
  rw [Sample.sp_atCall] at hsp htop
  exact ⟨mr, m', hstep, hret, hstep', hnext, hsp, htop⟩

namespace Sample

/-- A module with a call that comes to the end of the program. -/
def unended : Module where
  name := some "M"
  commands := [⟨.arithmetic "neg", 1, some "M"⟩, ⟨.ret, 2, some "M"⟩,
    ⟨.call (.text "F") (.int 0), 3, some "M"⟩, ⟨.function (.text "F") (.int 0), 4, some "M"⟩]

/-- A number for a label: the loop at the end jumps to the second instruction. -/
def numbered : LinkOptions := { haltLabel := some "1" }

/-- The machine that holds its program. -/
def unendedMachine : Machine := machineOf (programOf unended numbered)

theorem runnable_unended :
    Program.Runnable [unended] numbered (programOf unended numbered) unendedMachine :=
  runnable_of_load ⟨"neg\nreturn\ncall F 0\nfunction F 0", by decide +kernel⟩ (by decide +kernel)
    (by decide +kernel) (by decide +kernel) (by decide +kernel) (by decide +kernel)

/-- The machine at the call, with an empty stack. -/
def atUnended : Machine := unendedMachine.place 57 ⟨0, 0, Memory.empty.store 0 256⟩ 0

end Sample

/-- **The label of the loop has to be a name.** With the number one for a label
the loop jumps behind the first instruction of another command, which then
changes the base of the locals, and on to a return. The call keeps to all that
is asked, and yet the program does not go on behind it, at address 106. -/
theorem Program.call_returns_elsewhere :
    (∃ p, Runnable [Sample.unended] Sample.numbered p Sample.unendedMachine) ∧
    ¬Plain (shownName Sample.numbered.haltLabel) ∧
    (layout [Sample.unended] Sample.numbered).commands[2]? = some (.call "F" 0) ∧
    Sample.atUnended.rom = Sample.unendedMachine.rom ∧
    Sample.atUnended.pc = (layout [Sample.unended] Sample.numbered).address 2 ∧
    Sample.atUnended.ram.Words ∧ 256 ≤ Sample.atUnended.ram.cell 0 - 0 ∧
    ∃ mr m', (layout [Sample.unended] Sample.numbered).follow Sample.unendedMachine.symbols.cells 57
        Sample.atUnended [] = some (mr, [256]) ∧
      (layout [Sample.unended] Sample.numbered).commandAt? mr.pc = some .ret ∧
      (layout [Sample.unended] Sample.numbered).allows Sample.unendedMachine.symbols.cells mr [256]
        = true ∧
      mr.stepN 50 = .ok m' ∧ m'.pc = 0 ∧
      (layout [Sample.unended] Sample.numbered).address 3 = 106 := by
  have hword : IsWord 256 := by decide
  have hfollow : ((layout [Sample.unended] Sample.numbered).follow
      Sample.unendedMachine.symbols.cells 57 Sample.atUnended []).any (fun w => w.2 = [256] &&
        (layout [Sample.unended] Sample.numbered).commandAt? w.1.pc = some .ret &&
        (layout [Sample.unended] Sample.numbered).allows Sample.unendedMachine.symbols.cells w.1
          [256] && (w.1.stepN 50).toOption.any (·.pc = 0)) = true := by
    decide +kernel
  obtain ⟨⟨mr, pending⟩, hrun, hw⟩ := (Option.any_eq_true _ _).mp hfollow
  simp only [Bool.and_eq_true, decide_eq_true_eq] at hw
  obtain ⟨⟨⟨rfl, hret⟩, hallows⟩, hstep⟩ := hw
  refine ⟨⟨_, Sample.runnable_unended⟩, by decide +kernel, by decide +kernel,
    Machine.rom_place _ _ _ _, by decide +kernel, Memory.words_empty.store 0 hword,
    by decide +kernel, mr, ?_⟩
  cases hm : mr.stepN 50 with
  | error halt =>
    rw [hm] at hstep
    cases hstep
  | ok m' =>
    rw [hm, Except.toOption, Option.any_some, decide_eq_true_eq] at hstep
    exact ⟨m', hrun, hret, hallows, rfl, hstep, by decide +kernel⟩

end HackStack
