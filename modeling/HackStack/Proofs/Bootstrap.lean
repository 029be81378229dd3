import HackStack.Proofs.FrameEffects
import HackStack.Proofs.Refusals
import HackStack.Proofs.Statics

/-!
# How a program starts

The bootstrap of a linked program puts the stack where it was asked for and
calls the entry function. From the first instruction on, with any words in
memory, this takes 53 steps. The machine is then at the first instruction of
the entry function, wherever its module was given and wherever it stands
there, and memory is as after a call without arguments (`Memory.EntryFrame`).

The stack may start at any cell behind the bases that leaves room for one
frame. It may even lie on the cells that other commands work with, `R13`
among them. These are not named by a call, so that any other cells can be
thought of in their place (`RegisterFile.workAt`).
-/

namespace HackStack

open Word

/-! ## The frame of the entry function -/

namespace Memory

/-- **The frame of a function that was called without arguments**, with nothing
on the stack before: `ram` is the memory from before, `b` is where the stack
starts, and `ret` where the function returns to. -/
structure EntryFrame (b : Nat) (ret : Int) (ram ram' : Memory) : Prop where
  sp : ram'.cell 0 = b + 5
  lcl : ram'.cell 1 = b + 5
  arg : ram'.cell 2 = b
  returns : ram'.cell b = ret
  /-- The four bases are saved as they were. -/
  bases : ∀ j : Nat, 1 ≤ j → j ≤ 4 → ram'.cell (b + j) = ram.cell j
  /-- Nothing else has changed. -/
  rest : ∀ a : Int, 3 ≤ a → a < 32768 → ¬ (b ≤ a ∧ a < b + 5) → ram'.cell a = ram.cell a

end Memory

/-! ## The cells of a call -/

/-- The names of the calling convention, with numbers in place of the names that
a call does not use. -/
def RegisterFile.workAt (w : Nat) : RegisterFile where
  scratch := toString (w : Int)
  endFrame := toString ((w + 1 : Nat) : Int)
  retAddr := toString ((w + 2 : Nat) : Int)

/-- The cells that these names stand for. -/
def Cells.workAt (w : Nat) : Cells where
  sp := 0
  lcl := 1
  arg := 2
  thisPtr := 3
  thatPtr := 4
  scratch := w
  endFrame := w + 1
  retAddr := w + 2

theorem Cells.apart_workAt {w : Nat} (h : 5 ≤ w ∧ w + 2 < 32768) : (Cells.workAt w).Apart := by
  constructor
  · intro a ha
    simp only [all, main, work, workAt, List.cons_append, List.nil_append, List.mem_cons,
      List.not_mem_nil, or_false] at ha
    constructor <;> omega
  · simp only [all, main, work, workAt, List.cons_append, List.nil_append,
      List.nodup_cons, List.mem_cons, List.not_mem_nil, or_false, not_or, List.nodup_nil,
      not_false_eq_true, and_true]
    omega

theorem Cells.free_workAt {w : Nat} {a : Int} (ha : 5 ≤ a ∧ a < 32768) (hw : a < w ∨ w + 2 < a) :
    (Cells.workAt w).Free a := by
  refine ⟨⟨by omega, ha.2⟩, fun hmem => ?_⟩
  simp only [all, main, work, workAt, List.cons_append, List.nil_append, List.mem_cons,
    List.not_mem_nil, or_false] at hmem
  omega

namespace Memory

variable {m : Memory} {b w ret : Nat} (hm : m.Words) (hb : 5 ≤ b ∧ b ≤ 32763)
  (haway : w + 2 < b ∨ b + 5 ≤ w)

include hb haway in
/-- There is room for a frame where the stack starts. -/
theorem room_start (m : Memory) : (m.store 0 b).Room (.workAt w) 5 := by
  intro j hj
  have hsp : (m.store 0 b).cell (Cells.workAt w).sp = b := cell_store_self m (by decide) _
  have hwrap : wrap ((b : Int) + (j : Nat)) = b + (j : Nat) := by
    rw [wrap_eq_emod]
    omega
  rw [hsp, hwrap]
  exact Cells.free_workAt (by omega) (by omega)

/-- The words of the frame: where the function returns to, and the four bases. -/
def frameWords (m : Memory) (ret : Int) : List Int :=
  [ret, m.cell 1, m.cell 2, m.cell 3, m.cell 4]

variable (hw : 5 ≤ w ∧ w + 2 < 32768) (hret : ret < 65536)

include hm hb haway hw hret

/-- **A call where the stack starts, as stores**: the frame, then the three cells
that the call moves. -/
theorem enter_start : (m.store 0 b).enter (.workAt w) ret 0
    = ((((m.store 0 b).storeAll b (m.frameWords ret)).store 2 b).store 1 (b + 5 : Nat)).store 0
      (b + 5 : Nat) := by
  have hword : IsWord (b : Int) := ⟨by omega, by omega⟩
  have hretWord : IsWord (ret : Int) := ⟨by omega, by omega⟩
  have hstores := congrArg Outcome.ram (Command.meaning_call
    (k := .workAt w) (m := m.store 0 b) ⟨ret, fun _ => 0, fun _ => 0, fun _ => 0⟩
    (Cells.apart_workAt hw) (hm.store 0 hword) hretWord (room_start hb haway m) "" 0)
  have hsp : (m.store 0 b).cell 0 = b := cell_store_self m (by decide) _
  have hold {a : Int} (ha : a ≠ 0) : (m.store 0 b).cell a = m.cell a := cell_store_of_ne m ha _
  have harg : wrap ((b : Int) - (0 : Nat)) = b := by
    rw [wrap_eq_emod]
    omega
  have htop : wrap ((b : Int) + 5) = (b + 5 : Nat) := by
    rw [wrap_eq_emod]
    omega
  refine hstores.trans ?_
  show ((((m.store 0 b).storeAll ((m.store 0 b).cell 0) ((m.store 0 b).frameWords ret)).store 2
    (wrap ((m.store 0 b).cell 0 - (0 : Nat)))).store 1
    (wrap ((m.store 0 b).cell 0 + 5))).store 0 (wrap ((m.store 0 b).cell 0 + 5)) = _
  rw [frameWords, frameWords, hsp, hold (by decide), hold (by decide), hold (by decide),
    hold (by decide), harg, htop]

/-- **Memory after the stack was set up and a function was called.** -/
theorem entryFrame_enter : EntryFrame b ret m ((m.store 0 b).enter (.workAt w) ret 0) := by
  have hrow : b + (m.frameWords ret).length ≤ 32768 := by
    show b + 5 ≤ 32768
    omega
  rw [enter_start hm hb haway hw hret]
  -- no cell behind the bases is one of the three
  have hstack (ram : Memory) (x y z : Int) {a : Int} (ha : 3 ≤ a) :
      (((ram.store 2 x).store 1 y).store 0 z).cell a = ram.cell a := by
    rw [cell_store_of_ne _ (by omega), cell_store_of_ne _ (by omega), cell_store_of_ne _ (by omega)]
  refine ⟨?_, ?_, ?_, ?_, fun j hj₁ hj₄ => ?_, fun a h₃ _ hout => ?_⟩
  · rw [cell_store_self _ (by decide)]
    rfl
  · rw [cell_store_of_ne _ (by decide), cell_store_self _ (by decide)]
    rfl
  · rw [cell_store_of_ne _ (by decide), cell_store_of_ne _ (by decide),
      cell_store_self _ (by decide)]
  · rw [hstack _ _ _ _ (by omega)]
    exact cell_storeAll _ hrow (j := 0) rfl
  · rw [hstack _ _ _ _ (by omega)]
    refine cell_storeAll _ hrow (j := j) ?_
    interval_cases j <;> rfl
  · rw [hstack _ _ _ _ h₃, cell_storeAll_of_not_mem _ hrow hout, cell_store_of_ne m (by omega)]

end Memory

/-! ## The code in front of a program -/

/-- The name of a function that is declared. -/
theorem Draft.functionName?_of_declares {d : Draft} {f : String} (h : d.declares (some f) = true) :
    d.functionName? = some f := by
  cases d with
  | function g n =>
    obtain rfl : g = .ofName (some f) := eq_of_beq h
    rfl
  | _ => cases h

namespace Program

variable {modules : List Module} {o : LinkOptions} {p : Program}

/-- A program says of itself whether it has the bootstrap. -/
theorem bootstrap_eq_boots (h : link modules o = .ok p) (herr : hasErrors p.diagnostics = false) :
    p.bootstrap = boots modules o := by
  unfold link at h
  split at h
  next =>
    obtain rfl := Except.ok.inj h
    cases herr
  next first rest harrange =>
    dsimp only at h
    split at h
    next herrors =>
      obtain rfl := Except.ok.inj h
      rw [failed, herrors] at herr
      cases herr
    next =>
      rw [boots, harrange]
      unfold linkArranged at h
      dsimp only at h
      split at h
      all_goals
        obtain ⟨s, -, h⟩ := bind_eq_ok h
        split at h <;> exact (Except.ok.inj h ▸ rfl)

/-- **A program that starts with the bootstrap.** Its modules were read and linked
without errors, one of them declares the entry function, and the stack starts
at `b`. -/
structure Bootable (modules : List Module) (o : LinkOptions) (p : Program) (entry : String)
    (b : Nat) (m : Machine) : Prop where
  parsed : ∀ file ∈ modules, file.Parsed
  link : link modules o = .ok p
  sound : hasErrors p.diagnostics = false
  bootstrap : p.bootstrap = true
  entryName : o.entry = some entry
  declared : ∃ file ∈ modules, file.declares (some entry) = true
  stackBase : o.stackBase = .int b
  /-- The stack is behind the bases, and there is room for a frame. -/
  range : 5 ≤ b ∧ b ≤ 32763
  load : Machine.load p.listed = .ok m

/-- The code that puts the stack at `b`. -/
def stackSetup (b : Nat) : List Line :=
  [.constant b, .set .d (.y .a), .address "SP", .set .m .d]

namespace Bootable

variable {entry : String} {b : Nat} {m₀ : Machine} (h : Bootable modules o p entry b m₀)

include h

theorem linked : Linked modules o p := Program.linked h.link h.sound

/-- **A program starts with the code for the stack and the call.** -/
theorem lines_eq : ∃ e : Emitter, e.regs = {} ∧ e.returns = 1 ∧ ∃ rest,
    p.lines = stackSetup b ++ e.callCode entry 0 ++ rest := by
  obtain ⟨hb, -⟩ | ⟨-, name, hname, -, hlead, -⟩ := h.linked.lead_cases
  · rw [← bootstrap_eq_boots h.link h.sound, h.bootstrap] at hb
    cases hb
  · obtain rfl := Option.some.inj (hname.symm.trans h.entryName)
    have hlines := h.linked.lines
    rw [Layout.before, hlead, h.stackBase, List.append_assoc] at hlines
    exact ⟨(Emitter.start (title modules o) {}).enter name, rfl, rfl, _, hlines⟩

/-- **The entry function is one of the commands.** -/
theorem exists_function : ∃ i locals : Nat,
    (layout modules o).commands[i]? = some (.function entry locals) := by
  obtain ⟨file, hfile, hany⟩ := h.declared
  obtain ⟨d, hd, hdeclares⟩ := List.any_eq_true.mp hany
  have hmem : d ∈ (arrange modules o.entry).flatMap Module.commands :=
    List.mem_flatMap.mpr ⟨file, mem_arrange.mpr hfile, hd⟩
  have hname : entry ∈ declaredNames ((arrange modules o.entry).flatMap Module.commands) :=
    List.mem_filterMap.mpr ⟨d, hmem, Draft.functionName?_of_declares hdeclares⟩
  rw [declaredNames_of_checks h.linked.checks] at hname
  obtain ⟨c, hc, hcname⟩ := List.mem_filterMap.mp hname
  obtain ⟨i, hi⟩ := List.mem_iff_getElem?.mp hc
  cases c with
  | function name locals =>
    obtain rfl := Option.some.inj hcname
    exact ⟨i, locals, hi⟩
  | _ => cases hcname

theorem holds : ∃ names, m₀.Holds p.lines names := Loading.loaded h.load

/-- The name of the entry function stands for its first instruction. -/
theorem get?_entry {i locals : Nat}
    (hi : (layout modules o).commands[i]? = some (.function entry locals)) :
    m₀.symbols.get? entry = some ((layout modules o).address i) := by
  obtain ⟨names, hholds⟩ := h.holds
  obtain ⟨rest, hrest⟩ := h.linked.lines_eq hi
  have hcode : ((layout modules o).emitterAt i).lines (.function entry locals)
      = Line.label entry :: (List.replicate locals ([Line.constant 0, Line.set .d (.y .a)]
        ++ Block.pushD ((layout modules o).emitterAt i).regs.sp)).flatten :=
    Emitter.lines_of_ok rfl
  rw [hcode, List.append_assoc, List.cons_append] at hrest
  exact hholds.get?_label hrest

/-- **The entry function returns to the end of the bootstrap.** -/
theorem get?_return : m₀.symbols.get? "FUNC_RETURN_1" = some 53 := by
  obtain ⟨names, hholds⟩ := h.holds
  obtain ⟨e, -, hreturns, rest, hlines⟩ := h.lines_eq
  have hlabel : Emitter.returnLabel e.returns = "FUNC_RETURN_1" := by
    rw [hreturns]
    decide
  have hsplit : p.lines = (stackSetup b ++ e.callSetup 0 ++ [.address entry, .branch .zero .always])
      ++ Line.label (Emitter.returnLabel e.returns) :: rest := by
    rw [hlines, Emitter.callCode_eq, Emitter.callJump]
    simp only [List.append_assoc, List.cons_append, List.nil_append]
  rw [← hlabel]
  exact hholds.get?_label hsplit

/-- The code for the stack and the call lie one after the other. -/
theorem embeds : m₀.Embeds 0 (stackSetup b) ∧
    ∃ e : Emitter, e.regs = {} ∧ m₀.Embeds 4 (e.callCode entry 0) := by
  obtain ⟨e, hregs, -, rest, hlines⟩ := h.lines_eq
  have hload : Machine.load (p.lines.map Line.text) = .ok m₀ := h.load
  rw [hlines] at hload
  refine ⟨?_, e, hregs, Loading.embeds_lines hload⟩
  rw [List.append_assoc, ← List.nil_append (stackSetup b)] at hload
  exact Loading.embeds_lines hload

/-- The names of a call stand for the first cells. -/
theorem cells_workAt {w : Nat} (hw : w + 2 < 32768) :
    (RegisterFile.workAt w).cells m₀.symbols.value = .workAt w := by
  have hpre := h.embeds.1.predefined
  have hnumeral := h.embeds.1.standard.numeral
  have hsp : m₀.symbols.value "SP" = 0 := hpre _ _ (by decide +kernel) (by decide)
  have hlcl : m₀.symbols.value "LCL" = 1 := hpre _ _ (by decide +kernel) (by decide)
  have harg : m₀.symbols.value "ARG" = 2 := hpre _ _ (by decide +kernel) (by decide)
  have hthis : m₀.symbols.value "THIS" = 3 := hpre _ _ (by decide +kernel) (by decide)
  have hthat : m₀.symbols.value "THAT" = 4 := hpre _ _ (by decide +kernel) (by decide)
  rw [RegisterFile.cells, RegisterFile.workAt, Cells.workAt]
  dsimp only
  rw [hsp, hlcl, harg, hthis, hthat, hnumeral w (by omega), hnumeral (w + 1) (by omega),
    hnumeral (w + 2) hw]

variable {m : Machine} (hrom : m.rom = m₀.rom) (hpc : m.pc = 0) (hm : m.ram.Words)

include hrom hpc

/-- The first four instructions put the stack where it was asked for. -/
theorem stepN_stackSetup :
    m.stepN 4 = .ok (m.place 4 ⟨0, b, m.ram.store 0 b⟩ (m.steps + 4)) := by
  have hrange := h.range
  have hsp : m₀.symbols.value "SP" = 0 := congrArg Cells.sp (h.cells_workAt (w := 5) (by decide))
  have hword : IsWord (b : Int) := ⟨by omega, by omega⟩
  have hrun : runLines m₀.symbols.value (stackSetup b) m.data = some ⟨0, b, m.ram.store 0 b⟩ := by
    rw [stackSetup, Machine.data, runLines_constant h.embeds.1.standard ⟨by omega, by omega⟩,
      runLines_keep _ hword, runLines_address, hsp, runLines_write _ hword (by decide),
      runLines_nil]
    rfl
  have hlines : m.HasLines m₀.symbols.value 0 (stackSetup b) := by
    rw [Machine.HasLines, hrom]
    exact h.embeds.1.lines
  have hleads : m.Leads 0 4 4 (0 : Nat) m.data (4 : Nat) _ := hlines.leads rfl hrun le_rfl le_rfl
  have hplace : m.place (0 : Nat) m.data m.steps = m := by
    rw [Nat.cast_zero, ← hpc]
    rfl
  have hpass := hleads m.steps
  rw [hplace] at hpass
  exact hpass.run

include hm

/-- **The bootstrap is carried out**: the machine is at the entry function, with
a frame for it. -/
theorem stepN_bootstrap : ∃ m', m.stepN 53 = .ok m' ∧ m'.rom = m.rom ∧
    m'.pc = m₀.symbols.value entry ∧ Memory.EntryFrame b (53 : Nat) m.ram m'.ram := by
  have hrange := h.range
  have hword : IsWord (b : Int) := ⟨by omega, by omega⟩
  obtain ⟨-, e, hregs, hcall⟩ := h.embeds
  -- three cells off the frame, for the names that the call does not use
  obtain ⟨w, hw, haway⟩ : ∃ w, (5 ≤ w ∧ w + 2 < 32768) ∧ (w + 2 < b ∨ b + 5 ≤ w) := by
    by_cases hb : 8 ≤ b
    · exact ⟨5, by decide, .inl hb⟩
    · exact ⟨20, by decide, .inr (by omega)⟩
  have hcells := h.cells_workAt hw.2
  have hcode : Emitter.callCode { e with regs := .workAt w } entry 0 = e.callCode entry 0 := by
    have hsame : Emitter.callCode { e with regs := .workAt w } entry 0
        = Emitter.callCode { e with regs := {} } entry 0 := rfl
    rwa [← hregs] at hsame
  have hstack := h.stepN_stackSetup hrom hpc
  have hlines : (m.place 4 ⟨0, b, m.ram.store 0 b⟩ (m.steps + 4)).HasLines m₀.symbols.value 4
      (e.callCode entry 0) := by
    rw [Machine.HasLines, Machine.rom_place, hrom]
    exact hcall.lines
  have hroom := Memory.room_start hrange haway m.ram
  have hapart := Cells.apart_workAt hw
  rw [← hcells] at hroom hapart
  have hexecutes : (m.place 4 ⟨0, b, m.ram.store 0 b⟩ (m.steps + 4)).ExecutesIn 49 [] 4
      (e.callCode entry 0) ⟨m₀.symbols.value entry,
        (m.ram.store 0 b).enter ((RegisterFile.workAt w).cells m₀.symbols.value) (53 : Nat) 0⟩ :=
    Emitter.executesIn_call (e := { e with regs := .workAt w }) hlines rfl hcall.standard hapart
      (hm.store 0 hword) hcode rfl (hcall.labelsAt (e.plain_labelNames_callCode entry 0))
      (by decide) (by decide) hroom
  obtain ⟨m', hpass, hends⟩ := hexecutes
  refine ⟨m', ?_, hends.rom, hends.pc, ?_⟩
  · exact (Machine.stepN_add_of_ok hstack 49).trans hpass.run
  · rw [hends.ram.eq, hcells]
    exact Memory.entryFrame_enter hm hrange haway hw (by decide)

end Bootable

/-- **The bootstrap reaches the entry function.** From the first instruction of a
program that starts with the bootstrap, with any words in memory, the machine
is after 53 steps at the code of the entry function, wherever that lies. It has
a frame for it where the stack starts, from which it will return to the end of
the bootstrap, and all other cells are as they were. -/
theorem reaches_entry {entry : String} {b : Nat} {m₀ m : Machine}
    (h : Bootable modules o p entry b m₀) (hrom : m.rom = m₀.rom) (hpc : m.pc = 0)
    (hm : m.ram.Words) :
    ∃ m' target, m.stepN 53 = .ok m' ∧ m'.rom = m.rom ∧
      m₀.symbols.get? entry = some target ∧ m'.pc = target ∧
      (∃ i locals, (layout modules o).commands[i]? = some (.function entry locals) ∧
        target = (layout modules o).address i) ∧
      m₀.symbols.get? "FUNC_RETURN_1" = some 53 ∧ Memory.EntryFrame b 53 m.ram m'.ram := by
  obtain ⟨i, locals, hi⟩ := h.exists_function
  have hget := h.get?_entry hi
  have hplain : Plain entry :=
    (h.linked.fromSource h.parsed _ (List.mem_of_getElem? hi)).1.plain
  obtain ⟨m', hrun, hrom', hpc', hframe⟩ := h.stepN_bootstrap hrom hpc hm
  rw [hplain.value_eq, hget, Option.getD_some] at hpc'
  exact ⟨m', _, hrun, hrom', hget, hpc', ⟨i, locals, hi, rfl⟩, h.get?_return, hframe⟩

end Program

/-! ## A sample -/

namespace Sample

/-- A module that is given before the one with the entry function. -/
def helper : Module where
  name := some "Main"
  commands := [⟨.function (.text "Main.f") (.int 1), 1, some "Main"⟩]

/-- A module that declares the entry function last. -/
def system : Module where
  name := some "Sys"
  commands := [⟨.function (.text "Sys.f") (.int 0), 1, some "Sys"⟩,
    ⟨.push "constant" (.int 7), 2, some "Sys"⟩,
    ⟨.function (.text "Sys.init") (.int 0), 3, some "Sys"⟩,
    ⟨.label (.text "L"), 4, some "Sys"⟩, ⟨.goto (.text "L"), 5, some "Sys"⟩]

/-- A frame at 12 lies on `R13`, which other commands work with. -/
def lowStack : LinkOptions := { stackBase := .int 12 }

theorem bootable : ∃ p m, Program.Bootable [helper, system] lowStack p "Sys.init" 12 m ∧
    m.symbols.get? "Sys.init" = some 60 := by
  have hlinked : (Program.link [helper, system] lowStack).toOption.any (fun p =>
      !hasErrors p.diagnostics && p.bootstrap && (Machine.load p.listed).toOption.any
        (fun m => m.symbols.get? "Sys.init" == some 60)) = true := by decide +kernel
  cases hlink : Program.link [helper, system] lowStack with
  | error e => rw [hlink] at hlinked; cases hlinked
  | ok p =>
    rw [hlink] at hlinked
    simp only [Except.toOption, Option.any_some, Bool.and_eq_true, Bool.not_eq_true'] at hlinked
    obtain ⟨⟨hsound, hboot⟩, hload⟩ := hlinked
    obtain ⟨m, hm, hget⟩ := Loading.exists_load hload
    refine ⟨p, m, ⟨fun file hfile => ?_, hlink, hsound, hboot, rfl, ⟨system, by simp, by decide⟩,
      rfl, by decide, hm⟩, eq_of_beq hget⟩
    rcases List.mem_pair.mp hfile with rfl | rfl
    · exact ⟨"function Main.f 1", by decide +kernel⟩
    · exact ⟨"function Sys.f 0\npush constant 7\nfunction Sys.init 0\nlabel L\ngoto L",
        by decide +kernel⟩

end Sample

/-- The entry function of the sample is reached, with `R13` in its frame: it is
declared behind another function in the module that was given last. -/
theorem Program.reaches_entry_sample : ∃ (p : Program) (m₀ m m' : Machine),
    Bootable [Sample.helper, Sample.system] Sample.lowStack p "Sys.init" 12 m₀ ∧
    m.rom = m₀.rom ∧ m.pc = 0 ∧ m.ram.Words ∧ m.ram.cell 3 = 77 ∧
    m.stepN 53 = .ok m' ∧ m'.pc = 60 ∧ Memory.EntryFrame 12 53 m.ram m'.ram := by
  obtain ⟨p, m₀, hboot, hget⟩ := Sample.bootable
  have hwords : (Memory.empty.store 3 77).Words := by
    have hword : IsWord 77 := by decide
    exact Memory.words_empty.store 3 hword
  obtain ⟨m', target, hrun, -, htarget, hpc, -, -, hframe⟩ :=
    reaches_entry (m := m₀.place 0 ⟨7, 9, Memory.empty.store 3 77⟩ 0) hboot rfl rfl hwords
  obtain rfl : target = 60 := Option.some.inj (htarget.symm.trans hget)
  exact ⟨p, m₀, m₀.place 0 ⟨7, 9, Memory.empty.store 3 77⟩ 0, m', hboot, rfl, rfl, hwords,
    Memory.cell_store_self _ (by decide) _, hrun, hpc, hframe⟩

end HackStack
