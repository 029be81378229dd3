import HackStack.Proofs.Embedding
import HackStack.Proofs.Labels

/-!
# A linked program does what its commands mean

Modules are read, linked and loaded, and the machine is started where the
code of one of their commands lies. It then comes to the memory and to the
address that the meaning of the command asks for. Nothing is assumed of how
code, labels and variables lie in the machine; that is what linking and
loading make sure of.

The meaning is that of `Command.meaning`. Its cells are fixed
(`Symbols.cells`), and what a place offers is said by the program
(`Layout.site`): a jump goes to the command that declares the label in the
function in force, and a call to the one that declares the function.

`Program.Runnable` says which programs these are. A program that jumps or
calls elsewhere, or one whose labels clash with the symbols of its variables,
has no meaning of this kind; and variables have to end below the stack.
-/

namespace HackStack

open Word

/-! ## Programs to be run -/

/-- The symbols of the variables in the code of a command. -/
def Emitter.dataSymbols (e : Emitter) : Command → List String
  | .push .static index | .pop .static index => [e.staticSymbol index]
  | .ret => [e.regs.endFrame, e.regs.retAddr]
  | _ => []

/-- The symbols of the variables of a program. -/
def Layout.dataSymbols (L : Layout) : List String :=
  (List.range L.commands.length).flatMap fun i =>
    (L.commands[i]?.map (L.emitterAt i).dataSymbols).getD []

theorem Layout.mem_dataSymbols {L : Layout} {i : Nat} {c : Command} {x : String}
    (hc : L.commands[i]? = some c) (hx : x ∈ (L.emitterAt i).dataSymbols c) :
    x ∈ L.dataSymbols := by
  have hlt := (List.getElem?_eq_some_iff.mp hc).1
  refine List.mem_flatMap.mpr ⟨i, List.mem_range.mpr hlt, ?_⟩
  rwa [hc, Option.map_some, Option.getD_some]

/-- The variables in the table of a program. -/
def Symbols.allocated (t : Symbols) (ls : List Line) : List (String × Nat) :=
  t.entries.filter fun entry =>
    !predefined.contains entry.1 && !(Line.labelNames ls).contains entry.1

/-- **A program that is ready to run** in a machine. -/
structure Program.Runnable (modules : List Module) (o : LinkOptions) (p : Program)
    (m : Machine) : Prop where
  parsed : ∀ file ∈ modules, file.Parsed
  link : link modules o = .ok p
  sound : hasErrors p.diagnostics = false
  load : Machine.load p.listed = .ok m
  /-- The program memory has 32768 places. -/
  size : m.rom.size ≤ 32768
  /-- The variables end below the stack. -/
  allocated : (m.symbols.allocated p.lines).length ≤ 240
  closed : (layout modules o).Closed
  /-- No label has the name of a variable. -/
  uncaptured : ∀ x ∈ (layout modules o).dataSymbols, Line.label x ∉ p.lines

/-- The cells of the calling convention in a machine with this table. -/
def Symbols.cells (t : Symbols) : Cells where
  sp := 0
  lcl := 1
  arg := 2
  thisPtr := 3
  thatPtr := 4
  scratch := 13
  endFrame := t.value "END_FRAME"
  retAddr := t.value "RET_ADDR"

/-- **What the place of a command offers** in a program that is loaded. -/
def Layout.site (L : Layout) (t : Symbols) (i : Nat) : Site where
  next := L.address (i + 1)
  static index := t.value ((L.emitterAt i).staticSymbol index)
  label name := ((L.labelPlace? i name).map L.address).getD 0
  function name := ((L.functionPlace? name).map L.address).getD 0

/-! ## Variables -/

namespace Machine.Holds

variable {m : Machine} {ls : List Line} {names : List String} (h : m.Holds ls names)

include h

/-- The variables are the symbols that loading has added after the labels. -/
theorem allocated_eq :
    m.symbols.allocated ls = (names.zipIdx Symbols.variableBase).reverse := by
  have hnew (entry : String × Nat) (he : entry ∈ (names.zipIdx Symbols.variableBase).reverse) :
      entry.1 ∈ names := by
    have hmem := List.mem_map_of_mem (f := Prod.fst) (List.mem_reverse.mp he)
    rwa [List.zipIdx_map_fst] at hmem
  rw [Symbols.allocated, h.symbols, List.filter_append, List.filter_append,
    List.filter_eq_self.mpr, List.filter_eq_nil_iff.mpr, List.filter_eq_nil_iff.mpr,
    List.append_nil, List.append_nil]
  · intro entry he
    have hc : Symbols.predefined.contains entry.1 = true := by
      by_contra hnot
      have hnone := Symbols.contains_eq_false.mp (Bool.eq_false_iff.mpr hnot)
      exact Symbols.get?_eq_none.mp hnone (List.mem_map_of_mem he)
    simp [hc]
  · intro entry he
    have hmem : entry.1 ∈ Line.labelNames ls :=
      List.mem_map_of_mem (f := Prod.fst) (List.mem_reverse.mp he)
    simp [hmem]
  · intro entry he
    have hlabel : entry.1 ∉ Line.labelNames ls := fun hmem =>
      h.not_mem_names (.inl hmem) (hnew entry he)
    have hpre : Symbols.predefined.contains entry.1 = false := Bool.eq_false_iff.mpr fun hc =>
      h.not_mem_names (.inr hc) (hnew entry he)
    simp [hlabel, hpre]

theorem length_names (ls_le : (m.symbols.allocated ls).length ≤ 240) : names.length ≤ 240 := by
  rwa [h.allocated_eq, List.length_reverse, List.length_zipIdx] at ls_le

end Machine.Holds

/-! ## Where things lie -/

theorem Symbols.get?_predefined_of_dot {x : String} (h : '.' ∈ x.toList) :
    predefined.get? x = none := by
  have hall : ∀ y ∈ predefined.entries.map Prod.fst, '.' ∉ y.toList := by decide
  exact get?_eq_none.mpr fun hx => hall x hx h

/-- The names of the calling convention, with registers in place of the variables
of a return. -/
def RegisterFile.spare : RegisterFile := { endFrame := "R14", retAddr := "R15" }

theorem isCell_natCast {n : Nat} (h : n < 32768) : IsCell n :=
  ⟨Int.natCast_nonneg n, by show (n : Int) < 32768; omega⟩

/-- A number of the source that has to be loaded can be read. -/
theorem Command.FromSource.lt_of_loaded? {c : Command} {n : Nat} (hc : c.FromSource)
    (hn : c.loaded? = some n) : n < 10 ^ Text.maxDigits := by
  cases c with
  | push segment index =>
    cases segment with
    | indirect b => exact Option.some.inj hn ▸ hc
    | _ => cases hn
  | pop segment index =>
    cases segment with
    | indirect b => exact Option.some.inj hn ▸ hc.2
    | _ => cases hn
  | call name args => exact Option.some.inj hn ▸ hc.2
  | _ => cases hn

namespace Emitter

variable {e : Emitter} {c : Command} {code : List Line} {x : String}

/-- Only the code of a return names the cells of a return. -/
theorem code_spare (hregs : e.regs = {}) (hc : c ≠ .ret) :
    e.code c = Emitter.code { e with regs := .spare } c := by
  have hcode : Emitter.code { e with regs := {} } c
      = Emitter.code { e with regs := .spare } c := by
    cases c with
    | push segment index | pop segment index => cases segment <;> rfl
    | arithmetic op => cases op <;> rfl
    | ret => exact absurd rfl hc
    | _ => rfl
  rwa [← hregs] at hcode

/-- The cells of the fixed blocks are there. -/
theorem isCell_address {segment : Segment} {index : Nat} {k : Cells} {site : Site} {m : Memory}
    (haddress : e.addressCode segment index = .ok code) (hne : segment ≠ .constant)
    (hstatic : segment = .static → IsCell (site.static index))
    (hbase : ∀ b, segment = .indirect b → IsCell (wrap (m.cell (k.base b) + index))) :
    IsCell (segment.address k site m index) := by
  cases segment with
  | constant => exact absurd rfl hne
  | static => exact hstatic rfl
  | pointer =>
    have hlt : index < 2 := (addressCode_block rfl rfl haddress).1
    exact isCell_natCast (n := 3 + index) (by omega)
  | temp =>
    have hlt : index < 8 := (addressCode_block rfl rfl haddress).1
    exact isCell_natCast (n := 5 + index) (by omega)
  | indirect b => exact hbase b rfl

/-- A static variable is named in the code that reaches for it. -/
theorem address_mem_pushCode {index : Nat} (h : e.pushCode .static index = .ok code) :
    Line.address (e.staticSymbol index) ∈ code := by
  obtain ⟨address, haddress, rfl⟩ := pushCode_eq_ok h
  obtain rfl := Except.ok.inj haddress
  simp [staticSymbol]

theorem address_mem_popCode {index : Nat} (h : e.popCode .static index = .ok code) :
    Line.address (e.staticSymbol index) ∈ code := by
  obtain ⟨-, address, haddress, rfl⟩ := popCode_eq_ok h
  obtain rfl := Except.ok.inj haddress
  simp [staticSymbol]

/-- Variables are used, under names that are read as they are written and are
not predefined. -/
theorem variable_of_mem_dataSymbols (hcode : e.code c = .ok code) (hregs : e.regs = {})
    (hx : x ∈ e.dataSymbols c) :
    Plain x ∧ Line.address x ∈ code ∧ Symbols.predefined.get? x = none := by
  have hstatic (index : Nat) : Symbols.predefined.get? (e.staticSymbol index) = none := by
    refine Symbols.get?_predefined_of_dot ?_
    rw [staticSymbol, String.toList_append, String.toList_append]
    exact List.mem_append_left _ (List.mem_append_right _ (by decide))
  cases c with
  | push segment index =>
    cases segment with
    | static =>
      obtain rfl := List.mem_singleton.mp hx
      exact ⟨plain_staticSymbol e index, address_mem_pushCode hcode, hstatic index⟩
    | _ => cases hx
  | pop segment index =>
    cases segment with
    | static =>
      obtain rfl := List.mem_singleton.mp hx
      exact ⟨plain_staticSymbol e index, address_mem_popCode hcode, hstatic index⟩
    | _ => cases hx
  | ret =>
    obtain rfl := Except.ok.inj hcode
    rw [dataSymbols, hregs, List.mem_cons, List.mem_singleton] at hx
    rw [hregs]
    rcases hx with rfl | rfl
    · exact ⟨by decide +kernel, by decide, by decide⟩
    · exact ⟨by decide +kernel, by decide, by decide⟩
  | _ => cases hx

/-- A number that has to be loaded is among the lines. -/
theorem constant_mem_code {n : Nat} (hcode : e.code c = .ok code) (hn : c.loaded? = some n) :
    Line.constant n ∈ code := by
  cases c with
  | push segment index =>
    obtain ⟨address, haddress, rfl⟩ := pushCode_eq_ok hcode
    cases segment with
    | indirect b =>
      obtain rfl := Except.ok.inj haddress
      obtain rfl := Option.some.inj hn
      simp [Block.loadConstant]
    | _ => cases hn
  | pop segment index =>
    obtain ⟨-, address, haddress, rfl⟩ := popCode_eq_ok hcode
    cases segment with
    | indirect b =>
      obtain rfl := Except.ok.inj haddress
      obtain rfl := Option.some.inj hn
      simp [Block.loadConstant]
    | _ => cases hn
  | call name args =>
    obtain rfl := Except.ok.inj hcode
    obtain rfl := Option.some.inj hn
    simp [callCode]
  | _ => cases hn

end Emitter

/-- A meaning does not depend on where work in progress is kept. -/
theorem Command.meaning_work (c : Command) (k : Cells) (site : Site) (m : Memory) (a b : Nat) :
    c.meaning { k with endFrame := a, retAddr := b } site m = c.meaning k site m := by
  cases c with
  | push segment index | pop segment index => cases segment <;> rfl
  | arithmetic op => cases op <;> rfl
  | _ => rfl

theorem Command.stackCells_work (c : Command) (k : Cells) (m : Memory) (a b : Nat) :
    c.stackCells { k with endFrame := a, retAddr := b } m = c.stackCells k m := by
  cases c with
  | arithmetic op => cases op <;> rfl
  | _ => rfl

theorem Command.baseCells_work (c : Command) (k : Cells) (m : Memory) (a b : Nat) :
    c.baseCells { k with endFrame := a, retAddr := b } m = c.baseCells k m := by
  cases c with
  | push segment index | pop segment index => cases segment <;> rfl
  | _ => rfl

/-- A meaning depends on what a command asks of its place. -/
theorem Command.meaning_congr {c : Command} {site site' : Site} (hnext : site.next = site'.next)
    (hstatic : site.static = site'.static)
    (hlabel : ∀ name, c = .goto name ∨ c = .ifGoto name → site.label name = site'.label name)
    (hfunction : ∀ name args, c = .call name args → site.function name = site'.function name)
    (k : Cells) (m : Memory) : c.meaning k site m = c.meaning k site' m := by
  have haddress (segment : Segment) (index : Nat) :
      segment.address k site m index = segment.address k site' m index := by
    cases segment with
    | static => rw [Segment.address, Segment.address, hstatic]
    | _ => rfl
  cases c with
  | push segment index => simp only [meaning, Segment.word, haddress, hnext]
  | pop segment index => simp only [meaning, haddress, hnext]
  | arithmetic op => cases op <;> simp only [meaning, hnext]
  | label name | function name locals => simp only [meaning, hnext]
  | goto name => simp only [meaning, hlabel name (.inl rfl)]
  | ifGoto name => simp only [meaning, hnext, hlabel name (.inr rfl)]
  | call name args => simp only [meaning, hnext, hfunction name args rfl]
  | ret => rfl

/-- When the cells of the calling convention are the first ones, the stack is
free of them. -/
theorem Cells.free_of_le {k : Cells} (hk : ∀ a ∈ k.all, a < 256) {b : Int}
    (hb : 256 ≤ b ∧ b < 32768) : k.Free b :=
  ⟨⟨by omega, by show b < 32768; omega⟩, fun hmem => absurd (hk b hmem) (by omega)⟩

namespace Program.Runnable

variable {modules : List Module} {o : LinkOptions} {p : Program} {m₀ m : Machine} {i : Nat}
  {c : Command} (h : Runnable modules o p m₀)

include h

theorem linked : Linked modules o p := Program.linked h.link h.sound

theorem holds : ∃ names, m₀.Holds p.lines names ∧ names.length ≤ 240 := by
  obtain ⟨names, hholds⟩ := Loading.loaded h.load
  exact ⟨names, hholds, hholds.length_names h.allocated⟩

theorem regs (i : Nat) : ((layout modules o).emitterAt i).regs = {} := by
  rw [Layout.regs_emitterAt, h.linked.regs]

theorem embeds_of_lines {before code after : List Line}
    (hlines : p.lines = before ++ code ++ after) : m₀.Embeds (Line.size before) code := by
  have hload : Machine.load (p.lines.map Line.text) = .ok m₀ := h.load
  rw [hlines] at hload
  exact Loading.embeds_lines hload

section Command

variable (hc : (layout modules o).commands[i]? = some c)

include hc

theorem code : ((layout modules o).emitterAt i).code c
    = .ok (((layout modules o).emitterAt i).lines c) :=
  Layout.code_of_accepts h.linked.accepts hc

theorem fromSource : c.FromSource :=
  h.linked.fromSource h.parsed c (List.mem_of_getElem? hc)

/-- **The code of a command lies at its place** in the output. -/
theorem lines_eq : ∃ rest, p.lines = (layout modules o).before i
    ++ ((layout modules o).emitterAt i).lines c ++ rest := h.linked.lines_eq hc

theorem mem_lines {l : Line} (hl : l ∈ ((layout modules o).emitterAt i).lines c) :
    l ∈ p.lines := by
  obtain ⟨rest, hrest⟩ := h.lines_eq hc
  rw [hrest]
  exact List.mem_append_left _ (List.mem_append_right _ hl)

theorem loads : c.Loads := by
  obtain ⟨names, hholds, -⟩ := h.holds
  refine Command.loads_iff.mpr fun n hn => ?_
  have hmem := h.mem_lines hc (Emitter.constant_mem_code (h.code hc) hn)
  exact hholds.lt_of_constant hmem ((h.fromSource hc).lt_of_loaded? hn)

/-- The code of a command is embedded in the program at its address. -/
theorem embeds : m₀.Embeds ((layout modules o).address i)
    (((layout modules o).emitterAt i).lines c) :=
  let ⟨_, hrest⟩ := h.lines_eq hc
  h.embeds_of_lines hrest

theorem hasLines (hrom : m.rom = m₀.rom) : m.HasLines m₀.symbols.value
    ((layout modules o).address i) (((layout modules o).emitterAt i).lines c) := by
  rw [Machine.HasLines, hrom]
  exact (h.embeds hc).lines

/-- The labels of a command stand for where they stand. -/
theorem labelsAt : LabelsAt m₀.symbols.value ((layout modules o).address i)
    (((layout modules o).emitterAt i).lines c) := by
  refine (h.embeds hc).labelsAt fun name hmem => ?_
  rw [Emitter.labelNames_code (h.code hc)] at hmem
  obtain ⟨l, hl, rfl⟩ := List.mem_map.mp hmem
  exact Emitter.plain_text (h.fromSource hc) hl

/-- Code ends inside the program memory. -/
theorem address_le : (layout modules o).address (i + 1) ≤ 32768 := by
  rw [Layout.address, Layout.before_succ hc, Line.size_append]
  exact (h.embeds hc).size.trans h.size

/-- A variable has a cell of its own. -/
theorem value_variable {names : List String} {x : String} (hholds : m₀.Holds p.lines names)
    (hx : x ∈ ((layout modules o).emitterAt i).dataSymbols c) :
    ∃ j, names[j]? = some x ∧ m₀.symbols.value x = Symbols.variableBase + j := by
  obtain ⟨hplain, huse, hpre⟩ :=
    Emitter.variable_of_mem_dataSymbols (h.code hc) (h.regs i) hx
  have hlabel : x ∉ Line.labelNames p.lines := fun hmem =>
    h.uncaptured x (Layout.mem_dataSymbols hc hx) (Line.mem_labelNames.mp hmem)
  obtain ⟨j, hj, hget⟩ := hholds.exists_variable hplain (h.mem_lines hc huse) hlabel hpre
  exact ⟨j, hj, by rw [hplain.value_eq, hget, Option.getD_some]⟩

/-- Variables lie between the registers and the stack. -/
theorem value_variable_lt {x : String}
    (hx : x ∈ ((layout modules o).emitterAt i).dataSymbols c) :
    16 ≤ m₀.symbols.value x ∧ m₀.symbols.value x < 256 := by
  obtain ⟨names, hholds, hlen⟩ := h.holds
  obtain ⟨j, hj, hval⟩ := h.value_variable hc hholds hx
  have hlt := (List.getElem?_eq_some_iff.mp hj).1
  rw [hval, Symbols.variableBase]
  omega

end Command

/-- The register file stands for the cells of the calling convention. -/
theorem cells_eq : ({} : RegisterFile).cells m₀.symbols.value = m₀.symbols.cells := by
  obtain ⟨names, hholds, -⟩ := h.holds
  have hval (name : String) (x : Nat) (hplain : Plain name)
      (hx : Symbols.predefined.get? name = some x) : m₀.symbols.value name = x :=
    hholds.lists.value_predefined hplain hx
  rw [RegisterFile.cells, Symbols.cells, hval "SP" 0 (by decide +kernel) (by decide),
    hval "LCL" 1 (by decide +kernel) (by decide), hval "ARG" 2 (by decide +kernel) (by decide),
    hval "THIS" 3 (by decide +kernel) (by decide), hval "THAT" 4 (by decide +kernel) (by decide),
    hval "R13" 13 (by decide +kernel) (by decide)]

/-- A return uses two variables. -/
theorem mem_dataSymbols_ret (i : Nat) :
    "END_FRAME" ∈ ((layout modules o).emitterAt i).dataSymbols .ret ∧
      "RET_ADDR" ∈ ((layout modules o).emitterAt i).dataSymbols .ret := by
  rw [Emitter.dataSymbols, h.regs]
  decide

/-- In a program that returns, a return has two cells of its own to work with. -/
theorem apart (hc : (layout modules o).commands[i]? = some .ret) :
    m₀.symbols.cells.Apart ∧ ∀ a ∈ m₀.symbols.cells.all, a < 256 := by
  obtain ⟨names, hholds, hlen⟩ := h.holds
  obtain ⟨hend, hret⟩ := h.mem_dataSymbols_ret i
  have hend_lt := h.value_variable_lt hc hend
  have hret_lt := h.value_variable_lt hc hret
  have hne : m₀.symbols.value "END_FRAME" ≠ m₀.symbols.value "RET_ADDR" := by
    obtain ⟨j, hj, hval⟩ := h.value_variable hc hholds hend
    obtain ⟨j', hj', hval'⟩ := h.value_variable hc hholds hret
    intro heq
    obtain rfl : j = j' := by omega
    rw [hj] at hj'
    exact absurd (Option.some.inj hj') (by decide)
  have hlow : ∀ a ∈ m₀.symbols.cells.all, 0 ≤ a ∧ a < 256 := by
    simp only [Cells.all, Cells.main, Cells.work, Symbols.cells, List.cons_append, List.nil_append,
      List.mem_cons, List.not_mem_nil, or_false]
    omega
  refine ⟨⟨fun a ha => ⟨(hlow a ha).1, ?_⟩, ?_⟩, fun a ha => (hlow a ha).2⟩
  · have := (hlow a ha).2
    show a < 32768
    omega
  · simp only [Cells.all, Cells.main, Cells.work, Symbols.cells, List.cons_append, List.nil_append,
      List.nodup_cons, List.mem_cons, List.not_mem_nil, or_false, not_or, List.nodup_nil,
      not_false_eq_true, and_true]
    omega

/-! ### Places -/

/-- **A label stands for the command that declares it** in the function in
force. -/
theorem value_qualify {name : String} {j : Nat}
    (hj : (layout modules o).labelPlace? i name = some j) :
    m₀.symbols.value (((layout modules o).emitterAt i).qualify name)
      = (layout modules o).address j := by
  have hfound := List.find?_some hj
  obtain ⟨hlabel, hscope⟩ := of_decide_eq_true hfound
  have hsame : ((layout modules o).emitterAt i).qualify name
      = ((layout modules o).emitterAt j).qualify name := by
    rw [Emitter.qualify, Emitter.qualify, Layout.functionName_emitterAt,
      Layout.functionName_emitterAt, hscope]
  have hcode : ((layout modules o).emitterAt j).lines (.label name)
      = [] ++ Line.label (((layout modules o).emitterAt j).qualify name) :: [] :=
    Emitter.lines_of_ok rfl
  rw [hsame, h.labelsAt hlabel _ _ _ hcode, Line.size_nil, Nat.add_zero]

/-- **A function stands for the command that declares it.** -/
theorem value_function {name : String} {j : Nat}
    (hj : (layout modules o).functionPlace? name = some j) :
    m₀.symbols.value name = (layout modules o).address j := by
  have hfound := List.find?_some hj
  obtain ⟨c, hc, hname⟩ := Option.bind_eq_some_iff.mp (of_decide_eq_true hfound)
  cases c with
  | function other locals =>
    obtain rfl := Option.some.inj hname
    have hcode : ((layout modules o).emitterAt j).lines (.function other locals)
        = [] ++ Line.label other :: (List.replicate locals ([Line.constant 0, Line.set .d (.y .a)]
          ++ Block.pushD ((layout modules o).emitterAt j).regs.sp)).flatten :=
      Emitter.lines_of_ok rfl
    rw [h.labelsAt hc _ _ _ hcode, Line.size_nil, Nat.add_zero]
  | _ => cases hname

/-- What the symbols of a place say is what the program says. -/
theorem meaning_eq (hc : (layout modules o).commands[i]? = some c) (k : Cells) (ram : Memory) :
    c.meaning k (((layout modules o).emitterAt i).site m₀.symbols.value
      ((layout modules o).address (i + 1))) ram
      = c.meaning k ((layout modules o).site m₀.symbols i) ram := by
  refine Command.meaning_congr ?_ ?_ (fun name hname => ?_) (fun name args hname => ?_) k ram
  · rw [Layout.site, Emitter.site]
  · rw [Layout.site, Emitter.site]
  · have hclosed : ((layout modules o).labelPlace? i name).isSome = true := by
      have hresolves := h.closed.resolves hc
      rcases hname with rfl | rfl <;> exact hresolves
    obtain ⟨j, hj⟩ := Option.isSome_iff_exists.mp hclosed
    simp only [Layout.site, Emitter.site]
    rw [h.value_qualify hj, hj, Option.map_some, Option.getD_some]
  · subst hname
    obtain ⟨j, hj⟩ := Option.isSome_iff_exists.mp (h.closed.resolves hc)
    simp only [Layout.site, Emitter.site]
    rw [h.value_function hj, hj, Option.map_some, Option.getD_some]

/-! ### Commands -/

/-- What a command reaches for is there, when that is so of what it reaches
through a base. -/
theorem reaches (hc : (layout modules o).commands[i]? = some c) {k : Cells} {site : Site}
    {ram : Memory} (hstatic : ∀ index, site.static index
      = m₀.symbols.value (((layout modules o).emitterAt i).staticSymbol index))
    (hbase : ∀ b ∈ c.baseCells k ram, IsCell b) : c.Reaches k site ram := by
  have hvariable (index : Nat) (hx : ((layout modules o).emitterAt i).staticSymbol index
      ∈ ((layout modules o).emitterAt i).dataSymbols c) : IsCell (site.static index) := by
    have := h.value_variable_lt hc hx
    rw [hstatic]
    exact isCell_natCast (by omega)
  cases c with
  | push segment index =>
    obtain ⟨address, haddress, -⟩ := Emitter.pushCode_eq_ok (h.code hc)
    refine fun hne => Emitter.isCell_address haddress hne ?_ ?_
    · rintro rfl
      exact hvariable index (List.mem_singleton_self _)
    · rintro b rfl
      exact hbase _ (List.mem_singleton_self _)
  | pop segment index =>
    obtain ⟨hne, address, haddress, -⟩ := Emitter.popCode_eq_ok (h.code hc)
    refine Emitter.isCell_address haddress hne ?_ ?_
    · rintro rfl
      exact hvariable index (List.mem_singleton_self _)
    · rintro b rfl
      exact hbase _ (List.mem_singleton_self _)
  | _ => trivial

/-- **A return is carried out** in fifty steps. -/
theorem executesIn_ret (hc : (layout modules o).commands[i]? = some .ret) (hrom : m.rom = m₀.rom)
    (hpc : m.pc = (layout modules o).address i) (hm : m.ram.Words)
    (hstack : ∀ b ∈ Command.ret.stackCells m₀.symbols.cells m.ram, 256 ≤ b ∧ b < 32768)
    (hbase : ∀ b ∈ Command.ret.baseCells m₀.symbols.cells m.ram, 256 ≤ b ∧ b < 32768) :
    m.ExecutesIn 50 (Command.ret.work m₀.symbols.cells) ((layout modules o).address i)
      (((layout modules o).emitterAt i).lines .ret)
      (Command.ret.meaning m₀.symbols.cells ((layout modules o).site m₀.symbols i) m.ram) := by
  obtain ⟨hapart, hlow⟩ := h.apart hc
  have hcells : ((layout modules o).emitterAt i).regs.cells m₀.symbols.value
      = m₀.symbols.cells := by
    rw [h.regs, h.cells_eq]
  rw [← hcells] at hapart hlow hstack hbase ⊢
  exact Emitter.executesIn_ret (h.hasLines hc hrom) hpc (h.embeds hc).standard hapart hm
    (Except.ok.inj (h.code hc)) (fun b hb => Cells.free_of_le hlow (hstack b hb))
    (fun b hb => Cells.free_of_le hlow (hbase b hb)) _

/-- Registers can stand in for the variables of a return. -/
theorem spare : RegisterFile.spare.cells m₀.symbols.value
      = { m₀.symbols.cells with endFrame := 14, retAddr := 15 } ∧
    (RegisterFile.spare.cells m₀.symbols.value).Apart ∧
    ∀ a ∈ (RegisterFile.spare.cells m₀.symbols.value).all, a < 256 := by
  obtain ⟨names, hholds, -⟩ := h.holds
  have hcells : RegisterFile.spare.cells m₀.symbols.value
      = { m₀.symbols.cells with endFrame := 14, retAddr := 15 } := by
    have hend : m₀.symbols.value "R14" = 14 :=
      hholds.lists.value_predefined (by decide +kernel) (by decide)
    have hret : m₀.symbols.value "R15" = 15 :=
      hholds.lists.value_predefined (by decide +kernel) (by decide)
    rw [← h.cells_eq, ← hend, ← hret]
    rfl
  refine ⟨hcells, ?_⟩
  rw [hcells]
  show Cells.Apart ⟨0, 1, 2, 3, 4, 13, 14, 15⟩
    ∧ ∀ a ∈ Cells.all ⟨0, 1, 2, 3, 4, 13, 14, 15⟩, a < 256
  exact ⟨⟨by decide, by decide⟩, by decide⟩

/-- The code of a command that does not return is carried out. It does not name
the cells of a return, so registers can stand in for them. -/
theorem executes_of_ne_ret (hc : (layout modules o).commands[i]? = some c) (hne : c ≠ .ret)
    (hrom : m.rom = m₀.rom) (hpc : m.pc = (layout modules o).address i) (hm : m.ram.Words)
    (hstack : ∀ b ∈ c.stackCells m₀.symbols.cells m.ram, 256 ≤ b ∧ b < 32768)
    (hbase : ∀ b ∈ c.baseCells m₀.symbols.cells m.ram, IsCell b) :
    m.Executes (c.work m₀.symbols.cells) ((layout modules o).address i)
      (((layout modules o).emitterAt i).lines c)
      (c.meaning m₀.symbols.cells ((layout modules o).site m₀.symbols i) m.ram) := by
  obtain ⟨hcells, hapart, hlow⟩ := h.spare
  have hcode := Emitter.code_spare (h.regs i) hne ▸ h.code hc
  have hnext : (layout modules o).address i
      + Line.size (((layout modules o).emitterAt i).lines c) < 65536 := by
    have := h.address_le hc
    rw [Layout.address_succ hc] at this
    omega
  have hwork : c.work (RegisterFile.spare.cells m₀.symbols.value) = c.work m₀.symbols.cells := by
    rw [hcells]
    cases c with
    | ret => exact absurd rfl hne
    | _ => rfl
  rw [← Command.stackCells_work (a := 14) (b := 15), ← hcells] at hstack
  rw [← Command.baseCells_work (a := 14) (b := 15), ← hcells] at hbase
  rw [← Command.meaning_work (a := 14) (b := 15), ← hcells, ← hwork, ← h.meaning_eq hc,
    Layout.address_succ hc]
  have hreach : Command.Reaches (RegisterFile.spare.cells m₀.symbols.value)
      (Emitter.site { (layout modules o).emitterAt i with regs := .spare } m₀.symbols.value
        ((layout modules o).address i + Line.size (((layout modules o).emitterAt i).lines c)))
      m.ram c := by
    refine h.reaches hc (fun index => ?_) hbase
    simp only [Emitter.site, Emitter.staticSymbol]
  exact Emitter.executes (e := { (layout modules o).emitterAt i with regs := .spare }) hcode
    (h.hasLines hc hrom) hpc (h.embeds hc).standard hapart hm (h.labelsAt hc) hnext (h.loads hc)
    hreach (fun b hb => Cells.free_of_le hlow (hstack b hb)) fun hret => absurd hret hne

/-- **The code of every command is carried out**, wherever it lies in the
program. -/
theorem executes (hc : (layout modules o).commands[i]? = some c) (hrom : m.rom = m₀.rom)
    (hpc : m.pc = (layout modules o).address i) (hm : m.ram.Words)
    (hstack : ∀ b ∈ c.stackCells m₀.symbols.cells m.ram, 256 ≤ b ∧ b < 32768)
    (hbase : ∀ b ∈ c.baseCells m₀.symbols.cells m.ram, 256 ≤ b ∧ b < 32768) :
    m.Executes (c.work m₀.symbols.cells) ((layout modules o).address i)
      (((layout modules o).emitterAt i).lines c)
      (c.meaning m₀.symbols.cells ((layout modules o).site m₀.symbols i) m.ram) := by
  by_cases hne : c = .ret
  · subst hne
    exact ⟨50, .inr (by decide), h.executesIn_ret hc hrom hpc hm hstack hbase⟩
  · refine h.executes_of_ne_ret hc hne hrom hpc hm hstack fun b hb => ?_
    have := hbase b hb
    exact ⟨by omega, this.2⟩

end Program.Runnable

/-! ## The simulation -/

/-- **A linked program does what its commands mean.** A machine that holds the
program is started where the code of a command lies, with any words in memory
and anything in its registers. If every cell that the command reaches through
the stack pointer or a base is on the stack or above it, the machine comes,
after finitely many steps, to the address and the memory of the command's
meaning, but for the cells where the command keeps work in progress. -/
theorem Program.forward_simulation {modules : List Module} {o : LinkOptions} {p : Program}
    {m₀ m : Machine} {i : Nat} {c : Command} (h : Runnable modules o p m₀)
    (hc : (layout modules o).commands[i]? = some c) (hrom : m.rom = m₀.rom)
    (hpc : m.pc = (layout modules o).address i) (hm : m.ram.Words)
    (hrange : ∀ b ∈ c.stackCells m₀.symbols.cells m.ram ++ c.baseCells m₀.symbols.cells m.ram,
      256 ≤ b ∧ b ≤ 32767) :
    (∃ rest, p.lines = (layout modules o).before i
      ++ ((layout modules o).emitterAt i).lines c ++ rest) ∧
    ∃ n m', m.stepN n = .ok m' ∧ Machine.Ends (c.work m₀.symbols.cells)
      (c.meaning m₀.symbols.cells ((layout modules o).site m₀.symbols i) m.ram) m m' := by
  have hstack (b : Int) (hb : b ∈ c.stackCells m₀.symbols.cells m.ram) : 256 ≤ b ∧ b < 32768 := by
    have := hrange b (List.mem_append_left _ hb)
    omega
  have hbase (b : Int) (hb : b ∈ c.baseCells m₀.symbols.cells m.ram) : 256 ≤ b ∧ b < 32768 := by
    have := hrange b (List.mem_append_right _ hb)
    omega
  obtain ⟨n, -, m', hpassage, hends⟩ := h.executes hc hrom hpc hm hstack hbase
  exact ⟨h.lines_eq hc, n, m', hpassage.run, hends⟩

/-! ## A sample -/

namespace Sample

/-- A module with a call inside a call. -/
def nested : Module where
  name := some "M"
  commands := [⟨.call (.text "f") (.int 1), 1, some "M"⟩,
    ⟨.function (.text "f") (.int 0), 2, some "M"⟩, ⟨.call (.text "g") (.int 0), 3, some "M"⟩,
    ⟨.ret, 4, some "M"⟩, ⟨.function (.text "g") (.int 0), 5, some "M"⟩,
    ⟨.push "constant" (.int 7), 6, some "M"⟩, ⟨.ret, 7, some "M"⟩]

/-- The text of the module. -/
def text : String :=
  "call f 1\nfunction f 0\ncall g 0\nreturn\nfunction g 0\npush constant 7\nreturn"

/-- The program of a module. -/
def programOf (file : Module) (o : LinkOptions) : Program :=
  (Program.link [file] o).toOption.getD (.failed [] false [])

/-- The machine that holds a program. -/
def machineOf (p : Program) : Machine :=
  (Machine.load p.listed).toOption.getD { rom := #[], symbols := .predefined }

/-- What there is to compute of a module that can be run. -/
theorem runnable_of_load {file : Module} {o : LinkOptions} (hparsed : file.Parsed)
    (hlink : Program.link [file] o = .ok (programOf file o))
    (hsound : hasErrors (programOf file o).diagnostics = false)
    (hload : (Machine.load (programOf file o).listed).toOption.any (fun m =>
      m.rom.size ≤ 32768 && (m.symbols.allocated (programOf file o).lines).length ≤ 240) = true)
    (hclosed : (Program.layout [file] o).Closed)
    (huncaptured : ∀ x ∈ (Program.layout [file] o).dataSymbols,
      Line.label x ∉ (programOf file o).lines) :
    Program.Runnable [file] o (programOf file o) (machineOf (programOf file o)) := by
  obtain ⟨m, hm, hbounds⟩ := Loading.exists_load hload
  have heq : machineOf (programOf file o) = m := by
    rw [machineOf, hm]
    rfl
  simp only [Bool.and_eq_true, decide_eq_true_eq] at hbounds
  refine ⟨fun other hother => ?_, hlink, hsound, heq ▸ hm, heq ▸ hbounds.1, heq ▸ hbounds.2,
    hclosed, huncaptured⟩
  rw [List.mem_singleton.mp hother]
  exact hparsed

def program : Program := programOf nested {}

def machine : Machine := machineOf program

theorem runnable : Program.Runnable [nested] {} program machine :=
  runnable_of_load ⟨text, by decide +kernel⟩ (by decide +kernel) (by decide +kernel)
    (by decide +kernel) (by decide +kernel) (by decide +kernel)

/-- The machine at the outer call, with one argument on the stack. -/
def atCall : Machine := machine.place 0 ⟨0, 0, Memory.empty.store 0 257⟩ 0

theorem rom_atCall : atCall.rom = machine.rom := Machine.rom_place _ _ _ _

theorem pc_atCall : atCall.pc = (Program.layout [nested] {}).address 0 := by decide +kernel

theorem sp_atCall : atCall.ram.cell 0 = 257 := Memory.cell_store_self _ (by decide) _

theorem call_atCall :
    (Program.layout [nested] {}).commands[0]? = some (.call "f" 1) := by decide +kernel

theorem words_atCall : atCall.ram.Words := by
  have hword : IsWord 257 := by decide
  exact Memory.words_empty.store 0 hword

end Sample

/-- The outer call of the sample is carried out. -/
theorem Program.forward_simulation_sample :
    (layout [Sample.nested] {}).commands[0]? = some (.call "f" 1) ∧
    ∃ n m', Sample.atCall.stepN n = .ok m' ∧ Machine.Ends [] ((Command.call "f" 1).meaning
      Sample.machine.symbols.cells ((layout [Sample.nested] {}).site Sample.machine.symbols 0)
      Sample.atCall.ram) Sample.atCall m' := by
  have hcells : (Command.call "f" 1).stackCells Sample.machine.symbols.cells Sample.atCall.ram
      ++ (Command.call "f" 1).baseCells Sample.machine.symbols.cells Sample.atCall.ram
      = [257, 258, 259, 260, 261] := by
    simp only [Command.stackCells, Command.baseCells, Symbols.cells, Nat.cast_zero,
      Sample.sp_atCall]
    decide
  exact ⟨Sample.call_atCall, (forward_simulation Sample.runnable Sample.call_atCall
    Sample.rom_atCall Sample.pc_atCall Sample.words_atCall (by rw [hcells]; decide)).2⟩

end HackStack
