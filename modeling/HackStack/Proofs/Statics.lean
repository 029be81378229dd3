import HackStack.Proofs.Captured

/-!
# Whose a static cell is

The symbol of a static cell is made of a class and the index. The class is not
looked up in the module: an emitter carries it along, every function that is
declared changes it, and nothing changes it back where a module ends. So a static
cell belongs to **the class of the last function declared before the command**, in
its own module or in any module whose code stands before; when there is none, to
the class of the entry function or to the program.

A `StaticUse` is a command that reaches for a static cell, with its place among
the modules, and `StaticUse.owner` is the class that follows from the place.
`Program.static_symbol` says that this is the class in the symbol. It is the name
of the module just when that class is, and two commands share a cell just when
they share class and index, whichever modules they stand in.
-/

namespace HackStack

/-- The last dot sets a number off from what stands before it. -/
theorem dot_inj {a b : String} {n k : Nat}
    (h : a ++ "." ++ toString n = b ++ "." ++ toString k) : a = b ∧ n = k := by
  have hdigits (n : Nat) : '.' ∉ (toString n).toList.reverse := by
    rw [List.mem_reverse]
    exact fun hmem => absurd (Text.isDigit_of_mem_toString hmem) (by decide)
  have hcut (a : String) (n : Nat) : cutAt? '.' (a ++ "." ++ toString n).toList.reverse
      = some ((toString n).toList.reverse, a.toList.reverse) := by
    have hdot : ".".toList.reverse = ['.'] := by decide
    rw [String.toList_append, String.toList_append, List.reverse_append, List.reverse_append,
      hdot, List.singleton_append, cutAt?_append (hdigits n)]
  have hparts := hcut a n
  rw [h, hcut b k, Option.some.injEq, Prod.mk.injEq, List.reverse_inj, List.reverse_inj] at hparts
  exact ⟨(String.toList_injective hparts.2).symm,
    (Text.toString_injective (String.toList_injective hparts.1)).symm⟩

/-! ## The class in force -/

namespace Emitter

/-- A command changes the class in force when it declares a function. -/
theorem staticScope_next (e : Emitter) (c : Command) :
    (e.next c).staticScope = (c.functionName?.map classOf).or e.staticScope := by
  cases c with
  | arithmetic op => cases op <;> rfl
  | _ => rfl

/-- **The last function decides** which class is in force. -/
theorem staticScope_foldl_next (e : Emitter) (cs : List Command) :
    (cs.foldl next e).staticScope
      = ((cs.filterMap Command.functionName?).getLast?.map classOf).or e.staticScope := by
  induction cs generalizing e with
  | nil => rfl
  | cons c cs ih =>
    rw [List.foldl_cons, ih, staticScope_next]
    cases hc : c.functionName? with
    | none => rw [List.filterMap_cons_none hc, Option.map_none, Option.none_or]
    | some f =>
      rw [List.filterMap_cons_some hc, List.getLast?_cons]
      cases (cs.filterMap Command.functionName?).getLast? <;> rfl

end Emitter

/-- The name that a draft declares a function by. -/
def Draft.functionName? : Draft → Option String
  | function (.text name) _ => some name
  | _ => none

theorem Draft.functionName?_of_check {d : Draft} {c : Command} (h : d.check = .ok c) :
    d.functionName? = c.functionName? := by
  rcases check_cases h with ⟨_, _, _, rfl, rfl⟩ | ⟨_, _, _, rfl, rfl⟩ | rfl
  · rfl
  · rfl
  · cases c <;> rfl

/-- The functions that some drafts declare, in order. -/
def declaredNames (ds : List (Placed Draft)) : List String :=
  ds.filterMap (·.item.functionName?)

theorem declaredNames_of_checks {ds : List (Placed Draft)} {cs : List Command}
    (h : ds.map (·.item.check) = cs.map .ok) :
    declaredNames ds = cs.filterMap Command.functionName? := by
  induction ds generalizing cs with
  | nil =>
    obtain rfl := List.map_eq_nil_iff.mp h.symm
    rfl
  | cons d ds ih =>
    obtain ⟨c, cs, rfl, hc, hcs⟩ := List.map_eq_cons_iff.mp h.symm
    rw [declaredNames, List.filterMap_cons, List.filterMap_cons,
      Draft.functionName?_of_check hc.symm, ← ih hcs.symm]
    rfl

/-! ## Commands that use a static cell -/

/-- **A command that reaches for a static cell**, and where it stands among the
modules in the order of their code. -/
structure StaticUse (modules : List Module) (o : LinkOptions) where
  /-- The modules whose code stands before. -/
  before : List Module
  /-- The module of the command. -/
  home : Module
  after : List Module
  /-- The number of commands of the module before the command. -/
  place : Nat
  draft : Placed Draft
  index : Nat
  arranged : Program.arrange modules o.entry = before ++ home :: after
  found : home.commands[place]? = some draft
  static : draft.item.check = .ok (.push .static index) ∨
    draft.item.check = .ok (.pop .static index)

/-- The class in force before any function is declared: that of the entry function
when the bootstrap is there, and else the program. -/
def Program.rootClass (modules : List Module) (o : LinkOptions) : String :=
  if boots modules o then classOf (shownName o.entry) else shownName (title modules o)

namespace StaticUse

variable {modules : List Module} {o : LinkOptions} (u : StaticUse modules o)

/-- The commands whose code stands before. -/
def earlier : List (Placed Draft) :=
  u.before.flatMap Module.commands ++ u.home.commands.take u.place

/-- **The class that the cell belongs to**: that of the last function declared
before the command. -/
def owner : String :=
  ((declaredNames u.earlier).getLast?.map classOf).getD (Program.rootClass modules o)

/-- The symbol of the cell. -/
def symbol : String := u.owner ++ "." ++ toString u.index

/-- The commands of all modules, taken apart at the command. -/
theorem flatMap_commands : ∃ later,
    (Program.arrange modules o.entry).flatMap Module.commands = u.earlier ++ u.draft :: later := by
  obtain ⟨hlt, hget⟩ := List.getElem?_eq_some_iff.mp u.found
  refine ⟨u.home.commands.drop (u.place + 1) ++ u.after.flatMap Module.commands, ?_⟩
  rw [u.arranged, List.flatMap_append, List.flatMap_cons, earlier, ← hget, List.append_assoc,
    ← List.cons_append, ← List.append_assoc (List.take _ _), ← List.drop_eq_getElem_cons hlt,
    List.take_append_drop]

/-- After a function of its own module, no other module matters. -/
theorem owner_of_declared {f : String}
    (hf : (declaredNames (u.home.commands.take u.place)).getLast? = some f) :
    u.owner = classOf f := by
  rw [owner, earlier, declaredNames, List.filterMap_append, List.getLast?_append]
  rw [declaredNames] at hf
  rw [hf]
  rfl

theorem symbol_inj {u v : StaticUse modules o} :
    u.symbol = v.symbol ↔ u.owner = v.owner ∧ u.index = v.index := by
  constructor
  · exact dot_inj
  · rintro ⟨howner, hindex⟩
    rw [symbol, symbol, howner, hindex]

end StaticUse

/-! ## The symbols that are written -/

namespace Program.Linked

variable {modules : List Module} {o : LinkOptions} {p : Program} (h : Linked modules o p)

include h

theorem staticScope : shownName (layout modules o).emitter.staticScope = rootClass modules o := by
  unfold rootClass
  rcases h.lead_cases with ⟨hb, -, he⟩ | ⟨hb, name, hentry, -, -, he⟩
  · rw [he, hb]
    rfl
  · rw [he, hb, hentry]
    rfl

variable (u : StaticUse modules o)

/-- The command is at its place in the layout, and the commands before it declare
the same functions as their drafts. -/
theorem command_staticUse : ∃ c,
    (layout modules o).commands[u.earlier.length]? = some c ∧
    (c = .push .static u.index ∨ c = .pop .static u.index) ∧
    ((layout modules o).commands.take u.earlier.length).filterMap Command.functionName?
      = declaredNames u.earlier := by
  obtain ⟨later, hflat⟩ := u.flatMap_commands
  have hchecks := h.checks
  rw [hflat, List.map_append, List.map_cons] at hchecks
  obtain ⟨front, back, hcommands, hfront, hback⟩ := List.append_eq_map_iff.mp hchecks
  obtain ⟨c, back, rfl, hc, -⟩ := List.map_eq_cons_iff.mp hback
  have hlen := congrArg List.length hfront.symm
  rw [List.length_map, List.length_map] at hlen
  refine ⟨c, ?_, ?_, ?_⟩
  · show (commands modules o)[u.earlier.length]? = some c
    rw [hcommands, hlen, List.getElem?_append_right (le_refl _), Nat.sub_self,
      List.getElem?_cons_zero]
  · have hstatic := u.static
    rw [← hc, Except.ok.injEq, Except.ok.injEq] at hstatic
    exact hstatic
  · show ((commands modules o).take u.earlier.length).filterMap Command.functionName? = _
    rw [hcommands, hlen, List.take_left, declaredNames_of_checks hfront.symm]

/-- **The emitter spells the symbol of the cell** where it comes to the
command. -/
theorem staticSymbol_eq :
    ((layout modules o).emitterAt u.earlier.length).staticSymbol u.index = u.symbol := by
  obtain ⟨c, -, -, hnames⟩ := h.command_staticUse u
  rw [Emitter.staticSymbol, StaticUse.symbol, StaticUse.owner, Layout.emitterAt,
    Emitter.staticScope_foldl_next, hnames, ← h.staticScope]
  cases (declaredNames u.earlier).getLast? <;> rfl

/-- The symbol is a variable of the program. -/
theorem symbol_mem_dataSymbols : u.symbol ∈ (layout modules o).dataSymbols := by
  obtain ⟨c, hc, hcases, -⟩ := h.command_staticUse u
  refine Layout.mem_dataSymbols hc ?_
  rw [← h.staticSymbol_eq u]
  rcases hcases with rfl | rfl <;> exact List.mem_singleton_self _

/-- **The code of the command begins with the symbol.** -/
theorem lines_staticUse : ∃ rest,
    p.lines = (layout modules o).before u.earlier.length ++ Line.address u.symbol :: rest := by
  obtain ⟨c, hc, hcases, -⟩ := h.command_staticUse u
  obtain ⟨rest, hrest⟩ := h.lines_eq hc
  have hlines : ∃ code, ((layout modules o).emitterAt u.earlier.length).lines c
      = Line.address u.symbol :: code := by
    rw [← h.staticSymbol_eq u]
    rcases hcases with rfl | rfl <;> exact ⟨_, rfl⟩
  obtain ⟨code, hcode⟩ := hlines
  exact ⟨code ++ rest, by rw [hrest, hcode, List.append_assoc, List.cons_append]⟩

/-- Static cells whose symbols are no labels are apart when the symbols are. -/
theorem value?_staticUse {m : Machine} (hload : Machine.load p.listed = .ok m)
    {u v : StaticUse modules o} (hu : u.symbol ∉ Line.labelNames p.lines)
    (hv : v.symbol ∉ Line.labelNames p.lines) :
    m.symbols.value? u.symbol = m.symbols.value? v.symbol ↔ u.symbol = v.symbol := by
  obtain ⟨names, hholds⟩ := Loading.loaded hload
  have hcell (w : StaticUse modules o) (hw : w.symbol ∉ Line.labelNames p.lines) :
      ∃ i, names[i]? = some w.symbol ∧
        m.symbols.value? w.symbol = some (Symbols.variableBase + i) := by
    obtain ⟨hplain, huse, hpre⟩ := h.variable_used (h.symbol_mem_dataSymbols w)
    rw [hplain.value?_eq]
    exact hholds.exists_variable hplain huse hw hpre
  obtain ⟨i, hi, hui⟩ := hcell u hu
  obtain ⟨j, hj, hvj⟩ := hcell v hv
  constructor
  · intro heq
    rw [hui, hvj, Option.some.injEq, Nat.add_left_cancel_iff] at heq
    rw [heq, hj] at hi
    exact (Option.some.inj hi).symm
  · intro heq
    rw [heq]

end Program.Linked

/-- **Whose a static cell is.** In a program that was linked, the code of a
command that uses a static cell begins with a symbol of two parts, the class of
the last function declared before the command and the index. This function is
one of the module itself when it has declared any so far. The symbol begins
with the name of the module just when that class has this name. Two commands
have the same symbol just when they have the same class and index, and in a
program that is loaded they share a cell just then, unless a label has taken
the symbol. -/
theorem Program.static_symbol {modules : List Module} {o : LinkOptions} {p : Program}
    (hlink : link modules o = .ok p) (herr : hasErrors p.diagnostics = false) :
    (∀ u : StaticUse modules o,
      (∃ rest, p.lines
        = (layout modules o).before u.earlier.length ++ Line.address u.symbol :: rest) ∧
      (∀ f, (declaredNames (u.home.commands.take u.place)).getLast? = some f →
        u.owner = classOf f) ∧
      (u.symbol = shownName u.home.name ++ "." ++ toString u.index ↔
        u.owner = shownName u.home.name)) ∧
    (∀ u v : StaticUse modules o,
      u.symbol = v.symbol ↔ u.owner = v.owner ∧ u.index = v.index) ∧
    ∀ m, Machine.load p.listed = .ok m → ∀ u v : StaticUse modules o,
      u.symbol ∉ Line.labelNames p.lines → v.symbol ∉ Line.labelNames p.lines →
      (m.symbols.value? u.symbol = m.symbols.value? v.symbol ↔
        u.owner = v.owner ∧ u.index = v.index) := by
  have h := linked hlink herr
  refine ⟨fun u => ⟨h.lines_staticUse u, fun f => u.owner_of_declared,
    fun hsymbol => (dot_inj hsymbol).1, ?_⟩,
    fun u v => StaticUse.symbol_inj, fun m hload u v hu hv => ?_⟩
  · intro howner
    rw [StaticUse.symbol, howner]
  · rw [h.value?_staticUse hload hu hv, StaticUse.symbol_inj]

namespace Sample

/-- A module with a function of its own class that keeps a number in a static
cell. -/
def keeper : Module where
  name := some "A"
  commands := [⟨.function (.text "A.f") (.int 0), 1, some "A"⟩,
    ⟨.push "constant" (.int 1), 2, some "A"⟩, ⟨.pop "static" (.int 0), 3, some "A"⟩,
    ⟨.ret, 4, some "A"⟩]

/-- A module that uses a static cell and declares no function. -/
def borrower : Module where
  name := some "B"
  commands := [⟨.push "constant" (.int 2), 1, some "B"⟩, ⟨.pop "static" (.int 0), 2, some "B"⟩]

theorem parsed_keeper : keeper.Parsed :=
  ⟨"function A.f 0\npush constant 1\npop static 0\nreturn", by decide +kernel⟩

theorem parsed_borrower : borrower.Parsed :=
  ⟨"push constant 2\npop static 0", by decide +kernel⟩

/-- The static cell of the module with a function. -/
def kept : StaticUse [keeper, borrower] {} where
  before := []
  home := keeper
  after := [borrower]
  place := 2
  draft := ⟨.pop "static" (.int 0), 3, some "A"⟩
  index := 0
  arranged := by decide +kernel
  found := rfl
  static := .inr rfl

/-- The static cell of the module without. -/
def borrowed : StaticUse [keeper, borrower] {} where
  before := [keeper]
  home := borrower
  after := []
  place := 1
  draft := ⟨.pop "static" (.int 0), 2, some "B"⟩
  index := 0
  arranged := by decide +kernel
  found := rfl
  static := .inr rfl

end Sample

/-- The module with a function has a static cell of its own name. -/
theorem Program.static_symbol_sample :
    ∃ p, link [Sample.keeper, Sample.borrower] {} = .ok p ∧ hasErrors p.diagnostics = false ∧
      Sample.kept.owner = "A" ∧ Sample.kept.symbol = "A.0" := by
  obtain ⟨p, hlink, herr⟩ : ∃ p, link [Sample.keeper, Sample.borrower] {} = .ok p ∧
      hasErrors p.diagnostics = false :=
    ⟨(link [Sample.keeper, Sample.borrower] {}).toOption.getD (failed [] false []),
      by decide +kernel, by decide +kernel⟩
  obtain ⟨-, howner, hsymbol⟩ := (static_symbol hlink herr).1 Sample.kept
  have hclass : Sample.kept.owner = "A" := (howner "A.f" (by decide)).trans (by decide +kernel)
  exact ⟨p, hlink, herr, hclass, hsymbol.mpr hclass⟩

/-- **Two modules can share a static cell**: both have the symbol that the
first gives it, and the name of the second is not in it. -/
theorem Program.static_cell_shared : Sample.keeper.Parsed ∧ Sample.borrower.Parsed ∧
    ∃ p, link [Sample.keeper, Sample.borrower] {} = .ok p ∧ hasErrors p.diagnostics = false ∧
      Sample.kept.home.name = some "A" ∧ Sample.borrowed.home.name = some "B" ∧
      Sample.kept.symbol = "A.0" ∧ Sample.borrowed.symbol = "A.0" ∧
      p.lines[((layout [Sample.keeper, Sample.borrower] {}).before
        Sample.borrowed.earlier.length).length]? = some (Line.address "A.0") :=
  ⟨Sample.parsed_keeper, Sample.parsed_borrower,
    (link [Sample.keeper, Sample.borrower] {}).toOption.getD (failed [] false []),
    by decide +kernel, by decide +kernel, rfl, rfl, by decide +kernel, by decide +kernel,
    by decide +kernel⟩

end HackStack
