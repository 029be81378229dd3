import HackStack.Proofs.DefinedOnce
import HackStack.Proofs.Simulation

/-!
# Names that are captured

A program has names of its own besides those of its source: the labels of
comparisons, calls and scoped labels, the label of the final loop, and the
variables. All share one table with the functions, and of the made-up names only
the final loop is kept apart from them when modules are linked. What follows
from that is the subject of this module.

A function with the name of another label defines it twice, and loading refuses
the program. A function with the name of a variable is not refused: the variable
then *is* the address of the function, and the program reads and writes the cell
of that number. `Program.capture` says for each name which of these happens.
-/

namespace HackStack

/-- Whether a label is made up, and not a function. -/
def Label.isMadeUp : Label → Bool
  | function _ => false
  | _ => true

/-- The functions among some labels are those that are not made up. -/
theorem Label.filterMap_function? (ls : List Label) :
    ls.filterMap function? = (ls.filter (!·.isMadeUp)).map text := by
  induction ls with
  | nil => rfl
  | cons l ls ih =>
    cases l with
    | function name => exact congrArg (name :: ·) ih
    | numbered k n | source scope name => exact ih

/-- The labels that the first pass finds: those that have a name. -/
theorem Line.labelNames_map_text (ls : List Line) :
    Loading.labelNames (ls.map text) = (labelNames ls).filter (· ≠ "") := by
  have hentries (a b : Nat) : (Loading.labelEntries a (ls.map written)).map Prod.fst
      = ((labels b ls).map Prod.fst).filter (· ≠ "") := by
    induction ls generalizing a b with
    | nil => rfl
    | cons l ls ih =>
      rw [List.map_cons, Loading.labelEntries, labelName?_written]
      cases l with
      | label name =>
        rw [labels, List.map_cons]
        by_cases hname : name = ""
        · rw [List.filter_cons_of_neg (by simpa using hname), labelName?, if_pos hname]
          exact ih (a + 1) b
        · rw [List.filter_cons_of_pos (by simpa using hname), labelName?, if_neg hname]
          simp only [Option.map_some, String.ofList_toList, List.map_cons, ih a b]
      | address operand => exact ih (a + 1) (b + 1)
      | compute dest comp jump => exact ih (a + 1) (b + 1)
  rw [Loading.labelNames, source_map_text]
  exact hentries 0 0

/-- A variable is a variable of some command. -/
theorem Layout.exists_of_mem_dataSymbols {L : Layout} {x : String} (hx : x ∈ L.dataSymbols) :
    ∃ i c, L.commands[i]? = some c ∧ x ∈ (L.emitterAt i).dataSymbols c := by
  obtain ⟨i, -, hx⟩ := List.mem_flatMap.mp hx
  cases hc : L.commands[i]? with
  | none =>
    rw [hc] at hx
    cases hx
  | some c =>
    rw [hc] at hx
    exact ⟨i, c, hc, hx⟩

namespace Program

/-- The functions that modules declare, in the order of their code. -/
def functions (modules : List Module) (o : LinkOptions) : List String :=
  (commands modules o).filterMap Command.functionName?

/-- The labels that are made up: those of comparisons and calls, the scoped ones
and the one of the final loop. -/
def madeUpLabels (modules : List Module) (o : LinkOptions) : List String :=
  ((labels modules o).filter (·.isMadeUp)).map Label.text ++ [shownName o.haltLabel]

namespace Linked

variable {modules : List Module} {o : LinkOptions} {p : Program} (h : Linked modules o p)

include h

/-- **The labels of a program are its functions and the ones made up.** -/
theorem labelNames_perm :
    (Line.labelNames p.lines).Perm (functions modules o ++ madeUpLabels modules o) := by
  have hsplit := (List.filter_append_perm (!·.isMadeUp) (labels modules o)).map Label.text
  simp only [Bool.not_not, List.map_append] at hsplit
  rw [h.labelNames_lines, functions, ← functions_labels, Label.filterMap_function?, madeUpLabels,
    ← List.append_assoc]
  exact hsplit.symm.append_right _

/-- A function that has the name of a label made up is refused with it. -/
theorem load_redefined {f : String} (hf : f ∈ functions modules o)
    (hmade : f ∈ madeUpLabels modules o) :
    ∃ x, Machine.load p.listed = .error (.redefined x) := by
  have hname : f ≠ "" := by
    rintro rfl
    exact absurd (h.isSymbol_function hf).1 (by decide)
  refine Loading.load_of_not_fresh fun hfresh => ?_
  have hnodup := hfresh.1
  rw [listed, Line.labelNames_map_text] at hnodup
  have hperm := h.labelNames_perm.filter (· ≠ "")
  rw [List.filter_append] at hperm
  have hdisjoint := (List.nodup_append'.mp (hperm.nodup_iff.mp hnodup)).2.2
  have hkeep : decide (f ≠ "") = true := decide_eq_true hname
  exact hdisjoint (List.mem_filter.mpr ⟨hf, hkeep⟩) (List.mem_filter.mpr ⟨hmade, hkeep⟩)

/-- A variable of a program is used in it, under a name that is read as it is
written and is not predefined. -/
theorem variable_used {x : String} (hx : x ∈ (layout modules o).dataSymbols) :
    Plain x ∧ Line.address x ∈ p.lines ∧ Symbols.predefined.get? x = none := by
  obtain ⟨i, c, hc, hx⟩ := Layout.exists_of_mem_dataSymbols hx
  have hcode := Layout.code_of_accepts h.accepts hc
  have hregs : ((layout modules o).emitterAt i).regs = {} := by
    rw [Layout.regs_emitterAt, h.regs]
  obtain ⟨hplain, huse, hpre⟩ := Emitter.variable_of_mem_dataSymbols hcode hregs hx
  obtain ⟨rest, hrest⟩ := h.lines_eq hc
  refine ⟨hplain, ?_, hpre⟩
  rw [hrest]
  exact List.mem_append_left _ (List.mem_append_right _ huse)

end Linked

/-- **What a name captures.** In a program that was linked, no function has the
name of the final loop. The labels are the functions and the ones made up,
and a function with a name of the latter makes loading refuse the program. In a
program that is loaded, a variable that has the name of any label stands for the
place of that label in the program memory, and any other variable has a cell of
its own. -/
theorem capture {modules : List Module} {o : LinkOptions} {p : Program} {halt : String}
    (hlink : link modules o = .ok p) (herr : hasErrors p.diagnostics = false)
    (hhalt : o.haltLabel = some halt) :
    halt ∉ functions modules o ∧
    (Line.labelNames p.lines).Perm (functions modules o ++ madeUpLabels modules o) ∧
    (∀ f ∈ functions modules o, f ∈ madeUpLabels modules o →
      ∃ x, Machine.load p.listed = .error (.redefined x)) ∧
    ∀ m, Machine.load p.listed = .ok m → ∀ x ∈ (layout modules o).dataSymbols,
      (x ∈ functions modules o ++ madeUpLabels modules o →
        ∃ pre post, p.lines = pre ++ Line.label x :: post ∧
          m.symbols.value? x = some (Line.size pre)) ∧
      (x ∉ functions modules o ++ madeUpLabels modules o →
        ∃ cell, m.symbols.value? x = some cell ∧ (x, cell) ∈ m.symbols.allocated p.lines) := by
  have h := linked hlink herr
  refine ⟨fun hmem => (h.isSymbol_function hmem).2 hhalt, h.labelNames_perm,
    fun f => h.load_redefined, fun m hload x hx => ?_⟩
  obtain ⟨names, hholds⟩ := Loading.loaded hload
  obtain ⟨hplain, huse, hpre⟩ := h.variable_used hx
  rw [← h.labelNames_perm.mem_iff, hplain.value?_eq]
  constructor
  · intro hlabel
    obtain ⟨pre, post, hsplit⟩ := List.append_of_mem (Line.mem_labelNames.mp hlabel)
    exact ⟨pre, post, hsplit, hholds.get?_label hsplit⟩
  · intro hlabel
    obtain ⟨i, hi, hget⟩ := hholds.exists_variable hplain huse hlabel hpre
    refine ⟨_, hget, ?_⟩
    rw [hholds.allocated_eq, List.mem_reverse, List.mem_zipIdx_iff_le_and_getElem?_sub]
    exact ⟨Nat.le_add_right _ _, by rw [Nat.add_sub_cancel_left, hi]⟩

end Program

namespace Sample

/-- A module whose function has the name of the label that its call comes back
to. -/
def doubled : Module where
  name := some "M"
  commands := [⟨.function (.text "FUNC_RETURN_1") (.int 0), 1, some "M"⟩,
    ⟨.call (.text "FUNC_RETURN_1") (.int 0), 2, some "M"⟩]

/-- A module whose function has the name of a variable that its return uses. -/
def captured : Module where
  name := some "M"
  commands := [⟨.function (.text "END_FRAME") (.int 0), 1, some "M"⟩,
    ⟨.push "constant" (.int 7), 2, some "M"⟩, ⟨.ret, 3, some "M"⟩]

theorem parsed_captured : captured.Parsed :=
  ⟨"function END_FRAME 0\npush constant 7\nreturn", by decide +kernel⟩

end Sample

/-- A function with the name of a return label is accepted, and its program is
then refused. -/
theorem Program.capture_sample : ∃ p, link [Sample.doubled] {} = .ok p ∧
    hasErrors p.diagnostics = false ∧ "FUNC_RETURN_1" ∈ functions [Sample.doubled] {} ∧
    "FUNC_RETURN_1" ∈ madeUpLabels [Sample.doubled] {} ∧
    ∃ x, Machine.load p.listed = .error (.redefined x) := by
  obtain ⟨p, hlink, herr⟩ :
      ∃ p, link [Sample.doubled] {} = .ok p ∧ hasErrors p.diagnostics = false :=
    ⟨(link [Sample.doubled] {}).toOption.getD (failed [] false []),
      by decide +kernel, by decide +kernel⟩
  have hfunction : "FUNC_RETURN_1" ∈ functions [Sample.doubled] {} := by decide +kernel
  have hmade : "FUNC_RETURN_1" ∈ madeUpLabels [Sample.doubled] {} := by decide +kernel
  exact ⟨p, hlink, herr, hfunction, hmade,
    (capture hlink herr rfl).2.2.1 "FUNC_RETURN_1" hfunction hmade⟩

/-- **A variable can be captured**: a function has the name of one, the program is
loaded, and the variable is the address of the function. -/
theorem Program.variable_captured : Sample.captured.Parsed ∧
    ∃ p m, link [Sample.captured] {} = .ok p ∧ hasErrors p.diagnostics = false ∧
      "END_FRAME" ∈ functions [Sample.captured] {} ∧
      "END_FRAME" ∈ (layout [Sample.captured] {}).dataSymbols ∧
      Machine.load p.listed = .ok m ∧
      m.symbols.value? "END_FRAME" = some ((layout [Sample.captured] {}).address 0) := by
  obtain ⟨p, hp⟩ : ∃ p, p = (link [Sample.captured] {}).toOption.getD (failed [] false []) :=
    ⟨_, rfl⟩
  have hload : (Machine.load p.listed).toOption.any (fun m => m.symbols.value? "END_FRAME"
      == some ((layout [Sample.captured] {}).address 0)) = true := by
    rw [hp]
    decide +kernel
  cases hm : Machine.load p.listed with
  | error e =>
    rw [hm] at hload
    cases hload
  | ok m =>
    rw [hm] at hload
    refine ⟨Sample.parsed_captured, p, m, ?_, ?_, ?_, ?_, hm, eq_of_beq hload⟩
    · rw [hp]
      decide +kernel
    · rw [hp]
      decide +kernel
    · decide +kernel
    · decide +kernel

end HackStack
