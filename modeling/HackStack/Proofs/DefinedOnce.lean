import HackStack.Proofs.Labels

/-!
# Every label is defined once

The labels of a program follow its commands: `Emitter.labelsOf` lists them, and
`Program.labels` has those of the bootstrap in front. Since an emitter counts
comparisons and calls, the numbers of each series come out in a row
(`Emitter.numbers_labelsOf`), and the functions and the labels of the source
come out as they were written. So the labels are distinct whenever functions
are, and labels are within their function. They are spelled apart
(`Label.text_inj`), so a program that is written with them defines each of its
labels once, and it is never refused for a label.
-/

namespace HackStack

/-! ## The labels of commands in a row -/

namespace Emitter

/-- The labels of commands in a row. -/
def labelsOf (e : Emitter) : List Command → List Label
  | [] => []
  | c :: cs => e.labels c ++ (e.next c).labelsOf cs

variable {e : Emitter} {c : Command} {cs : List Command}

theorem labelNames_linesOf (h : e.Accepts cs) :
    Line.labelNames (e.linesOf cs) = (e.labelsOf cs).map Label.text := by
  induction cs generalizing e with
  | nil => rfl
  | cons c cs ih =>
    rw [linesOf, labelsOf, Line.labelNames_append, List.map_append, labelNames_code h.1, ih h.2]

theorem numbers_labels (k : Series) (e : Emitter) (c : Command) :
    (e.labels c).filterMap (Label.number? k) = if k.takes c then [k.counter e] else [] := by
  cases c with
  | arithmetic op => cases op <;> cases k <;> rfl
  | _ => cases k <;> rfl

theorem counter_next (k : Series) (e : Emitter) (c : Command) :
    k.counter (e.next c) = k.counter e + (k.takes c).toNat := by
  cases c with
  | arithmetic op => cases op <;> cases k <;> rfl
  | _ => cases k <;> rfl

/-- **The numbers of a series come in a row.** -/
theorem numbers_labelsOf (k : Series) (e : Emitter) (cs : List Command) :
    (e.labelsOf cs).filterMap (Label.number? k)
      = List.range' (k.counter e) (cs.countP k.takes) := by
  induction cs generalizing e with
  | nil => rfl
  | cons c cs ih =>
    rw [labelsOf, List.filterMap_append, numbers_labels, ih, counter_next]
    by_cases htakes : k.takes c = true
    · rw [if_pos htakes, htakes, List.countP_cons_of_pos htakes, List.range'_succ]
      rfl
    · rw [if_neg htakes, Bool.eq_false_iff.mpr htakes, List.countP_cons_of_neg htakes]
      rfl

theorem functions_labelsOf (e : Emitter) (cs : List Command) :
    (e.labelsOf cs).filterMap Label.function? = cs.filterMap Command.functionName? := by
  induction cs generalizing e with
  | nil => rfl
  | cons c cs ih =>
    rw [labelsOf, List.filterMap_append, ih]
    cases c with
    | arithmetic op => cases op <;> rfl
    | _ => rfl

/-- The labels of the source, each with the function in force. -/
theorem sources_labelsOf (e : Emitter) (cs : List Command) :
    (e.labelsOf cs).filterMap Label.source?
      = (List.range cs.length).filterMap fun i : Nat =>
          (cs[i]?.bind Command.labelName?).map fun name =>
            (shownName ((cs.take i).foldl next e).functionName, name) := by
  induction cs generalizing e with
  | nil => rfl
  | cons c cs ih =>
    rw [labelsOf, List.filterMap_append, ih, List.length_cons, List.range_succ_eq_map,
      List.filterMap_cons, List.filterMap_map]
    cases c with
    | arithmetic op => cases op <;> rfl
    | _ => rfl

/-- Labels are apart when functions have such names. -/
theorem apart_of_mem_labelsOf {l : Label}
    (hfunctions : ∀ f ∈ cs.filterMap Command.functionName?, (Label.function f).Apart)
    (hscope : '$' ∉ (shownName e.functionName).toList) (hl : l ∈ e.labelsOf cs) : l.Apart := by
  induction cs generalizing e with
  | nil => cases hl
  | cons c cs ih =>
    have hrest : ∀ f ∈ cs.filterMap Command.functionName?, (Label.function f).Apart := by
      intro f hf
      refine hfunctions f ?_
      rw [List.filterMap_cons]
      split
      · exact hf
      · exact List.mem_cons_of_mem _ hf
    have hname (f : String) (hc : c.functionName? = some f) : (Label.function f).Apart := by
      refine hfunctions f ?_
      rw [List.filterMap_cons, hc]
      exact List.mem_cons_self
    rcases List.mem_append.mp hl with hl | hl
    · rcases mem_labels hl with ⟨k, n, rfl⟩ | ⟨name, rfl, rfl⟩ | ⟨name, locals, rfl, rfl⟩
      · trivial
      · exact hscope
      · exact hname name rfl
    · refine ih hrest ?_ hl
      rw [functionName_next]
      cases hc : c.functionName? with
      | none => exact hscope
      | some f => exact (hname f hc).1

end Emitter

/-- The labels of the source, each with the name of the function in force. -/
def Layout.ownLabels (L : Layout) : List (String × String) :=
  (List.range L.commands.length).filterMap fun i : Nat =>
    (L.commands[i]?.bind Command.labelName?).map fun name => (shownName (L.scopeAt i), name)

theorem Layout.sources_labelsOf (L : Layout) :
    (L.emitter.labelsOf L.commands).filterMap Label.source? = L.ownLabels := by
  rw [Emitter.sources_labelsOf, ownLabels]
  refine congrArg (fun f => List.filterMap f _) (funext fun i => ?_)
  rw [← L.functionName_emitterAt]
  rfl

/-! ## The labels of a program -/

/-- A function is declared under the name that it is checked with. -/
theorem Draft.declares_of_check {d : Draft} {c : Command} {f : String} (h : d.check = .ok c)
    (hf : c.functionName? = some f) : d.declares (some f) = true ∧ isSymbol f.toList = true := by
  rcases check_cases h with ⟨_, _, _, _, rfl⟩ | ⟨_, _, _, _, rfl⟩ | rfl
  · cases hf
  · cases hf
  · cases c with
    | function name locals =>
      obtain rfl := Option.some.inj hf
      obtain ⟨x, hx, -⟩ := bind_eq_ok h
      obtain ⟨htext, hsym⟩ := Field.symbol_eq_ok hx
      rw [Field.text.inj htext]
      exact ⟨beq_self_eq_true _, hsym⟩
    | _ => cases hf

namespace Program

/-- The labels of a program before the loop at its end. -/
def labels (modules : List Module) (o : LinkOptions) : List Label :=
  (if boots modules o then [.numbered .back 1] else [])
    ++ (layout modules o).emitter.labelsOf (commands modules o)

variable {modules : List Module} {o : LinkOptions} {p : Program}

theorem functions_labels :
    (labels modules o).filterMap Label.function?
      = (commands modules o).filterMap Command.functionName? := by
  rw [labels, List.filterMap_append, Emitter.functions_labelsOf]
  cases boots modules o <;> rfl

theorem sources_labels :
    (labels modules o).filterMap Label.source? = (layout modules o).ownLabels := by
  rw [labels, List.filterMap_append, ← Layout.sources_labelsOf]
  cases boots modules o <;> rfl

/-- The labels other than functions have an underscore or a dollar sign. -/
theorem function_of_mem_labels {x : String} (hunder : '_' ∉ x.toList) (hdollar : '$' ∉ x.toList)
    (hx : x ∈ (labels modules o).map Label.text) :
    x ∈ (commands modules o).filterMap Command.functionName? := by
  obtain ⟨l, hl, rfl⟩ := List.mem_map.mp hx
  cases l with
  | numbered k n => exact absurd (k.underscore_mem n) hunder
  | function name =>
    rw [← functions_labels]
    exact List.mem_filterMap.mpr ⟨_, hl, rfl⟩
  | source scope name => exact absurd rfl (Label.text_ne_source hdollar scope name)

namespace Linked

variable (h : Linked modules o p)

include h

theorem labelNames_lines :
    Line.labelNames p.lines = (labels modules o).map Label.text ++ [shownName o.haltLabel] := by
  rw [h.lines, Line.labelNames_append, Layout.before, Line.labelNames_append,
    show (layout modules o).commands = commands modules o from rfl, List.take_length,
    Emitter.labelNames_linesOf h.accepts, labels, List.map_append]
  refine congrArg (· ++ _ ++ _) ?_
  rcases h.lead_cases with ⟨hb, hlead, -⟩ | ⟨hb, name, -, -, hlead, -⟩
  · rw [hlead, hb]
    rfl
  · have hcall : ((Emitter.start (title modules o) {}).enter name).code (.call name 0)
        = .ok (((Emitter.start (title modules o) {}).enter name).callCode name 0) := rfl
    rw [hlead, hb, Line.labelNames_append, Emitter.labelNames_code hcall]
    rfl

/-- **The numbers of a series** start with 0 for comparisons and with 1 for calls,
of which one is that of the bootstrap. -/
theorem numbers_labels (k : Series) :
    (labels modules o).filterMap (Label.number? k)
      = List.range' (k.counter (.start none {}))
          ((commands modules o).countP k.takes
            + if k = .back then (boots modules o).toNat else 0) := by
  rw [labels, List.filterMap_append, Emitter.numbers_labelsOf]
  rcases h.lead_cases with ⟨hb, -, he⟩ | ⟨hb, name, -, -, -, he⟩
  · rw [he, hb]
    cases k <;> rfl
  · rw [he, hb]
    cases k <;> rfl

/-- A function is a symbol, and it has not the name of the final loop. -/
theorem isSymbol_function {f : String}
    (hf : f ∈ (commands modules o).filterMap Command.functionName?) :
    isSymbol f.toList = true ∧ o.haltLabel ≠ some f := by
  obtain ⟨c, hc, hcf⟩ := List.mem_filterMap.mp hf
  obtain ⟨m, hm, d, hd, hcheck⟩ := h.exists_draft hc
  obtain ⟨hdeclares, hsym⟩ := Draft.declares_of_check hcheck hcf
  refine ⟨hsym, fun hhalt => ?_⟩
  have hmem : reserved m o.haltLabel d ∈ haltErrors modules o.haltLabel := by
    refine List.mem_flatMap.mpr ⟨m, hm, List.mem_map_of_mem (List.mem_filter.mpr ⟨hd, ?_⟩)⟩
    rw [hhalt]
    exact hdeclares
  have herr : hasErrors (haltErrors modules o.haltLabel) = true :=
    List.any_eq_true.mpr ⟨_, hmem, rfl⟩
  rw [h.halt] at herr
  cases herr

/-- Every label has a name. -/
theorem label_empty_notMem (hhalt : shownName o.haltLabel ≠ "") : Line.label "" ∉ p.lines := by
  intro hmem
  rw [← Line.mem_labelNames, h.labelNames_lines] at hmem
  rcases List.mem_append.mp hmem with hmem | hmem
  · have hfunction := function_of_mem_labels (by decide) (by decide) hmem
    exact absurd (h.isSymbol_function hfunction).1 (by decide)
  · exact hhalt (List.mem_singleton.mp hmem).symm

/-- The labels of a program are read as they are written. -/
theorem labelNames_listed (hhalt : shownName o.haltLabel ≠ "") :
    Loading.labelNames p.listed = Line.labelNames p.lines := by
  rw [Loading.labelNames, listed, Line.source_map_text,
    Line.labelEntries_map_written (h.label_empty_notMem hhalt), Line.map_fst_labels]

end Linked

/-- **Names that do not clash**, as far as modules and options choose them. -/
structure DistinctNames (modules : List Module) (o : LinkOptions) : Prop where
  /-- No two functions have the same name. -/
  functions : ((commands modules o).filterMap Command.functionName?).Nodup
  /-- No function has a dollar sign, is a predefined symbol or has the form of a
  numbered label. -/
  function : ∀ f ∈ (commands modules o).filterMap Command.functionName?,
    '$' ∉ f.toList ∧ Symbols.predefined.contains f = false ∧ ∀ k : Series, k.number? f = none
  /-- What is in force before any function has no dollar sign. -/
  root : '$' ∉ (shownName (rootScope modules o)).toList
  /-- No two labels of the source have the same name in the same function. -/
  sources : (layout modules o).ownLabels.Nodup

namespace Linked

variable (h : Linked modules o p) (hnames : DistinctNames modules o)

include h hnames

theorem apart_labels {l : Label} (hl : l ∈ labels modules o) : l.Apart := by
  rcases List.mem_append.mp hl with hl | hl
  · split at hl
    · rw [List.mem_singleton.mp hl]
      trivial
    · cases hl
  · refine Emitter.apart_of_mem_labelsOf (fun f hf => ?_) ?_ hl
    · obtain ⟨hdollar, -, hnumber⟩ := hnames.function f hf
      exact ⟨hdollar, hnumber⟩
    · rw [h.functionName]
      exact hnames.root

theorem nodup_labels : (labels modules o).Nodup := by
  refine Label.nodup_of_kinds (fun k => ?_) ?_ ?_
  · rw [h.numbers_labels]
    exact List.nodup_range'
  · rw [functions_labels]
    exact hnames.functions
  · rw [sources_labels]
    exact hnames.sources

/-- **Every label is new**: no two are spelled alike, and none is predefined. -/
theorem fresh_labelNames (hhalt : o.haltLabel = some "END") :
    Loading.Fresh .predefined (Line.labelNames p.lines) := by
  rw [h.labelNames_lines, hhalt, shownName_some]
  constructor
  · rw [List.nodup_append']
    refine ⟨?_, List.nodup_singleton _, List.disjoint_singleton.mpr fun hend => ?_⟩
    · refine (h.nodup_labels hnames).map_on fun l hl l' hl' htext => ?_
      exact Label.text_inj (h.apart_labels hnames hl) (h.apart_labels hnames hl') htext
    · have hfunction := function_of_mem_labels (by decide) (by decide) hend
      exact (h.isSymbol_function hfunction).2 hhalt
  · intro x hx
    rw [Symbols.contains_eq_false, Symbols.get?_eq_none]
    intro hpredefined
    rcases List.mem_append.mp hx with hx | hx
    · have hplain : ∀ y ∈ Symbols.predefined.entries.map Prod.fst,
          '_' ∉ y.toList ∧ '$' ∉ y.toList := by decide
      obtain ⟨hunder, hdollar⟩ := hplain x hpredefined
      have hfunction := function_of_mem_labels hunder hdollar hx
      have hnew := (hnames.function x hfunction).2.1
      rw [Symbols.contains_eq_false, Symbols.get?_eq_none] at hnew
      exact hnew hpredefined
    · rw [List.mem_singleton.mp hx] at hpredefined
      exact absurd hpredefined (by decide)

/-- The numbers that can be read off the labels. -/
theorem numbers_labelNames (hhalt : o.haltLabel = some "END") (k : Series) :
    (Line.labelNames p.lines).filterMap k.number?
      = (labels modules o).filterMap (Label.number? k) := by
  have hend : k.number? "END" = none := by cases k <;> decide
  rw [h.labelNames_lines, hhalt, shownName_some, List.filterMap_append, List.filterMap_map,
    List.filterMap_cons_none hend, List.filterMap_nil, List.append_nil]
  refine List.filterMap_congr fun l hl => ?_
  exact Label.number?_text (h.apart_labels hnames hl) k

end Linked

/-- **A program defines each of its labels once.** When its names do not clash, no
two of its label lines define the same name and none defines a predefined one,
so it is never refused for a label; the comparisons are numbered from 0 and the
calls from 1, that of the bootstrap included, in the order of the lines. -/
theorem labels_defined_once {modules : List Module} {o : LinkOptions} {p : Program}
    (hlink : link modules o = .ok p) (herr : hasErrors p.diagnostics = false)
    (hhalt : o.haltLabel = some "END") (hnames : DistinctNames modules o) :
    (Loading.labelNames p.listed).Nodup ∧
    (∀ x ∈ Loading.labelNames p.listed, Symbols.predefined.contains x = false) ∧
    (∀ x, Machine.load p.listed ≠ .error (.redefined x)) ∧
    (Loading.labelNames p.listed).filterMap Series.whenTrue.number?
      = List.range ((commands modules o).countP Command.isComparison) ∧
    (Loading.labelNames p.listed).filterMap Series.whenFalse.number?
      = List.range ((commands modules o).countP Command.isComparison) ∧
    (Loading.labelNames p.listed).filterMap Series.back.number?
      = List.range' 1
          ((commands modules o).countP Command.isCall + (boots modules o).toNat) := by
  have h := linked hlink herr
  have hlisted : Loading.labelNames p.listed = Line.labelNames p.lines :=
    h.labelNames_listed (by rw [hhalt]; decide)
  have hfresh := h.fresh_labelNames hnames hhalt
  rw [← hlisted] at hfresh
  have hnumbers (k : Series) := h.numbers_labels k ▸ h.numbers_labelNames hnames hhalt k
  rw [← hlisted] at hnumbers
  refine ⟨hfresh.1, hfresh.2, Loading.load_ne_redefined hfresh, ?_, ?_, hnumbers .back⟩
  · rw [List.range_eq_range']
    exact hnumbers .whenTrue
  · rw [List.range_eq_range']
    exact hnumbers .whenFalse

end Program

namespace Sample

/-- Two modules with the same label in two functions. The label that stands before
the function of its module belongs to the last function of the other. -/
def loops : List Module :=
  [⟨some "Main", [⟨.label (.text "TOP"), 1, some "Main"⟩, ⟨.arithmetic "eq", 2, some "Main"⟩,
      ⟨.function (.text "Main.run") (.int 0), 3, some "Main"⟩,
      ⟨.label (.text "LOOP"), 4, some "Main"⟩, ⟨.arithmetic "lt", 5, some "Main"⟩,
      ⟨.goto (.text "LOOP"), 6, some "Main"⟩], none⟩,
    ⟨some "Sys", [⟨.function (.text "Sys.init") (.int 0), 1, some "Sys"⟩,
      ⟨.label (.text "END"), 2, some "Sys"⟩, ⟨.label (.text "LOOP"), 3, some "Sys"⟩,
      ⟨.call (.text "Main.run") (.int 0), 4, some "Sys"⟩, ⟨.arithmetic "gt", 5, some "Sys"⟩,
      ⟨.goto (.text "END"), 6, some "Sys"⟩], none⟩]

end Sample

/-- The bootstrap and a call, and three comparisons, are numbered in a row. -/
theorem Program.labels_defined_once_sample : ∃ p, link Sample.loops {} = .ok p ∧
    hasErrors p.diagnostics = false ∧ DistinctNames Sample.loops {} ∧
    (Loading.labelNames p.listed).Nodup ∧
    (Loading.labelNames p.listed).filterMap Series.whenTrue.number? = [0, 1, 2] ∧
    (Loading.labelNames p.listed).filterMap Series.back.number? = [1, 2] := by
  obtain ⟨p, hlink, herr⟩ :
      ∃ p, link Sample.loops {} = .ok p ∧ hasErrors p.diagnostics = false :=
    ⟨(link Sample.loops {}).toOption.getD (failed [] false []),
      by decide +kernel, by decide +kernel⟩
  have hfunctions : (commands Sample.loops {}).filterMap Command.functionName?
      = ["Sys.init", "Main.run"] := by decide +kernel
  have hnames : DistinctNames Sample.loops {} := by
    refine ⟨by rw [hfunctions]; decide, ?_, by decide +kernel, by decide +kernel⟩
    rw [hfunctions]
    simp only [List.forall_mem_cons]
    refine ⟨⟨by decide, by decide, fun k => ?_⟩, ⟨by decide, by decide, fun k => ?_⟩, ?_⟩
    · cases k <;> decide +kernel
    · cases k <;> decide +kernel
    · exact List.forall_mem_nil _
  obtain ⟨hnodup, -, -, htrue, -, hback⟩ := labels_defined_once hlink herr rfl hnames
  have hcomparisons : (commands Sample.loops {}).countP Command.isComparison = 3 := by
    decide +kernel
  have hcalls : (commands Sample.loops {}).countP Command.isCall
      + (boots Sample.loops {}).toNat = 2 := by decide +kernel
  rw [hcomparisons] at htrue
  rw [hcalls] at hback
  exact ⟨p, hlink, herr, hnames, hnodup, htrue, hback⟩

end HackStack
