import HackStack.Emitter.Session
import HackStack.Proofs.Execution
import HackStack.Proofs.Names

/-!
# A block of code in any program

The code of one command, with any lines of assembly before and after it:
nothing is known about these, except that the whole can be loaded. What the
block needs is there all the same (`Loading.embeds`). Its instructions lie
one after the other behind those of the lines before it, with the values of
the symbols as they are in the end, and a label that it defines has the
address where it stands, for it could not have been defined anywhere else.

A block has done its work when the machine has come through it to where it
leads, with exactly the memory that is asked for (`Machine.Arrives`).
-/

namespace HackStack

/-- The number of instructions in some text. -/
def Loading.size (lines : List String) : Nat := (codeLines (source lines)).length

/-- **A block of code in a program**: its instructions lie from `p` on, with the
values of the program's symbols, and its labels have the addresses where they
stand. Numbers and predefined symbols are what they always are. -/
structure Machine.Embeds (m : Machine) (p : Nat) (code : List Line) : Prop where
  lines : m.HasLines m.symbols.value p code
  label : ∀ pre name post, code = pre ++ Line.label name :: post → Plain name →
    m.symbols.value name = p + Line.size pre
  standard : Standard m.symbols.value
  predefined : ∀ name x, Plain name → Symbols.predefined.get? name = some x →
    m.symbols.value name = x
  size : p + Line.size code ≤ m.rom.size

/-- **A block is embedded in every program that it is loaded with.** -/
theorem Loading.embeds {before after : List String} {code : List Line} {m : Machine}
    (h : Machine.load (before ++ code.map Line.text ++ after) = .ok m) :
    m.Embeds (size before) code := by
  obtain ⟨-, hrom, names, hlists, -⟩ := load_eq_ok h
  rw [source_append, source_append, Line.source_map_text] at hrom hlists
  rw [codeLines_append, codeLines_append, List.map_append, List.map_append] at hrom
  -- the instructions are those of the three texts, one after the other
  obtain ⟨front, last, hsplit, hfront, -⟩ := List.map_eq_append_iff.mp hrom.symm
  obtain ⟨first, middle, rfl, hfirst, hmiddle⟩ := List.map_eq_append_iff.mp hfront
  obtain ⟨hnamed, -, rfl⟩ := Line.resolved hmiddle.symm
  have hlen : first.length = size before := by
    rw [size, ← List.length_map (f := some), hfirst, List.length_map]
  refine ⟨⟨last, ?_⟩, ?_, hlists.standard, fun _ _ => hlists.value_predefined, ?_⟩
  · rw [hsplit, List.append_assoc, List.drop_left' hlen]
  · intro pre name post hcode hplain
    rw [hplain.value_eq, hlists.get?_label (x := size before + Line.size pre), Option.getD_some]
    rw [labelEntries_append, labelEntries_append, Line.labelEntries_map_written hnamed, hcode,
      Line.labels_append, Nat.zero_add]
    exact List.mem_append_left _ (List.mem_append_right _ (List.mem_append_right _
      (List.mem_cons_self ..)))
  · rw [← Array.length_toList, hsplit, List.length_append, List.length_append, hlen,
      Line.length_filterMap_resolve]
    exact Nat.le_add_right _ _

theorem Loading.size_map_text {ls : List Line} (h : Line.label "" ∉ ls) :
    size (ls.map Line.text) = Line.size ls := by
  rw [size, Line.source_map_text, Line.codeLines_map_written h, List.length_map, Line.size,
    List.countP_eq_length_filter]

/-- In code that is known from end to end, a block lies behind the code before
it. -/
theorem Loading.embeds_lines {before code after : List Line} {m : Machine}
    (h : Machine.load ((before ++ code ++ after).map Line.text) = .ok m) :
    m.Embeds (Line.size before) code := by
  obtain ⟨-, hrom, -⟩ := load_eq_ok h
  rw [Line.source_map_text] at hrom
  have hnamed := (Line.resolved hrom).1
  rw [List.append_assoc] at hnamed
  rw [List.map_append, List.map_append] at h
  rw [← size_map_text fun hmem => hnamed (List.mem_append_left _ hmem)]
  exact embeds h

namespace Machine

variable {m m' : Machine} {p : Nat} {code : List Line}

/-- Where the labels of a block are plain names, they are all where they stand. -/
theorem Embeds.labelsAt (h : m.Embeds p code) (hplain : ∀ name ∈ Line.labelNames code, Plain name) :
    LabelsAt m.symbols.value p code := by
  intro pre name post hsplit
  refine h.label pre name post hsplit (hplain name ?_)
  rw [Line.mem_labelNames, hsplit]
  exact List.mem_append_right _ (List.mem_cons_self ..)

/-- **The machine comes through a block to an outcome**: it passes through the
block and is where the outcome asks for it, with just the memory asked for
and the program it had. -/
def Arrives (m : Machine) (p : Nat) (code : List Line) (o : Outcome) : Prop :=
  ∃ n m', Passage p (p + Line.size code : Nat) n m m' ∧
    m'.rom = m.rom ∧ m'.symbols = m.symbols ∧ m'.pc = o.pc ∧ m'.ram = o.ram

theorem ExecutesIn.arrives {n : Nat} {o : Outcome} (h : m.ExecutesIn n [] p code o) :
    m.Arrives p code o :=
  let ⟨m', hpass, hends⟩ := h
  ⟨n, m', hpass, hends.rom, hends.symbols, hends.pc, hends.ram.eq⟩

theorem Executes.arrives {o : Outcome} (h : m.Executes [] p code o) : m.Arrives p code o :=
  let ⟨_, _, hex⟩ := h
  hex.arrives

end Machine

/-! ## Names that are told apart -/

/-- **Names that a table resolves to cells of memory**, no two to the same. -/
structure Symbols.Separates (t : Symbols) (names : List String) : Prop where
  cell : ∀ x ∈ names, ∃ a, t.value? x = some a ∧ a < 32768
  nodup : (names.map t.value).Nodup

namespace Symbols.Separates

variable {t : Symbols} {names : List String}

theorem isCell (h : t.Separates names) {x : String} (hx : x ∈ names) : IsCell (t.value x) := by
  obtain ⟨a, ha, hlt⟩ := h.cell x hx
  rw [Symbols.value, ha, Option.getD_some]
  exact ⟨Int.natCast_nonneg a, by omega⟩

theorem iff_all : t.Separates names ↔
    (∀ x ∈ names, (t.value? x).any (· < 32768) = true) ∧ (names.map t.value).Nodup := by
  have hany (x : String) : (t.value? x).any (· < 32768) = true
      ↔ ∃ a, t.value? x = some a ∧ a < 32768 := by
    rw [Option.any_eq_true]
    exact exists_congr fun a => and_congr_right' decide_eq_true_iff
  exact ⟨fun h => ⟨fun x hx => (hany x).mpr (h.cell x hx), h.nodup⟩,
    fun h => ⟨fun x hx => (hany x).mp (h.1 x hx), h.2⟩⟩

instance : Decidable (t.Separates names) := decidable_of_iff _ iff_all.symm

end Symbols.Separates

/-! ## The block of a command -/

/-- Emitting a command writes its code. -/
theorem Session.code_of_emit {e : Emitter} {d : Draft} {c : Command} {done : Session}
    (hcheck : d.check = .ok c) (h : emit { emitter := e } d = .ok done) :
    e.code c = .ok done.lines.toList := by
  unfold emit at h
  rw [hcheck] at h
  dsimp only at h
  cases hcode : e.code c with
  | error f => rw [hcode] at h; cases h
  | ok code =>
    rw [hcode] at h
    obtain rfl := Except.ok.inj h
    simp

theorem Session.emit_of_code {e : Emitter} {d : Draft} {c : Command} {code : List Line}
    (hcheck : d.check = .ok c) (hcode : e.code c = .ok code) :
    ∃ done, emit { emitter := e } d = .ok done ∧ done.lines.toList = code := by
  unfold emit
  rw [hcheck]
  dsimp only
  rw [hcode]
  exact ⟨_, rfl, by simp⟩

/-- **A machine at the block of a command.** An emitter has written the block
for a command that it accepts; with some text before and after it, the block
was loaded and gave `m₀`; and `m` is at its first instruction, with the program
of `m₀` and any words in memory. -/
structure Machine.AtBlock (m : Machine) (e : Emitter) (c : Command) (m₀ : Machine) (p : Nat)
    (block : List Line) : Prop where
  emitted : ∃ d done, Draft.check d = .ok c ∧ Session.emit { emitter := e } d = .ok done ∧
    done.lines.toList = block
  loaded : ∃ before after, Machine.load (before ++ block.map Line.text ++ after) = .ok m₀ ∧
    Loading.size before = p
  rom : m.rom = m₀.rom
  pc : m.pc = p
  words : m.ram.Words

namespace Machine.AtBlock

variable {m m₀ : Machine} {e : Emitter} {c : Command} {p : Nat} {block : List Line}
  (h : m.AtBlock e c m₀ p block)

include h

theorem code : e.code c = .ok block := by
  obtain ⟨d, done, hcheck, hemit, rfl⟩ := h.emitted
  exact Session.code_of_emit hcheck hemit

theorem embeds : m₀.Embeds p block := by
  obtain ⟨before, after, hload, rfl⟩ := h.loaded
  exact Loading.embeds hload

theorem lines : m.HasLines m₀.symbols.value p block := by
  rw [HasLines, h.rom]
  exact h.embeds.lines

omit h in
/-- A machine that is put at a block that was loaded. -/
theorem of_load {d : Draft} {before after : List String} {ram : Memory} (hcheck : d.check = .ok c)
    (hcode : e.code c = .ok block)
    (hload : Machine.load (before ++ block.map Line.text ++ after) = .ok m₀) (hram : ram.Words) :
    (m₀.place (Loading.size before) ⟨0, 0, ram⟩ 0).AtBlock e c m₀ (Loading.size before) block := by
  obtain ⟨done, hemit, hlines⟩ := Session.emit_of_code hcheck hcode
  exact ⟨⟨d, done, hcheck, hemit, hlines⟩, ⟨before, after, hload, rfl⟩, rfl, rfl, hram⟩

end Machine.AtBlock

namespace Emitter

theorem plain_labelNames_operatorCode (e : Emitter) (op : Operator) :
    ∀ name ∈ Line.labelNames (e.operatorCode op), Plain name := by
  intro name hname
  cases op with
  | unary op => cases hname
  | binary op => cases hname
  | comparison op =>
    have hnames : Line.labelNames (e.operatorCode (.comparison op))
        = [trueLabel e.comparisons, falseLabel e.comparisons] := rfl
    rw [hnames, List.mem_pair] at hname
    rcases hname with rfl | rfl
    · exact plain_trueLabel _
    · exact plain_falseLabel _

theorem plain_labelNames_callCode (e : Emitter) (f : String) (args : Nat) :
    ∀ name ∈ Line.labelNames (e.callCode f args), Plain name := by
  intro name hname
  have hnames : Line.labelNames (e.callCode f args) = [returnLabel e.returns] := rfl
  rw [hnames, List.mem_singleton] at hname
  rw [hname]
  exact plain_returnLabel _

end Emitter

end HackStack
