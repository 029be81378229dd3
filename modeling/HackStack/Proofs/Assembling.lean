import HackStack.Proofs.Grammar
import HackStack.Proofs.TwoPass

/-!
# What a symbol stands for

The specification of an assembler, and that loading meets it. A symbol is
predefined, or it is the name of a label, or it is a variable, and what it
stands for can be read off the text as a whole (`Loading.StandsFor`): a label
for the number of instructions before it, wherever it is used, and a variable
for the next free cell when it is used first. An instruction is what its line
says under these values (`Loading.Assembles`).

Nothing of this knows of a table that grows or of a counter. The two meet in
`Loading.decodeAll_entries`: from any table on, the second pass enters the
symbols that are new to it, each where it comes first.
-/

namespace HackStack

namespace Loading

/-! ## Each where it comes first -/

section FirstUses

variable {α : Type} [DecidableEq α]

/-- An induction that takes out a member with all its copies. -/
theorem induction_filter {motive : List α → Prop} (nil : motive [])
    (cons : ∀ a as, motive (as.filter fun b => !b == a) → motive (a :: as)) (xs : List α) :
    motive xs := by
  induction hn : xs.length using Nat.strong_induction_on generalizing xs with
  | _ n ih =>
    cases xs with
    | nil => exact nil
    | cons a as =>
      refine cons a as (ih _ ?_ _ rfl)
      rw [← hn, List.length_cons]
      exact Nat.lt_succ_of_le (List.length_filter_le _ _)

theorem nodup_eraseDups (xs : List α) : xs.eraseDups.Nodup := by
  induction xs using induction_filter with
  | nil => exact List.nodup_nil
  | cons a as ih =>
    rw [List.eraseDups_cons, List.nodup_cons]
    exact ⟨by simp [List.mem_eraseDups], ih⟩

/-- The number of different members of a list. -/
theorem length_eraseDups (xs : List α) : xs.eraseDups.length = xs.toFinset.card := by
  rw [← List.toFinset_card_of_nodup (nodup_eraseDups xs)]
  refine congrArg Finset.card (Finset.ext fun a => ?_)
  rw [List.mem_toFinset, List.mem_toFinset, List.mem_eraseDups]

/-- **A member comes after the different members before it.** -/
theorem getElem?_eraseDups {xs : List α} {x : α} (hx : x ∈ xs) :
    xs.eraseDups[(xs.takeWhile (· != x)).toFinset.card]? = some x := by
  induction xs using induction_filter with
  | nil => cases hx
  | cons a as ih =>
    rw [List.eraseDups_cons]
    by_cases hxa : x = a
    · rw [hxa, List.takeWhile_cons_of_neg (by simp)]
      rfl
    -- without the first member, there is one less before `x`
    have hrest : (as.filter fun b => !b == a).takeWhile (· != x)
        = (as.takeWhile (· != x)).filter fun b => !b == a := by
      rw [List.takeWhile_filter]
      congr 2
      funext b
      by_cases hb : b = a
      · rw [hb]
        simpa using Ne.symm hxa
      · simp [hb]
    have hcard : ((a :: as).takeWhile (· != x)).toFinset.card
        = ((as.filter fun b => !b == a).takeWhile (· != x)).toFinset.card + 1 := by
      rw [hrest, List.takeWhile_cons_of_pos (by simpa using Ne.symm hxa),
        ← Finset.card_insert_of_notMem (a := a) (by simp)]
      refine congrArg Finset.card (Finset.ext fun b => ?_)
      by_cases hb : b = a <;> simp [hb]
    rw [hcard, List.getElem?_cons_succ]
    refine ih (List.mem_filter.mpr ⟨(List.mem_cons.mp hx).resolve_left hxa, ?_⟩)
    simpa using hxa

end FirstUses

/-! ## The variables of the second pass -/

/-- The symbol that a line uses: an operand that does not look like a number. -/
def symbol? : List Char → Option String
  | '@' :: operand => if isNumber operand then none else some (String.ofList operand)
  | _ => none

/-- The symbols of some lines that a table does not have, as often as they are
used. -/
def newUses (t : Symbols) (code : List (List Char)) : List String :=
  (code.filterMap symbol?).filter fun x => !t.contains x

/-- A line enters its symbol if the table does not have it. -/
theorem decode_table {v v' : Variables} {line : List Char} {ins : Instruction}
    (h : decode v line = .ok (ins, v')) :
    (v' = v ∧ ∀ x, symbol? line = some x → v.symbols.contains x = true) ∨
    ∃ x, symbol? line = some x ∧ v.symbols.contains x = false ∧
      v' = ⟨v.symbols.insert x v.next, v.next + 1⟩ := by
  obtain ⟨rfl, hins⟩ | ⟨operand, rfl, hnum, -, rfl⟩ := decode_cases h
  · -- what is decoded under the empty table uses no symbol
    refine .inl ⟨rfl, fun x hx => ?_⟩
    unfold symbol? at hx
    split at hx
    next operand =>
      have hempty := hins ⟨[]⟩
      rw [instruction?_address] at hempty
      split at hx
      next => cases hx
      next hnum =>
        rw [if_neg hnum] at hempty
        cases hempty
    next => cases hx
  · have hsymbol : symbol? ('@' :: operand) = some (String.ofList operand) := by
      rw [symbol?, if_neg (by rw [hnum]; decide)]
    unfold Variables.resolve
    cases hget : v.symbols.get? (String.ofList operand) with
    | some n =>
      refine .inl ⟨rfl, fun x hx => ?_⟩
      obtain rfl := Option.some.inj (hsymbol.symm.trans hx)
      rw [Symbols.contains, hget]
      rfl
    | none => exact .inr ⟨_, hsymbol, Symbols.contains_eq_false.mpr hget, rfl⟩

/-- **The second pass enters the symbols that are new, each where it comes
first**, with one cell after the other. -/
theorem decodeAll_entries {v v' : Variables} {code : List (List Char)} {rom : List Instruction}
    (h : decodeAll v code = .ok (rom, v')) :
    v'.symbols.entries
      = ((newUses v.symbols code).eraseDups.zipIdx v.next).reverse ++ v.symbols.entries := by
  induction code generalizing v rom with
  | nil =>
    obtain ⟨rfl, rfl⟩ := Prod.mk.inj (Except.ok.inj h)
    rfl
  | cons line rest ih =>
    obtain ⟨ins, v₁, tail, hline, hrest, rfl⟩ := decodeAll_cons_eq_ok h
    obtain ⟨rfl, hold⟩ | ⟨x, hx, hnew, rfl⟩ := decode_table hline
    · have huses : newUses v₁.symbols (line :: rest) = newUses v₁.symbols rest := by
        unfold newUses
        cases hs : symbol? line with
        | none => rw [List.filterMap_cons_none hs]
        | some x =>
          rw [List.filterMap_cons_some hs, List.filter_cons_of_neg (by rw [hold x hs]; decide)]
      rw [huses, ih hrest]
    · -- from here on the symbol is in the table, and no use of it is new
      have hcontains (y : String) :
          (!(v.symbols.insert x v.next).contains y) = (!v.symbols.contains y && !y == x) := by
        by_cases hyx : y = x
        · rw [hyx, Symbols.contains, Symbols.get?_insert_self]
          simp
        · rw [Symbols.contains, Symbols.get?_insert_of_ne v.symbols v.next hyx, ← Symbols.contains]
          simp [hyx]
      have huses : (newUses v.symbols (line :: rest)).eraseDups
          = x :: (newUses (v.symbols.insert x v.next) rest).eraseDups := by
        unfold newUses
        rw [List.filterMap_cons_some hx, List.filter_cons_of_pos (by rw [hnew]; decide),
          List.eraseDups_cons, List.filter_filter]
        refine congrArg (fun p => x :: (List.filter p _).eraseDups) (funext fun y => ?_)
        rw [hcontains, Bool.and_comm]
      rw [huses, ih hrest, List.zipIdx_cons, List.reverse_cons, List.append_assoc]
      rfl

/-! ## The specification -/

/-- **The variables of a text**, in the order in which they are used and as
often: the symbols that are neither predefined nor labels. -/
def variableUses (lines : List String) : List String :=
  ((codeLines (source lines)).filterMap symbol?).filter fun x =>
    !Symbols.predefined.contains x && !(labelNames lines).contains x

/-- **What a symbol stands for in a text.** -/
inductive StandsFor (lines : List String) : String → Nat → Prop
  /-- A predefined symbol stands for its own value. -/
  | predefined {x : String} {n : Nat} (h : Symbols.predefined.get? x = some n) :
    StandsFor lines x n
  /-- A label stands for the number of instructions before it. -/
  | label {pre post : List (List Char)} {line : List Char} {x : String}
    (hnew : Symbols.predefined.get? x = none) (hsource : source lines = pre ++ line :: post)
    (hlabel : labelName? line = some x.toList) : StandsFor lines x (codeLines pre).length
  /-- A variable stands for a cell from 16 on: the one after those of the other
  variables that are used before it is used first. -/
  | cell {x : String} (h : x ∈ variableUses lines) :
    StandsFor lines x (16 + ((variableUses lines).takeWhile (· != x)).toFinset.card)

/-- **What a line of code is assembled to in a text.** -/
inductive Assembles (lines : List String) : List Char → Instruction → Prop
  /-- A number is read in base ten. -/
  | number {operand : List Char} (hnum : isNumber operand = true)
    (hdigits : ∀ c ∈ operand, Text.isDecimal c = true) :
    Assembles lines ('@' :: operand) (.address (digitsValue operand))
  | symbol {operand : List Char} {n : Nat} (hnum : isNumber operand = false)
    (h : StandsFor lines (String.ofList operand) n) :
    Assembles lines ('@' :: operand) (.address n)
  /-- Any other line is the three mnemonics that it is divided into. -/
  | compute {line : List Char} {dest : Dest} {comp : Comp} {jump : Jump}
    (hat : line.head? ≠ some '@')
    (hparts : splitCompute line = ⟨dest.text.toList, comp.text.toList, jump.text.toList⟩) :
    Assembles lines line (.compute dest comp jump)

/-- **A machine as the specification of the assembler has it.** -/
structure Assembled (lines : List String) (m : Machine) : Prop where
  /-- There is one instruction for every line of code, in order. -/
  rom : List.Forall₂ (Assembles lines) (codeLines (source lines)) m.rom.toList
  /-- The table has all symbols, and nothing else. -/
  symbols : ∀ x n, (x, n) ∈ m.symbols.entries ↔ StandsFor lines x n
  /-- No symbol is in the table twice. -/
  nodup : (m.symbols.entries.map Prod.fst).Nodup
  /-- The variables fill a row of cells from 16 on. -/
  cells : ∀ n, (∃ x ∈ variableUses lines, (x, n) ∈ m.symbols.entries) ↔
    16 ≤ n ∧ n < 16 + (variableUses lines).toFinset.card
  /-- No two of them have the same cell. -/
  apart : ∀ x ∈ variableUses lines, ∀ y ∈ variableUses lines, ∀ n,
    (x, n) ∈ m.symbols.entries → (y, n) ∈ m.symbols.entries → x = y
  /-- Nothing has been run. -/
  start : m = { rom := m.rom, symbols := m.symbols }

/-! ## The table -/

/-- **A label is listed with the number of instructions before it.** -/
theorem mem_labelEntries {a n : Nat} {lines : List (List Char)} {x : String} :
    (x, n) ∈ labelEntries a lines ↔ ∃ pre line post, lines = pre ++ line :: post ∧
      labelName? line = some x.toList ∧ n = a + (codeLines pre).length := by
  constructor
  · intro h
    induction lines generalizing a with
    | nil => cases h
    | cons line rest ih =>
      cases hname : labelName? line with
      | some name =>
        rw [labelEntries_cons_label rest hname] at h
        rcases List.mem_cons.mp h with heq | h
        · obtain ⟨rfl, rfl⟩ := Prod.mk.inj heq
          exact ⟨[], line, rest, rfl, by rw [hname, String.toList_ofList], rfl⟩
        · obtain ⟨pre, l, post, rfl, hl, rfl⟩ := ih h
          exact ⟨line :: pre, l, post, rfl, hl, by rw [codeLines_cons_label _ hname]⟩
      | none =>
        rw [labelEntries_cons_code rest hname] at h
        obtain ⟨pre, l, post, rfl, hl, rfl⟩ := ih h
        refine ⟨line :: pre, l, post, rfl, hl, ?_⟩
        rw [codeLines_cons_code _ hname, List.length_cons, Nat.add_right_comm, Nat.add_assoc]
  · rintro ⟨pre, line, post, rfl, hname, rfl⟩
    rw [labelEntries_append, labelEntries_cons_label post hname, String.ofList_toList]
    exact List.mem_append_right _ List.mem_cons_self

/-- The symbols that are new after the first pass are the variables. -/
theorem newUses_labels (lines : List String) :
    newUses ⟨(labelEntries 0 (source lines)).reverse ++ Symbols.predefined.entries⟩
      (codeLines (source lines)) = variableUses lines := by
  refine congrArg (fun p => List.filter p _) (funext fun x => ?_)
  rw [Bool.eq_iff_iff, Bool.and_eq_true, Bool.not_eq_true', Bool.not_eq_true', Bool.not_eq_true',
    Symbols.contains_eq_false, Symbols.contains_eq_false, Symbols.get?_eq_none,
    Symbols.get?_eq_none, List.map_append, List.mem_append, List.map_reverse, List.mem_reverse,
    not_or, and_comm, List.contains_eq_mem, decide_eq_false_iff_not]
  rfl

/-- **The table of a loaded program** has the variables in the order in which
they are used first. -/
theorem load_lists {lines : List String} {m : Machine} (h : Machine.load lines = .ok m) :
    m.symbols.Lists (labelEntries 0 (source lines)) (variableUses lines).eraseDups := by
  obtain ⟨-, -, names, hlists, -⟩ := load_eq_ok h
  have hfresh : Fresh .predefined (labelNames lines) := hlists.freshLabels
  rw [load_of_fresh hfresh] at h
  refine ⟨hfresh, ⟨nodup_eraseDups _, fun x hx => ?_⟩, ?_⟩
  · rw [List.mem_eraseDups, ← newUses_labels] at hx
    simpa using (List.mem_filter.mp hx).2
  · cases hcode : decodeAll _ (codeLines (source lines)) with
    | error e => rw [hcode] at h; cases h
    | ok r =>
      have hentries := decodeAll_entries hcode
      dsimp only at hentries
      rw [newUses_labels] at hentries
      rw [hcode] at h
      obtain rfl := Except.ok.inj h
      exact hentries

end Loading

theorem Symbols.nodup_predefined : (predefined.entries.map Prod.fst).Nodup := by decide

namespace Symbols.Lists

variable {t : Symbols} {labels : List (String × Nat)} {names : List String}
  (h : t.Lists labels names)

include h

theorem mem_entries {x : String} {n : Nat} :
    (x, n) ∈ t.entries ↔ (16 ≤ n ∧ names[n - 16]? = some x) ∨ (x, n) ∈ labels ∨
      (x, n) ∈ predefined.entries := by
  rw [h.entries, List.mem_append, List.mem_append, List.mem_reverse, List.mem_reverse,
    List.mk_mem_zipIdx_iff_le_and_getElem?_sub]
  rfl

/-- A variable has the cell of its number and no other. -/
theorem mem_entries_of_mem {x : String} {n : Nat} (hx : x ∈ names) :
    (x, n) ∈ t.entries ↔ 16 ≤ n ∧ names[n - 16]? = some x := by
  rw [h.mem_entries]
  refine ⟨fun hmem => hmem.resolve_right ?_, .inl⟩
  rintro (hlabel | hpre)
  · exact h.not_mem_names (.inl (List.mem_map.mpr ⟨_, hlabel, rfl⟩)) hx
  · refine h.not_mem_names (.inr ?_) hx
    rw [contains, get?_of_mem nodup_predefined hpre]
    rfl

theorem nodup_entries : (t.entries.map Prod.fst).Nodup := by
  rw [h.entries, List.map_append, List.map_reverse, List.zipIdx_map_fst, List.nodup_append]
  refine ⟨List.nodup_reverse.mpr h.freshNames.1, ?_, ?_⟩
  · rw [List.map_append, List.map_reverse, List.nodup_append]
    refine ⟨List.nodup_reverse.mpr h.freshLabels.1, nodup_predefined, ?_⟩
    rintro x hx y hy rfl
    exact get?_eq_none.mp (contains_eq_false.mp (h.freshLabels.2 x (List.mem_reverse.mp hx))) hy
  · rintro x hx y hy rfl
    exact get?_eq_none.mp (contains_eq_false.mp (h.freshNames.2 x (List.mem_reverse.mp hx))) hy

end Symbols.Lists

namespace Loading

variable {lines : List String} {t : Symbols}

/-- **The table says what the symbols stand for.** -/
theorem standsFor_iff
    (h : t.Lists (labelEntries 0 (source lines)) (variableUses lines).eraseDups)
    (x : String) (n : Nat) : (x, n) ∈ t.entries ↔ StandsFor lines x n := by
  rw [h.mem_entries]
  constructor
  · rintro (⟨hle, hx⟩ | hlabel | hpre)
    · have hmem : x ∈ variableUses lines := List.mem_eraseDups.mp (List.mem_of_getElem? hx)
      have hi : n - 16 = ((variableUses lines).takeWhile (· != x)).toFinset.card :=
        (List.getElem?_inj (List.getElem?_eq_some_iff.mp hx).1 (nodup_eraseDups _)).mp
          (hx.trans (getElem?_eraseDups hmem).symm)
      rw [← Nat.add_sub_cancel' hle, hi]
      exact .cell hmem
    · have hnew := h.freshLabels.2 x (List.mem_map.mpr ⟨_, hlabel, rfl⟩)
      obtain ⟨pre, line, post, hsource, hname, rfl⟩ := mem_labelEntries.mp hlabel
      rw [Nat.zero_add]
      exact .label (Symbols.contains_eq_false.mp hnew) hsource hname
    · exact .predefined (Symbols.get?_of_mem Symbols.nodup_predefined hpre)
  · intro hx
    cases hx with
    | predefined hpre => exact .inr (.inr (Symbols.mem_of_get? hpre))
    | label _ hsource hname =>
      exact .inr (.inl (mem_labelEntries.mpr ⟨_, _, _, hsource, hname, (Nat.zero_add _).symm⟩))
    | cell hmem =>
      refine .inl ⟨Nat.le_add_right _ _, ?_⟩
      rw [Nat.add_sub_cancel_left]
      exact getElem?_eraseDups hmem

end Loading

/-! ## The instructions -/

/-- **A numeral that is read** is a row of decimal digits, not too many, and its
value is that of the digits. -/
theorem Text.readNumeral_eq_ok {cs : List Char} {n : Nat} : readNumeral cs = .ok n ↔
    cs ≠ [] ∧ (∀ c ∈ cs, isDecimal c = true) ∧ cs.length ≤ maxDigits ∧ n = digitsValue cs := by
  constructor
  · intro h
    unfold readNumeral at h
    dsimp only at h
    split at h
    next => cases h
    next hshort =>
      split at h
      next => cases h
      next hwhole =>
        rw [Bool.or_eq_true, not_or, decide_eq_true_iff, Nat.not_lt, List.isEmpty_iff] at hwhole
        have hdigits : cs.takeWhile isDecimal = cs :=
          (List.takeWhile_prefix isDecimal).eq_of_length_le hwhole.1
        rw [hdigits] at h hshort
        refine ⟨hwhole.2, List.takeWhile_eq_self_iff.mp hdigits, Nat.not_lt.mp hshort, ?_⟩
        rw [← decimalOf_eq_digitsValue, Except.ok.inj h]
  · rintro ⟨hne, hdigits, hlen, rfl⟩
    exact readNumeral_of_digits hne hdigits hlen

theorem Dest.text_of_ofText? {s : String} {x : Dest} (h : ofText? s = some x) : x.text = s := by
  simpa using List.find?_some h

theorem Jump.text_of_ofText? {s : String} {x : Jump} (h : ofText? s = some x) : x.text = s := by
  simpa using List.find?_some h

theorem Comp.text_of_ofText? {s : String} {x : Comp} (h : ofText? s = some x) : x.text = s := by
  simpa using List.find?_some h

namespace Loading

variable {lines : List String} {t : Symbols}

/-- **A line is assembled as the table says**, where the table says what the
symbols stand for. -/
theorem assembles_of_instruction? (ht : ∀ x n, (x, n) ∈ t.entries → StandsFor lines x n)
    {line : List Char} {ins : Instruction} (h : instruction? t line = some ins) :
    Assembles lines line ins := by
  unfold instruction? at h
  split at h
  next operand =>
    split at h
    next hnum =>
      obtain ⟨n, hn, rfl⟩ := Option.map_eq_some_iff.mp h
      obtain ⟨hread, -⟩ := Option.filter_eq_some_iff.mp hn
      cases hr : Text.readNumeral operand with
      | error e => rw [hr] at hread; cases hread
      | ok n' =>
        rw [hr] at hread
        obtain rfl : n' = n := Option.some.inj hread
        obtain ⟨-, hdigits, -, rfl⟩ := Text.readNumeral_eq_ok.mp hr
        exact .number hnum hdigits
    next hnum =>
      obtain ⟨n, hn, rfl⟩ := Option.map_eq_some_iff.mp h
      exact .symbol (Bool.eq_false_iff.mpr hnum) (ht _ _ (Symbols.mem_of_get? hn))
  next hat =>
    dsimp only at h
    split at h
    next dest comp jump hdest hcomp hjump =>
      obtain rfl := Option.some.inj h
      refine .compute ?_ ?_
      · intro hhead
        obtain ⟨operand, rfl⟩ := List.head?_eq_some_iff.mp hhead
        exact hat operand rfl
      · rw [Dest.text_of_ofText? hdest, Comp.text_of_ofText? hcomp, Jump.text_of_ofText? hjump,
          String.toList_ofList, String.toList_ofList, String.toList_ofList]
    next => cases h

/-- **Loading is assembling.** Every program that is loaded is the one that the
specification asks for. -/
theorem assembled_of_load {m : Machine} (h : Machine.load lines = .ok m) : Assembled lines m := by
  obtain ⟨hstart, hrom, -⟩ := load_eq_ok h
  have hlists := load_lists h
  have hsymbols := standsFor_iff hlists
  have hcell {x : String} {n : Nat} (hx : x ∈ variableUses lines) :=
    hlists.mem_entries_of_mem (n := n) (List.mem_eraseDups.mpr hx)
  refine ⟨?_, hsymbols, hlists.nodup_entries, fun n => ⟨?_, ?_⟩, ?_, hstart⟩
  · have hall : List.Forall₂ (fun line ins => instruction? m.symbols line = some ins)
        (codeLines (source lines)) m.rom.toList := by
      rw [← List.forall₂_map_left_iff (R := (· = some ·)), ← List.forall₂_map_right_iff, hrom]
      exact List.forall₂_refl _
    exact hall.imp fun _ _ => assembles_of_instruction? fun x n => (hsymbols x n).mp
  · rintro ⟨x, hx, hmem⟩
    obtain ⟨hle, hget⟩ := (hcell hx).mp hmem
    have hlt := (List.getElem?_eq_some_iff.mp hget).1
    rw [length_eraseDups] at hlt
    omega
  · rintro ⟨hle, hlt⟩
    have hlen : n - 16 < (variableUses lines).eraseDups.length := by
      rw [length_eraseDups]
      omega
    have hx := List.mem_eraseDups.mp (List.getElem_mem hlen)
    exact ⟨_, hx, (hcell hx).mpr ⟨hle, List.getElem?_eq_getElem hlen⟩⟩
  · intro x hx y hy n hxn hyn
    exact Option.some.inj (((hcell hx).mp hxn).2.symm.trans ((hcell hy).mp hyn).2)

end Loading

/-! ## A sample -/

/-- A label that is used before it is defined, one with a number for a name, and
variables that are used again. -/
def Sample.assembly : List String :=
  ["@END", "D=M", "", "  @b", "@a", "(7)", "@b", "@7", "@SP", "(END)", "0; JMP", "@c"]

/-- The operand `7` is a number also where a label has this name. -/
theorem Loading.assembled_of_load_sample : ∃ m, Machine.load Sample.assembly = .ok m ∧
    m.rom.toList.take 7 = [.address 7, .compute .d (.y .m) .never, .address 16, .address 17,
      .address 16, .address 7, .address 0] ∧
    (["END", "7", "b", "a", "c"].map m.symbols.get?
      = [some 7, some 4, some 16, some 17, some 18]) ∧ Assembled Sample.assembly m := by
  have hload : (Machine.load Sample.assembly).toOption.any (fun m => decide
      (m.rom.toList.take 7 = [.address 7, .compute .d (.y .m) .never, .address 16,
        .address 17, .address 16, .address 7, .address 0] ∧
      ["END", "7", "b", "a", "c"].map m.symbols.get?
        = [some 7, some 4, some 16, some 17, some 18])) = true := by
    decide +kernel
  obtain ⟨m, hm, hp⟩ := Loading.exists_load hload
  obtain ⟨hrom, hsymbols⟩ := of_decide_eq_true hp
  exact ⟨m, hm, hrom, hsymbols, assembled_of_load hm⟩

end HackStack
