import HackStack.Proofs.StraightLine
import HackStack.Proofs.TwoPass

/-!
# Lines that were written out and loaded

Generated code is written as text and loaded from it. This module follows a
line there and back: a label is read as the label it was, an address
instruction as its operand without the blanks at its end, and a compute
instruction as itself. The main statement is `Loading.loaded`: the program
of the machine is the generated lines, each with the values that the final
table gives to its symbols.
-/

namespace HackStack

/-! ## Blanks at the ends -/

namespace Text

theorem trimEnd_cons {c : Char} (h : isBlank c = false) (cs : List Char) :
    trimEnd (c :: cs) = c :: trimEnd cs := by
  unfold trimEnd
  rw [List.reverse_cons, List.dropWhile_append]
  by_cases hrest : (cs.reverse.dropWhile isBlank).isEmpty = true
  · rw [if_pos hrest, List.isEmpty_iff.mp hrest, List.dropWhile_cons_of_neg (by simp [h])]
    rfl
  · rw [if_neg hrest, List.reverse_append]
    rfl

theorem trimEnd_append_singleton {c : Char} (h : isBlank c = false) (cs : List Char) :
    trimEnd (cs ++ [c]) = cs ++ [c] := by
  unfold trimEnd
  rw [List.reverse_append, List.reverse_singleton, List.singleton_append,
    List.dropWhile_cons_of_neg (by simp [h]), List.reverse_cons, List.reverse_reverse]

theorem trim_cons {c : Char} (h : isBlank c = false) (cs : List Char) :
    trim (c :: cs) = c :: trimEnd cs := by
  rw [trim, List.dropWhile_cons_of_neg (by simp [h]), trimEnd_cons h]

/-- A text without blanks at its end. -/
theorem trimEnd_of_forall {cs : List Char} (h : ∀ c ∈ cs, isBlank c = false) : trimEnd cs = cs := by
  induction cs with
  | nil => rfl
  | cons c cs ih =>
    rw [trimEnd_cons (h c (by simp)), ih fun x hx => h x (List.mem_cons_of_mem c hx)]

theorem trim_of_forall {cs : List Char} (h : ∀ c ∈ cs, isBlank c = false) : trim cs = cs := by
  cases cs with
  | nil => rfl
  | cons c cs =>
    rw [trim_cons (h c (by simp)), trimEnd_of_forall fun x hx => h x (List.mem_cons_of_mem c hx)]

end Text

/-! ## Compute instructions -/

/-- A property of the characters of a text is decided on the text, and not on all
characters there are. -/
theorem Text.forall_of_all {cs : List Char} {P : Char → Prop} [DecidablePred P]
    (h : cs.all (fun c => decide (P c)) = true) : ∀ c ∈ cs, P c :=
  fun c hc => of_decide_eq_true (List.all_eq_true.mp h c hc)

/-- The characters that mnemonics are written with. -/
def mnemonicChars : List Char :=
  ['A', 'M', 'D', 'J', 'G', 'T', 'E', 'Q', 'L', 'N', 'P', '0', '1', '-', '+', '!', '&', '|']

theorem Dest.mem_mnemonicChars (x : Dest) : ∀ c ∈ x.text.toList, c ∈ mnemonicChars := by
  cases x <;> exact Text.forall_of_all (by decide)

theorem Jump.mem_mnemonicChars (j : Jump) : ∀ c ∈ j.text.toList, c ∈ mnemonicChars := by
  cases j <;> exact Text.forall_of_all (by decide)

theorem Comp.mem_mnemonicChars (x : Comp) : ∀ c ∈ x.text.toList, c ∈ mnemonicChars := by
  rcases x with _ | _ | _ | _ | _ | _ | _ | _ | (_ | _) | (_ | _) | (_ | _) | (_ | _) | (_ | _) |
    (_ | _) | (_ | _) | (_ | _) | (_ | _) | (_ | _) <;> exact Text.forall_of_all (by decide)

theorem isBlank_mnemonicChars : ∀ c ∈ mnemonicChars, Text.isBlank c = false :=
  Text.forall_of_all (by decide)

theorem cutAt?_append {c : Char} {xs : List Char} (h : c ∉ xs) (ys : List Char) :
    cutAt? c (xs ++ c :: ys) = some (xs, ys) := by
  have hxs : ∀ x ∈ xs, (x != c) = true := fun x hx => bne_iff_ne.mpr fun hxc => h (hxc ▸ hx)
  rw [cutAt?, if_pos (by simp), List.takeWhile_append_of_pos hxs, List.dropWhile_append_of_pos hxs,
    List.takeWhile_cons_of_neg (by simp), List.dropWhile_cons_of_neg (by simp), List.append_nil]
  rfl

theorem cutAt?_eq_none {c : Char} {xs : List Char} (h : c ∉ xs) : cutAt? c xs = none := by
  rw [cutAt?, if_neg (by simpa using h)]

namespace Line

variable (dest : Dest) (comp : Comp) (jump : Jump)

/-- The characters of a compute instruction. -/
theorem toList_text_compute :
    (compute dest comp jump).text.toList
      = (if dest = .none then [] else dest.text.toList ++ ['=']) ++ comp.text.toList
        ++ (if jump = .never then [] else ';' :: jump.text.toList) := by
  have hdest : (if dest = .none then "" else dest.text ++ "=").toList
      = if dest = .none then [] else dest.text.toList ++ ['='] := by
    split
    · rfl
    · rw [String.toList_append]
      rfl
  have hjump : (if jump = .never then "" else ";" ++ jump.text).toList
      = if jump = .never then [] else ';' :: jump.text.toList := by
    split
    · rfl
    · rw [String.toList_append]
      rfl
  rw [text, String.toList_append, String.toList_append, hdest, hjump]

/-- Compute instructions are written with mnemonics and two marks. -/
theorem mem_text_compute {c : Char} (h : c ∈ (compute dest comp jump).text.toList) :
    c ∈ mnemonicChars ∨ c = '=' ∨ c = ';' := by
  rw [toList_text_compute, List.mem_append, List.mem_append] at h
  rcases h with (h | h) | h
  · split at h
    · cases h
    · rcases List.mem_append.mp h with h | h
      · exact .inl (dest.mem_mnemonicChars c h)
      · exact .inr (.inl (List.mem_singleton.mp h))
  · exact .inl (comp.mem_mnemonicChars c h)
  · split at h
    · cases h
    · rcases List.mem_cons.mp h with h | h
      · exact .inr (.inr h)
      · exact .inl (jump.mem_mnemonicChars c h)

theorem not_mem_text_compute {c : Char} (h : c ∉ mnemonicChars) (heq : c ≠ '=') (hsc : c ≠ ';') :
    c ∉ (compute dest comp jump).text.toList := fun hmem => by
  rcases mem_text_compute dest comp jump hmem with hm | hm | hm
  · exact h hm
  · exact heq hm
  · exact hsc hm

theorem isBlank_text_compute :
    ∀ c ∈ (compute dest comp jump).text.toList, Text.isBlank c = false := by
  intro c hc
  rcases mem_text_compute dest comp jump hc with h | rfl | rfl
  · exact isBlank_mnemonicChars c h
  · decide
  · decide

theorem text_compute_ne_nil : (compute dest comp jump).text.toList ≠ [] := by
  have hcomp : comp.text.toList ≠ [] := by
    rcases comp with _ | _ | _ | _ | _ | _ | _ | _ | (_ | _) | (_ | _) | (_ | _) | (_ | _) |
      (_ | _) | (_ | _) | (_ | _) | (_ | _) | (_ | _) | (_ | _) <;> decide
  rw [toList_text_compute]
  intro h
  exact hcomp (List.append_eq_nil_iff.mp (List.append_eq_nil_iff.mp h).1).2

/-- The equals sign is behind the destination, if there is one. -/
theorem cutAt?_equals_text :
    (cutAt? '=' (compute dest comp jump).text.toList).getD
        ([], (compute dest comp jump).text.toList)
      = (dest.text.toList,
        comp.text.toList ++ if jump = .never then [] else ';' :: jump.text.toList) := by
  have hnot : '=' ∉ mnemonicChars := by decide
  rw [toList_text_compute]
  by_cases hd : dest = .none
  · subst hd
    rw [if_pos rfl, List.nil_append, cutAt?_eq_none]
    · rfl
    · intro h
      rcases List.mem_append.mp h with h | h
      · exact hnot (comp.mem_mnemonicChars _ h)
      · split at h
        · cases h
        · rcases List.mem_cons.mp h with h | h
          · exact absurd h (by decide)
          · exact hnot (jump.mem_mnemonicChars _ h)
  · rw [if_neg hd, List.append_assoc, List.append_assoc, List.singleton_append,
      cutAt?_append fun h => hnot (dest.mem_mnemonicChars _ h)]
    rfl

/-- The semicolon is before the jump, if there is one. -/
theorem cutAt?_semicolon_text :
    (cutAt? ';' (comp.text.toList
        ++ if jump = .never then [] else ';' :: jump.text.toList)).getD
      (comp.text.toList ++ (if jump = .never then [] else ';' :: jump.text.toList), [])
      = (comp.text.toList, jump.text.toList) := by
  have hcomp : ';' ∉ comp.text.toList := fun h =>
    absurd (comp.mem_mnemonicChars _ h) (by decide)
  by_cases hj : jump = .never
  · subst hj
    rw [if_pos rfl, List.append_nil, cutAt?_eq_none hcomp]
    rfl
  · rw [if_neg hj, cutAt?_append hcomp]
    rfl

/-- **A compute instruction is taken apart into what it was put together
from.** -/
theorem splitCompute_text :
    splitCompute (compute dest comp jump).text.toList
      = ⟨dest.text.toList, comp.text.toList, jump.text.toList⟩ := by
  have hspace : (compute dest comp jump).text.toList.filter (· != ' ')
      = (compute dest comp jump).text.toList := by
    refine List.filter_eq_self.mpr fun c hc => bne_iff_ne.mpr ?_
    rintro rfl
    exact not_mem_text_compute dest comp jump (by decide) (by decide) (by decide) hc
  rw [splitCompute, hspace, cutAt?_equals_text]
  dsimp only
  rw [cutAt?_semicolon_text]

/-! ## Any line -/

/-- A line as it is read: what was written, without the blanks around it. -/
def written : Line → List Char
  | label name => '(' :: (name.toList ++ [')'])
  | address operand => '@' :: Text.trimEnd operand.toList
  | compute dest comp jump => (compute dest comp jump).text.toList

theorem trim_text (l : Line) : Text.trim l.text.toList = l.written := by
  cases l with
  | label name =>
    have h : (label name).text.toList = '(' :: (name.toList ++ [')']) := by
      rw [text, String.toList_append, String.toList_append]
      rfl
    rw [h, Text.trim_cons (by decide), Text.trimEnd_append_singleton (by decide)]
    rfl
  | address operand =>
    have h : (address operand).text.toList = '@' :: operand.toList := by
      rw [text, String.toList_append]
      rfl
    rw [h, Text.trim_cons (by decide)]
    rfl
  | compute dest comp jump => exact Text.trim_of_forall (isBlank_text_compute dest comp jump)

theorem written_ne_nil (l : Line) : l.written ≠ [] := by
  cases l with
  | label name => exact List.cons_ne_nil _ _
  | address operand => exact List.cons_ne_nil _ _
  | compute dest comp jump => exact text_compute_ne_nil dest comp jump

theorem source_map_text (ls : List Line) : Loading.source (ls.map text) = ls.map written := by
  unfold Loading.source
  rw [List.map_map, List.filter_eq_self.mpr]
  · exact List.map_congr_left fun l _ => trim_text l
  · intro w hw
    obtain ⟨l, -, rfl⟩ := List.mem_map.mp hw
    have h : Text.trim l.text.toList ≠ [] := by
      rw [trim_text]
      exact l.written_ne_nil
    simpa using h

/-- The name that a line defines: a label without a name is no label. -/
def labelName? : Line → Option String
  | label name => if name = "" then none else some name
  | _ => none

theorem labelName?_written (l : Line) :
    HackStack.labelName? l.written = l.labelName?.map String.toList := by
  unfold HackStack.labelName?
  cases l with
  | label name =>
    have htrim : Text.trim (label name).written = '(' :: (name.toList ++ [')']) := by
      rw [written, Text.trim_cons (by decide), Text.trimEnd_append_singleton (by decide)]
    rw [htrim]
    by_cases hname : name = ""
    · subst hname
      rfl
    · have hpos : name.toList ≠ [] := fun h => hname (String.toList_eq_nil_iff.mp h)
      have hlen : 2 ≤ (name.toList ++ [')']).length := by
        have := List.length_pos_of_ne_nil hpos
        rw [List.length_append, List.length_singleton]
        omega
      have hlast : (name.toList ++ [')']).getLast? = some ')' := List.getLast?_concat
      rw [labelName?, if_neg hname, Option.map_some]
      show (if _ then some (name.toList ++ [')']).dropLast else none) = _
      rw [if_pos (by rw [hlast, decide_eq_true hlen]; rfl), List.dropLast_concat]
  | address operand =>
    have htrim : Text.trim (address operand).written = '@' :: _ := Text.trim_cons (by decide) _
    rw [htrim]
    rfl
  | compute dest comp jump =>
    have htrim :
        Text.trim (compute dest comp jump).written = (compute dest comp jump).text.toList :=
      Text.trim_of_forall (isBlank_text_compute dest comp jump)
    rw [htrim]
    split
    next rest heq =>
      have hmem : '(' ∈ (compute dest comp jump).text.toList := by
        rw [heq]
        exact List.mem_cons_self ..
      exact absurd hmem (not_mem_text_compute dest comp jump (by decide) (by decide) (by decide))
    next => rfl

/-- The labels of some lines, each with the number of instructions before it;
`a` of them stand in front. -/
def labels (a : Nat) : List Line → List (String × Nat)
  | [] => []
  | label name :: ls => (name, a) :: labels a ls
  | address _ :: ls => labels (a + 1) ls
  | compute _ _ _ :: ls => labels (a + 1) ls

theorem labels_append (a : Nat) (ls ks : List Line) :
    labels a (ls ++ ks) = labels a ls ++ labels (a + size ls) ks := by
  induction ls generalizing a with
  | nil => rfl
  | cons l ls ih =>
    cases l with
    | label name => rw [List.cons_append, labels, labels, ih, size_cons_label, List.cons_append]
    | address operand =>
      rw [List.cons_append, labels, labels, ih, size_cons_address, Nat.add_assoc, Nat.add_comm 1]
    | compute dest comp jump =>
      rw [List.cons_append, labels, labels, ih, size_cons_compute, Nat.add_assoc, Nat.add_comm 1]

/-- The names of the labels of some lines. -/
def labelNames (ls : List Line) : List String := (labels 0 ls).map Prod.fst

theorem map_fst_labels (a : Nat) (ls : List Line) : (labels a ls).map Prod.fst = labelNames ls := by
  have h (b : Nat) : ∀ a, (labels a ls).map Prod.fst = (labels b ls).map Prod.fst := by
    induction ls generalizing b with
    | nil => exact fun _ => rfl
    | cons l ls ih =>
      intro a
      cases l with
      | label name => rw [labels, labels, List.map_cons, List.map_cons, ih b a]
      | address operand => exact ih (b + 1) (a + 1)
      | compute dest comp jump => exact ih (b + 1) (a + 1)
  exact h 0 a

theorem labelNames_append (ls ks : List Line) :
    labelNames (ls ++ ks) = labelNames ls ++ labelNames ks := by
  rw [labelNames, labels_append, List.map_append, map_fst_labels, map_fst_labels]

theorem mem_labelNames {ls : List Line} {name : String} :
    name ∈ labelNames ls ↔ label name ∈ ls := by
  induction ls with
  | nil => simp [labelNames, labels]
  | cons l ls ih =>
    have hcons : labelNames (l :: ls) = labelNames [l] ++ labelNames ls := labelNames_append [l] ls
    rw [hcons, List.mem_append, List.mem_cons, ih]
    cases l with
    | label other => simp [labelNames, labels]
    | address operand => simp [labelNames, labels]
    | compute dest comp jump => simp [labelNames, labels]

/-- The labels as the first pass finds them. -/
theorem labelEntries_map_written {ls : List Line} (h : label "" ∉ ls) (a : Nat) :
    Loading.labelEntries a (ls.map written) = labels a ls := by
  induction ls generalizing a with
  | nil => rfl
  | cons l ls ih =>
    rw [List.mem_cons, not_or] at h
    rw [List.map_cons, Loading.labelEntries, labelName?_written]
    cases l with
    | label name =>
      have hne : name ≠ "" := fun hn => h.1 (hn ▸ rfl)
      simp only [labelName?, if_neg hne, Option.map_some, String.ofList_toList, labels, ih h.2]
    | address operand => simp only [labelName?, Option.map_none, labels, ih h.2]
    | compute dest comp jump => simp only [labelName?, Option.map_none, labels, ih h.2]

theorem codeLines_map_written {ls : List Line} (h : label "" ∉ ls) :
    Loading.codeLines (ls.map written) = (ls.filter isCode).map written := by
  rw [Loading.codeLines, List.filter_map]
  congr 1
  refine List.filter_congr fun l hl => ?_
  rw [Function.comp_apply, labelName?_written]
  cases l with
  | label name =>
    have hne : name ≠ "" := fun hn => h (hn ▸ hl)
    simp [labelName?, hne, isCode]
  | address operand => rfl
  | compute dest comp jump => rfl

end Line

/-! ## Values of operands -/

namespace Symbols

/-- The value of an operand: that of a numeral of fifteen bits, or of a symbol in
the table. -/
def value? (t : Symbols) (operand : String) : Option Nat :=
  if Loading.isNumber (Text.trimEnd operand.toList) then
    (Text.readNumeral (Text.trimEnd operand.toList)).toOption.filter (· < 2 ^ 15)
  else t.get? (String.ofList (Text.trimEnd operand.toList))

/-- The value of an operand, and zero when it has none. -/
def value (t : Symbols) (operand : String) : Nat := (t.value? operand).getD 0

end Symbols

namespace Line

theorem instruction?_written_address (t : Symbols) (operand : String) :
    Loading.instruction? t (address operand).written = (t.value? operand).map .address := by
  rw [written, Loading.instruction?_address, Symbols.value?]
  split <;> rfl

theorem instruction?_written_compute (t : Symbols) (dest : Dest) (comp : Comp) (jump : Jump) :
    Loading.instruction? t (compute dest comp jump).written = some (.compute dest comp jump) := by
  unfold Loading.instruction?
  split
  next rest heq =>
    have hmem : '@' ∈ (compute dest comp jump).text.toList := by
      rw [show (compute dest comp jump).text.toList = '@' :: rest from heq]
      exact List.mem_cons_self ..
    exact absurd hmem (not_mem_text_compute dest comp jump (by decide) (by decide) (by decide))
  next =>
    rw [written, splitCompute_text]
    simp

theorem instruction?_written_label (t : Symbols) :
    Loading.instruction? t (label "").written = none := rfl

/-- **Lines that are read as instructions** under a table: each of them is a
named label or an instruction whose operand has a value, and the
instructions are those of the lines. -/
theorem resolved {t : Symbols} {ls : List Line} {rom : List Instruction}
    (h : (Loading.codeLines (ls.map written)).map (Loading.instruction? t) = rom.map some) :
    label "" ∉ ls ∧ (∀ x, address x ∈ ls → (t.value? x).isSome = true) ∧
      rom = ls.filterMap (resolve t.value) := by
  -- a label without a name would be an instruction that is not known
  have hnamed : label "" ∉ ls := by
    intro hmem
    have hcode : (label "").written ∈ Loading.codeLines (ls.map written) := by
      refine List.mem_filter.mpr ⟨List.mem_map_of_mem hmem, ?_⟩
      rw [labelName?_written]
      rfl
    have hnone := List.mem_map_of_mem (f := Loading.instruction? t) hcode
    rw [h, instruction?_written_label] at hnone
    obtain ⟨ins, -, hins⟩ := List.mem_map.mp hnone
    cases hins
  rw [codeLines_map_written hnamed, List.map_map] at h
  have hvalue (x : String) (hx : address x ∈ ls) : (t.value? x).isSome = true := by
    have hcode : address x ∈ ls.filter isCode := List.mem_filter.mpr ⟨hx, rfl⟩
    have hsome := List.mem_map_of_mem (f := Loading.instruction? t ∘ written) hcode
    rw [h, Function.comp_apply, instruction?_written_address] at hsome
    obtain ⟨ins, -, hins⟩ := List.mem_map.mp hsome
    cases hv : t.value? x with
    | none => rw [hv] at hins; cases hins
    | some n => rfl
  refine ⟨hnamed, hvalue, ?_⟩
  have hresolve : ∀ l ∈ ls.filter isCode,
      (Loading.instruction? t ∘ written) l = l.resolve t.value := by
    intro l hl
    obtain ⟨hmem, hcode⟩ := List.mem_filter.mp hl
    cases l with
    | label name => cases hcode
    | address x =>
      obtain ⟨n, hn⟩ := Option.isSome_iff_exists.mp (hvalue x hmem)
      rw [Function.comp_apply, instruction?_written_address, resolve, Symbols.value, hn]
      rfl
    | compute dest comp jump => exact instruction?_written_compute _ dest comp jump
  rw [List.map_congr_left hresolve] at h
  have hall : ls.filterMap (resolve t.value) = (ls.filter isCode).filterMap (resolve t.value) := by
    rw [List.filterMap_filter]
    refine List.filterMap_congr fun l _ => ?_
    cases l <;> rfl
  have hid := congrArg (List.filterMap id) h
  rw [List.filterMap_map, List.filterMap_map] at hid
  rw [hall]
  exact (hid.trans (List.filterMap_some ..)).symm

end Line

/-! ## The loaded program -/

/-- **A machine that holds a program**: its instructions are the lines, with the
values of its table. The table has the variables of the program, one cell
after the other, its labels, each where it stands, and the predefined
symbols; no symbol is in it twice. -/
structure Machine.Holds (m : Machine) (ls : List Line) (names : List String) : Prop where
  rom : m.rom.toList = ls.filterMap (Line.resolve m.symbols.value)
  value : ∀ x, Line.address x ∈ ls → (m.symbols.value? x).isSome = true
  labels : Loading.Fresh .predefined (Line.labelNames ls)
  fresh : Loading.Fresh ⟨(Line.labels 0 ls).reverse ++ Symbols.predefined.entries⟩ names
  symbols : m.symbols.entries = (names.zipIdx Symbols.variableBase).reverse ++
    ((Line.labels 0 ls).reverse ++ Symbols.predefined.entries)

/-- **Generated lines that are loaded** are held by the machine. -/
theorem Loading.loaded {ls : List Line} {m : Machine}
    (h : Machine.load (ls.map Line.text) = .ok m) : ∃ names, m.Holds ls names := by
  obtain ⟨-, hrom, names, hlists, -⟩ := load_eq_ok h
  rw [Line.source_map_text] at hrom hlists
  obtain ⟨hnamed, hvalue, hresolved⟩ := Line.resolved hrom
  rw [Line.labelEntries_map_written hnamed] at hlists
  exact ⟨names, hresolved, hvalue, hlists.freshLabels, hlists.freshNames, hlists.entries⟩

/-- A name that is read as it was written, and is no number. -/
def Plain (x : String) : Prop :=
  Text.trimEnd x.toList = x.toList ∧ Loading.isNumber x.toList = false

instance : DecidablePred Plain := fun _ => inferInstanceAs (Decidable (_ ∧ _))

theorem Plain.value?_eq {x : String} (h : Plain x) (t : Symbols) : t.value? x = t.get? x := by
  rw [Symbols.value?, h.1, h.2, String.ofList_toList]
  rfl

theorem Plain.value_eq {x : String} (h : Plain x) (t : Symbols) :
    t.value x = (t.get? x).getD 0 := by
  rw [Symbols.value, h.value?_eq]

namespace Machine.Holds

variable {m : Machine} {ls : List Line} {names : List String}

variable (h : m.Holds ls names)

include h

theorem lists : m.symbols.Lists (Line.labels 0 ls) names := ⟨h.labels, h.fresh, h.symbols⟩

/-- Variables are new names. -/
theorem not_mem_names {x : String}
    (hx : x ∈ Line.labelNames ls ∨ Symbols.predefined.contains x = true) : x ∉ names :=
  h.lists.not_mem_names hx

/-- **A label has the number of instructions before it.** -/
theorem get?_label {pre post : List Line} {name : String}
    (hsplit : ls = pre ++ Line.label name :: post) :
    m.symbols.get? name = some (Line.size pre) := by
  refine h.lists.get?_label ?_
  rw [hsplit, Line.labels_append, Nat.zero_add]
  exact List.mem_append_right _ (List.mem_cons_self ..)

/-- **Any other symbol that is used is a variable**, with the cell of its
number. -/
theorem exists_variable {name : String} (hplain : Plain name) (huse : Line.address name ∈ ls)
    (hlabel : name ∉ Line.labelNames ls) (hpre : Symbols.predefined.get? name = none) :
    ∃ i, names[i]? = some name ∧ m.symbols.get? name = some (Symbols.variableBase + i) := by
  obtain ⟨x, hx⟩ := Option.isSome_iff_exists.mp (h.value name huse)
  rw [hplain.value?_eq] at hx
  obtain ⟨i, hi, rfl⟩ := h.lists.exists_variable hx hlabel hpre
  exact ⟨i, hi, hx⟩

end Machine.Holds

end HackStack
