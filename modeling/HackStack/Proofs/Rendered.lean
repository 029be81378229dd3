import HackStack.Proofs.Grammar

/-!
# Commands that are written out and read again

A command is written as a row of words with a space between them, and commands
as lines with a line feed between them. Nothing that a command is written with
is a blank or ends a line, and no two slashes stand in it; so the lines and the
words are found again, and by the grammar they denote the command they came
from.

The number of a command is written in plain digits, whatever the digits and the
sign it was read from. Its value has at most as many digits as the numeral had,
so it is never too long to be read again. The main statement is
`Reading.ofText_source`: what was read, written out and read again, is the same
but for the numbers of the lines.
-/

namespace HackStack

/-! ## Rows of words and lines -/

namespace Text

/-- Words with a space between them are the words of the row. -/
theorem areWords_intercalate {ws : List (List Char)} (hne : ∀ w ∈ ws, w ≠ [])
    (hws : ∀ w ∈ ws, ∀ c ∈ w, isBlank c = false) : AreWords ([' '].intercalate ws) ws := by
  induction ws with
  | nil => exact .nil fun _ hc => nomatch hc
  | cons w ws ih =>
    have hrest := ih (fun x hx => hne x (List.mem_cons_of_mem w hx))
      fun x hx => hws x (List.mem_cons_of_mem w hx)
    have hw_ne := hne w List.mem_cons_self
    have hw := hws w List.mem_cons_self
    cases ws with
    | nil =>
      have hrow : [' '].intercalate [w] = [] ++ w ++ [] := by simp
      rw [hrow]
      exact .cons (fun _ hc => nomatch hc) hw_ne hw (fun _ hc => nomatch hc) hrest
    | cons x ws =>
      have hrow : [' '].intercalate (w :: x :: ws)
          = [] ++ w ++ ' ' :: [' '].intercalate (x :: ws) := by simp
      rw [hrow]
      refine .cons (fun _ hc => nomatch hc) hw_ne hw (fun c hc => ?_) (hrest.cons_blank (by decide))
      obtain rfl := Option.some.inj hc
      decide

/-- Lines with a line feed between them are the lines of the text. -/
theorem areLines_intercalate {ls : List (List Char)} (hne : ∀ l ∈ ls, l ≠ [])
    (hls : ∀ l ∈ ls, ∀ c ∈ l, isLineBreak c = false) : AreLines (['\n'].intercalate ls) ls := by
  induction ls with
  | nil => exact .nil
  | cons l ls ih =>
    have hrest := ih (fun x hx => hne x (List.mem_cons_of_mem l hx))
      fun x hx => hls x (List.mem_cons_of_mem l hx)
    have hl := hls l List.mem_cons_self
    cases ls with
    | nil =>
      rw [List.intercalate_singleton]
      exact .last (hne l List.mem_cons_self) hl
    | cons x ls =>
      have htext : ['\n'].intercalate (l :: x :: ls)
          = l ++ ['\n'] ++ ['\n'].intercalate (x :: ls) := by simp
      rw [htext]
      exact .ended hl (.inr ⟨'\n', rfl, by decide, fun h => absurd h.1 (by decide)⟩) hrest

end Text

/-! ## The words of a command -/

/-- The characters that commands are written with: those of symbols, and the
dash of the conditional jump. -/
def isRowChar (c : Char) : Bool := isSymbolChar c || c == '-'

theorem isRowChar_of_isSymbolChar {c : Char} (h : isSymbolChar c = true) : isRowChar c = true := by
  rw [isRowChar, h]
  rfl

/-- No such character is a blank, a line break or a slash. -/
theorem plain_of_isRowChar {c : Char} (h : isRowChar c = true) :
    Text.isBlank c = false ∧ Text.isLineBreak c = false ∧ c ≠ '/' := by
  have hsmall : c.toNat < 128 := by
    rcases Bool.or_eq_true_iff.mp h with h | h
    · exact toNat_of_isSymbolChar h
    · rw [eq_of_beq h]
      decide
  have hall : ∀ n < 128, isRowChar (Char.ofNat n) = true →
      Text.isBlank (Char.ofNat n) = false ∧ Text.isLineBreak (Char.ofNat n) = false ∧
        Char.ofNat n ≠ '/' := by decide +kernel
  exact Text.forall_of_lt (P := fun c => isRowChar c = true →
    Text.isBlank c = false ∧ Text.isLineBreak c = false ∧ c ≠ '/') hall hsmall h

theorem SourceSymbol.isSymbolChar {x : String} (h : SourceSymbol x) :
    ∀ c ∈ x.toList, isSymbolChar c = true := by
  obtain ⟨c, cs, hx, -, hall⟩ := (isSymbol_iff h.isBlank).mp h.isSymbol
  rw [hx]
  exact fun d hd => isSymbolChar_iff.mpr (hall d hd)

/-- A name is no integer, since neither a digit nor a sign stands in front. -/
theorem SourceSymbol.short {x : String} (h : SourceSymbol x) : Short x.toList := by
  rintro minus digits ⟨htoken, hne, hdigits⟩
  have hsymbol := h.isSymbol
  have hstart {c : Char} {cs : List Char} (hx : x.toList = c :: cs) : isSymbolStart c = true := by
    rw [hx, HackStack.isSymbol, Bool.and_eq_true] at hsymbol
    exact hsymbol.1
  rcases htoken with ⟨hx, -⟩ | ⟨hx, -⟩ | ⟨hx, -⟩
  · obtain ⟨c, cs, hcons⟩ := List.exists_cons_of_ne_nil hne
    have hdigit := Text.isDigit_of_isDecimal (hdigits c (hcons ▸ List.mem_cons_self))
    rw [isDigit_of_isSymbolStart (hstart (hx.trans hcons))] at hdigit
    cases hdigit
  · exact absurd (hstart hx) (by decide)
  · exact absurd (hstart hx) (by decide)

/-- The digits of a number are a count of that number. -/
theorem isCount_toString (n : Nat) : IsCount (toString n) n := by
  refine ⟨false, (toString n).toList, ⟨.inl ⟨rfl, rfl⟩, Text.toString_ne_nil n, fun c hc => ?_⟩, ?_⟩
  · exact Text.isDecimal_of_isDigit (Text.isDigit_of_mem_toString hc)
  · rw [← Text.decimalOf_eq_digitsValue, Text.decimalOf_toString]
    rfl

namespace Command

/-- **The words that a command is written with.** -/
def row : Command → List String
  | arithmetic op => [op.name]
  | push segment index => ["push", segment.name, toString index]
  | pop segment index => ["pop", segment.name, toString index]
  | label name => ["label", name]
  | goto target => ["goto", target]
  | ifGoto target => ["if-goto", target]
  | function name locals => ["function", name, toString locals]
  | call name args => ["call", name, toString args]
  | ret => ["return"]

theorem text_eq_intercalate (c : Command) : c.text = " ".intercalate c.row := by
  have htwo {word line : String} (hword : word ++ " " = line) (a : String) :
      line ++ a = " ".intercalate [word, a] := by
    rw [String.intercalate_cons_cons, String.intercalate_singleton, hword]
  have hthree {word line : String} (hword : word ++ " " = line) (a b : String) :
      line ++ a ++ " " ++ b = " ".intercalate [word, a, b] := by
    rw [String.intercalate_cons_cons, String.intercalate_cons_cons, String.intercalate_singleton,
      hword]
    simp only [String.append_assoc]
  cases c with
  | arithmetic op => exact String.intercalate_singleton.symm
  | ret => exact String.intercalate_singleton.symm
  | push segment index => exact hthree (by decide) segment.name (toString index)
  | pop segment index => exact hthree (by decide) segment.name (toString index)
  | function name locals => exact hthree (by decide) name (toString locals)
  | call name args => exact hthree (by decide) name (toString args)
  | label name => exact htwo (by decide) name
  | goto target => exact htwo (by decide) target
  | ifGoto target => exact htwo (by decide) target

theorem row_ne_nil (c : Command) : c.row ≠ [] := by
  cases c <;> exact List.cons_ne_nil _ _

/-- What is known about a word of a command that was read. -/
structure IsRowWord (w : String) : Prop where
  ne_nil : w.toList ≠ []
  isRowChar : ∀ c ∈ w.toList, isRowChar c = true
  short : Short w.toList

namespace IsRowWord

theorem of_symbol {x : String} (h : SourceSymbol x) : IsRowWord x :=
  ⟨h.ne_nil, fun c hc => isRowChar_of_isSymbolChar (h.isSymbolChar c hc), h.short⟩

theorem of_number {n : Nat} (h : n < 10 ^ Text.maxDigits) : IsRowWord (toString n) := by
  refine ⟨Text.toString_ne_nil n, fun c hc => isRowChar_of_isSymbolChar ?_, .of_length ?_⟩
  · rw [isSymbolChar, Text.isDigit_of_mem_toString hc, Bool.or_true]
  · rw [String.length_toList]
    exact Text.length_toString_le (k := Text.maxDigits) (by decide) h

/-- Keywords are short and are written with such characters. -/
theorem of_keyword {w : String} (h : w.toList ≠ [] ∧ w.toList.all HackStack.isRowChar = true ∧
    w.toList.length ≤ 4300) : IsRowWord w :=
  ⟨h.1, List.all_eq_true.mp h.2.1, .of_length h.2.2⟩

theorem of_operator (op : Operator) : IsRowWord op.name := by
  rcases op with (_ | _) | (_ | _ | _ | _) | (_ | _ | _) <;> exact of_keyword (by decide)

theorem of_segment (s : Segment) : IsRowWord s.name := by
  rcases s with _ | _ | _ | _ | (_ | _ | _ | _) <;> exact of_keyword (by decide)

end IsRowWord

variable {c : Command} (h : c.FromSource)

include h

theorem FromSource.isRowWord : ∀ w ∈ c.row, IsRowWord w := by
  cases c with
  | arithmetic op =>
    rw [row, List.forall_mem_singleton]
    exact .of_operator op
  | ret =>
    rw [row, List.forall_mem_singleton]
    exact .of_keyword (by decide)
  | push segment index =>
    simp only [row, List.forall_mem_cons]
    exact ⟨.of_keyword (by decide), .of_segment segment, .of_number h, fun _ hw => nomatch hw⟩
  | pop segment index =>
    simp only [row, List.forall_mem_cons]
    exact ⟨.of_keyword (by decide), .of_segment segment, .of_number h.2, fun _ hw => nomatch hw⟩
  | label name | goto name | ifGoto name =>
    simp only [row, List.forall_mem_cons]
    exact ⟨.of_keyword (by decide), .of_symbol h, fun _ hw => nomatch hw⟩
  | function name n | call name n =>
    simp only [row, List.forall_mem_cons]
    exact ⟨.of_keyword (by decide), .of_symbol h.1, .of_number h.2, fun _ hw => nomatch hw⟩

/-- **The words of a command denote it.** -/
theorem FromSource.denotes_row : Denotes c.row c := by
  have hname {x : String} (hx : SourceSymbol x) : IsName x :=
    (isSymbol_iff hx.isBlank).mp hx.isSymbol
  cases c with
  | arithmetic op => exact .arithmetic op
  | ret => exact .ret
  | push segment index => exact .push segment (isCount_toString index)
  | pop segment index => exact .pop h.1 (isCount_toString index)
  | label name => exact .label (hname h)
  | goto name => exact .goto (hname h)
  | ifGoto name => exact .ifGoto (hname h)
  | function name n => exact .function (hname h.1) (isCount_toString n)
  | call name n => exact .call (hname h.1) (isCount_toString n)

/-! ## The line of a command -/

/-- The characters of the line are those of its words, and spaces. -/
theorem FromSource.mem_text {d : Char} (hd : d ∈ c.text.toList) : isRowChar d = true ∨ d = ' ' := by
  have hrow (ws : List (List Char)) (hws : ∀ w ∈ ws, ∀ d ∈ w, isRowChar d = true)
      (hd : d ∈ [' '].intercalate ws) : isRowChar d = true ∨ d = ' ' := by
    induction ws with
    | nil => cases hd
    | cons w ws ih =>
      have hw := hws w List.mem_cons_self
      cases ws with
      | nil =>
        rw [List.intercalate_singleton] at hd
        exact .inl (hw d hd)
      | cons x ws =>
        rw [List.intercalate_cons_cons, List.mem_append, List.mem_append, List.mem_singleton] at hd
        rcases hd with (hd | hd) | hd
        · exact .inl (hw d hd)
        · exact .inr hd
        · exact ih (fun y hy => hws y (List.mem_cons_of_mem w hy)) hd
  rw [text_eq_intercalate, String.toList_intercalate] at hd
  refine hrow _ (fun w hw => ?_) hd
  obtain ⟨x, hx, rfl⟩ := List.mem_map.mp hw
  exact (h.isRowWord x hx).isRowChar

theorem FromSource.isLineBreak_text : ∀ d ∈ c.text.toList, Text.isLineBreak d = false := by
  intro d hd
  rcases h.mem_text hd with hd | rfl
  · exact (plain_of_isRowChar hd).2.1
  · decide

theorem FromSource.beforeComment_text : Text.beforeComment c.text.toList = c.text.toList := by
  refine Text.beforeComment_eq_self fun hslashes => ?_
  rcases h.mem_text (hslashes.subset List.mem_cons_self) with hd | hd
  · exact absurd rfl (plain_of_isRowChar hd).2.2
  · exact absurd hd (by decide)

/-- **The words of the line are the words that it was written with.** -/
theorem FromSource.words_text : Text.words c.text.toList = c.row.map String.toList := by
  have hwords (w : List Char) (hw : w ∈ c.row.map String.toList) :
      w ≠ [] ∧ ∀ d ∈ w, Text.isBlank d = false := by
    obtain ⟨x, hx, rfl⟩ := List.mem_map.mp hw
    exact ⟨(h.isRowWord x hx).ne_nil,
      fun d hd => (plain_of_isRowChar ((h.isRowWord x hx).isRowChar d hd)).1⟩
  rw [text_eq_intercalate, String.toList_intercalate]
  exact (Text.areWords_iff.mp (Text.areWords_intercalate (fun w hw => (hwords w hw).1)
    fun w hw => (hwords w hw).2)).symm

theorem FromSource.lineWords_text : lineWords c.text.toList = c.row := by
  rw [lineWords, h.beforeComment_text, h.words_text, List.map_map]
  exact (List.map_congr_left fun x _ => String.ofList_toList).trans (List.map_id _)

theorem FromSource.text_ne_nil : c.text.toList ≠ [] := by
  intro hnil
  have hwords := h.words_text
  rw [hnil] at hwords
  exact c.row_ne_nil (List.map_eq_nil_iff.mp hwords.symm)

/-- **The line of a command gives that command.** -/
theorem FromSource.readLine_text (name place : Option String) (number : Nat) :
    readLine name place number c.text.toList = .ok (some (.command ⟨c, number, name⟩)) := by
  have hshort : ∀ w ∈ Text.words (Text.beforeComment c.text.toList), Short w := by
    rw [h.beforeComment_text, h.words_text]
    intro w hw
    obtain ⟨x, hx, rfl⟩ := List.mem_map.mp hw
    exact (h.isRowWord x hx).short
  have hdenotes : Denotes (lineWords c.text.toList) c := h.lineWords_text ▸ h.denotes_row
  obtain ⟨item, hread, hgives⟩ := exists_readLine hshort name place number
  rw [hread]
  cases hgives with
  | blank hblank =>
    have hwords := Text.areWords_iff.mp (.nil hblank)
    rw [h.beforeComment_text, h.words_text] at hwords
    exact absurd (List.map_eq_nil_iff.mp hwords.symm) c.row_ne_nil
  | command _ _ hunique => rw [hunique c hdenotes]
  | diagnostic _ hnone => exact absurd hdenotes (hnone c)

end Command

/-- **Commands that are written alike are the same command.** -/
theorem Command.FromSource.eq_of_text {c c' : Command} (h : c.FromSource) (h' : c'.FromSource)
    (htext : c.text = c'.text) : c = c' := by
  have hread := h.readLine_text none none 0
  rw [htext, h'.readLine_text] at hread
  exact (congrArg Placed.item (Item.command.inj (Option.some.inj (Except.ok.inj hread)))).symm

/-! ## Texts -/

/-- The items of the lines of commands are these commands, numbered. -/
theorem readLines_text {cs : List Command} (hcs : ∀ c ∈ cs, c.FromSource)
    (name place : Option String) (number : Nat) :
    readLines name place number (cs.map (·.text.toList))
      = .ok ((cs.zipIdx number).map fun p => .command ⟨p.1, p.2, name⟩) := by
  induction cs generalizing number with
  | nil => rfl
  | cons c cs ih =>
    rw [List.map_cons, readLines, (hcs c List.mem_cons_self).readLine_text,
      ih (fun d hd => hcs d (List.mem_cons_of_mem c hd))]
    rfl

namespace Reading

/-- **The commands of a reading, written out** one a line. -/
def source (r : Reading) : String := "\n".intercalate (r.commands.map (·.item.text))

/-- The commands of a reading, without diagnostics and with the numbers of the
lines on which they are written out. -/
def renumbered (r : Reading) : Reading where
  commands := (r.commands.zipIdx 1).map fun p => { p.1 with line := p.2 }
  diagnostics := []

/-- Writing out does not look at the numbers of lines. -/
theorem source_renumbered (r : Reading) : r.renumbered.source = r.source := by
  have hitems : r.renumbered.commands.map (·.item.text) = r.commands.map (·.item.text) := by
    calc r.renumbered.commands.map (·.item.text)
        = (r.commands.zipIdx 1).map (fun p => p.1.item.text) := by
          rw [renumbered, List.map_map]
          rfl
      _ = ((r.commands.zipIdx 1).map Prod.fst).map (·.item.text) := by rw [List.map_map]; rfl
      _ = r.commands.map (·.item.text) := by rw [List.zipIdx_map_fst]
  rw [source, hitems, source]

/-- **What was read can be written out and read again.** -/
theorem ofText_source_of_ok {text : String} {name file : Option String} {r : Reading}
    (h : ofText text name file = .ok r) (file' : Option String) :
    ofText r.source name file' = .ok r.renumbered := by
  have hsound := read_of_ofText h
  obtain ⟨cs, hcs⟩ : ∃ cs, cs = r.commands.map (·.item) := ⟨_, rfl⟩
  have hsource : ∀ c ∈ cs, c.FromSource := by
    rw [hcs]
    intro c hc
    obtain ⟨p, hp, rfl⟩ := List.mem_map.mp hc
    exact (hsound p hp).1
  have hlines : Text.lines r.source.toList = cs.map (·.text.toList) := by
    have htexts : (r.commands.map (·.item.text)).map String.toList = cs.map (·.text.toList) := by
      rw [hcs, List.map_map, List.map_map]
      rfl
    rw [source, String.toList_intercalate, htexts]
    refine (Text.areLines_iff.mp (Text.areLines_intercalate ?_ ?_)).symm
    · intro l hl
      obtain ⟨c, hc, rfl⟩ := List.mem_map.mp hl
      exact (hsource c hc).text_ne_nil
    · intro l hl
      obtain ⟨c, hc, rfl⟩ := List.mem_map.mp hl
      exact (hsource c hc).isLineBreak_text
  -- each command is placed in the module that it was read in
  have hplaced : (cs.zipIdx 1).map (fun p => (⟨p.1, p.2, name⟩ : Placed Command))
      = r.renumbered.commands := by
    rw [hcs, renumbered, List.zipIdx_map, List.map_map]
    refine List.map_congr_left fun p hp => ?_
    have hname := (hsound p.1 (List.fst_mem_of_mem_zipIdx hp)).2.2
    show Placed.mk p.1.item (p.2 : Int) name = _
    rw [← hname]
  rw [ofText, hlines, readLines_text hsource]
  show Except.ok (ofItems _) = _
  rw [← show Reading.mk r.renumbered.commands [] = r.renumbered from rfl, ← hplaced]
  simp [ofItems, List.filterMap_map]

/-- **Writing out and reading are inverse** on what reading gives. When no
integer of a text has more than 4300 digits, it is read, with or without
diagnostics, and its commands, written out one a line, are read again without
diagnostics: they are the same but for the numbers of their lines, which are
now those that they were written on. To write them out once more gives the same
text. Commands that were read, from this text or another, are written alike
only when they are the same. -/
theorem ofText_source {text : String} (name file : Option String)
    (hshort : ∀ line ∈ Text.lines text.toList, ∀ w ∈ Text.words (Text.beforeComment line),
      ∀ minus digits, IsInteger w minus digits → digits.length ≤ 4300) :
    ∃ r, ofText text name file = .ok r ∧
      (∀ file', ofText r.source name file' = .ok r.renumbered) ∧
      r.renumbered.source = r.source ∧
      ∀ text' name' file' r', ofText text' name' file' = .ok r' →
        ∀ p ∈ r.commands, ∀ q ∈ r'.commands, p.item.text = q.item.text → p.item = q.item := by
  obtain ⟨items, hitems, -⟩ := exists_readLines hshort name (file.or name) 1
  have hread : ofText text name file = .ok (ofItems (items.filterMap id)) := by
    rw [ofText, hitems]
    rfl
  refine ⟨_, hread, ofText_source_of_ok hread, source_renumbered _, ?_⟩
  intro text' name' file' r' hread' p hp q hq
  exact (read_of_ofText hread p hp).1.eq_of_text (read_of_ofText hread' q hq).1

end Reading

/-- A text with leading zeros, signs and the digits of another script, a bad
line, and lines that are not at the margin. -/
def Sample.scattered : String :=
  "  push\tlocal +007 // siete\r\n\npush heap 1\x0bif-goto  A$b:c\n pop static １２\u2029return//"

/-- The four commands of the sample are written out on four lines, which give them
again. -/
theorem Reading.ofText_source_sample : ∃ r, ofText Sample.scattered (some "M") none = .ok r ∧
    r.diagnostics.map Diagnostic.line = [some 3] ∧
    r.commands.map Placed.line = [1, 4, 5, 6] ∧
    r.source = "push local 7\nif-goto A$b:c\npop static 12\nreturn" ∧
    ofText r.source (some "M") (some "M.vm")
      = .ok ⟨[⟨.push (.indirect .lcl) 7, 1, some "M"⟩, ⟨.ifGoto "A$b:c", 2, some "M"⟩,
          ⟨.pop .static 12, 3, some "M"⟩, ⟨.ret, 4, some "M"⟩], []⟩ := by
  have hwords : ∀ line ∈ Text.lines Sample.scattered.toList,
      ∀ w ∈ Text.words (Text.beforeComment line), w.length ≤ 4300 := by decide +kernel
  obtain ⟨r, hread, hagain, -⟩ := ofText_source (some "M") none
    fun line hline w hw => Short.of_length (hwords line hline w hw)
  obtain ⟨s, hs⟩ : ∃ s, s = (ofText Sample.scattered (some "M") none).toOption.getD ⟨[], []⟩ :=
    ⟨_, rfl⟩
  have hr : r = s := by
    rw [hs, hread]
    rfl
  have hsource : s.source = "push local 7\nif-goto A$b:c\npop static 12\nreturn" := by
    rw [hs]
    decide +kernel
  have hrenumbered : s.renumbered = ⟨[⟨.push (.indirect .lcl) 7, 1, some "M"⟩,
      ⟨.ifGoto "A$b:c", 2, some "M"⟩, ⟨.pop .static 12, 3, some "M"⟩,
      ⟨.ret, 4, some "M"⟩], []⟩ := by
    rw [hs]
    decide +kernel
  refine ⟨r, hread, ?_, ?_, hr ▸ hsource, ?_⟩
  · rw [hr, hs]
    decide +kernel
  · rw [hr, hs]
    decide +kernel
  · rw [hagain, hr, hrenumbered]

end HackStack
