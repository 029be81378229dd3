import HackStack.Text.Blank
import HackStack.Text.LineBreak
import Mathlib.Data.List.TakeWhile

/-!
# Lines, comments and words

Reading cuts a text three times: into lines, each line at its comment, and what
is left into words. Each cut is a recursion over characters. Here each has a
relation that says what the pieces have to be, with no reference to the
recursion, and the pieces that are cut are the only ones that qualify:
`areLines_iff`, `uncommented_iff` and `areWords_iff`.
-/

namespace HackStack.Text

/-! ## Lines -/

/-- Whether a text is a line break in front of another text: one of the
characters that end a line, or a carriage return and a line feed. A carriage
return never leaves a line feed behind. -/
def IsBreak (b rest : List Char) : Prop :=
  b = ['\r', '\n'] ∨
    ∃ c, b = [c] ∧ isLineBreak c = true ∧ ¬(c = '\r' ∧ rest.head? = some '\n')

/-- **The lines of a text**: they hold no break, a break follows each of them,
and only the last may do without, unless it is empty. -/
inductive AreLines : List Char → List (List Char) → Prop
  | nil : AreLines [] []
  | last {l : List Char} (hne : l ≠ []) (hl : ∀ c ∈ l, isLineBreak c = false) : AreLines l [l]
  | ended {l b rest : List Char} {ls : List (List Char)} (hl : ∀ c ∈ l, isLineBreak c = false)
      (hb : IsBreak b rest) (h : AreLines rest ls) : AreLines (l ++ b ++ rest) (l :: ls)

/-- A character that ends no line joins the line after it. -/
theorem lines_cons {c : Char} (hc : isLineBreak c = false) (cs : List Char) :
    lines (c :: cs) = match lines cs with
      | [] => [[c]]
      | l :: ls => (c :: l) :: ls := by
  have hcons := lines.eq_3 c cs (by rintro cs' rfl; cases hc)
  rw [if_neg (by rw [hc]; decide)] at hcons
  exact hcons

theorem lines_break {b rest : List Char} (hb : IsBreak b rest) :
    lines (b ++ rest) = [] :: lines rest := by
  rcases hb with rfl | ⟨c, rfl, hc, hcr⟩
  · rfl
  · rw [List.singleton_append, lines.eq_3 c rest, if_pos hc]
    rintro cs rfl rfl
    exact hcr ⟨rfl, rfl⟩

theorem lines_append {l rest : List Char} (hl : ∀ c ∈ l, isLineBreak c = false)
    {first : List Char} {ls : List (List Char)} (h : lines rest = first :: ls) :
    lines (l ++ rest) = (l ++ first) :: ls := by
  induction l with
  | nil => exact h
  | cons c l ih =>
    rw [List.cons_append, lines_cons (hl c List.mem_cons_self),
      ih fun d hd => hl d (List.mem_cons_of_mem c hd)]
    rfl

/-- One line without a break. -/
theorem lines_eq_singleton {l : List Char} (hne : l ≠ []) (hl : ∀ c ∈ l, isLineBreak c = false) :
    lines l = [l] := by
  induction l with
  | nil => exact absurd rfl hne
  | cons c l ih =>
    rw [lines_cons (hl c List.mem_cons_self)]
    cases l with
    | nil => rfl
    | cons d l =>
      rw [ih (List.cons_ne_nil d l) fun x hx => hl x (List.mem_cons_of_mem c hx)]

namespace AreLines

/-- A character that ends no line can be put in front. -/
theorem cons {c : Char} {cs l : List Char} {ls : List (List Char)} (hc : isLineBreak c = false)
    (h : AreLines cs (l :: ls)) : AreLines (c :: cs) ((c :: l) :: ls) := by
  have hcons (l : List Char) (hl : ∀ d ∈ l, isLineBreak d = false) :
      ∀ d ∈ c :: l, isLineBreak d = false := by
    intro d hd
    rcases List.mem_cons.mp hd with rfl | hd
    · exact hc
    · exact hl d hd
  cases h with
  | last hne hl => exact .last (List.cons_ne_nil c cs) (hcons cs hl)
  | ended hl hb h => exact .ended (hcons l hl) hb h

/-- **The lines that are cut are the lines.** -/
theorem of_lines (cs : List Char) : AreLines cs (lines cs) := by
  fun_induction lines cs with
  | case1 => exact .nil
  | case2 cs ih => exact .ended (l := []) (fun _ h => nomatch h) (.inl rfl) ih
  | case3 c cs hcr hc ih =>
    refine .ended (l := []) (b := [c]) (fun _ h => nomatch h) (.inr ⟨c, rfl, hc, ?_⟩) ih
    rintro ⟨rfl, hhead⟩
    obtain ⟨cs', rfl⟩ := List.head?_eq_some_iff.mp hhead
    exact hcr cs' rfl rfl
  | case4 c cs hcr hc hlines ih =>
    rw [hlines] at ih
    cases ih with
    | nil =>
      refine .last (List.cons_ne_nil c []) fun d hd => ?_
      rw [List.mem_singleton.mp hd]
      exact Bool.eq_false_iff.mpr hc
  | case5 c cs hcr hc l ls hlines ih =>
    rw [hlines] at ih
    exact ih.cons (Bool.eq_false_iff.mpr hc)

end AreLines

theorem areLines_iff {cs : List Char} {ls : List (List Char)} :
    AreLines cs ls ↔ ls = lines cs := by
  constructor
  · intro h
    induction h with
    | nil => rfl
    | last hne hl => exact (lines_eq_singleton hne hl).symm
    | ended hl hb h ih =>
      rw [List.append_assoc, lines_append hl (lines_break hb), List.append_nil, ih]
  · rintro rfl
    exact .of_lines cs

/-! ## Comments -/

/-- **The part of a line before its comment**: all of the line when no two slashes
stand in a row in it, and else what stands before the first two. -/
def Uncommented (line part : List Char) : Prop :=
  (part = line ∧ ¬['/', '/'] <:+: line) ∨
    ∃ rest, line = part ++ '/' :: '/' :: rest ∧ ¬['/', '/'] <:+: part ++ ['/']

theorem beforeComment_cons {c : Char} {cs : List Char} (h : ¬['/', '/'] <+: c :: cs) :
    beforeComment (c :: cs) = c :: beforeComment cs := by
  refine beforeComment.eq_3 c cs ?_
  rintro rest rfl rfl
  exact h ⟨rest, rfl⟩

theorem beforeComment_eq_self {line : List Char} (h : ¬['/', '/'] <:+: line) :
    beforeComment line = line := by
  induction line with
  | nil => rfl
  | cons c cs ih =>
    rw [beforeComment_cons fun hp => h hp.isInfix, ih fun hi => h (List.infix_cons hi)]

theorem beforeComment_append {part : List Char} (rest : List Char)
    (h : ¬['/', '/'] <:+: part ++ ['/']) : beforeComment (part ++ '/' :: '/' :: rest) = part := by
  induction part with
  | nil => rfl
  | cons c part ih =>
    have hslashes : ¬['/', '/'] <+: c :: (part ++ '/' :: '/' :: rest) := by
      intro hp
      have hfront : c :: (part ++ ['/']) <+: c :: (part ++ '/' :: '/' :: rest) :=
        ⟨'/' :: rest, by simp⟩
      exact h (List.prefix_of_prefix_length_le hp hfront (by simp)).isInfix
    rw [List.cons_append, beforeComment_cons hslashes, ih fun hi => h (List.infix_cons hi)]

theorem uncommented_beforeComment (line : List Char) : Uncommented line (beforeComment line) := by
  induction line with
  | nil => exact .inl ⟨rfl, by decide⟩
  | cons c cs ih =>
    by_cases hp : ['/', '/'] <+: c :: cs
    · obtain ⟨rest, hrest⟩ := hp
      obtain ⟨rfl, rfl⟩ := List.cons.inj hrest
      show Uncommented _ []
      exact .inr ⟨rest, rfl, by decide⟩
    · rw [beforeComment_cons hp]
      rcases ih with ⟨hpart, hslashes⟩ | ⟨rest, hline, hslashes⟩
      · refine .inl ⟨by rw [hpart], fun hi => ?_⟩
        rcases List.infix_cons_iff.mp hi with hi | hi
        · exact hp hi
        · exact hslashes hi
      · refine .inr ⟨rest, by rw [List.cons_append, ← hline], fun hi => ?_⟩
        rcases List.infix_cons_iff.mp hi with hi | hi
        · refine hp (hi.trans ⟨'/' :: rest, ?_⟩)
          calc c :: (beforeComment cs ++ ['/']) ++ '/' :: rest
              = c :: (beforeComment cs ++ '/' :: '/' :: rest) := by simp
            _ = c :: cs := by rw [← hline]
        · exact hslashes hi

/-- **What is cut at the comment is the part before it.** -/
theorem uncommented_iff {line part : List Char} :
    Uncommented line part ↔ part = beforeComment line := by
  constructor
  · rintro (⟨rfl, h⟩ | ⟨rest, rfl, h⟩)
    · exact (beforeComment_eq_self h).symm
    · exact (beforeComment_append rest h).symm
  · rintro rfl
    exact uncommented_beforeComment line

/-! ## Words -/

/-- **The words of a text**: stretches without a blank that are not empty, with
nothing but blanks around them, and at least one behind each of them that is
not the end of the text. -/
inductive AreWords : List Char → List (List Char) → Prop
  | nil {cs : List Char} (h : ∀ c ∈ cs, isBlank c = true) : AreWords cs []
  | cons {lead w rest : List Char} {ws : List (List Char)} (hlead : ∀ c ∈ lead, isBlank c = true)
      (hne : w ≠ []) (hw : ∀ c ∈ w, isBlank c = false) (hrest : ∀ c ∈ rest.head?, isBlank c = true)
      (h : AreWords rest ws) : AreWords (lead ++ w ++ rest) (w :: ws)

theorem startsWord_eq_false {cs : List Char} :
    startsWord cs = false ↔ ∀ c ∈ cs.head?, isBlank c = true := by
  cases cs with
  | nil => simp [startsWord]
  | cons c cs => simp [startsWord]

/-- Blanks in front change no word. -/
theorem words_blanks_append {lead : List Char} (h : ∀ c ∈ lead, isBlank c = true)
    (cs : List Char) : words (lead ++ cs) = words cs := by
  induction lead with
  | nil => rfl
  | cons c lead ih =>
    rw [List.cons_append, words_cons_blank (h c List.mem_cons_self),
      ih fun d hd => h d (List.mem_cons_of_mem c hd)]

/-- A word up to a blank or the end comes first. -/
theorem words_append {w rest : List Char} (hne : w ≠ []) (hw : ∀ c ∈ w, isBlank c = false)
    (hrest : ∀ c ∈ rest.head?, isBlank c = true) : words (w ++ rest) = w :: words rest := by
  induction w with
  | nil => exact absurd rfl hne
  | cons c w ih =>
    have hc : ¬isBlank c = true := by
      rw [hw c List.mem_cons_self]
      decide
    rw [List.cons_append, words, if_neg hc]
    cases w with
    | nil =>
      rw [List.nil_append, if_neg (by rw [startsWord_eq_false.mpr hrest]; decide)]
    | cons d w =>
      have hd : startsWord (d :: w ++ rest) = true := by
        rw [List.cons_append, startsWord, hw d (List.mem_cons_of_mem c List.mem_cons_self)]
        rfl
      rw [if_pos hd, ih (List.cons_ne_nil d w) fun x hx => hw x (List.mem_cons_of_mem c hx)]
      rfl

namespace AreWords

/-- A blank can be put in front. -/
theorem cons_blank {c : Char} {cs : List Char} {ws : List (List Char)} (hc : isBlank c = true)
    (h : AreWords cs ws) : AreWords (c :: cs) ws := by
  have hcons (lead : List Char) (hlead : ∀ d ∈ lead, isBlank d = true) :
      ∀ d ∈ c :: lead, isBlank d = true := by
    intro d hd
    rcases List.mem_cons.mp hd with rfl | hd
    · exact hc
    · exact hlead d hd
  cases h with
  | nil hcs => exact .nil (hcons cs hcs)
  | cons hlead hne hw hrest h => exact .cons (hcons _ hlead) hne hw hrest h

/-- A character that is no blank joins the word that starts right after it. -/
theorem join {c : Char} {cs : List Char} {ws : List (List Char)} (hc : isBlank c = false)
    (hcs : startsWord cs = true) (h : AreWords cs ws) : AreWords (c :: cs) (joinFirst c ws) := by
  cases h with
  | nil hblank =>
    rw [startsWord_eq_false.mpr fun d hd => hblank d (List.mem_of_mem_head? hd)] at hcs
    cases hcs
  | @cons lead w rest ws hlead hne hw hrest h =>
    cases lead with
    | nil =>
      refine @cons [] (c :: w) rest ws (fun _ hd => nomatch hd) (List.cons_ne_nil c w) ?_ hrest h
      intro d hd
      rcases List.mem_cons.mp hd with rfl | hd
      · exact hc
      · exact hw d hd
    | cons d lead =>
      rw [List.cons_append, List.cons_append, startsWord, hlead d List.mem_cons_self] at hcs
      cases hcs

/-- There is no blank in a word. -/
theorem isBlank_eq_false {cs w : List Char} {ws : List (List Char)} (h : AreWords cs ws)
    (hw : w ∈ ws) : ∀ c ∈ w, isBlank c = false := by
  induction h with
  | nil => cases hw
  | cons hlead hne hfirst hrest h ih =>
    rcases List.mem_cons.mp hw with rfl | hw
    · exact hfirst
    · exact ih hw

/-- Blanks can be put behind. -/
theorem append_blanks {cs trail : List Char} {ws : List (List Char)} (h : AreWords cs ws)
    (htrail : ∀ c ∈ trail, isBlank c = true) : AreWords (cs ++ trail) ws := by
  induction h with
  | nil hcs =>
    refine .nil fun c hc => ?_
    rcases List.mem_append.mp hc with hc | hc
    · exact hcs c hc
    · exact htrail c hc
  | cons hlead hne hw hrest h ih =>
    rw [List.append_assoc]
    refine .cons hlead hne hw (fun c hc => ?_) ih
    rw [List.head?_append] at hc
    rcases Option.or_eq_some_iff.mp hc with hc | ⟨-, hc⟩
    · exact hrest c hc
    · exact htrail c (List.mem_of_mem_head? hc)

/-- **The words that are cut are the words.** -/
theorem of_words (cs : List Char) : AreWords cs (words cs) := by
  induction cs with
  | nil => exact .nil fun _ hc => nomatch hc
  | cons c cs ih =>
    rw [words]
    split
    next hc => exact ih.cons_blank hc
    next hc =>
      rw [Bool.not_eq_true] at hc
      split
      next hcs => exact ih.join hc hcs
      next hcs =>
        rw [Bool.not_eq_true, startsWord_eq_false] at hcs
        refine @cons [] [c] cs _ (fun _ hd => nomatch hd) (List.cons_ne_nil c [])
          (fun d hd => ?_) hcs ih
        rw [List.mem_singleton.mp hd]
        exact hc

end AreWords

theorem areWords_iff {cs : List Char} {ws : List (List Char)} :
    AreWords cs ws ↔ ws = words cs := by
  constructor
  · intro h
    induction h with
    | nil hcs =>
      have hwords := words_blanks_append hcs []
      rw [List.append_nil] at hwords
      exact hwords.symm
    | cons hlead hne hw hrest h ih =>
      rw [List.append_assoc, words_blanks_append hlead, words_append hne hw hrest, ih]
  · rintro rfl
    exact .of_words cs

theorem isBlank_of_mem_words {cs w : List Char} (hw : w ∈ words cs) :
    ∀ c ∈ w, isBlank c = false :=
  (AreWords.of_words cs).isBlank_eq_false hw

/-! ## The blanks around a line -/

theorem trim_eq_nil_iff {cs : List Char} : trim cs = [] ↔ ∀ c ∈ cs, isBlank c = true := by
  rw [trim, trimEnd, List.reverse_eq_nil_iff, List.dropWhile_eq_nil_iff]
  simp only [List.mem_reverse]
  constructor
  · intro h c hc
    rw [← List.takeWhile_append_dropWhile (p := isBlank) (l := cs)] at hc
    rcases List.mem_append.mp hc with hc | hc
    · exact List.mem_takeWhile_imp hc
    · exact h c hc
  · exact fun h c hc => h c ((List.dropWhile_sublist isBlank).mem hc)

/-- Trimming drops blanks only. -/
theorem exists_trim (cs : List Char) : ∃ lead trail, cs = lead ++ trim cs ++ trail ∧
    (∀ c ∈ lead, isBlank c = true) ∧ ∀ c ∈ trail, isBlank c = true := by
  refine ⟨cs.takeWhile isBlank, ((cs.dropWhile isBlank).reverse.takeWhile isBlank).reverse,
    ?_, fun c hc => List.mem_takeWhile_imp hc,
    fun c hc => List.mem_takeWhile_imp (List.mem_reverse.mp hc)⟩
  rw [trim, trimEnd, List.append_assoc, ← List.reverse_append, List.takeWhile_append_dropWhile,
    List.reverse_reverse, List.takeWhile_append_dropWhile]

/-- A text without blanks is not trimmed. -/
theorem trim_of_isBlank {cs : List Char} (h : ∀ c ∈ cs, isBlank c = false) : trim cs = cs := by
  obtain ⟨lead, trail, hcs, hlead, htrail⟩ := exists_trim cs
  have hnil (bs : List Char) (hbs : ∀ c ∈ bs, isBlank c = true) (hmem : ∀ c ∈ bs, c ∈ cs) :
      bs = [] := by
    refine List.eq_nil_iff_forall_not_mem.mpr fun c hc => ?_
    have hblank := hbs c hc
    rw [h c (hmem c hc)] at hblank
    cases hblank
  have hlead_nil := hnil lead hlead fun c hc => hcs ▸ by simp [hc]
  have htrail_nil := hnil trail htrail fun c hc => hcs ▸ by simp [hc]
  rw [hlead_nil, htrail_nil, List.nil_append, List.append_nil] at hcs
  exact hcs.symm

/-- The blanks around a text are around its words. -/
theorem words_trim (cs : List Char) : words (trim cs) = words cs := by
  obtain ⟨lead, trail, hcs, hlead, htrail⟩ := exists_trim cs
  have hwords := areWords_iff.mp ((AreWords.of_words (trim cs)).append_blanks htrail)
  rw [hwords, ← words_blanks_append hlead, ← List.append_assoc, ← hcs]

end HackStack.Text
