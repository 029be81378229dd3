import HackStack.Proofs.Assembling
import HackStack.Proofs.Written

/-!
# Text that is not loaded

Loading refuses two kinds of text: a label that is not new, and a line that is
no instruction. The labels come first, for they are all read before any
instruction is: a label that is not new is reported even where a bad line
stands before it. Of the lines it is the first bad one that counts.

Whether a line is bad is a matter of the line alone (`Loading.Sound`). It is
nearly what `isInstruction` says; the two differ at address instructions, where
`isInstruction` asks for any operand at all and loading for one that is no
number or a number of fifteen bits. A bare `@` is thus loaded, as the variable
without a name, and it is the only line for which loading asks less
(`Loading.load_verdict`).
-/

namespace HackStack.Loading

/-! ## Lines -/

/-- **An operand that can be loaded**: one that looks like a number is one, with
no more digits than are read, and of fifteen bits. -/
def OperandOk (operand : List Char) : Prop :=
  isNumber operand = true → (∀ c ∈ operand, Text.isDecimal c = true) ∧ operand.length ≤ 4300 ∧
    digitsValue operand < 2 ^ 15

/-- **A line that can be loaded.** -/
inductive Sound (line : String) : Prop
  | blank (h : Text.trim line.toList = [])
  | address {operand : List Char} (h : Text.trim line.toList = '@' :: operand)
    (hop : OperandOk operand)
  /-- A label or a compute instruction. -/
  | other (hat : (Text.trim line.toList).head? ≠ some '@') (h : isInstruction line.toList = true)

/-- **What is reported about a line that cannot be loaded.** -/
inductive Complaint (line : String) : LoadError → Prop
  /-- The operand looks like a number and cannot be read as one. -/
  | numeral {operand : List Char} {e : Text.NumeralError}
    (h : Text.trim line.toList = '@' :: operand) (hnum : isNumber operand = true)
    (hread : Text.readNumeral operand = .error e) : Complaint line (.numeral e)
  /-- The operand is a number of more than fifteen bits. -/
  | tooWide {operand : List Char} (h : Text.trim line.toList = '@' :: operand)
    (hnum : isNumber operand = true) (hdigits : ∀ c ∈ operand, Text.isDecimal c = true)
    (hlen : operand.length ≤ 4300) (hwide : 2 ^ 15 ≤ digitsValue operand) :
    Complaint line (.tooWide (Text.strip line))
  /-- The destination or the jump is not known, whatever the computation is. -/
  | invalid (hat : (Text.trim line.toList).head? ≠ some '@')
    (hbad : isInstruction line.toList = false)
    (hpart : Dest.ofText? (String.ofList (splitCompute (Text.trim line.toList)).dest) = none ∨
      Jump.ofText? (String.ofList (splitCompute (Text.trim line.toList)).jump) = none) :
    Complaint line (.invalid (Text.strip line))
  /-- The destination and the jump are known, the computation is not. -/
  | mnemonic {dest : Dest} {jump : Jump} (hat : (Text.trim line.toList).head? ≠ some '@')
    (hbad : isInstruction line.toList = false)
    (hdest : Dest.ofText? (String.ofList (splitCompute (Text.trim line.toList)).dest) = some dest)
    (hjump : Jump.ofText? (String.ofList (splitCompute (Text.trim line.toList)).jump) = some jump) :
    Complaint line
      (.mnemonic (.computation (String.ofList (splitCompute (Text.trim line.toList)).comp)))

section Instructions

variable {line : List Char}

theorem isInstruction_of_label (h : labelName? (Text.trim line) ≠ none) :
    isInstruction line = true := by
  unfold isInstruction
  exact if_pos (Option.isSome_iff_ne_none.mpr h)

/-- What starts with the sign of an address is no label. -/
theorem labelName?_address (operand : List Char) : labelName? ('@' :: operand) = none := by
  unfold labelName?
  split
  next heq =>
    rw [Text.trim_cons (by decide)] at heq
    simp at heq
  next => rfl

theorem isInstruction_address {operand : List Char} (h : Text.trim line = '@' :: operand) :
    isInstruction line = !operand.isEmpty := by
  unfold isInstruction
  dsimp only
  rw [h, labelName?_address, if_neg (by decide)]
  split
  next rest heq => rw [(List.cons.inj heq).2]
  next hat => exact absurd rfl (hat operand)

/-- A compute instruction is well formed when its three parts are known. -/
theorem isInstruction_compute (hat : (Text.trim line).head? ≠ some '@')
    (hlabel : labelName? (Text.trim line) = none) :
    isInstruction line = (splitCompute (Text.trim line)).isKnown := by
  unfold isInstruction
  dsimp only
  rw [hlabel, if_neg (by decide)]
  split
  next heq => exact absurd (by rw [heq]; rfl) hat
  next => rfl

end Instructions

/-- **A sound line is decoded**, with any table. -/
theorem Sound.decode {line : String} (hs : Sound line) (hne : Text.trim line.toList ≠ [])
    (hlabel : labelName? (Text.trim line.toList) = none) (v : Variables) :
    ∃ r, decode v (Text.trim line.toList) = .ok r := by
  cases hs with
  | blank h => exact absurd h hne
  | address h hop =>
    rename_i operand
    rw [h]
    cases hnum : isNumber operand with
    | true =>
      obtain ⟨hdigits, hlen, hlt⟩ := hop hnum
      have hop : operand ≠ [] := by
        rintro rfl
        cases hnum
      rw [decode_number v hnum (Text.readNumeral_of_digits hop hdigits hlen), if_pos hlt]
      exact ⟨_, rfl⟩
    | false => exact ⟨_, decode_symbol v hnum⟩
  | other hat h =>
    rw [isInstruction_compute hat hlabel, ComputeText.isKnown, Bool.and_eq_true, Bool.and_eq_true,
      Option.isSome_iff_exists, Option.isSome_iff_exists, Option.isSome_iff_exists] at h
    obtain ⟨⟨⟨dest, hdest⟩, comp, hcomp⟩, jump, hjump⟩ := h
    exact ⟨_, decode_compute_ok v hat hdest hcomp hjump⟩

/-- A line that is not sound is a line of code. -/
theorem isCode_of_not_sound {line : String} (hs : ¬ Sound line) :
    Text.trim line.toList ≠ [] ∧ labelName? (Text.trim line.toList) = none := by
  refine ⟨fun h => hs (.blank h), ?_⟩
  by_contra hlabel
  refine hs (.other (fun hat => hlabel ?_) (isInstruction_of_label hlabel))
  obtain ⟨operand, hop⟩ := List.head?_eq_some_iff.mp hat
  rw [hop, labelName?_address]

/-- **A line that is not sound is refused**, with any table and always for one
reason. -/
theorem refused_of_not_sound {line : String} (hs : ¬ Sound line) :
    ∃ e, Complaint line e ∧ ∀ v, decode v (Text.trim line.toList) = .error e := by
  by_cases hat : (Text.trim line.toList).head? = some '@'
  · obtain ⟨operand, hop⟩ := List.head?_eq_some_iff.mp hat
    obtain ⟨hnum, hbad⟩ := Classical.not_imp.mp fun h : OperandOk operand => hs (.address hop h)
    have hstrip : String.ofList ('@' :: operand) = Text.strip line := by rw [Text.strip, hop]
    rw [hop]
    cases hread : Text.readNumeral operand with
    | error e => exact ⟨_, .numeral hop hnum hread, fun v => decode_number_error v hnum hread⟩
    | ok n =>
      obtain ⟨-, hdigits, hlen, rfl⟩ := Text.readNumeral_eq_ok.mp hread
      have hwide : 2 ^ 15 ≤ digitsValue operand :=
        Nat.not_lt.mp fun hlt => hbad ⟨hdigits, hlen, hlt⟩
      refine ⟨_, .tooWide hop hnum hdigits hlen hwide, fun v => ?_⟩
      rw [decode_number v hnum hread, if_neg (Nat.not_lt.mpr hwide), hstrip]
  · have hbad : isInstruction line.toList = false :=
      Bool.eq_false_iff.mpr fun h => hs (.other hat h)
    have hlabel := (isCode_of_not_sound hs).2
    cases hdest : Dest.ofText? (String.ofList (splitCompute (Text.trim line.toList)).dest) with
    | none => exact ⟨_, .invalid hat hbad (.inl hdest),
        fun v => decode_compute_invalid v hat (.inl hdest)⟩
    | some dest =>
      cases hjump : Jump.ofText? (String.ofList (splitCompute (Text.trim line.toList)).jump) with
      | none => exact ⟨_, .invalid hat hbad (.inr hjump),
          fun v => decode_compute_invalid v hat (.inr hjump)⟩
      | some jump =>
        refine ⟨_, .mnemonic hat hbad hdest hjump,
          fun v => decode_compute_mnemonic v hat hdest ?_ hjump⟩
        rw [isInstruction_compute hat hlabel, ComputeText.isKnown, hdest, hjump] at hbad
        simpa using hbad

/-! ## Texts -/

theorem codeLines_source_of_code {line : String} (hne : Text.trim line.toList ≠ [])
    (hlabel : labelName? (Text.trim line.toList) = none) :
    codeLines (source [line]) = [Text.trim line.toList] := by
  rw [source, List.map_singleton, List.filter_cons_of_pos (by simpa using hne), List.filter_nil,
    codeLines_cons_code _ hlabel]
  rfl

/-- Blank lines and labels are no code. -/
theorem codeLines_source_of_not_code {line : String}
    (h : ¬ (Text.trim line.toList ≠ [] ∧ labelName? (Text.trim line.toList) = none)) :
    codeLines (source [line]) = [] := by
  rw [source, List.map_singleton]
  by_cases hblank : Text.trim line.toList = []
  · rw [hblank]
    rfl
  · obtain ⟨name, hname⟩ := Option.ne_none_iff_exists'.mp fun hlabel => h ⟨hblank, hlabel⟩
    rw [List.filter_cons_of_pos (by simpa using hblank), List.filter_nil,
      codeLines_cons_label _ hname]
    rfl

theorem codeLines_source_cons (line : String) (rest : List String) :
    codeLines (source (line :: rest)) = codeLines (source [line]) ++ codeLines (source rest) := by
  rw [← codeLines_append, ← source_append]
  rfl

/-- Sound lines are decoded one after the other. -/
theorem exists_decodeAll {lines : List String} (h : ∀ line ∈ lines, Sound line) (v : Variables) :
    ∃ r, decodeAll v (codeLines (source lines)) = .ok r := by
  induction lines generalizing v with
  | nil => exact ⟨_, rfl⟩
  | cons line rest ih =>
    have hrest := ih fun l hl => h l (List.mem_cons_of_mem line hl)
    rw [codeLines_source_cons]
    by_cases hcode : Text.trim line.toList ≠ [] ∧ labelName? (Text.trim line.toList) = none
    · obtain ⟨hne, hlabel⟩ := hcode
      obtain ⟨⟨ins, v₁⟩, hline⟩ := (h line List.mem_cons_self).decode hne hlabel v
      obtain ⟨r, hr⟩ := hrest v₁
      rw [codeLines_source_of_code hne hlabel, List.singleton_append, decodeAll, hline]
      show ∃ r, (decodeAll v₁ _ >>= fun _ => _) = .ok r
      rw [hr]
      exact ⟨_, rfl⟩
    · rw [codeLines_source_of_not_code hcode]
      exact hrest v

/-- **The first line that is not sound ends the second pass.** -/
theorem decodeAll_of_not_sound {pre : List String} {line : String} (hpre : ∀ l ∈ pre, Sound l)
    (hline : ¬ Sound line) (post : List String) :
    ∃ e, Complaint line e ∧
      ∀ v, decodeAll v (codeLines (source (pre ++ line :: post))) = .error e := by
  obtain ⟨e, he, hdecode⟩ := refused_of_not_sound hline
  refine ⟨e, he, fun v => ?_⟩
  obtain ⟨⟨is, v₁⟩, hok⟩ := exists_decodeAll hpre v
  obtain ⟨hne, hlabel⟩ := isCode_of_not_sound hline
  rw [source_append, codeLines_append, decodeAll_append_of_ok hok, codeLines_source_cons,
    codeLines_source_of_code hne hlabel, List.singleton_append, decodeAll, hdecode v₁]
  rfl

/-- A text that is not all sound has a first line that is not. -/
theorem exists_first_not_sound {lines : List String} (h : ¬ ∀ line ∈ lines, Sound line) :
    ∃ pre line post, lines = pre ++ line :: post ∧ (∀ l ∈ pre, Sound l) ∧ ¬ Sound line := by
  induction lines with
  | nil => exact absurd (fun _ hl => by cases hl) h
  | cons line rest ih =>
    by_cases hline : Sound line
    · obtain ⟨pre, l, post, rfl, hpre, hl⟩ := ih fun hrest =>
        h (List.forall_mem_cons.mpr ⟨hline, hrest⟩)
      exact ⟨line :: pre, l, post, rfl, List.forall_mem_cons.mpr ⟨hline, hpre⟩, hl⟩
    · exact ⟨[], line, rest, rfl, List.forall_mem_nil _, hline⟩

variable {lines : List String}

/-- **The first line that is not sound ends loading**, where the labels are
new. -/
theorem load_of_not_sound (hfresh : Fresh .predefined (labelNames lines))
    (hsound : ¬ ∀ line ∈ lines, Sound line) :
    ∃ pre line post e, lines = pre ++ line :: post ∧ (∀ l ∈ pre, Sound l) ∧ ¬ Sound line ∧
      Complaint line e ∧ Machine.load lines = .error e := by
  obtain ⟨pre, line, post, hsplit, hpre, hline⟩ := exists_first_not_sound hsound
  obtain ⟨e, he, hcode⟩ := decodeAll_of_not_sound hpre hline post
  refine ⟨pre, line, post, e, hsplit, hpre, hline, he, ?_⟩
  rw [load_of_fresh hfresh, hsplit, hcode]
  rfl

/-- **A text is loaded exactly when its labels are new and its lines are
sound.** -/
theorem exists_load_iff : (∃ m, Machine.load lines = .ok m) ↔
    Fresh .predefined (labelNames lines) ∧ ∀ line ∈ lines, Sound line := by
  constructor
  · rintro ⟨m, hm⟩
    obtain ⟨-, -, names, hlists, -⟩ := load_eq_ok hm
    have hfresh : Fresh .predefined (labelNames lines) := hlists.freshLabels
    refine ⟨hfresh, ?_⟩
    by_contra hsound
    obtain ⟨-, -, -, e, -, -, -, -, herr⟩ := load_of_not_sound hfresh hsound
    rw [hm] at herr
    cases herr
  · rintro ⟨hfresh, hsound⟩
    obtain ⟨r, hr⟩ := exists_decodeAll hsound _
    rw [load_of_fresh hfresh, hr]
    exact ⟨_, rfl⟩

/-- A line that is no instruction is not sound, unless it is a bare `@`. -/
theorem not_sound_of_not_isInstruction {line : String} (hne : Text.trim line.toList ≠ [])
    (hbad : isInstruction line.toList = false) (hbare : Text.trim line.toList ≠ ['@']) :
    ¬ Sound line := by
  intro hs
  cases hs with
  | blank h => exact hne h
  | address h _ =>
    rw [isInstruction_address h, Bool.not_eq_false', List.isEmpty_iff] at hbad
    rw [hbad] at h
    exact hbare h
  | other _ h =>
    rw [h] at hbad
    cases hbad

/-- **What loading says about a text.** It succeeds exactly when the labels are
new and the lines are sound. Where a label is not new, the first such label is
reported, whatever the lines are. Otherwise it is the first line that is not
sound, with what is wrong with it. So a line that is no instruction keeps every
text that it stands in from being loaded, unless it is a bare `@`. -/
theorem load_verdict (lines : List String) :
    ((∃ m, Machine.load lines = .ok m) ↔
      Fresh .predefined (labelNames lines) ∧ ∀ line ∈ lines, Sound line) ∧
    (¬ Fresh .predefined (labelNames lines) → ∃ x, Clashes .predefined (labelNames lines) x ∧
      Machine.load lines = .error (.redefined x) ∧
      (LoadError.redefined x).message = "Etiqueta redefinida: " ++ x) ∧
    (Fresh .predefined (labelNames lines) → (¬ ∀ line ∈ lines, Sound line) →
      ∃ pre line post e, lines = pre ++ line :: post ∧ (∀ l ∈ pre, Sound l) ∧ ¬ Sound line ∧
        Complaint line e ∧ Machine.load lines = .error e) ∧
    ∀ line ∈ lines, Text.trim line.toList ≠ [] → isInstruction line.toList = false →
      Text.trim line.toList ≠ ['@'] → ∃ e, Machine.load lines = .error e := by
  refine ⟨exists_load_iff, fun h => ?_, load_of_not_sound, fun line hmem hne hbad hbare => ?_⟩
  · obtain ⟨x, hx⟩ := exists_clashes h
    exact ⟨x, hx, load_of_clashes hx, rfl⟩
  · cases hload : Machine.load lines with
    | error e => exact ⟨e, rfl⟩
    | ok m =>
      have hsound := (exists_load_iff.mp ⟨m, hload⟩).2 line hmem
      exact absurd hsound (not_sound_of_not_isInstruction hne hbad hbare)

-- a label that is not new is reported before the lines that stand before it
example : (Machine.load ["Q", "(A)", "@²", "(A)"]).map Machine.pc = .error (.redefined "A") := by
  decide +kernel

example : (Machine.load ["(A)", "@", "@²", "Q"]).map Machine.pc
    = .error (.numeral (.notDecimal "²")) := by
  decide +kernel

end HackStack.Loading
