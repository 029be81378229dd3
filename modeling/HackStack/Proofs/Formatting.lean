import HackStack.Proofs.Grammar
import Mathlib.Data.List.Forall2

/-!
# Formatting

The words of a source are what it means; where they stand is formatting. Two
texts with the same rows of words (`wordRows`) may differ in comments, in blank
lines, in the characters that end a line and in the blanks around and between
words. They are read to the same commands, which differ in the numbers of their
lines only, and to the same errors, which differ in the number of the line and
in its text, since the text of the line is quoted.

A command carries the number of its line through all of linking. It must not
get into a label, a counter or a decision: the statement is about two runs, and
so are the lemmas. `Agree` relates the results of two runs that may fail. Each
function of reading and linking takes related arguments to results that agree,
up to `Program.link_formatting`.
-/

namespace HackStack

/-! ## Two runs -/

/-- **The results of two runs agree**: both fail, with related errors, or both
succeed, with related values. -/
inductive Agree {ε ε' α α' : Type} (E : ε → ε' → Prop) (R : α → α' → Prop) :
    Except ε α → Except ε' α' → Prop
  | error {e : ε} {e' : ε'} (h : E e e') : Agree E R (.error e) (.error e')
  | ok {a : α} {a' : α'} (h : R a a') : Agree E R (.ok a) (.ok a')

namespace Agree

variable {ε ε' α α' β β' : Type} {E : ε → ε' → Prop} {R : α → α' → Prop} {S : β → β' → Prop}
  {x : Except ε α} {x' : Except ε' α'}

theorem refl (x : Except ε α) : Agree Eq Eq x x := by
  cases x with
  | error e => exact .error rfl
  | ok a => exact .ok rfl

/-- Runs that agree can be continued by runs that agree. -/
theorem bind {f : α → Except ε β} {f' : α' → Except ε' β'} (hx : Agree E R x x')
    (hf : ∀ a a', R a a' → Agree E S (f a) (f' a')) : Agree E S (x >>= f) (x' >>= f') := by
  cases hx with
  | error h => exact .error h
  | ok h => exact hf _ _ h

theorem mapM {xs : List β} {xs' : List β'} {f : β → Except ε α} {f' : β' → Except ε' α'}
    (h : List.Forall₂ S xs xs') (hf : ∀ b b', S b b' → Agree E R (f b) (f' b')) :
    Agree E (List.Forall₂ R) (xs.mapM f) (xs'.mapM f') := by
  induction h with
  | nil => exact .ok .nil
  | cons hb _ ih =>
    rw [List.mapM_cons, List.mapM_cons]
    exact (hf _ _ hb).bind fun a a' ha => ih.bind fun as as' has => .ok (.cons ha has)

end Agree

/-! ## Commands and diagnostics but for their lines -/

/-- **Two commands that are the same but for the line**; if one has a line, so
has the other. -/
structure Placed.SameButLine {α : Type} (p q : Placed α) : Prop where
  item : p.item = q.item
  moduleName : p.moduleName = q.moduleName
  line : p.line = 0 ↔ q.line = 0

/-- **Two diagnostics that are the same but for the line**; if one names a
line, so does the other. -/
structure Diagnostic.SameButLine (d e : Diagnostic) : Prop where
  severity : d.severity = e.severity
  message : d.message = e.message
  hint : d.hint = e.hint
  file : d.file = e.file
  line : d.line.isSome = e.line.isSome

theorem Diagnostic.SameButLine.refl (d : Diagnostic) : d.SameButLine d := ⟨rfl, rfl, rfl, rfl, rfl⟩

theorem Diagnostic.sameButLine_ofFault (f : Fault) {l l' : Option Int} (h : l.isSome = l'.isSome)
    (file command : Option String) :
    (ofFault f l file command).SameButLine (ofFault f l' file command) := ⟨rfl, rfl, rfl, rfl, h⟩

theorem Placed.SameButLine.isSome_line? {α : Type} {p q : Placed α} (h : p.SameButLine q) :
    p.line?.isSome = q.line?.isSome := by
  unfold line?
  by_cases hp : p.line = 0
  · rw [if_pos hp, if_pos (h.line.mp hp)]
  · rw [if_neg hp, if_neg (mt h.line.mpr hp)]
    rfl

/-- Diagnostics that are the same but for lines are equally serious. -/
theorem hasErrors_of_forall₂ {ds es : List Diagnostic}
    (h : List.Forall₂ Diagnostic.SameButLine ds es) : hasErrors ds = hasErrors es := by
  induction h with
  | nil => rfl
  | cons hd _ ih =>
    unfold hasErrors at ih ⊢
    rw [List.any_cons, List.any_cons, ih, Diagnostic.isError, hd.severity]
    rfl

/-! ## Lines with the same words -/

/-- **The rows of words of a text**: the words of each line that has any,
without its comment. -/
def wordRows (text : String) : List (List String) :=
  ((Text.lines text.toList).map lineWords).filter (!·.isEmpty)

/-- The lines of a text that have words, with their numbers. -/
def wordLines (text : String) : List (List Char × Nat) :=
  ((Text.lines text.toList).zipIdx 1).filter fun p => !(lineWords p.1).isEmpty

theorem map_lineWords_wordLines (text : String) :
    (wordLines text).map (fun p => lineWords p.1) = wordRows text := by
  have hfst : Text.lines text.toList = ((Text.lines text.toList).zipIdx 1).map Prod.fst :=
    (List.zipIdx_map_fst ..).symm
  rw [wordRows, hfst, List.map_map, List.filter_map]
  rfl

theorem Text.words_eq_nil_iff {cs : List Char} : words cs = [] ↔ ∀ c ∈ cs, isBlank c = true := by
  constructor
  · intro h
    have hwords := AreWords.of_words cs
    rw [h] at hwords
    cases hwords with
    | nil hblank => exact hblank
  · exact fun h => (areWords_iff.mp (.nil h)).symm

/-- A line has words when it is not blank before its comment. -/
theorem core_eq_nil_iff {line : List Char} : Text.core line = [] ↔ lineWords line = [] := by
  rw [Text.core, Text.trim_eq_nil_iff, lineWords, List.map_eq_nil_iff, Text.words_eq_nil_iff]

theorem readLine_eq_none {line : List Char} (h : lineWords line = []) (name place : Option String)
    (number : Nat) : readLine name place number line = .ok none := by
  unfold readLine
  rw [core_eq_nil_iff.mpr h]
  rfl

/-- Only the lines with words are read. -/
theorem readLines_eq_mapM (name place : Option String) (number : Nat) (lines : List (List Char)) :
    readLines name place number lines
      = (((lines.zipIdx number).filter fun p => !(lineWords p.1).isEmpty).mapM
          fun p => readLine name place p.2 p.1) >>= fun items => pure (items.filterMap id) := by
  induction lines generalizing number with
  | nil => rfl
  | cons line rest ih =>
    rw [readLines, List.zipIdx_cons, ih]
    by_cases hwords : lineWords line = []
    · rw [List.filter_cons_of_neg (by simp [hwords]), readLine_eq_none hwords]
      exact bind_pure (m := Except Text.NumeralError) _
    · rw [List.filter_cons_of_pos (by simpa using hwords), List.mapM_cons]
      simp only [bind_assoc, pure_bind]
      refine congrArg _ (funext fun item => congrArg _ (funext fun items => ?_))
      cases item <;> rfl

/-- **The words of a line decide what is read from it.** -/
theorem read_core_congr {line line' : List Char} (h : lineWords line = lineWords line') :
    Command.read (Text.core line) = Command.read (Text.core line') := by
  have hwords (l : List Char) : (Text.words (Text.core l)).map String.ofList = lineWords l := by
    rw [lineWords, Text.core, Text.words_trim]
  unfold Command.read splitOperation
  rw [hwords, hwords, h]

/-! ## Reading two texts -/

/-- **Two errors that say the same about lines of two texts.** Each names its
line and quotes it, without the comment and the blanks around it; all else is
the same. -/
inductive SameFault (text text' : String) : Diagnostic → Diagnostic → Prop
  | mk {line line' : List Char} {n n' : Nat} (said : String) (hint file : Option String)
      (hline : (line, n) ∈ (Text.lines text.toList).zipIdx 1)
      (hline' : (line', n') ∈ (Text.lines text'.toList).zipIdx 1) :
      SameFault text text'
        ⟨.error, said ++ " en '" ++ String.ofList (Text.core line) ++ "'", some n, hint, file⟩
        ⟨.error, said ++ " en '" ++ String.ofList (Text.core line') ++ "'", some n', hint, file⟩

/-- Two items that are the same but for the place and the quoted text. -/
inductive SameItem (text text' : String) : Item → Item → Prop
  | command {p q : Placed Command} (h : p.SameButLine q) :
      SameItem text text' (.command p) (.command q)
  | diagnostic {d e : Diagnostic} (h : SameFault text text' d e) :
      SameItem text text' (.diagnostic d) (.diagnostic e)

/-- **Two readings that are the same but for lines and quoted text.** -/
structure Reading.SameButLines (text text' : String) (r r' : Reading) : Prop where
  commands : List.Forall₂ Placed.SameButLine r.commands r'.commands
  diagnostics : List.Forall₂ (SameFault text text') r.diagnostics r'.diagnostics

/-- The error about a fault in a line quotes the line. -/
theorem ofFault_core {line : List Char} (hcore : Text.core line ≠ []) (f : Fault) (n : Nat)
    (file : Option String) :
    Diagnostic.ofFault f (some n) file (some (String.ofList (Text.core line)))
      = ⟨.error, f.message ++ " en '" ++ String.ofList (Text.core line) ++ "'", some n,
          f.hint?.or f.kind.hint?, file⟩ := by
  have hempty : ¬(String.ofList (Text.core line)).isEmpty = true := by
    rw [String.isEmpty_iff]
    exact fun h => hcore (by rw [← String.toList_ofList (l := Text.core line), h]; rfl)
  unfold Diagnostic.ofFault Diagnostic.report Diagnostic.error
  dsimp only
  rw [if_neg hempty]
  show Diagnostic.mk _ (f.message ++ (" en '" ++ String.ofList (Text.core line) ++ "'")) _ _ _ = _
  simp only [String.append_assoc]

variable {text text' : String}

/-- **Two lines with the same words give the same item.** -/
theorem agree_readLine {p q : List Char × Nat} (hp : p ∈ wordLines text) (hq : q ∈ wordLines text')
    (hwords : lineWords p.1 = lineWords q.1) (name place : Option String) :
    Agree Eq (Option.Rel (SameItem text text')) (readLine name place p.2 p.1)
      (readLine name place q.2 q.1) := by
  obtain ⟨hp, hpwords⟩ := List.mem_filter.mp hp
  obtain ⟨hq, hqwords⟩ := List.mem_filter.mp hq
  have hpcore : Text.core p.1 ≠ [] := mt core_eq_nil_iff.mp (by simpa using hpwords)
  have hqcore : Text.core q.1 ≠ [] := mt core_eq_nil_iff.mp (by simpa using hqwords)
  have hpline := List.le_snd_of_mem_zipIdx hp
  have hqline := List.le_snd_of_mem_zipIdx hq
  unfold readLine
  dsimp only
  rw [if_neg (by simpa using hpcore), if_neg (by simpa using hqcore), read_core_congr hwords]
  split
  next c =>
    refine .ok (.some (.command ⟨rfl, rfl, ?_⟩))
    show (p.2 : Int) = 0 ↔ (q.2 : Int) = 0
    omega
  next f =>
    rw [ofFault_core hpcore, ofFault_core hqcore]
    exact .ok (.some (.diagnostic (.mk _ _ _ hp hq)))
  next e => exact .error rfl

/-- **Two texts with the same rows of words are read alike.** -/
theorem agree_ofText (h : wordRows text = wordRows text') (name file : Option String) :
    Agree Eq (Reading.SameButLines text text') (Reading.ofText text name file)
      (Reading.ofText text' name file) := by
  have hlines : List.Forall₂ (fun p q => p ∈ wordLines text ∧ q ∈ wordLines text' ∧
      lineWords p.1 = lineWords q.1) (wordLines text) (wordLines text') := by
    rw [← map_lineWords_wordLines, ← map_lineWords_wordLines, ← List.forall₂_eq_eq_eq,
      List.forall₂_map_left_iff, List.forall₂_map_right_iff, List.forall₂_iff_zip] at h
    refine List.forall₂_iff_zip.mpr ⟨h.1, fun {p q} hmem => ?_⟩
    exact ⟨(List.of_mem_zip hmem).1, (List.of_mem_zip hmem).2, h.2 hmem⟩
  have hitems := Agree.mapM hlines fun p q hpq =>
    agree_readLine hpq.1 hpq.2.1 hpq.2.2 name (file.or name)
  unfold Reading.ofText
  rw [readLines_eq_mapM, readLines_eq_mapM]
  refine (hitems.bind (S := List.Forall₂ (SameItem text text')) fun items items' h =>
    .ok (List.rel_filterMap (fun _ _ h => h) h)).bind fun items items' h => .ok ⟨?_, ?_⟩
  · refine List.rel_filterMap (fun item item' h => ?_) h
    cases h with
    | command h => exact .some h
    | diagnostic h => exact .none
  · refine List.rel_filterMap (fun item item' h => ?_) h
    cases h with
    | command h => exact .none
    | diagnostic h => exact .some h

/-! ## Linking two lists of modules -/

/-- **Two modules that are the same but for lines.** -/
structure Module.SameButLines (m m' : Module) : Prop where
  name : m.name = m'.name
  path : m.path = m'.path
  commands : List.Forall₂ Placed.SameButLine m.commands m'.commands

/-- **Two programs that are the same but for the lines that diagnostics name.** -/
structure Program.SameButLines (p p' : Program) : Prop where
  lines : p.lines = p'.lines
  order : p.order = p'.order
  bootstrap : p.bootstrap = p'.bootstrap
  diagnostics : List.Forall₂ Diagnostic.SameButLine p.diagnostics p'.diagnostics

/-- A text is read into a module, whose commands are those of the text. -/
theorem agree_module (h : wordRows text = wordRows text') (name path : Option String) :
    Agree Eq (fun r r' => r.1.SameButLines r'.1) (Module.ofText text name path)
      (Module.ofText text' name path) := by
  refine (agree_ofText h name path).bind fun r r' hr => .ok ⟨rfl, rfl, ?_⟩
  refine List.rel_map (fun p q hpq => ?_) hr.commands
  exact ⟨congrArg Command.draft hpq.item, hpq.moduleName, hpq.line⟩

namespace Session

/-- One command: the session does not depend on the line, and a refusal only
names it. -/
theorem agree_emitPlaced (s : Session) {p q : Placed Draft} (h : p.SameButLine q) :
    Agree (fun r r' => r.reason.SameButLine r'.reason) Eq (s.emitPlaced p) (s.emitPlaced q) := by
  unfold emitPlaced
  rw [h.item]
  cases s.emit q.item with
  | ok done => exact .ok rfl
  | error r =>
    refine .error ?_
    unfold report
    rw [h.item, h.moduleName]
    dsimp only
    exact Diagnostic.sameButLine_ofFault _ h.isSome_line? _ _

/-- **Commands in a row** lead to the same session, or to refusals that agree. -/
theorem agree_emitAll (s : Session) {ps qs : List (Placed Draft)}
    (h : List.Forall₂ Placed.SameButLine ps qs) :
    Agree (fun r r' => r.reason.SameButLine r'.reason) Eq (s.emitAll ps) (s.emitAll qs) := by
  induction h generalizing s with
  | nil => exact .ok rfl
  | cons hp _ ih =>
    refine (s.agree_emitPlaced hp).bind fun s₁ s₂ hs => ?_
    obtain rfl := hs
    exact ih s₁

end Session

theorem Module.SameButLines.declares {m m' : Module} (h : m.SameButLines m')
    (name : Option String) : m.declares name = m'.declares name := by
  have hany {ps qs : List (Placed Draft)} (h : List.Forall₂ Placed.SameButLine ps qs) :
      ps.any (·.item.declares name) = qs.any (·.item.declares name) := by
    induction h with
    | nil => rfl
    | cons hp _ ih => rw [List.any_cons, List.any_cons, ih, hp.item]
  exact hany h.commands

namespace Program

variable {ms ms' : List Module} (h : List.Forall₂ Module.SameButLines ms ms')

include h

theorem agree_arrange (entry : Option String) :
    List.Forall₂ Module.SameButLines (arrange ms entry) (arrange ms' entry) := by
  refine List.rel_append (List.rel_filter (fun m m' hm => ?_) h)
    (List.rel_filter (fun m m' hm => ?_) h)
  · show m.declares entry = true ↔ m'.declares entry = true
    rw [hm.declares]
  · show (!m.declares entry) = true ↔ (!m'.declares entry) = true
    rw [hm.declares]

theorem duplicateErrors_congr (seen : List (Option String)) :
    duplicateErrors seen ms = duplicateErrors seen ms' := by
  induction h generalizing seen with
  | nil => rfl
  | cons hm _ ih => rw [duplicateErrors, duplicateErrors, hm.name, hm.path, ih]

theorem agree_haltErrors (label : Option String) :
    List.Forall₂ Diagnostic.SameButLine (haltErrors ms label) (haltErrors ms' label) := by
  refine List.rel_flatMap h fun m m' hm => ?_
  refine List.rel_map (fun p q hpq => ?_) (List.rel_filter (fun p q hpq => ?_) hm.commands)
  · unfold reserved Module.place
    rw [hpq.item, hm.name, hm.path]
    exact Diagnostic.sameButLine_ofFault _ hpq.isSome_line? _ _
  · show p.item.declares label = true ↔ q.item.declares label = true
    rw [hpq.item]

theorem map_name_congr : ms.map Module.name = ms'.map Module.name := by
  induction h with
  | nil => rfl
  | cons hm _ ih => rw [List.map_cons, List.map_cons, hm.name, ih]

omit h in
/-- The end of linking: the session decides, and a refusal only names its line. -/
theorem agree_emission (s : Session) {ps qs : List (Placed Draft)}
    (h : List.Forall₂ Placed.SameButLine ps qs) (order : List (Option String)) (boot : Bool)
    (warnings : List Diagnostic) (label : Option String) :
    Agree Eq SameButLines
      (match s.emitAll ps with
      | .error r => (pure (failed order boot (warnings ++ [r.reason])) : Except EntryError Program)
      | .ok done => pure ⟨done.lines.toList ++ haltLoop label, order, boot, warnings⟩)
      (match s.emitAll qs with
      | .error r => (pure (failed order boot (warnings ++ [r.reason])) : Except EntryError Program)
      | .ok done => pure ⟨done.lines.toList ++ haltLoop label, order, boot, warnings⟩) := by
  have hwarnings : List.Forall₂ Diagnostic.SameButLine warnings warnings :=
    List.forall₂_same.mpr fun d _ => .refl d
  have hagree := s.agree_emitAll h
  generalize s.emitAll ps = x, s.emitAll qs = y at hagree
  cases hagree with
  | error hr => exact .ok ⟨rfl, rfl, rfl, List.rel_append hwarnings (.cons hr .nil)⟩
  | ok hdone =>
    obtain rfl := hdone
    exact .ok ⟨rfl, rfl, rfl, hwarnings⟩

omit h in
/-- Modules in the order of their code. -/
theorem agree_linkArranged {first first' : Module} {rest rest' : List Module}
    (hfirst : first.SameButLines first') (hrest : List.Forall₂ Module.SameButLines rest rest')
    (o : LinkOptions) :
    Agree Eq SameButLines (linkArranged first rest o) (linkArranged first' rest' o) := by
  have hall : List.Forall₂ Module.SameButLines (first :: rest) (first' :: rest') :=
    .cons hfirst hrest
  have hcommands : List.Forall₂ Placed.SameButLine ((first :: rest).flatMap Module.commands)
      ((first' :: rest').flatMap Module.commands) := List.rel_flatMap hall fun _ _ hm => hm.commands
  unfold linkArranged
  dsimp only
  rw [hfirst.declares, hfirst.name, map_name_congr hall, hall.length_eq]
  split
  · refine (Agree.refl _).bind fun s s' hs => ?_
    obtain rfl := hs
    exact agree_emission s hcommands ..
  · exact agree_emission _ hcommands ..

/-- **Modules that are the same but for lines are linked alike.** -/
theorem agree_link (o : LinkOptions) : Agree Eq SameButLines (link ms o) (link ms' o) := by
  have harrange := agree_arrange h o.entry
  have herrors : List.Forall₂ Diagnostic.SameButLine
      (duplicateErrors [] ms ++ haltErrors ms o.haltLabel)
      (duplicateErrors [] ms' ++ haltErrors ms' o.haltLabel) := by
    rw [duplicateErrors_congr h]
    exact List.rel_append (List.forall₂_same.mpr fun d _ => .refl d)
      (agree_haltErrors h o.haltLabel)
  unfold link
  dsimp only
  rw [hasErrors_of_forall₂ herrors]
  generalize arrange ms o.entry = as, arrange ms' o.entry = as' at harrange
  cases harrange with
  | nil => exact .ok ⟨rfl, rfl, rfl, .cons (.refl _) .nil⟩
  | cons hfirst hrest =>
    dsimp only
    split
    next => exact .ok ⟨rfl, rfl, rfl, herrors⟩
    next => exact agree_linkArranged hfirst hrest o

end Program

/-! ## Sources -/

/-- A text with the name and the path that its module gets. -/
structure SourceText where
  name : Option String
  path : Option String
  text : String

namespace SourceText

/-- The commands and diagnostics of a text. -/
def reading (x : SourceText) : Except Text.NumeralError Reading :=
  Reading.ofText x.text x.name x.path

/-- The module of a text, and its diagnostics. -/
def toModule (x : SourceText) : Except Text.NumeralError (Module × List Diagnostic) :=
  Module.ofText x.text x.name x.path

/-- **Two texts that differ in formatting only**: they have the same rows of
words, and their modules the same name and path. -/
structure SameWords (x y : SourceText) : Prop where
  name : x.name = y.name
  path : x.path = y.path
  words : wordRows x.text = wordRows y.text

end SourceText

/-- **Formatting does not influence the assembly.** Of two lists of texts that
differ in formatting only, each pair of texts is read alike: reading fails for
both or for neither, and gives the same commands but for their lines, and as
many errors, which are the same but for their lines and the text that they
quote. The modules of the texts are linked alike: with the same exception, or
to the same lines in the same order, with the same bootstrap, and with
diagnostics that are the same but for their lines. -/
theorem Program.link_formatting {xs ys : List SourceText}
    (h : List.Forall₂ SourceText.SameWords xs ys) (o : LinkOptions) :
    List.Forall₂ (fun x y => Agree Eq (Reading.SameButLines x.text y.text) x.reading y.reading)
      xs ys ∧
    Agree Eq (fun rs rs' => Agree Eq Program.SameButLines (link (rs.map Prod.fst) o)
      (link (rs'.map Prod.fst) o)) (xs.mapM SourceText.toModule) (ys.mapM SourceText.toModule) := by
  constructor
  · refine h.imp fun x y hxy => ?_
    rw [SourceText.reading, SourceText.reading, hxy.name, hxy.path]
    exact agree_ofText hxy.words _ _
  · have hmodule (x y : SourceText) (hxy : x.SameWords y) :
        Agree Eq (fun r r' => r.1.SameButLines r'.1) x.toModule y.toModule := by
      rw [SourceText.toModule, SourceText.toModule, hxy.name, hxy.path]
      exact agree_module hxy.words _ _
    have hmodules := Agree.mapM h hmodule
    generalize xs.mapM SourceText.toModule = rs, ys.mapM SourceText.toModule = rs' at hmodules
    cases hmodules with
    | error he => exact .error he
    | ok hms =>
      refine .ok (agree_link ?_ o)
      rw [List.forall₂_map_left_iff, List.forall₂_map_right_iff]
      exact hms

namespace Sample

/-- Two texts, of which the second has a bad line. -/
def tidy : List SourceText :=
  [⟨some "Sys", some "P/Sys.vm", "function Sys.init 0\ncall Main.f 0"⟩,
    ⟨some "Main", some "P/Main.vm", "function Main.f 0\npush heap 1\nreturn"⟩]

/-- The same words, with comments, tabs, blank lines and other line breaks. -/
def loose : List SourceText :=
  [⟨some "Sys", some "P/Sys.vm", "// arranque\r\n\tfunction Sys.init   0//\x0b call Main.f 0 "⟩,
    ⟨some "Main", some "P/Main.vm",
      "\n\n function\tMain.f 0\x0c push  heap\t1 // ?\u2028return\n\n"⟩]

theorem sameWords_tidy_loose : List.Forall₂ SourceText.SameWords tidy loose :=
  .cons ⟨rfl, rfl, by decide +kernel⟩ (.cons ⟨rfl, rfl, by decide +kernel⟩ .nil)

end Sample

/-- The bad line of the sample is the second in one text and the fourth in the
other, and is quoted as it stands; the code is the same. -/
theorem Program.link_formatting_sample :
    List.Forall₂ SourceText.SameWords Sample.tidy Sample.loose ∧
    (Sample.tidy.mapM SourceText.toModule).toOption.map
        (·.map fun r => r.2.map fun d => (d.message, d.line))
      = some [[], [("Segmento desconocido: heap en 'push heap 1'", some 2)]] ∧
    (Sample.loose.mapM SourceText.toModule).toOption.map
        (·.map fun r => r.2.map fun d => (d.message, d.line))
      = some [[], [("Segmento desconocido: heap en 'push  heap\t1'", some 4)]] ∧
    Agree Eq (fun rs rs' => Agree Eq SameButLines (link (rs.map Prod.fst) {})
        (link (rs'.map Prod.fst) {}))
      (Sample.tidy.mapM SourceText.toModule) (Sample.loose.mapM SourceText.toModule) :=
  ⟨Sample.sameWords_tidy_loose, by decide +kernel, by decide +kernel,
    (link_formatting Sample.sameWords_tidy_loose {}).2⟩

end HackStack
