import HackStack.Asm.Listing
import HackStack.Proofs.Files
import HackStack.Proofs.Loadable

/-!
# Programs that were written to a file

A listing strips every line of a program and puts a line feed behind it, and
whoever reads the file cuts it at any of the line breaks there are. So a
program can come back changed in three ways: a line has a blank at an end, a
line is empty, or a line holds a break. Names are what has to be looked at, and
they come into the lines by several ways. Symbols of the source have no blanks,
the names that code makes up have none either, and the name of the program,
which may hold anything, is never at an end of its line. That leaves line
breaks in the name of the program.

Without these a listing is the program, line by line, and a file with the
listing loads as the program itself does (`Program.lines_listing`).
-/

namespace HackStack

/-! ## Characters of a kind -/

/-- A text whose characters are all of one kind. -/
def Spelled (P : Char → Prop) (x : String) : Prop := ∀ c ∈ x.toList, P c

/-- The characters that code makes up names with, all of them in ASCII. -/
def Text.IsSolid (c : Char) : Prop := c.toNat < 128 ∧ isBlank c = false

instance : DecidablePred Text.IsSolid := fun _ => inferInstanceAs (Decidable (_ ∧ _))

/-- Every line break is a blank. -/
theorem Text.isLineBreak_eq_false {c : Char} (h : isBlank c = false) : isLineBreak c = false := by
  unfold isBlank at h
  unfold isLineBreak
  simp only [Bool.or_eq_false_iff, Bool.and_eq_false_iff, decide_eq_false_iff_not,
    beq_eq_false_iff_ne] at h ⊢
  omega

/-- A text in ASCII without a blank. -/
abbrev Solid (x : String) : Prop := Spelled Text.IsSolid x

theorem spelled_append {P : Char → Prop} {x y : String} :
    Spelled P (x ++ y) ↔ Spelled P x ∧ Spelled P y := by
  simp only [Spelled, String.toList_append, List.mem_append, or_imp, forall_and]

theorem solid_toString (n : Nat) : Solid (toString n) := fun _ h =>
  ⟨Text.toNat_of_isDigit (Text.isDigit_of_mem_toString h),
    Text.isBlank_of_isDigit (Text.isDigit_of_mem_toString h)⟩

theorem solid_toString_int (n : Int) : Solid (toString n) := by
  cases n with
  | ofNat n => exact solid_toString n
  | negSucc n => exact spelled_append.mpr ⟨Text.forall_of_all (by decide), solid_toString (n + 1)⟩

theorem Spelled.mono {P Q : Char → Prop} {x : String} (h : Spelled P x) (hPQ : ∀ c, P c → Q c) :
    Spelled Q x := fun c hc => hPQ c (h c hc)

theorem Solid.trimmed {x : String} (h : Solid x) : Text.trimEnd x.toList = x.toList :=
  Text.trimEnd_of_forall fun c hc => (h c hc).2

/-- The characters of a symbol are in ASCII. -/
theorem toNat_of_isSymbol {cs : List Char} (h : isSymbol cs = true) : ∀ c ∈ cs, c.toNat < 128 := by
  have hrest {cs : List Char} (h : isSymbolRest cs = true) : ∀ c ∈ cs, c.toNat < 128 := by
    fun_induction isSymbolRest cs with
    | case1 => exact fun c hc => absurd hc List.not_mem_nil
    | case2 => exact List.forall_mem_singleton.mpr (by decide)
    | case3 c cs _ ih =>
      rw [Bool.and_eq_true] at h
      exact List.forall_mem_cons.mpr ⟨toNat_of_isSymbolChar h.1, ih h.2⟩
  cases cs with
  | nil => exact fun c hc => absurd hc List.not_mem_nil
  | cons c cs =>
    rw [isSymbol, Bool.and_eq_true] at h
    have hc : isSymbolChar c = true := by
      rw [isSymbolChar, h.1]
      rfl
    exact List.forall_mem_cons.mpr ⟨toNat_of_isSymbolChar hc, hrest h.2⟩

theorem SourceSymbol.solid {x : String} (h : SourceSymbol x) : Solid x :=
  fun c hc => ⟨toNat_of_isSymbol h.isSymbol c hc, h.isBlank c hc⟩

/-- Anything but a text is written without blanks. -/
theorem Field.solid_plain {f : Field} (h : ∀ s, f ≠ .text s) : Solid f.plain := by
  cases f with
  | absent => exact Text.forall_of_all (by decide)
  | flag b => cases b <;> exact Text.forall_of_all (by decide)
  | int n => exact solid_toString_int n
  | decimal digits places =>
    have hsign : Solid (if digits < 0 then "-" else "") := by
      split <;> exact Text.forall_of_all (by decide)
    have hzeros (n : Nat) : Solid (String.ofList (List.replicate n '0')) := by
      intro c hc
      rw [String.toList_ofList] at hc
      rw [List.eq_of_mem_replicate hc]
      decide
    have hpoint : Solid "." := Text.forall_of_all (by decide)
    simp only [plain, showWith, decimalText, spelled_append]
    exact ⟨⟨⟨⟨hsign, solid_toString _⟩, hpoint⟩, hzeros _⟩, solid_toString _⟩
  | text s => exact absurd rfl (h s)

/-! ## Lines of a listing -/

/-- **A line that stands in a listing as it is**, and has characters of one
kind. -/
structure Line.Intact (P : Char → Prop) (l : Line) : Prop where
  spelled : Spelled P l.text
  stripped : Text.strip l.text = l.text

theorem Line.Intact.mono {P Q : Char → Prop} {l : Line} (h : l.Intact P) (hPQ : ∀ c, P c → Q c) :
    l.Intact Q := ⟨h.spelled.mono hPQ, h.stripped⟩

theorem Text.strip_eq_self {x : String} : strip x = x ↔ trim x.toList = x.toList := by
  rw [← String.toList_inj, strip, String.toList_ofList]

namespace Line

section

variable {P : Char → Prop} (hP : ∀ c, Text.IsSolid c → P c)

include hP

theorem intact_label {x : String} (hx : Spelled P x) : (label x).Intact P := by
  have hopen : Solid "(" := Text.forall_of_all (by decide)
  have hclose : Solid ")" := Text.forall_of_all (by decide)
  refine ⟨spelled_append.mpr ⟨spelled_append.mpr ⟨hopen.mono hP, hx⟩, hclose.mono hP⟩, ?_⟩
  rw [Text.strip_eq_self, trim_text]
  simp [text, written]

theorem intact_address {x : String} (hx : Spelled P x)
    (htrimmed : Text.trimEnd x.toList = x.toList) : (address x).Intact P := by
  have hat : Solid "@" := Text.forall_of_all (by decide)
  refine ⟨spelled_append.mpr ⟨hat.mono hP, hx⟩, ?_⟩
  rw [Text.strip_eq_self, trim_text]
  simp [text, written, htrimmed]

theorem intact_address_of_solid {x : String} (hx : Solid x) : (address x).Intact P :=
  intact_address hP (hx.mono hP) hx.trimmed

theorem intact_compute (dest : Dest) (comp : Comp) (jump : Jump) :
    (compute dest comp jump).Intact P where
  spelled := by
    have hsolid : Solid (compute dest comp jump).text := by
      intro c hc
      refine ⟨?_, isBlank_text_compute dest comp jump c hc⟩
      rcases mem_text_compute dest comp jump hc with h | rfl | rfl
      · exact (Text.forall_of_all (by decide) : ∀ c ∈ mnemonicChars, c.toNat < 128) c h
      · decide
      · decide
    exact hsolid.mono hP
  stripped := by
    rw [Text.strip_eq_self, trim_text]
    rfl

end

theorem text_ne_empty (l : Line) : l.text ≠ "" := by
  intro h
  have hwritten := l.trim_text
  rw [h] at hwritten
  exact l.written_ne_nil hwritten.symm

end Line

theorem toList_listing_cons (l : String) (ls : List String) :
    (listing (l :: ls)).toList = (Text.strip l).toList ++ ['\n'] ++ (listing ls).toList := by
  simp [listing, String.toList_join]

/-- The lines that hold no line break and stand in a listing as they are. -/
abbrev Line.Whole (l : Line) : Prop := l.Intact fun c => Text.isLineBreak c = false

/-- **A listing of whole lines has just these lines.** -/
theorem lines_listing_of_whole {ls : List Line} (h : ∀ l ∈ ls, l.Whole) :
    Text.lines (listing (ls.map Line.text)).toList = ls.map (·.text.toList) := by
  refine (Text.areLines_iff.mp ?_).symm
  induction ls with
  | nil => exact .nil
  | cons l ls ih =>
    obtain ⟨hunbroken, hstripped⟩ := h l List.mem_cons_self
    have hbreak (rest : List Char) : Text.IsBreak ['\n'] rest :=
      .inr ⟨'\n', rfl, rfl, fun hcr => absurd hcr.1 (by decide)⟩
    rw [List.map_cons, toList_listing_cons, hstripped]
    exact .ended hunbroken (hbreak _) (ih fun k hk => h k (List.mem_cons_of_mem l hk))

/-- The characters of a listing are those of its lines and the line feeds. -/
theorem spelled_listing {P : Char → Prop} (hP : P '\n') {ls : List Line}
    (h : ∀ l ∈ ls, l.Intact P) : Spelled P (listing (ls.map Line.text)) := by
  induction ls with
  | nil => exact fun c hc => absurd hc List.not_mem_nil
  | cons l ls ih =>
    rw [List.forall_mem_cons] at h
    intro c hc
    rw [List.map_cons, toList_listing_cons, h.1.stripped, List.append_assoc, List.mem_append,
      List.singleton_append, List.mem_cons] at hc
    rcases hc with hc | rfl | hc
    · exact h.1.spelled c hc
    · exact hP
    · exact ih h.2 c hc

/-! ## Code -/

namespace Emitter

variable {P : Char → Prop} {e : Emitter} {c : Command} {code : List Line}

/-- The names in force have characters of one kind. -/
structure NamesSpelled (P : Char → Prop) (e : Emitter) : Prop where
  functionName : Spelled P (shownName e.functionName)
  staticScope : Spelled P (shownName e.staticScope)

theorem spelled_classOf {name : String} (h : Spelled P name) : Spelled P (classOf name) := by
  intro c hc
  rw [classOf, String.toList_ofList] at hc
  exact h c (List.takeWhile_subset _ hc)

theorem NamesSpelled.enter {name : String} (h : Spelled P name) : (e.enter name).NamesSpelled P :=
  ⟨h, spelled_classOf h⟩

theorem namesSpelled_start {title : Option String} (h : Spelled P (shownName title)) :
    (start title {}).NamesSpelled P := ⟨h, h⟩

theorem solid_text (k : Series) (n : Nat) : Solid (k.text n) := by
  have hends : Solid k.front ∧ Solid k.rear := by
    cases k <;> exact ⟨Text.forall_of_all (by decide), Text.forall_of_all (by decide)⟩
  exact spelled_append.mpr ⟨spelled_append.mpr ⟨hends.1, solid_toString n⟩, hends.2⟩

section

variable (hP : ∀ c, Text.IsSolid c → P c)

include hP

theorem NamesSpelled.next (he : e.NamesSpelled P) (hc : c.FromSource) :
    (e.next c).NamesSpelled P := by
  cases c with
  | arithmetic op => cases op <;> exact ⟨he.functionName, he.staticScope⟩
  | function name locals => exact .enter (hc.1.solid.mono hP)
  | _ => exact ⟨he.functionName, he.staticScope⟩

theorem spelled_qualify (he : e.NamesSpelled P) {name : String} (h : SourceSymbol name) :
    Spelled P (e.qualify name) := by
  have hdollar : Solid "$" := Text.forall_of_all (by decide)
  exact spelled_append.mpr
    ⟨spelled_append.mpr ⟨he.functionName, hdollar.mono hP⟩, h.solid.mono hP⟩

theorem spelled_staticSymbol (he : e.NamesSpelled P) (index : Nat) :
    Spelled P (e.staticSymbol index) := by
  have hpoint : Solid "." := Text.forall_of_all (by decide)
  exact spelled_append.mpr
    ⟨spelled_append.mpr ⟨he.staticScope, hpoint.mono hP⟩, (solid_toString index).mono hP⟩

theorem spelled_label (he : e.NamesSpelled P) (hc : c.FromSource) {l : Label}
    (hl : l ∈ e.labels c) : Spelled P l.text := by
  rcases mem_labels hl with ⟨k, n, rfl⟩ | ⟨name, rfl, rfl⟩ | ⟨name, locals, rfl, rfl⟩
  · exact (solid_text k n).mono hP
  · exact spelled_qualify hP he hc
  · exact hc.1.solid.mono hP

/-- What a line can hold is made of the names in force, of symbols of the
source and of what code makes up. -/
theorem Writes.spelled {x : String} (hregs : e.regs = {}) (he : e.NamesSpelled P)
    (hc : c.FromSource) (h : e.Writes c (.address x)) : Spelled P x := by
  cases h with
  | constant => exact (solid_toString_int _).mono hP
  | register hx =>
    have hnames : ∀ y ∈ ({} : RegisterFile).names, Solid y := by
      simp only [RegisterFile.names, RegisterFile.stackNames, List.forall_mem_append,
        List.forall_mem_cons]
      refine ⟨⟨?_, ?_, ?_, ?_, ?_, ?_, fun y hy => absurd hy List.not_mem_nil⟩, ?_, ?_,
        fun y hy => absurd hy List.not_mem_nil⟩ <;> exact Text.forall_of_all (by decide)
    rw [hregs] at hx
    exact (hnames x hx).mono hP
  | block n =>
    have hletter : Solid "R" := Text.forall_of_all (by decide)
    exact Spelled.mono (spelled_append.mpr ⟨hletter, solid_toString n⟩) hP
  | static index => exact spelled_staticSymbol hP he index
  | target hname => rcases hname with rfl | rfl <;> exact spelled_qualify hP he hc
  | callee hname =>
    subst hname
    exact hc.1.solid.mono hP
  | labelled hl => exact spelled_label hP he hc hl

/-- **The lines of a command stay as they are.** -/
theorem intact_code (hcode : e.code c = .ok code) (hregs : e.regs = {}) (he : e.NamesSpelled P)
    (hc : c.FromSource) : ∀ l ∈ code, l.Intact P := by
  intro l hl
  have hwrites := (row_code hcode).writes l hl
  cases l with
  | compute dest comp jump => exact Line.intact_compute hP dest comp jump
  | label x =>
    cases hwrites with
    | label hlabel => exact Line.intact_label hP (spelled_label hP he hc hlabel)
  | address x =>
    refine Line.intact_address hP (hwrites.spelled hP hregs he hc) ?_
    rcases hwrites.operand hregs hc with hplain | ⟨n, rfl, -⟩
    · exact hplain.1
    · exact Text.trimEnd_toString n

/-- **So do the lines of commands in a row.** -/
theorem intact_linesOf {cs : List Command} (hacc : e.Accepts cs) (hregs : e.regs = {})
    (he : e.NamesSpelled P) (hcs : ∀ c ∈ cs, c.FromSource) :
    ∀ l ∈ e.linesOf cs, l.Intact P := by
  induction cs generalizing e with
  | nil => exact fun l hl => absurd hl List.not_mem_nil
  | cons c cs ih =>
    have hc := hcs c List.mem_cons_self
    have hnext : (e.next c).regs = {} := by rw [regs_next, hregs]
    rw [linesOf, List.forall_mem_append]
    exact ⟨intact_code hP hacc.1 hregs he hc,
      ih hacc.2 hnext (he.next hP hc) fun d hd => hcs d (List.mem_cons_of_mem c hd)⟩

end

end Emitter

namespace Program

variable {modules : List Module} {o : LinkOptions} {p : Program}

/-- **The lines of a program stay as they are**, and have the characters of its
name and those that code makes up. -/
theorem Linked.intact_lines {P : Char → Prop} (hP : ∀ c, Text.IsSolid c → P c)
    (h : Linked modules o p) (hparsed : ∀ m ∈ modules, m.Parsed)
    (hhalt : o.haltLabel = some "END") (hentry : o.entry = some "Sys.init")
    (hbase : ∀ s, o.stackBase ≠ .text s) (htitle : Spelled P (shownName (title modules o))) :
    ∀ l ∈ p.lines, l.Intact P := by
  have hend : Solid "END" := Text.forall_of_all (by decide)
  have hinit : SourceSymbol "Sys.init" := ⟨by decide, Text.forall_of_all (by decide)⟩
  have hloop : ∀ l ∈ haltLoop (some "END"), l.Intact P := by
    simp only [haltLoop, Line.branch, List.forall_mem_cons]
    exact ⟨Line.intact_label hP (hend.mono hP), Line.intact_address_of_solid hP hend,
      Line.intact_compute hP .., fun l hl => absurd hl List.not_mem_nil⟩
  obtain ⟨hlead, he⟩ : (∀ l ∈ (layout modules o).lead, l.Intact P)
      ∧ (layout modules o).emitter.NamesSpelled P := by
    rcases h.lead_cases with ⟨-, hlead, he⟩ | ⟨-, name, hname, -, hlead, he⟩
    · rw [hlead, he]
      exact ⟨fun l hl => absurd hl List.not_mem_nil, Emitter.namesSpelled_start htitle⟩
    · obtain rfl : "Sys.init" = name := Option.some.inj (hentry.symm.trans hname)
      have hstack : Line.Intact P (.address o.stackBase.plain) :=
        Line.intact_address_of_solid hP (Field.solid_plain hbase)
      have hsp : Line.Intact P (.address "SP") :=
        Line.intact_address_of_solid hP (Text.forall_of_all (by decide))
      have hinside : ((Emitter.start (title modules o) {}).enter "Sys.init").NamesSpelled P :=
        .enter (hinit.solid.mono hP)
      have hcall := Emitter.intact_code hP (c := .call "Sys.init" 0) rfl rfl hinside
        (Emitter.fromSource_call hinit)
      rw [hlead, he, List.forall_mem_append]
      refine ⟨⟨?_, hcall⟩, ⟨hinside.functionName, hinside.staticScope⟩⟩
      simp [Session.stackCode, Line.set, Emitter.start, Line.intact_compute hP, hstack, hsp]
  have hcode := Emitter.intact_linesOf hP h.accepts h.regs he (h.fromSource hparsed)
  rw [h.lines, hhalt, List.forall_mem_append, Layout.before, List.forall_mem_append,
    show (layout modules o).commands = commands modules o from rfl, List.take_length]
  exact ⟨⟨hlead, hcode⟩, hloop⟩

/-- **A file with the listing of a program is the program.** The lines of the
listing are the lines of the program, none of them empty and each as it was
before it was stripped. So a file that the listing was written to is read as
the same lines, and loading these gives the machine, or the error, that loading
the program gives. -/
theorem lines_listing (hparsed : ∀ m ∈ modules, m.Parsed) (hlink : link modules o = .ok p)
    (herr : hasErrors p.diagnostics = false) (hhalt : o.haltLabel = some "END")
    (hentry : o.entry = some "Sys.init") (hbase : ∀ s, o.stackBase ≠ .text s)
    (htitle : ∀ c ∈ (shownName (title modules o)).toList, Text.isLineBreak c = false) :
    Text.lines (listing p.listed).toList = p.listed.map String.toList ∧
    (∀ l ∈ p.listed, l ≠ "" ∧ Text.strip l = l) ∧
    ∀ (t t' : FileTree) (path : String), t.write path (listing p.listed).toUTF8.toList = .ok t' →
      ∃ bytes cs, t'.read path = .ok bytes ∧ Text.Utf8.decode bytes = .ok cs ∧
        Machine.load ((Text.lines (Text.unifyNewlines cs)).map String.ofList)
          = Machine.load p.listed := by
  have hwhole : ∀ l ∈ p.lines, l.Whole := (linked hlink herr).intact_lines
    (fun c hc => Text.isLineBreak_eq_false hc.2) hparsed hhalt hentry hbase htitle
  have hlines : Text.lines (listing p.listed).toList = p.listed.map String.toList := by
    rw [listed, lines_listing_of_whole hwhole, List.map_map]
    rfl
  refine ⟨hlines, ?_, fun t t' path hwrite => ?_⟩
  · intro l hl
    obtain ⟨line, hline, rfl⟩ := List.mem_map.mp hl
    exact ⟨line.text_ne_empty, (hwhole line hline).stripped⟩
  · -- the only breaks of such a listing are its line feeds
    have hreturn : Spelled (· ≠ '\r') (listing p.listed) := by
      refine spelled_listing (by decide) fun l hl => (hwhole l hl).mono ?_
      rintro c hc rfl
      exact absurd hc (by decide)
    have hsame : (p.listed.map String.toList).map String.ofList = p.listed := by
      rw [List.map_map]
      exact (List.map_congr_left fun l _ => String.ofList_toList).trans (List.map_id _)
    refine ⟨_, _, FileTree.read_of_write hwrite, Text.Utf8.decode_toUTF8 _, ?_⟩
    rw [Text.unifyNewlines_eq_self (fun h => hreturn _ h rfl), hlines, hsame]

end Program

namespace Sample

/-- A module whose labels and cells are named after the program. -/
def titled : Module where
  name := some "M"
  commands := [⟨.push "constant" (.int 7), 1, some "M"⟩, ⟨.label (.text "L"), 2, some "M"⟩,
    ⟨.pop "static" (.int 3), 3, some "M"⟩, ⟨.goto (.text "L"), 4, some "M"⟩]

theorem parsed_titled : titled.Parsed :=
  ⟨"push constant 7\nlabel L\npop static 3\ngoto L", by decide +kernel⟩

/-- A name for a program, with blanks inside it and at both its ends. -/
def blankTitle : LinkOptions := { program := some " año\t2 " }

end Sample

/-- The name of the program may have any blanks that break no line. -/
theorem Program.lines_listing_sample : Sample.titled.Parsed ∧
    ∃ p, link [Sample.titled] Sample.blankTitle = .ok p ∧ hasErrors p.diagnostics = false ∧
    "@ año\t2 .3" ∈ p.listed ∧
    Text.lines (listing p.listed).toList = p.listed.map String.toList ∧
    ∃ t', (FileTree.empty ["w"]).write "a.asm" (listing p.listed).toUTF8.toList = .ok t' ∧
      ∃ bytes cs, t'.read "a.asm" = .ok bytes ∧ Text.Utf8.decode bytes = .ok cs ∧
        Machine.load ((Text.lines (Text.unifyNewlines cs)).map String.ofList)
          = Machine.load p.listed := by
  obtain ⟨p, hp⟩ : ∃ p, p = (link [Sample.titled] Sample.blankTitle).toOption.getD
    (failed [] false []) := ⟨_, rfl⟩
  have hlink : link [Sample.titled] Sample.blankTitle = .ok p := by rw [hp]; decide +kernel
  have herr : hasErrors p.diagnostics = false := by rw [hp]; decide +kernel
  have hmem : "@ año\t2 .3" ∈ p.listed := by rw [hp]; decide +kernel
  have hparsed : ∀ m ∈ [Sample.titled], m.Parsed := by
    intro m hm
    rw [List.mem_singleton.mp hm]
    exact Sample.parsed_titled
  have htarget : (FileTree.empty ["w"]).target "a.asm" = .ok ["w", "a.asm"] := by decide +kernel
  obtain ⟨hlines, -, hfile⟩ := lines_listing hparsed hlink herr rfl rfl (fun s hs => by cases hs)
    (Text.forall_of_all (by decide +kernel))
  obtain ⟨t', hwrite⟩ : ∃ t', (FileTree.empty ["w"]).write "a.asm" (listing p.listed).toUTF8.toList
      = .ok t' := ⟨_, by rw [FileTree.write, FileTree.create, htarget]⟩
  exact ⟨Sample.parsed_titled, p, hlink, herr, hmem, hlines, t', hwrite, hfile _ _ _ hwrite⟩

end HackStack
