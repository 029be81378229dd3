import HackStack.Proofs.Listings
import HackStack.Proofs.Refusals
import HackStack.Tool

/-!
# What a run of the tool leaves behind

Errors come from four places, and a run passes all of them before it opens a
file: a directory without files, files that are no UTF-8, lines that are no
commands, and what linking refuses. `Tool.outcome` says what each exit code
stands for, and that with an exit code other than zero the tree is as it was. A
run that ends with zero has read every file of the source without a diagnostic
and changes nothing in the tree but the file it was to write, which then holds
the whole listing, the loop at its end included.

Some runs have no exit code. A numeral can be too long, and a path that no file
can be opened at is not always reported; such a run writes nothing. But a file
is opened before its text is encoded, and a name that is not UTF-8 goes into
the text as the program's. A run that is cut off there leaves the file empty,
whatever it held (`Tool.perform_cutOff`).
-/

namespace HackStack

/-! ## What the source holds -/

/-- Everything that reading a text finds is an error. -/
theorem Module.isError_of_ofText {text : String} {name path : Option String} {m : Module}
    {ds : List Diagnostic} (h : Module.ofText text name path = .ok (m, ds)) :
    ∀ d ∈ ds, d.isError = true := by
  obtain ⟨reading, hreading, h⟩ := bind_eq_ok h
  obtain ⟨-, rfl⟩ := Prod.mk.inj (Except.ok.inj h)
  intro d hd
  obtain ⟨line, k, -, hread⟩ := (Reading.exists_readLine_of_ofText hreading).2 d hd
  unfold readLine at hread
  dsimp only at hread
  split at hread
  next => cases hread
  next =>
    split at hread
    next => cases hread
    next f _ =>
      obtain rfl := Item.diagnostic.inj (Option.some.inj (Except.ok.inj hread))
      exact Diagnostic.isError_ofFault ..
    next => cases hread

/-- Without errors nothing was found. -/
theorem Module.eq_nil_of_ofText {text : String} {name path : Option String} {m : Module}
    {ds : List Diagnostic} (h : Module.ofText text name path = .ok (m, ds))
    (herr : hasErrors ds = false) : ds = [] := by
  refine List.eq_nil_iff_forall_not_mem.mpr fun d hd => ?_
  have hnot := List.any_eq_false.mp herr d hd
  exact hnot (isError_of_ofText h d hd)

theorem mapError_eq_ok {ε ε' α : Type} {x : Except ε α} {f : ε → ε'} {a : α}
    (h : x.mapError f = .ok a) : x = .ok a := by
  cases x with
  | error e => cases h
  | ok b => exact congrArg _ (Except.ok.inj h)

namespace Source

variable {t : FileTree} {source path : String} {s : Source}

/-- The name of the program of a source. -/
def programName (t : FileTree) (source : String) : String :=
  let path := Path.trimEnd source
  if t.isDirectory path then directoryProgram t path else Path.moduleName path

/-- Where the assembly of a source goes: beside its files, with the name of the
program. -/
def defaultOutput (t : FileTree) (source : String) : String :=
  let path := Path.trimEnd source
  let folder := if t.isDirectory path then path else Path.directory path
  Path.join folder (programName t source ++ ".asm")

/-- **The files of a source**: all files with the extension in a directory, or
the one file. -/
def files (t : FileTree) (source : String) : List String :=
  let path := Path.trimEnd source
  if t.isDirectory path then (fileNames t path).map (Path.join path) else [path]

/-- A file that holds a module: it can be read, it is UTF-8, and its lines are
read without a diagnostic. -/
def Holds (t : FileTree) (path : String) (m : Module) : Prop :=
  ∃ bytes cs, t.read path = .ok bytes ∧ Text.Utf8.decode bytes = .ok cs ∧
    Module.ofText (String.ofList (Text.marked (Text.unifyNewlines cs)))
      (some (Path.moduleName path)) (some path) = .ok (m, [])

/-- A module that a file holds is read from its text. -/
theorem Holds.parsed {m : Module} (h : Holds t path m) : m.Parsed := by
  obtain ⟨bytes, cs, -, -, hmodule⟩ := h
  obtain ⟨reading, -, hm⟩ := bind_eq_ok hmodule
  obtain ⟨rfl, -⟩ := Prod.mk.inj (Except.ok.inj hm)
  exact ⟨_, hmodule⟩

theorem parsed_of_holds {paths : List String} {ms : List Module}
    (h : List.Forall₂ (Holds t) paths ms) : ∀ m ∈ ms, m.Parsed := by
  induction h with
  | nil => exact fun m hm => absurd hm List.not_mem_nil
  | cons hm _ ih => exact List.forall_mem_cons.mpr ⟨hm.parsed, ih⟩

/-- A file that is read without errors holds a module. -/
theorem holds_of_readModule {m : Option Module} {ds : List Diagnostic}
    (h : readModule t path = .ok (m, ds)) (herr : hasErrors ds = false) :
    ∃ m', m = some m' ∧ Holds t path m' := by
  obtain ⟨bytes, hread, h⟩ := bind_eq_ok h
  cases hdecode : Text.Utf8.decode bytes with
  | error e =>
    rw [hdecode] at h
    obtain ⟨-, rfl⟩ := Prod.mk.inj (Except.ok.inj h)
    cases herr
  | ok cs =>
    rw [hdecode] at h
    obtain ⟨⟨m', ds'⟩, hmodule, h⟩ := bind_eq_ok h
    obtain ⟨rfl, rfl⟩ := Prod.mk.inj (Except.ok.inj h)
    have htext := mapError_eq_ok hmodule
    obtain rfl := Module.eq_nil_of_ofText htext herr
    exact ⟨m', rfl, bytes, cs, mapError_eq_ok hread, hdecode, htext⟩

/-- **Files that are read without errors hold their modules.** -/
theorem holds_of_readModules {paths : List String} {ms : List Module} {ds : List Diagnostic}
    (h : readModules t paths = .ok (ms, ds)) (herr : hasErrors ds = false) :
    List.Forall₂ (Holds t) paths ms := by
  induction paths generalizing ms ds with
  | nil =>
    obtain ⟨rfl, -⟩ := Prod.mk.inj (Except.ok.inj h)
    exact .nil
  | cons path paths ih =>
    obtain ⟨⟨m, ds₁⟩, hfirst, h⟩ := bind_eq_ok h
    obtain ⟨⟨ms', ds₂⟩, hrest, h⟩ := bind_eq_ok h
    obtain ⟨rfl, rfl⟩ := Prod.mk.inj (Except.ok.inj h)
    rw [Program.hasErrors_append, Bool.or_eq_false_iff] at herr
    obtain ⟨m', rfl, hm'⟩ := holds_of_readModule hfirst herr.1
    exact .cons hm' (ih hrest herr.2)

/-- A file that was read, with errors or not, can be opened. -/
theorem exists_read_of_readModules {ms : List Module} {ds : List Diagnostic}
    (h : readModules t [path] = .ok (ms, ds)) : ∃ bytes, t.read path = .ok bytes := by
  obtain ⟨r, hfirst, -⟩ := bind_eq_ok h
  obtain ⟨bytes, hread, -⟩ := bind_eq_ok hfirst
  exact ⟨bytes, mapError_eq_ok hread⟩

theorem mem_fileNames {name : String} :
    name ∈ fileNames t path ↔ name ∈ t.list path ∧ name.endsWith ".vm" = true := by
  rw [fileNames, (Text.sortNames_perm _).mem_iff, List.mem_filter]

/-- The program of a directory is named by one component. -/
theorem slash_notMem_directoryProgram (hwork : ∀ name ∈ t.workingDirectory, '/' ∉ name.toList) :
    '/' ∉ (directoryProgram t path).toList := by
  have hnames : ∀ name ∈ Path.names path, '/' ∉ name.toList := by
    intro name hname
    obtain ⟨w, hw, rfl⟩ := List.mem_map.mp hname
    rw [String.toList_ofList]
    exact Path.slash_notMem_components w hw
  have hplace : ∀ name ∈ Path.locate t.workingDirectory path, '/' ∉ name.toList := by
    refine Path.slash_notMem_follow ?_ hnames
    split
    · exact fun _ h => absurd h List.not_mem_nil
    · exact hwork
  unfold directoryProgram
  cases hlast : (Path.locate t.workingDirectory path).getLast? with
  | none => exact List.not_mem_nil
  | some name => exact hplace name (List.mem_of_getLast? hlast)

theorem endsWith_append_vm (name : String) : (name ++ ".vm").endsWith ".vm" = true := by
  rw [String.endsWith_eq_endsWith_toSlice, String.Slice.endsWith_string_iff]
  simp

theorem append_vm_ne (name : String) :
    name ++ ".vm" ≠ "" ∧ name ++ ".vm" ≠ "." ∧ name ++ ".vm" ≠ ".." := by
  have hlong : 3 ≤ (name ++ ".vm").length := by
    rw [String.length_append]
    exact Nat.le_add_left 3 _
  refine ⟨?_, ?_, ?_⟩ <;>
  · intro heq
    rw [heq] at hlong
    exact absurd hlong (by decide)

/-- **The files that are read are all there are.** The file named after the
program is read in the place of a single file; it can be read only when it is
that file. -/
theorem chosenNames_eq (hwork : ∀ name ∈ t.workingDirectory, '/' ∉ name.toList)
    (hdir : t.isDirectory path = true) {ms : List Module} {ds : List Diagnostic}
    (h : readModules t
      ((chosenNames (directoryProgram t path) (fileNames t path)).map (Path.join path))
        = .ok (ms, ds)) :
    chosenNames (directoryProgram t path) (fileNames t path) = fileNames t path := by
  unfold chosenNames at h ⊢
  split
  next name heq =>
    rw [heq] at h
    dsimp only at h
    split
    next hprogram =>
      rw [if_pos hprogram] at h
      obtain ⟨bytes, hread⟩ := exists_read_of_readModules h
      have hslash : '/' ∉ (directoryProgram t path ++ ".vm").toList := by
        rw [String.toList_append, List.mem_append, not_or]
        exact ⟨slash_notMem_directoryProgram hwork, by decide⟩
      have hmem := FileTree.mem_list_of_read hdir hslash (append_vm_ne _) hread
      have hlisted := mem_fileNames.mpr ⟨hmem, endsWith_append_vm _⟩
      rw [heq, List.mem_singleton] at hlisted
      rw [hlisted, heq]
    next => exact heq.symm
  next => rfl

/-- **What reading a source gives**: the name of the program and where its
assembly goes, and without errors one module for each of its files. -/
theorem load_eq_ok (hwork : ∀ name ∈ t.workingDirectory, '/' ∉ name.toList)
    (h : load t source = .ok s) :
    s.program = programName t source ∧ s.outPath = defaultOutput t source ∧
      (hasErrors s.diagnostics = false → List.Forall₂ (Holds t) (files t source) s.modules) := by
  unfold load at h
  dsimp only at h
  by_cases hdir : t.isDirectory (Path.trimEnd source) = true
  · have hprogram : programName t source = directoryProgram t (Path.trimEnd source) := if_pos hdir
    have hout : defaultOutput t source
        = Path.join (Path.trimEnd source) (programName t source ++ ".asm") := by
      rw [defaultOutput, if_pos hdir]
    have hfiles : files t source
        = (fileNames t (Path.trimEnd source)).map (Path.join (Path.trimEnd source)) := if_pos hdir
    rw [hout, hprogram, hfiles]
    rw [if_pos hdir] at h
    split at h
    next =>
      obtain rfl := Except.ok.inj h
      -- the fields are reduced first: compared as they are, the paths would be
      -- unfolded
      dsimp only
      refine ⟨rfl, rfl, fun herr => ?_⟩
      cases herr
    next =>
      obtain ⟨⟨ms, ds⟩, hread, h⟩ := bind_eq_ok h
      obtain rfl := Except.ok.inj h
      rw [chosenNames_eq hwork hdir hread] at hread
      dsimp only
      exact ⟨rfl, rfl, holds_of_readModules hread⟩
  · have hprogram : programName t source = Path.moduleName (Path.trimEnd source) := if_neg hdir
    have hout : defaultOutput t source
        = Path.join (Path.directory (Path.trimEnd source)) (programName t source ++ ".asm") := by
      rw [defaultOutput, if_neg hdir]
    have hfiles : files t source = [Path.trimEnd source] := if_neg hdir
    rw [hout, hprogram, hfiles]
    rw [if_neg hdir] at h
    split at h
    next =>
      obtain ⟨⟨ms, ds⟩, hread, h⟩ := bind_eq_ok h
      obtain rfl := Except.ok.inj h
      dsimp only
      exact ⟨rfl, rfl, holds_of_readModules hread⟩
    next => cases h

end Source

/-! ## Linking -/

/-- **Modules are always linked** when the entry function has a name, if only
to say what is wrong with them. -/
theorem Program.exists_link (modules : List Module) {o : LinkOptions} {entry : String}
    (hentry : o.entry = some entry) (hsymbol : isSymbol entry.toList = true) :
    ∃ p, link modules o = .ok p := by
  unfold link
  split
  next => exact ⟨_, rfl⟩
  next first rest _ =>
    dsimp only
    split
    next => exact ⟨_, rfl⟩
    next =>
      unfold linkArranged
      dsimp only
      by_cases hboot : usesBootstrap o.bootstrap (first.declares o.entry) = true
      · obtain ⟨s, hs⟩ := Session.exists_bootstrap
          { emitter := .start (o.program.or first.name) {} } o.stackBase hsymbol
        rw [if_pos hboot, hentry, hs]
        dsimp only [bind, Except.bind, Except.mapError]
        split <;> exact ⟨_, rfl⟩
      · rw [if_neg hboot]
        dsimp only [bind, Except.bind, pure, Except.pure]
        split <;> exact ⟨_, rfl⟩

/-! ## How a run can end -/

/-- Where an invocation writes: to the path that was asked for, unless that is
empty. -/
def Invocation.target (t : FileTree) (i : Invocation) : String :=
  match i.output with
  | some path => if path.isEmpty then Source.defaultOutput t i.source else path
  | none => Source.defaultOutput t i.source

/-- A path that a file can be opened at for writing: the system takes it, and
it leads to a place for a file. -/
def FileTree.Opens (t : FileTree) (path : String) : Prop :=
  Path.error? path = none ∧ ∃ place, t.target path = .ok place

/-- Whether a source cannot be read because of a path. -/
def SourceError.isUnreadable : SourceError → Bool
  | .numeral _ => false
  | _ => true

namespace Tool

variable {console : Console} {t : FileTree} {i : Invocation} {s : Source} {p : Program}

/-- What the modules of an invocation are linked with. -/
def options (t : FileTree) (i : Invocation) : LinkOptions :=
  { program := some (Source.programName t i.source), bootstrap := i.bootstrap }

/-- An invocation whose source is read and linked without an error. -/
structure Links (t : FileTree) (i : Invocation) (s : Source) (p : Program) : Prop where
  load : Source.load t i.source = .ok s
  read : hasErrors s.diagnostics = false
  link : Program.link s.modules (options t i) = .ok p
  linked : hasErrors p.diagnostics = false

/-- An invocation whose source is read, with an error there or in linking. -/
def Faulty (t : FileTree) (i : Invocation) : Prop :=
  ∃ s, Source.load t i.source = .ok s ∧ (hasErrors s.diagnostics = true ∨
    ∃ p, Program.link s.modules (options t i) = .ok p ∧ hasErrors p.diagnostics = true)

theorem Links.not_faulty (h : Links t i s p) : ¬Faulty t i := by
  rintro ⟨s', hload, hfault⟩
  obtain rfl : s = s' := Except.ok.inj (h.load.symm.trans hload)
  rcases hfault with hread | ⟨p', hlink, hlinked⟩
  · rw [h.read] at hread
    cases hread
  · obtain rfl : p = p' := Except.ok.inj (h.link.symm.trans hlink)
    rw [h.linked] at hlinked
    cases hlinked

/-- An invocation comes to one program. -/
theorem Links.program_eq {s' : Source} {p' : Program} (h : Links t i s p) (h' : Links t i s' p') :
    p' = p := by
  obtain rfl : s = s' := Except.ok.inj (h.load.symm.trans h'.load)
  exact Except.ok.inj (h'.link.symm.trans h.link)

/-- A source that is not read is not linked either. -/
theorem Links.load_ne_error (h : Links t i s p) (e : SourceError) :
    Source.load t i.source ≠ .error e := by
  rw [h.load]
  exact fun h => nomatch h

theorem Faulty.load_ne_error (h : Faulty t i) (e : SourceError) :
    Source.load t i.source ≠ .error e := by
  obtain ⟨s, hload, -⟩ := h
  rw [hload]
  exact fun h => nomatch h

/-- What an invocation is to write. -/
def output (t : FileTree) (i : Invocation) (p : Program) : Output :=
  ⟨i.target t, listing p.listed, p.lines.length⟩

/-- **How a run can end**, and the tree that it leaves. -/
inductive Ends (console : Console) (t : FileTree) (i : Invocation) : Ending → FileTree → Prop
  | numeral {e : Text.NumeralError} (h : Source.load t i.source = .error (.numeral e)) :
      Ends console t i (.cutOff (.numeral e)) t
  | unread {e : SourceError} (h : Source.load t i.source = .error e) (he : e.isUnreadable = true) :
      Ends console t i (.exit 2) t
  | faulty (h : Faulty t i) : Ends console t i (.exit 1) t
  | noPath {s : Source} {p : Program} {e : PathError} (h : Links t i s p)
      (hpath : Path.error? (i.target t) = some e) : Ends console t i (.cutOff (.path e)) t
  | blocked {s : Source} {p : Program} {cause : FileCause} (h : Links t i s p)
      (hpath : Path.error? (i.target t) = none) (htarget : t.target (i.target t) = .error cause) :
      Ends console t i (.exit 3) t
  | emptied {s : Source} {p : Program} {place : List String} {e : Text.EncodeError}
      (h : Links t i s p) (hpath : Path.error? (i.target t) = none)
      (htarget : t.target (i.target t) = .ok place)
      (hencode : Text.encode (listing p.listed) = .error e) :
      Ends console t i (.cutOff (.text e)) (t.put place (.file []))
  | unprinted {s : Source} {p : Program} {place : List String} {bytes : List UInt8}
      {message : String} (h : Links t i s p) (hpath : Path.error? (i.target t) = none)
      (htarget : t.target (i.target t) = .ok place)
      (hencode : Text.encode (listing p.listed) = .ok bytes)
      (hconsole : console (output t i p).success = .error message) :
      Ends console t i (.cutOff (.console message)) (t.put place (.file bytes))
  | written {s : Source} {p : Program} {place : List String} {bytes : List UInt8}
      (h : Links t i s p) (hpath : Path.error? (i.target t) = none)
      (htarget : t.target (i.target t) = .ok place)
      (hencode : Text.encode (listing p.listed) = .ok bytes)
      (hconsole : console (output t i p).success = .ok ()) :
      Ends console t i (.exit 0) (t.put place (.file bytes))

theorem perform_of_load {b : Build} (hload : Source.load t i.source = .ok s)
    (hbuild : build s i.bootstrap = .ok b) :
    perform console t i = (b.verdict i.output).report console t := by
  simp only [perform, judge, hload, hbuild]

theorem verdict_of_errors {b : Build} (h : hasErrors b.diagnostics = true)
    (output : Option String) : b.verdict output = .refused 1 (printed b.diagnostics) :=
  if_pos h

theorem verdict_of_sound {diagnostics : List Diagnostic} {outPath : String}
    (h : hasErrors diagnostics = false) (hout : outPath = Source.defaultOutput t i.source) :
    Build.verdict ⟨diagnostics, p, outPath⟩ i.output
      = .ready (printed diagnostics) (output t i p) := by
  unfold Build.verdict
  dsimp only
  rw [if_neg (by rw [h]; decide), hout]
  rfl

/-- **What becomes of a program without errors**: its file is opened, its text
is encoded and written, and the result is printed, as far as this goes. -/
theorem ends_of_links (console : Console) (err : String) (h : Links t i s p) :
    Ends console t i (Verdict.report console t (.ready err (output t i p))).ending
      (Verdict.report console t (.ready err (output t i p))).tree := by
  cases hpath : Path.error? (i.target t) with
  | some e =>
    simp only [Verdict.report, output, hpath]
    exact .noPath h hpath
  | none =>
    cases htarget : t.target (i.target t) with
    | error cause =>
      simp only [Verdict.report, output, hpath, FileTree.create, htarget]
      exact .blocked h hpath htarget
    | ok place =>
      cases hencode : Text.encode (listing p.listed) with
      | error e =>
        simp only [Verdict.report, output, hpath, FileTree.create, htarget, hencode]
        exact .emptied h hpath htarget hencode
      | ok bytes =>
        cases hconsole :
            console (Output.success ⟨i.target t, listing p.listed, p.lines.length⟩) with
        | error message =>
          simp only [Verdict.report, output, hpath, FileTree.create, htarget, hencode, hconsole,
            FileTree.put_put]
          exact .unprinted h hpath htarget hencode hconsole
        | ok =>
          simp only [Verdict.report, output, hpath, FileTree.create, htarget, hencode, hconsole,
            FileTree.put_put]
          exact .written h hpath htarget hencode hconsole

/-- **A run ends in one of these ways.** -/
theorem ends (console : Console) (hwork : ∀ name ∈ t.workingDirectory, '/' ∉ name.toList)
    (i : Invocation) :
    Ends console t i (perform console t i).ending (perform console t i).tree := by
  cases hload : Source.load t i.source with
  | error e =>
    rw [perform, judge, hload]
    cases e with
    | numeral e => exact .numeral hload
    | missing path | file e => exact .unread hload rfl
  | ok s =>
    obtain ⟨hprogram, hout, -⟩ := Source.load_eq_ok hwork hload
    by_cases hread : hasErrors s.diagnostics = true
    · -- a source with errors is not linked
      rw [perform_of_load hload (if_pos hread), verdict_of_errors hread]
      exact .faulty ⟨s, hload, .inl hread⟩
    · obtain ⟨p, hlink⟩ := Program.exists_link s.modules (o := options t i) rfl
        (show isSymbol "Sys.init".toList = true by decide)
      have hbuild : build s i.bootstrap = .ok ⟨s.diagnostics ++ p.diagnostics, p, s.outPath⟩ := by
        rw [build, if_neg hread, hprogram]
        change Program.link s.modules (options t i) >>= _ = _
        rw [hlink]
        rfl
      rw [Bool.not_eq_true] at hread
      rw [perform_of_load hload hbuild]
      by_cases hlinked : hasErrors p.diagnostics = true
      · rw [verdict_of_errors (by rw [Program.hasErrors_append, hlinked, Bool.or_true])]
        exact .faulty ⟨s, hload, .inr ⟨p, hlink, hlinked⟩⟩
      · rw [Bool.not_eq_true] at hlinked
        rw [verdict_of_sound (by rw [Program.hasErrors_append, hread, hlinked]; rfl) hout]
        exact ends_of_links console _ ⟨hload, hread, hlink, hlinked⟩

/-! ## Exit codes -/

/-- **What cuts a run off.** -/
def CutBy (console : Console) (t : FileTree) (i : Invocation) : ToolError → Prop
  | .numeral e => Source.load t i.source = .error (.numeral e)
  | .path e => ∃ s p, Links t i s p ∧ Path.error? (i.target t) = some e
  | .text e => ∃ s p, Links t i s p ∧ t.Opens (i.target t) ∧
      Text.encode (listing p.listed) = .error e
  | .console message => ∃ s p bytes, Links t i s p ∧ t.Opens (i.target t) ∧
      Text.encode (listing p.listed) = .ok bytes ∧
      console (output t i p).success = .error message
  | .entry _ | .noMode => False

namespace Ends

variable {ending : Ending} {tree : FileTree} (hends : Ends console t i ending tree)

include hends

-- each way to end has one ending, and no two of them have their conditions in
-- common

theorem exit_two_iff : ending = .exit 2 ↔
    ∃ e, Source.load t i.source = .error e ∧ e.isUnreadable = true := by
  cases hends with
  | numeral hload => grind [SourceError.isUnreadable]
  | unread hload he => grind
  | faulty h => grind [Faulty.load_ne_error]
  | noPath h | blocked h | emptied h | unprinted h | written h => grind [Links.load_ne_error]

theorem exit_one_iff : ending = .exit 1 ↔ Faulty t i := by
  cases hends with
  | numeral hload | unread hload => grind [Faulty.load_ne_error]
  | faulty h => grind
  | noPath h | blocked h | emptied h | unprinted h | written h => grind [Links.not_faulty]

theorem exit_three_iff : ending = .exit 3 ↔
    ∃ s p, Links t i s p ∧ Path.error? (i.target t) = none ∧ ¬t.Opens (i.target t) := by
  cases hends with
  | numeral hload | unread hload => grind [Links.load_ne_error]
  | faulty h => grind [Links.not_faulty]
  | noPath h | blocked h | emptied h | unprinted h | written h => grind [FileTree.Opens]

theorem exit_zero_iff : ending = .exit 0 ↔
    ∃ s p bytes, Links t i s p ∧ t.Opens (i.target t) ∧
      Text.encode (listing p.listed) = .ok bytes ∧ console (output t i p).success = .ok () := by
  cases hends with
  | numeral hload | unread hload => grind [Links.load_ne_error]
  | faulty h => grind [Links.not_faulty]
  | noPath h | blocked h | emptied h | unprinted h | written h =>
    grind [FileTree.Opens, Links.program_eq]

theorem cutOff_iff (e : ToolError) : ending = .cutOff e ↔ CutBy console t i e := by
  cases hends with
  | numeral hload => cases e <;> grind [CutBy, Links.load_ne_error]
  | unread hload he => cases e <;> grind [CutBy, Links.load_ne_error, SourceError.isUnreadable]
  | faulty h => cases e <;> grind [CutBy, Links.not_faulty, Faulty.load_ne_error]
  | noPath h | blocked h | emptied h | unprinted h | written h =>
    cases e <;> grind [CutBy, FileTree.Opens, Links.program_eq, Links.load_ne_error]

theorem tree_eq (hzero : ending ≠ .exit 0) (htext : ∀ e, ending ≠ .cutOff (.text e))
    (hconsole : ∀ message, ending ≠ .cutOff (.console message)) : tree = t := by
  cases hends with
  | numeral | unread | faulty | noPath | blocked => rfl
  | emptied => exact absurd rfl (htext _)
  | unprinted => exact absurd rfl (hconsole _)
  | written => exact absurd rfl hzero

omit hends in
theorem le_three {code : Nat} (h : Ends console t i (.exit code) tree) : code ≤ 3 := by
  cases h <;> decide

omit hends in
/-- A file that was opened for a text without bytes is empty. -/
theorem writes_nil {e : Text.EncodeError} (h : Ends console t i (.cutOff (.text e)) tree) :
    t.Writes tree (i.target t) [] := by
  cases h with
  | emptied _ _ htarget => exact FileTree.writes_put htarget []

end Ends

/-! ## Files that are written -/

/-- **A complete translation**, written to one file. -/
structure Translated (t t' : FileTree) (i : Invocation) (modules : List Module) (p : Program) :
    Prop where
  /-- Every file of the source is UTF-8 and is read without a diagnostic. -/
  files : List.Forall₂ (Source.Holds t) (Source.files t i.source) modules
  link : Program.link modules (options t i) = .ok p
  linked : hasErrors p.diagnostics = false
  /-- The program ends with its loop. -/
  halts : ∃ code, p.listed = code ++ ["(END)", "@END", "0;JMP"]
  /-- The file is UTF-8 for the listing, and nothing else is new or changed. -/
  written : ∃ bytes cs, t.Writes t' (i.target t) bytes ∧ Text.Utf8.decode bytes = .ok cs ∧
    cs.map Char.toNat = Text.codePoints (listing p.listed).toList

section

variable (hwork : ∀ name ∈ t.workingDirectory, '/' ∉ name.toList)

include hwork

/-- **What is written whole is a complete translation.** -/
theorem Links.translated {place : List String} {bytes : List UInt8} (h : Links t i s p)
    (htarget : t.target (i.target t) = .ok place)
    (hencode : Text.encode (listing p.listed) = .ok bytes) :
    Translated t (t.put place (.file bytes)) i s.modules p := by
  obtain ⟨-, -, hfiles⟩ := Source.load_eq_ok hwork h.load
  obtain ⟨code, hlines⟩ : ∃ code, p.lines = code ++ Program.haltLoop (some "END") :=
    ⟨_, (Program.linked h.link h.linked).lines⟩
  obtain ⟨cs, hdecode, hpoints⟩ := Text.decode_of_encode hencode
  refine ⟨hfiles h.read, h.link, h.linked, ⟨code.map Line.text, ?_⟩,
    bytes, cs, FileTree.writes_put htarget bytes, hdecode, hpoints⟩
  rw [Program.listed, hlines, List.map_append]
  rfl

/-- **The name of the program decides**: without the mark in it the assembly
has bytes. -/
theorem Links.exists_encode (h : Links t i s p)
    (hname : Text.mark ∉ (Source.programName t i.source).toList) :
    ∃ bytes, Text.encode (listing p.listed) = .ok bytes := by
  obtain ⟨-, -, hfiles⟩ := Source.load_eq_ok hwork h.load
  have hparsed := Source.parsed_of_holds (hfiles h.read)
  have hsolid (c : Char) (hc : Text.IsSolid c) : c ≠ Text.mark := by
    rintro rfl
    exact absurd hc.1 (by decide)
  have hlines := (Program.linked h.link h.linked).intact_lines hsolid hparsed rfl rfl
    (fun s hs => nomatch hs) (fun c hc heq => hname (heq ▸ hc))
  have hlisting := spelled_listing (P := (· ≠ Text.mark)) (by decide) hlines
  exact Text.exists_encode fun hmem => hlisting _ hmem rfl

/-- A run that ends with zero has translated all of its source. -/
theorem Ends.exists_translated_of_exit {tree : FileTree} (h : Ends console t i (.exit 0) tree) :
    ∃ modules p, Translated t tree i modules p := by
  cases h with
  | written h _ htarget hencode => exact ⟨_, _, h.translated hwork htarget hencode⟩

theorem Ends.exists_translated_of_console {tree : FileTree} {message : String}
    (h : Ends console t i (.cutOff (.console message)) tree) :
    ∃ modules p, Translated t tree i modules p := by
  cases h with
  | unprinted h _ htarget hencode => exact ⟨_, _, h.translated hwork htarget hencode⟩

theorem Ends.mark_mem {tree : FileTree} {e : Text.EncodeError}
    (h : Ends console t i (.cutOff (.text e)) tree) :
    Text.mark ∈ (Source.programName t i.source).toList := by
  cases h with
  | emptied h _ _ hencode =>
    by_contra hname
    obtain ⟨bytes, hbytes⟩ := h.exists_encode hwork hname
    rw [hencode] at hbytes
    cases hbytes

end

/-- A path without the mark can be shown. -/
theorem utf8_success (hpath : Text.mark ∉ (i.target t).toList) :
    Console.utf8 (output t i p).success = .ok () := by
  have hdigits : Text.mark ∉ (toString p.lines.length).toList := fun hmem =>
    absurd (solid_toString _ _ hmem).1 (by decide)
  have hmark : Text.mark ∉ (output t i p).success.toList := by
    simp only [Output.success, output, String.toList_append, List.mem_append, not_or]
    exact ⟨⟨⟨⟨by decide, hdigits⟩, by decide⟩, hpath⟩, by decide⟩
  obtain ⟨bytes, hencode⟩ := Text.exists_encode hmark
  rw [Console.utf8, hencode]

/-- **What a run does to the files, and how it ends.** -/
structure Outcome (console : Console) (t : FileTree) (i : Invocation) (r : Report) : Prop where
  /-- Zero: there is no error, the file can be opened, the text has bytes, and
  the result is printed. -/
  zero : r.ending = .exit 0 ↔ ∃ s p bytes, Links t i s p ∧ t.Opens (i.target t) ∧
    Text.encode (listing p.listed) = .ok bytes ∧ console (output t i p).success = .ok ()
  /-- One: the source is read, and there is an error. -/
  one : r.ending = .exit 1 ↔ Faulty t i
  /-- Two: the source has a path that cannot be read. -/
  two : r.ending = .exit 2 ↔ ∃ e, Source.load t i.source = .error e ∧ e.isUnreadable = true
  /-- Three: there is no error, and the file has a path and cannot be opened. -/
  three : r.ending = .exit 3 ↔
    ∃ s p, Links t i s p ∧ Path.error? (i.target t) = none ∧ ¬t.Opens (i.target t)
  /-- There is no other exit code. -/
  exit : ∀ code, r.ending = .exit code → code ≤ 3
  /-- A run is cut off by a numeral that is too long, a path that is none, a
  text without bytes or a console that does not take the result. -/
  cutOff : ∀ e, r.ending = .cutOff e ↔ CutBy console t i e
  /-- With zero all of the translation is written. -/
  written : r.ending = .exit 0 → ∃ modules p, Translated t r.tree i modules p
  /-- So it is when only the result could not be printed. -/
  unprinted : ∀ message, r.ending = .cutOff (.console message) →
    ∃ modules p, Translated t r.tree i modules p
  /-- A text without bytes leaves the file empty, and nothing else is new or
  changed. -/
  emptied : ∀ e, r.ending = .cutOff (.text e) → t.Writes r.tree (i.target t) []
  /-- A text without bytes is the doing of the program's name. -/
  named : ∀ e, r.ending = .cutOff (.text e) → Text.mark ∈ (Source.programName t i.source).toList
  /-- In all other cases nothing is written. -/
  kept : r.ending ≠ .exit 0 → (∀ e, r.ending ≠ .cutOff (.text e)) →
    (∀ message, r.ending ≠ .cutOff (.console message)) → r.tree = t

/-- **A run that ends with an exit code writes a complete translation or
nothing**, and the code says which. A run that is cut off writes nothing
either, but for two ways: a text without bytes leaves the file empty, and
behind a result that cannot be printed it is complete. The names of the working
directory have no slashes, as in any file system. -/
theorem outcome (console : Console) (t : FileTree) (i : Invocation)
    (hwork : ∀ name ∈ t.workingDirectory, '/' ∉ name.toList) :
    Outcome console t i (perform console t i) where
  zero := (ends console hwork i).exit_zero_iff
  one := (ends console hwork i).exit_one_iff
  two := (ends console hwork i).exit_two_iff
  three := (ends console hwork i).exit_three_iff
  exit _ h := Ends.le_three (h ▸ ends console hwork i)
  cutOff := (ends console hwork i).cutOff_iff
  written h := Ends.exists_translated_of_exit hwork (h ▸ ends console hwork i)
  unprinted _ h := Ends.exists_translated_of_console hwork (h ▸ ends console hwork i)
  emptied _ h := Ends.writes_nil (h ▸ ends console hwork i)
  named _ h := Ends.mark_mem hwork (h ▸ ends console hwork i)
  kept := (ends console hwork i).tree_eq

end Tool

namespace Sample

/-- A directory with two modules, and an old file that is no text. -/
def disk : FileTree :=
  let files := [
    ("Prog/Sys.vm", "function Sys.init 0\ncall Main.f 0\nlabel L\ngoto L".toUTF8.toList),
    ("Prog/Main.vm", "function Main.f 0 // ñ\r\npush constant 7\r\nreturn".toUTF8.toList),
    ("Prog/Prog.asm", [0xFF])]
  files.foldl (fun t f => t.add f.1 (.file f.2)) (.empty ["w"])

/-- The directory is translated, to the path that is given or else to the old
file. -/
def translation (output : Option String) : Invocation := { source := "Prog/", output := output }

/-- What is read from the directory. -/
def directory : Source where
  program := "Prog"
  modules := [
    { name := some "Main", path := some "Prog/Main.vm",
      commands := [⟨.function (.text "Main.f") (.int 0), 1, some "Main"⟩,
        ⟨.push "constant" (.int 7), 2, some "Main"⟩, ⟨.ret, 3, some "Main"⟩] },
    { name := some "Sys", path := some "Prog/Sys.vm",
      commands := [⟨.function (.text "Sys.init") (.int 0), 1, some "Sys"⟩,
        ⟨.call (.text "Main.f") (.int 0), 2, some "Sys"⟩, ⟨.label (.text "L"), 3, some "Sys"⟩,
        ⟨.goto (.text "L"), 4, some "Sys"⟩] }]
  diagnostics := []
  outPath := "Prog/Prog.asm"

theorem slash_disk : ∀ name ∈ disk.workingDirectory, '/' ∉ name.toList :=
  List.forall_mem_singleton.mpr (by decide)

theorem fileNames_disk : Source.fileNames disk "Prog" = ["Main.vm", "Sys.vm"] := by
  have hlist : disk.list "Prog" = ["Prog.asm", "Main.vm", "Sys.vm"] := by decide +kernel
  have hfilter : ["Prog.asm", "Main.vm", "Sys.vm"].filter (·.endsWith ".vm")
      = ["Main.vm", "Sys.vm"] := by decide +kernel
  rw [Source.fileNames, hlist, hfilter, Text.sortNames,
    List.mergeSort_of_pairwise (by decide +kernel)]

theorem load_disk : Source.load disk "Prog/" = .ok directory := by
  have hpath : Path.trimEnd "Prog/" = "Prog" := by decide +kernel
  have hdir : disk.isDirectory "Prog" = true := by decide +kernel
  have hprogram : Source.directoryProgram disk "Prog" = "Prog" := by decide +kernel
  have hread : Source.readModules disk (["Main.vm", "Sys.vm"].map (Path.join "Prog"))
      = .ok (directory.modules, []) := by decide +kernel
  unfold Source.load
  dsimp only
  rw [hpath, if_pos hdir, hprogram, fileNames_disk]
  dsimp only [Source.chosenNames]
  rw [hread]
  decide +kernel

theorem links_disk (output : Option String) :
    ∃ p, Tool.Links disk (translation output) directory p := by
  have hname : Source.programName disk "Prog/" = "Prog" := by decide +kernel
  have hoptions : Tool.options disk (translation output) = { program := some "Prog" } := by
    rw [Tool.options, translation, hname]
  have hlink : (match Program.link directory.modules { program := some "Prog" } with
      | .error _ => true
      | .ok p => hasErrors p.diagnostics) = false := by decide +kernel
  split at hlink
  next => cases hlink
  next p hp => exact ⟨p, load_disk, rfl, hoptions ▸ hp, hlink⟩

/-- The name of a source, with a byte in it that is not UTF-8. -/
def strayName : String := "a\ue000\ud4ff.vm"

/-- A file of this name, and an old translation of it. -/
def stray : FileTree where
  workingDirectory := ["w"]
  entries := [(["w"], .directory), (["w", strayName], .file "push static 0".toUTF8.toList),
    (["w", "a\ue000\ud4ff.asm"], .file [0x30, 0x0A])]

theorem slash_stray : ∀ name ∈ stray.workingDirectory, '/' ∉ name.toList :=
  List.forall_mem_singleton.mpr (by decide)

end Sample

/-- The modules of a directory are translated to the file that has its name. -/
theorem Tool.outcome_sample : (∀ name ∈ Sample.disk.workingDirectory, '/' ∉ name.toList) ∧
    Source.files Sample.disk "Prog/" = ["Prog/Main.vm", "Prog/Sys.vm"] ∧
    (Sample.translation none).target Sample.disk = "Prog/Prog.asm" ∧
    ∃ r, perform Console.utf8 Sample.disk (Sample.translation none) = r ∧ r.ending = .exit 0 ∧
      ∃ modules p, Translated Sample.disk r.tree (Sample.translation none) modules p := by
  have houtcome := outcome Console.utf8 Sample.disk (Sample.translation none) Sample.slash_disk
  have htarget : (Sample.translation none).target Sample.disk = "Prog/Prog.asm" := by decide +kernel
  have hfiles : Source.files Sample.disk "Prog/" = ["Prog/Main.vm", "Prog/Sys.vm"] := by
    have hpath : Path.trimEnd "Prog/" = "Prog" := by decide +kernel
    rw [Source.files, hpath, if_pos (by decide +kernel), Sample.fileNames_disk]
    decide +kernel
  have hopens : Sample.disk.Opens ((Sample.translation none).target Sample.disk) := by
    rw [htarget]
    exact ⟨by decide +kernel, ["w", "Prog", "Prog.asm"], by decide +kernel⟩
  obtain ⟨p, hlinks⟩ := Sample.links_disk none
  obtain ⟨bytes, hencode⟩ := hlinks.exists_encode Sample.slash_disk (by decide +kernel)
  have hconsole : Console.utf8 (output Sample.disk (Sample.translation none) p).success = .ok () :=
    utf8_success (by rw [htarget]; decide)
  have hzero := houtcome.zero.mpr ⟨_, p, bytes, hlinks, hopens, hencode, hconsole⟩
  exact ⟨Sample.slash_disk, hfiles, htarget, _, rfl, hzero, houtcome.written hzero⟩

/-- **A path that cannot be opened need not be reported, and a file can be
lost.** A null character in the path of the output cuts the run off, although
there is no error. So does a name that is not UTF-8, once it stands in the
assembly, and then the old file is gone. -/
theorem Tool.perform_cutOff :
    ((∃ s p, Links Sample.disk (Sample.translation (some "a\x00b")) s p) ∧
      ¬Sample.disk.Opens ((Sample.translation (some "a\x00b")).target Sample.disk) ∧
      (perform Console.utf8 Sample.disk (Sample.translation (some "a\x00b"))).ending
        = .cutOff (.path .null)) ∧
    Text.nameBytes Sample.strayName = [0x61, 0xFF, 0x2E, 0x76, 0x6D] ∧
    (∃ s p, Links Sample.stray { source := Sample.strayName } s p) ∧
    (perform Console.utf8 Sample.stray { source := Sample.strayName }).ending
      = .cutOff (.text ⟨2, [0xDCFF]⟩) ∧
    Sample.stray.read "a\ue000\ud4ff.asm" = .ok [0x30, 0x0A] ∧
    (perform Console.utf8 Sample.stray { source := Sample.strayName }).tree.read
      "a\ue000\ud4ff.asm" = .ok [] := by
  have hnull : Path.error? ((Sample.translation (some "a\x00b")).target Sample.disk)
      = some .null := by decide +kernel
  obtain ⟨p, hlinks⟩ := Sample.links_disk (some "a\x00b")
  have hcut : (perform Console.utf8 Sample.disk (Sample.translation (some "a\x00b"))).ending
      = .cutOff (.path .null) :=
    ((ends Console.utf8 Sample.slash_disk _).cutOff_iff (.path .null)).mpr ⟨_, p, hlinks, hnull⟩
  have hstray : (perform Console.utf8 Sample.stray { source := Sample.strayName }).ending
      = .cutOff (.text ⟨2, [0xDCFF]⟩) := by decide +kernel
  have hends := ends Console.utf8 Sample.slash_stray { source := Sample.strayName }
  obtain ⟨s, q, hq, -⟩ := (hends.cutOff_iff _).mp hstray
  have htarget : Invocation.target Sample.stray { source := Sample.strayName }
      = "a\ue000\ud4ff.asm" := by decide +kernel
  have hempty := (Ends.writes_nil (hstray ▸ hends)).content
  rw [htarget] at hempty
  refine ⟨⟨⟨_, p, hlinks⟩, fun hopens => ?_, hcut⟩, by decide +kernel, ⟨s, q, hq⟩, hstray,
    by decide +kernel, hempty⟩
  have hnone := hopens.1
  rw [hnull] at hnone
  cases hnone

end HackStack
