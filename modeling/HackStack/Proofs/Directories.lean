import HackStack.Proofs.Outcomes

/-!
# Directories as sources

A directory is read file by file: every entry with the extension, in the order
of the names. `Source.loadEntries` says so and no more. The reader has a
special case besides, for a single file that has the name of its directory: it
opens the directory's name with the extension put behind it. That is the same
file, as long as a name is what is left of it without the extension, and the
extension.

It need not be. The dots that a name starts with open no extension, so a name
that is nothing but dots and `vm` is all of it the name of a module, and with
the extension behind it becomes another name. In a directory of that name the
reader looks for a file that is not there (`Source.load_bare`), and this is the
only case where it does (`Source.load_directory`).

The other thing to see to is the order in which a directory lists its entries,
which is not that of their names. A tree whose entries are in another order is
read in the same way (`Source.load_relisted`), since every place has one entry
and the names are sorted.
-/

namespace HackStack

/-! ## Names in order -/

namespace Text

variable {names names' : List String}

theorem pairwise_sortNames (names : List String) : (sortNames names).Pairwise (· ≤ ·) := by
  have hle (x y : String) : (!decide (y < x)) = true ↔ x ≤ y := by
    rw [Bool.not_eq_true', decide_eq_false_iff_not, String.not_lt]
  refine (List.pairwise_mergeSort (fun x y z hxy hyz => ?_) (fun x y => ?_) names).imp
    fun hxy => (hle _ _).mp hxy
  · rw [hle] at hxy hyz ⊢
    exact String.le_trans hxy hyz
  · rw [Bool.or_eq_true, hle, hle]
    exact String.le_total x y

/-- Sorted names do not tell in which order they came. -/
theorem sortNames_congr (h : names.Perm names') : sortNames names = sortNames names' :=
  List.Perm.eq_of_pairwise (fun _ _ _ _ => String.le_antisymm) (pairwise_sortNames names)
    (pairwise_sortNames names')
    (((sortNames_perm names).trans h).trans (sortNames_perm names').symm)

/-- Different names are sorted strictly. -/
theorem pairwise_lt_sortNames (h : names.Nodup) : (sortNames names).Pairwise (· < ·) := by
  have hnodup : (sortNames names).Nodup := (sortNames_perm names).nodup_iff.mpr h
  refine List.Pairwise.imp₂ (fun x y hle hne => ?_) (pairwise_sortNames names) hnodup
  exact String.not_le.mp fun hge => hne (String.le_antisymm hle hge)

end Text

/-! ## Trees in another order -/

namespace FileTree

variable {t t' : FileTree} {path name : String} {place : List String}

/-- **A tree as file systems have them**: every place has one entry, and there
is no slash in a name. -/
structure Proper (t : FileTree) : Prop where
  places : (t.entries.map Prod.fst).Nodup
  names : ∀ entry ∈ t.entries, ∀ name ∈ entry.1, '/' ∉ name.toList
  workingDirectory : ∀ name ∈ t.workingDirectory, '/' ∉ name.toList

/-- **The same tree, with its entries in another order.** This is the order in
which a directory lists them. -/
structure Relisted (t t' : FileTree) : Prop where
  workingDirectory : t'.workingDirectory = t.workingDirectory
  entries : t'.entries.Perm t.entries

/-- A place with one entry has what its entry says. -/
theorem lookup_eq_some_iff (h : (t.entries.map Prod.fst).Nodup) {node : Node} :
    t.entries.lookup place = some node ↔ (place, node) ∈ t.entries := by
  rw [List.lookup_eq_some_iff]
  constructor
  · rintro ⟨before, after, hentries, -⟩
    simp [hentries]
  · intro hmem
    obtain ⟨before, after, hentries⟩ := List.append_of_mem hmem
    rw [hentries, List.map_append, List.map_cons, List.nodup_middle, List.nodup_cons] at h
    refine ⟨before, after, hentries, fun entry hentry => bne_iff_ne.mpr fun heq => h.1 ?_⟩
    exact List.mem_append_left _ (List.mem_map.mpr ⟨entry, hentry, heq.symm⟩)

theorem walk_congr (hnode : ∀ place, t'.node? place = t.node? place) (names : List String) :
    t'.walk place names = t.walk place names := by
  induction names generalizing place with
  | nil => rfl
  | cons name names ih => simp only [walk, hnode, ih]

section

variable (h : t.Relisted t') (ht : t.Proper)

include h ht

theorem Relisted.node?_eq (place : List String) : t'.node? place = t.node? place := by
  have hplaces : (t'.entries.map Prod.fst).Nodup := (h.entries.map _).nodup_iff.mpr ht.places
  have hlookup : t'.entries.lookup place = t.entries.lookup place := by
    ext node
    rw [lookup_eq_some_iff hplaces, lookup_eq_some_iff ht.places, h.entries.mem_iff]
  rw [node?, node?, hlookup]

theorem Relisted.walk_eq (path : String) :
    t'.walk (t'.origin path) (Path.names path) = t.walk (t.origin path) (Path.names path) := by
  rw [walk_congr (h.node?_eq ht), origin, h.workingDirectory, ← origin]

theorem Relisted.find_eq (path : String) : t'.find path = t.find path := by
  simp only [find, h.walk_eq ht, h.node?_eq ht]

theorem Relisted.read_eq (path : String) : t'.read path = t.read path := by
  rw [read, h.find_eq ht, read]

theorem Relisted.isDirectory_eq (path : String) : t'.isDirectory path = t.isDirectory path := by
  rw [isDirectory, h.find_eq ht, isDirectory]

theorem Relisted.isFile_eq (path : String) : t'.isFile path = t.isFile path := by
  rw [isFile, h.find_eq ht, isFile]

/-- A directory lists the same names, in another order. -/
theorem Relisted.list_perm (path : String) : (t'.list path).Perm (t.list path) := by
  rw [list, list, h.walk_eq ht]
  split
  · exact .refl _
  · exact h.entries.filterMap _

end

/-! ## What a directory lists -/

namespace Proper

variable (ht : t.Proper)

include ht

theorem nodup_list (path : String) : (t.list path).Nodup := by
  unfold list
  split
  next => exact List.nodup_nil
  next place _ =>
    -- the name of an entry is read off its place alone
    show (t.entries.filterMap ((fun p : List String =>
      if p.dropLast = place then p.getLast? else none) ∘ Prod.fst)).Nodup
    rw [← List.filterMap_map]
    refine List.Nodup.filterMap (fun p q name hp hq => ?_) ht.places
    rw [Option.mem_def, Option.ite_none_right_eq_some] at hp hq
    rw [← List.dropLast_append_getLast? name hp.2, ← List.dropLast_append_getLast? name hq.2,
      hp.1, hq.1]

theorem slash_notMem_list (h : name ∈ t.list path) : '/' ∉ name.toList := by
  cases hwalk : t.walk (t.origin path) (Path.names path) with
  | error cause =>
    rw [list, hwalk] at h
    cases h
  | ok place =>
    obtain ⟨node, hmem⟩ := (mem_list hwalk).mp h
    exact ht.names _ hmem name (by simp)

end Proper

/-- **A name that a directory does not list cannot be read there.** -/
theorem read_of_not_mem_list (hdir : t.isDirectory path = true) (hslash : '/' ∉ name.toList)
    (hname : name ≠ "" ∧ name ≠ "." ∧ name ≠ "..") (hlist : name ∉ t.list path) :
    t.read (Path.join path name) = .error
      ⟨if isLongPath (Path.join path name) || isLongName name then .nameTooLong else .missing,
        Path.join path name⟩ := by
  obtain ⟨hne, place, hwalk, hnode⟩ := exists_walk_of_find (find_of_isDirectory hdir)
  have hempty : (Path.join path name).isEmpty = false := by
    rw [← Bool.not_eq_true, String.isEmpty_iff, ← String.toList_eq_nil_iff,
      Path.toList_join hne hslash]
    simp [hne]
  have hnone : t.node? (place ++ [name]) = none := by
    rw [node?, if_neg (by simp), List.lookup_eq_none_iff]
    intro entry hentry
    refine bne_iff_ne.mpr fun heq => hlist ((mem_list hwalk).mpr ⟨entry.2, ?_⟩)
    rwa [heq]
  unfold read find
  rw [hempty, walk_join hne hslash hwalk, walk, hnode, hnone]
  cases hpath : isLongPath (Path.join path name) with
  | true => rfl
  | false =>
    cases hlong : isLongName name with
    | true => simp [hname, bind, Except.bind]
    | false => simp [hname, bind, Except.bind]

end FileTree

/-! ## Names with the extension -/

namespace Path

/-- **A name that is nothing but dots and `vm`.** It has no extension. -/
def isBare (name : String) : Bool := name.toList.dropWhile (· == '.') == ['v', 'm']

variable {front : List Char}

theorem isBare_append_vm (front : List Char) :
    isBare (String.ofList (front ++ ['.', 'v', 'm'])) = front.all (· == '.') := by
  rw [isBare, String.toList_ofList, List.dropWhile_append]
  cases hfront : front.all (· == '.') with
  | true =>
    rw [if_pos (by rwa [List.isEmpty_iff, List.dropWhile_eq_nil_iff, ← List.all_eq_true])]
    rfl
  | false =>
    have hne : front.dropWhile (· == '.') ≠ [] := by
      rw [Ne, List.dropWhile_eq_nil_iff, ← List.all_eq_true, hfront]
      decide
    rw [if_neg (by rwa [List.isEmpty_iff]), beq_eq_false_iff_ne]
    intro heq
    have hlength := congrArg List.length heq
    rw [List.length_append] at hlength
    have := List.length_pos_iff.mpr hne
    simp only [List.length_cons, List.length_nil] at hlength
    omega

/-- The name of the module in a file with the extension: what stands before the
extension, unless these are dots only. -/
theorem moduleName_append_vm (hslash : '/' ∉ front) :
    moduleName (String.ofList (front ++ ['.', 'v', 'm']))
      = if front.all (· == '.') then String.ofList (front ++ ['.', 'v', 'm'])
        else String.ofList front := by
  have hbase : baseName (String.ofList (front ++ ['.', 'v', 'm']))
      = String.ofList (front ++ ['.', 'v', 'm']) := by
    rw [baseName, String.toList_ofList, List.takeWhile_eq_self_iff.mpr, List.reverse_reverse]
    intro c hc
    rw [List.mem_reverse, List.mem_append] at hc
    rcases hc with hc | hc
    · exact bne_iff_ne.mpr fun heq => hslash (heq ▸ hc)
    · fin_cases hc <;> rfl
  have hdrop : (front ++ ['.', 'v', 'm']).reverse.dropWhile (· != '.') = '.' :: front.reverse := by
    rw [List.reverse_append]
    rfl
  rw [moduleName, hbase, stem, String.toList_ofList, hdrop]
  dsimp only
  rw [List.all_reverse, List.reverse_reverse]

/-- Different names lead to different paths. -/
theorem join_inj {path name name' : String} (hpath : path ≠ "") (hslash : '/' ∉ name.toList)
    (hslash' : '/' ∉ name'.toList) (h : join path name = join path name') : name = name' := by
  have hlists := congrArg String.toList h
  rw [toList_join hpath hslash, toList_join hpath hslash', List.append_cancel_left_eq] at hlists
  split at hlists
  · exact String.toList_inj.mp hlists
  · exact String.toList_inj.mp (List.cons.inj hlists).2

theorem exists_append_vm {name : String} (h : name.endsWith ".vm" = true) :
    ∃ front, name = String.ofList (front ++ ['.', 'v', 'm']) := by
  rw [String.endsWith_eq_endsWith_toSlice, String.Slice.endsWith_string_iff] at h
  obtain ⟨front, hfront⟩ := h
  refine ⟨front, ?_⟩
  rw [String.ext_iff, String.toList_ofList]
  simpa using hfront.symm

end Path

/-! ## Reading a directory -/

namespace Source

variable {t t' : FileTree} {source path program name : String}

/-- **A directory read entry by entry**: every entry with the extension is read
once, in the order of the names, until one cannot be read. -/
def loadEntries (t : FileTree) (source : String) : Except SourceError Source := do
  let path := Path.trimEnd source
  let program := directoryProgram t path
  let outPath := Path.join path (program ++ ".asm")
  if (fileNames t path).isEmpty then
    return ⟨program, [],
      [.error "El directorio no contiene archivos .vm" none (some path) none], outPath⟩
  else
    let read ← (fileNames t path).mapM fun name => readModule t (Path.join path name)
    return ⟨program, read.filterMap Prod.fst, read.flatMap Prod.snd, outPath⟩

/-- Whether the reader is mistaken about the only file of a directory: both
have one name, which is bare. -/
def IsMistaken (t : FileTree) (path : String) : Prop :=
  fileNames t path = [directoryProgram t path] ∧ Path.isBare (directoryProgram t path) = true

instance (t : FileTree) (path : String) : Decidable (IsMistaken t path) :=
  inferInstanceAs (Decidable (_ ∧ _))

theorem mapError_eq_error {ε ε' α : Type} {x : Except ε α} {f : ε → ε'} {e : ε'}
    (h : x.mapError f = .error e) : ∃ e', x = .error e' ∧ f e' = e := by
  cases x with
  | error e' => exact ⟨e', rfl, Except.error.inj h⟩
  | ok a => cases h

theorem readModules_eq_mapM (t : FileTree) (paths : List String) :
    readModules t paths = (fun read => (read.filterMap Prod.fst, read.flatMap Prod.snd))
      <$> paths.mapM (readModule t) := by
  induction paths with
  | nil => rfl
  | cons path paths ih =>
    rw [readModules, ih, List.mapM_cons]
    cases readModule t path with
    | error e => rfl
    | ok first =>
      obtain ⟨m, ds⟩ := first
      cases paths.mapM (readModule t) with
      | error e => rfl
      | ok rest => cases m <;> rfl

/-- A single name is kept, but for a bare one that is also the program's. -/
theorem chosenNames_singleton (hvm : name.endsWith ".vm" = true) (hslash : '/' ∉ name.toList) :
    chosenNames program [name]
      = if name = program ∧ Path.isBare name = true then [program ++ ".vm"] else [name] := by
  obtain ⟨front, rfl⟩ := Path.exists_append_vm hvm
  have hfront : '/' ∉ front := by
    rw [String.toList_ofList, List.mem_append, not_or] at hslash
    exact hslash.1
  rw [chosenNames, Path.moduleName_append_vm hfront, Path.isBare_append_vm]
  cases front.all (· == '.') with
  | true => simp only [if_true, and_true]
  | false =>
    simp only [Bool.false_eq_true, if_false, and_false]
    split
    next hprogram => rw [← hprogram, String.ofList_append]
    next => rfl

theorem chosenNames_fileNames (ht : t.Proper) (path : String) :
    chosenNames (directoryProgram t path) (fileNames t path)
      = if IsMistaken t path then [directoryProgram t path ++ ".vm"] else fileNames t path := by
  cases hnames : fileNames t path with
  | nil =>
    rw [if_neg fun h => by rw [IsMistaken, hnames] at h; cases h.1]
    rfl
  | cons name names =>
    cases names with
    | nil =>
      obtain ⟨hlist, hvm⟩ := mem_fileNames.mp (hnames ▸ List.mem_singleton_self name)
      rw [chosenNames_singleton hvm (ht.slash_notMem_list hlist)]
      refine if_congr ?_ rfl rfl
      rw [IsMistaken, hnames, List.cons.injEq, and_iff_left rfl]
      exact and_congr_right fun heq => by rw [heq]
    | cons _ _ =>
      rw [if_neg fun h => by rw [IsMistaken, hnames] at h; cases h.1]
      rfl

/-- Reading a directory, but for the choice of its files. -/
theorem load_eq_of_isDirectory (hdir : t.isDirectory (Path.trimEnd source) = true)
    (hchosen : chosenNames (directoryProgram t (Path.trimEnd source))
      (fileNames t (Path.trimEnd source)) = fileNames t (Path.trimEnd source)) :
    load t source = loadEntries t source := by
  unfold load loadEntries
  dsimp only
  rw [if_pos hdir]
  generalize fileNames t (Path.trimEnd source) = names at hchosen ⊢
  cases names with
  | nil => rfl
  | cons name names =>
    dsimp only
    rw [hchosen, readModules_eq_mapM, List.mapM_map, if_neg (by simp)]
    show _ = Except.bind (List.mapM (readModule t ∘ Path.join (Path.trimEnd source)) _) _
    cases List.mapM (readModule t ∘ Path.join (Path.trimEnd source)) (name :: names) with
    | error e => rfl
    | ok read => rfl

/-- The file that the reader looks for when it is mistaken. -/
def mistakenPath (t : FileTree) (path : String) : String :=
  Path.join path (directoryProgram t path ++ ".vm")

/-- Why it cannot be opened: it is not there, or its name is too long to be
there. -/
def mistakenCause (t : FileTree) (path : String) : FileCause :=
  if isLongPath (mistakenPath t path) || isLongName (directoryProgram t path ++ ".vm") then
    .nameTooLong
  else .missing

theorem slash_notMem_mistaken (ht : t.Proper) :
    '/' ∉ (directoryProgram t path ++ ".vm").toList := by
  rw [String.toList_append, List.mem_append, not_or]
  exact ⟨slash_notMem_directoryProgram ht.workingDirectory, by decide⟩

theorem append_vm_ne_self (name : String) : name ++ ".vm" ≠ name := by
  intro heq
  have hlength := congrArg String.length heq
  rw [String.length_append] at hlength
  exact absurd hlength (by simp)

/-- **A mistaken reader finds no file.** -/
theorem load_of_isMistaken (ht : t.Proper) (hdir : t.isDirectory (Path.trimEnd source) = true)
    (h : IsMistaken t (Path.trimEnd source)) :
    load t source = .error (.file ⟨mistakenCause t (Path.trimEnd source),
      mistakenPath t (Path.trimEnd source)⟩) := by
  have hchosen := chosenNames_fileNames ht (Path.trimEnd source)
  rw [if_pos h, h.1] at hchosen
  have hlist :
      directoryProgram t (Path.trimEnd source) ++ ".vm" ∉ t.list (Path.trimEnd source) := by
    intro hmem
    have hlisted := mem_fileNames.mpr ⟨hmem, endsWith_append_vm _⟩
    rw [h.1, List.mem_singleton] at hlisted
    exact append_vm_ne_self _ hlisted
  unfold load
  dsimp only
  rw [if_pos hdir, h.1]
  dsimp only
  rw [hchosen, List.map_singleton, readModules, readModule,
    FileTree.read_of_not_mem_list hdir (slash_notMem_mistaken ht) (append_vm_ne _) hlist]
  rfl

/-- What cannot be opened is the file itself. -/
theorem path_of_readModule {e : FileError} (h : readModule t path = .error (.file e)) :
    e.path = path := by
  rcases bind_eq_error h with hopen | ⟨bytes, -, h⟩
  · obtain ⟨e', hread, he⟩ := mapError_eq_error hopen
    obtain rfl := SourceError.file.inj he
    unfold FileTree.read at hread
    split at hread
    next => cases hread
    next => exact Except.error.inj hread ▸ rfl
    next => exact Except.error.inj hread ▸ rfl
  -- what is wrong with the text of a file is not a fault of its path
  · split at h
    next => cases h
    next =>
      rcases bind_eq_error h with hmodule | ⟨m, -, h⟩
      · obtain ⟨_, -, he⟩ := mapError_eq_error hmodule
        cases he
      · cases h

/-- A mistaken reader does not even fail as it should: it names another file. -/
theorem loadEntries_ne_of_isMistaken (ht : t.Proper)
    (hdir : t.isDirectory (Path.trimEnd source) = true) (h : IsMistaken t (Path.trimEnd source)) :
    load t source ≠ loadEntries t source := by
  rw [load_of_isMistaken ht hdir h, loadEntries, h.1]
  intro heq
  rcases bind_eq_error heq.symm with hread | ⟨read, -, heq⟩
  · rw [List.mapM_cons] at hread
    rcases bind_eq_error hread with hmodule | ⟨read, -, hread⟩
    · have hpath : Path.trimEnd source ≠ "" :=
        (FileTree.exists_walk_of_find (FileTree.find_of_isDirectory hdir)).1
      have hjoin := path_of_readModule hmodule
      dsimp only [mistakenPath] at hjoin
      exact append_vm_ne_self _ (Path.join_inj hpath (slash_notMem_mistaken ht)
        (slash_notMem_directoryProgram ht.workingDirectory) hjoin)
    · cases hread
  · cases heq

/-- **The order in which a directory lists its entries does not matter.** -/
theorem load_relisted (h : t.Relisted t') (ht : t.Proper) (source : String) :
    load t' source = load t source := by
  have hnames (path : String) : fileNames t' path = fileNames t path :=
    Text.sortNames_congr ((h.list_perm ht path).filter _)
  have hmodule (path : String) : readModule t' path = readModule t path := by
    rw [readModule, h.read_eq ht, readModule]
  have hread : readModules t' = readModules t := by
    funext paths
    simp only [readModules_eq_mapM, funext hmodule]
  simp only [load, directoryProgram, h.isDirectory_eq ht, h.isFile_eq ht, h.workingDirectory,
    hnames, hread]

/-- **How a directory is read.** The names of its files are those of all its
entries with the extension, each once and in order. It is read entry by entry,
in spite of the special case, unless its only file has its name and this is
bare; then, and only then, the outcome is another one, a file that cannot be
opened and is none of the directory's. The order in which the directory lists
its entries never matters. -/
theorem load_directory (ht : t.Proper) (hdir : t.isDirectory (Path.trimEnd source) = true) :
    (∃ place,
      t.walk (t.origin (Path.trimEnd source)) (Path.names (Path.trimEnd source)) = .ok place ∧
      (fileNames t (Path.trimEnd source)).Pairwise (· < ·) ∧
      ∀ name, name ∈ fileNames t (Path.trimEnd source) ↔
        name.endsWith ".vm" = true ∧ ∃ node, (place ++ [name], node) ∈ t.entries) ∧
    (load t source = loadEntries t source ↔ ¬IsMistaken t (Path.trimEnd source)) ∧
    (IsMistaken t (Path.trimEnd source) →
      load t source = .error (.file ⟨mistakenCause t (Path.trimEnd source),
        mistakenPath t (Path.trimEnd source)⟩)) ∧
    ∀ t', t.Relisted t' → load t' source = load t source := by
  refine ⟨?_, ⟨fun h hmistaken => ?_, fun h => ?_⟩, load_of_isMistaken ht hdir, fun t' h => ?_⟩
  · obtain ⟨-, place, hwalk, -⟩ := FileTree.exists_walk_of_find (FileTree.find_of_isDirectory hdir)
    refine ⟨place, hwalk, Text.pairwise_lt_sortNames ((ht.nodup_list _).filter _), fun name => ?_⟩
    rw [mem_fileNames, FileTree.mem_list hwalk, and_comm]
  · exact loadEntries_ne_of_isMistaken ht hdir hmistaken h
  · refine load_eq_of_isDirectory hdir ?_
    rw [chosenNames_fileNames ht, if_neg h]
  · exact load_relisted h ht source

end Source

namespace Sample

/-- A directory with one file in it, beside others that are no source. -/
def folder (directory file : String) : FileTree where
  workingDirectory := ["w"]
  entries := [(["w"], .directory), (["w", directory, "a.txt"], .file [0xFF]),
    (["w", directory], .directory), (["w", directory, file], .file "push constant 7".toUTF8.toList)]

theorem proper_folder : (folder "Solo" "Solo.vm").Proper ∧ (folder ".vm" ".vm").Proper := by
  refine ⟨⟨?_, ?_, ?_⟩, ⟨?_, ?_, ?_⟩⟩ <;> decide +kernel

theorem fileNames_folder : Source.fileNames (folder "Solo" "Solo.vm") "Solo" = ["Solo.vm"] ∧
    Source.fileNames (folder ".vm" ".vm") ".vm" = [".vm"] := by
  have hlist : ((folder "Solo" "Solo.vm").list "Solo").filter (·.endsWith ".vm") = ["Solo.vm"] ∧
      ((folder ".vm" ".vm").list ".vm").filter (·.endsWith ".vm") = [".vm"] := by decide +kernel
  rw [Source.fileNames, Source.fileNames, hlist.1, hlist.2]
  exact ⟨List.mergeSort_singleton _, List.mergeSort_singleton _⟩

/-- What there is to read in the directory with the bare name. -/
def bareSource : Source where
  program := ".vm"
  modules := [
    { name := some ".vm", path := some ".vm/.vm",
      commands := [⟨.push "constant" (.int 7), 1, some ".vm"⟩] }]
  diagnostics := []
  outPath := ".vm/.vm.asm"

end Sample

/-- A single file with the name of its directory, in any listing of it. -/
theorem Source.load_directory_sample :
    fileNames (Sample.folder "Solo" "Solo.vm") "Solo" = ["Solo.vm"] ∧
    load (Sample.folder "Solo" "Solo.vm") "Solo/"
      = loadEntries (Sample.folder "Solo" "Solo.vm") "Solo/" ∧
    load { Sample.folder "Solo" "Solo.vm" with
        entries := (Sample.folder "Solo" "Solo.vm").entries.reverse } "Solo/"
      = load (Sample.folder "Solo" "Solo.vm") "Solo/" := by
  have hpath : Path.trimEnd "Solo/" = "Solo" := by decide +kernel
  obtain ⟨-, hload, -, hrelisted⟩ := @load_directory _ "Solo/" Sample.proper_folder.1
    (by rw [hpath]; decide +kernel)
  refine ⟨Sample.fileNames_folder.1, hload.mpr ?_, hrelisted _ ⟨rfl, List.reverse_perm _⟩⟩
  rw [hpath, IsMistaken, Sample.fileNames_folder.1]
  decide +kernel

/-- **The reader can miss the only file of a directory**: that of a directory
`.vm` with a file `.vm` in it. -/
theorem Source.load_bare :
    (Sample.folder ".vm" ".vm").Proper ∧ (Sample.folder ".vm" ".vm").isDirectory ".vm" = true ∧
    loadEntries (Sample.folder ".vm" ".vm") ".vm" = .ok Sample.bareSource ∧
    load (Sample.folder ".vm" ".vm") ".vm" = .error (.file ⟨.missing, ".vm/.vm.vm"⟩) := by
  have hpath : Path.trimEnd ".vm" = ".vm" := by decide +kernel
  have hprogram : directoryProgram (Sample.folder ".vm" ".vm") ".vm" = ".vm" := by decide +kernel
  have hdir : (Sample.folder ".vm" ".vm").isDirectory ".vm" = true := by decide +kernel
  refine ⟨Sample.proper_folder.2, hdir, ?_, ?_⟩
  · have hread :
        [".vm"].mapM (fun name => readModule (Sample.folder ".vm" ".vm") (Path.join ".vm" name))
        = .ok [(Sample.bareSource.modules.head?, [])] := by decide +kernel
    rw [loadEntries, hpath, Sample.fileNames_folder.2, hprogram, hread]
    decide +kernel
  · rw [load_of_isMistaken Sample.proper_folder.2 (by rw [hpath, hdir]), hpath, mistakenCause,
      mistakenPath, hprogram]
    · decide +kernel
    · rw [hpath, IsMistaken, Sample.fileNames_folder.2, hprogram]
      decide +kernel

end HackStack
