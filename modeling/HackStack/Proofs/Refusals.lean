import HackStack.Proofs.Parsed

/-!
# What linking refuses

Source text is checked twice: line by line when it is read, and command by command
when its code is written. The two agree on everything but the range of an index,
which reading does not look at. So a program of modules that were read without
diagnostics is refused for one reason only: a constant over fifteen bits, or an
index outside of a fixed block.

`Placed.rangeError?` is the diagnostic that such a command deserves. The
commands are taken in the order of their code and the first that is refused
ends the work, so the errors of a program are those of `findSome?`
(`Program.link_refusal`).
-/

namespace HackStack

/-! ## Indices out of range -/

/-- **The message about an index that is out of range**, if it is: a constant has
fifteen bits, and the fixed blocks have two cells and eight. -/
def Segment.rangeMessage? : Segment → Nat → Option String
  | constant, i => if 32767 < i then some s!"Constante {i} no cabe en 15 bits" else none
  | pointer, i =>
    if 1 < i then some ("Índice " ++ toString i ++ " fuera de rango para pointer (0..1)") else none
  | temp, i =>
    if 7 < i then some ("Índice " ++ toString i ++ " fuera de rango para temp (0..7)") else none
  | static, _ | indirect _, _ => none

/-- The message about the index of a push or a pop. -/
def Command.rangeMessage? : Command → Option String
  | push segment i | pop segment i => segment.rangeMessage? i
  | _ => none

/-- The message about the index of a draft that is sound. -/
def Draft.rangeMessage? (d : Draft) : Option String :=
  d.check.toOption.bind Command.rangeMessage?

/-- **The error about an index out of range**: it quotes the command and names its
line and its module. -/
def Placed.rangeError? (p : Placed Draft) : Option Diagnostic :=
  p.item.rangeMessage?.map fun message =>
    { severity := .error
      message := message ++ " en '" ++ p.item.text ++ "'"
      line := some p.line
      file := p.moduleName }

/-! ## Commands that were read -/

theorem Field.count_natCast (role : Role) (n : Nat) : Field.count role (.int n) = .ok n := by
  show (if (n : Int) < 0 then Except.error (Fault.negative role n) else Except.ok (n : Int).toNat)
    = _
  rw [if_neg (by omega), Int.toNat_natCast]

theorem Field.symbol_of_isSymbol {role : Role} {x : String} (h : isSymbol x.toList = true) :
    Field.symbol role (.text x) = .ok x := by
  show (if isSymbol x.toList = true then Except.ok x
    else Except.error (Fault.badName role (.text x))) = _
  rw [if_pos h]

/-- **What reading lets through, checking lets through.** -/
theorem Command.FromSource.check {c : Command} (h : c.FromSource) : c.draft.check = .ok c := by
  cases c with
  | arithmetic op => rw [draft, Draft.check, Operator.ofName?_name]
  | push segment index =>
    rw [draft, Draft.check, Field.count_natCast, Segment.read, Segment.ofToken?_name]
    rfl
  | pop segment index =>
    rw [draft, Draft.check, Field.count_natCast, Segment.read, Segment.ofToken?_name]
    show (if segment = .constant then _ else _) = _
    rw [if_neg h.1]
    rfl
  | label name | goto name | ifGoto name =>
    rw [draft, Draft.check, Field.symbol_of_isSymbol h.1]
    rfl
  | function name n | call name n =>
    rw [draft, Draft.check, Field.symbol_of_isSymbol h.1.1, Field.count_natCast]
    rfl
  | ret => rfl

theorem Command.FromSource.ne_pop_constant {c : Command} (h : c.FromSource) (i : Nat) :
    c ≠ .pop .constant i := by
  rintro rfl
  exact h.1 rfl

/-! ## The code of a command -/

theorem Segment.fixedAddress_natCast {segment : Segment} {block : Block} {index : Nat}
    (h : segment.block? = some block) :
    segment.fixedAddress index = if index < block.size then .ok (block.base + index)
      else .error (.outsideBlock segment block index) := by
  rw [fixedAddress, h]
  show (if 0 ≤ (index : Int) ∧ (index : Int) < block.size then _ else _) = _
  by_cases hlt : index < block.size
  · rw [if_pos hlt, if_pos (by omega), Int.toNat_natCast]
  · rw [if_neg hlt, if_neg (by omega)]

/-- The message about an index outside of a block. -/
theorem Fault.message_outsideBlock (segment : Segment) (block : Segment.Block) (index : Nat) :
    (Fault.outsideBlock segment block index).message = "Índice " ++ toString index
      ++ (" fuera de rango para " ++ segment.name
        ++ (" (0.." ++ toString (block.size - 1) ++ ")")) := by
  show "Índice " ++ toString index ++ " fuera de rango para " ++ segment.name
    ++ (" (0.." ++ toString (block.size - 1) ++ ")") = _
  simp only [String.append_assoc]

/-- A fixed block has the indices below its size. -/
theorem Segment.rangeMessage?_of_block {segment : Segment} {block : Block}
    (h : segment.block? = some block) (index : Nat) :
    segment.rangeMessage? index = if index < block.size then none
      else some (Fault.outsideBlock segment block index).message := by
  rw [Fault.message_outsideBlock]
  cases segment with
  | pointer =>
    obtain rfl := Option.some.inj h
    have htext : " fuera de rango para " ++ pointer.name ++ (" (0.." ++ toString (2 - 1) ++ ")")
        = " fuera de rango para pointer (0..1)" := by decide
    rw [rangeMessage?, htext, ← ite_not]
    simp only [Nat.not_lt, Nat.lt_succ_iff]
  | temp =>
    obtain rfl := Option.some.inj h
    have htext : " fuera de rango para " ++ temp.name ++ (" (0.." ++ toString (8 - 1) ++ ")")
        = " fuera de rango para temp (0..7)" := by decide
    rw [rangeMessage?, htext, ← ite_not]
    simp only [Nat.not_lt, Nat.lt_succ_iff]
  | _ => cases h

namespace Emitter

variable (e : Emitter)

/-- A cell of a fixed block is refused for its index only. -/
theorem addressCode_block_cases {segment : Segment} {block : Segment.Block} {index : Nat}
    (hblock : segment.block? = some block)
    (hcode : e.addressCode segment index = (segment.fixedAddress index >>= fun a =>
      pure [.address ("R" ++ toString a)])) :
    (segment.rangeMessage? index = none ∧ ∃ code, e.addressCode segment index = .ok code) ∨
    ∃ f, e.addressCode segment index = .error f ∧ f.kind = .indexOutOfRange ∧
      segment.rangeMessage? index = some f.message := by
  have hrange := Segment.rangeMessage?_of_block hblock index
  rw [Segment.fixedAddress_natCast hblock] at hcode
  by_cases h : index < block.size
  · rw [if_pos h] at hcode hrange
    exact .inl ⟨hrange, _, hcode⟩
  · rw [if_neg h] at hcode hrange
    exact .inr ⟨_, hcode, rfl, hrange⟩

/-- A cell of a segment is refused for its index only. -/
theorem addressCode_cases (segment : Segment) (index : Nat) :
    (segment.rangeMessage? index = none ∧ ∃ code, e.addressCode segment index = .ok code) ∨
    ∃ f, e.addressCode segment index = .error f ∧ f.kind = .indexOutOfRange ∧
      segment.rangeMessage? index = some f.message := by
  cases segment with
  | constant =>
    by_cases h : 32767 < index
    · exact .inr ⟨.constantTooWide index, if_pos h, rfl, if_pos h⟩
    · exact .inl ⟨if_neg h, _, if_neg h⟩
  | static | indirect b => exact .inl ⟨rfl, _, rfl⟩
  | pointer => exact e.addressCode_block_cases rfl rfl
  | temp => exact e.addressCode_block_cases rfl rfl

/-- The code of a pop that has a place to go to. -/
theorem code_pop {segment : Segment} (h : segment ≠ .constant) (index : Nat) :
    e.code (.pop segment index) = (e.addressCode segment index >>= fun address : List Line =>
      Except.ok (address ++ [Line.set .d (.y .a), .address e.regs.scratch, .set .m .d]
        ++ Block.popD e.regs.sp
        ++ [Line.address e.regs.scratch, .set .a (.y .m), .set .m .d])) := by
  show (if segment = .constant then _ else _) = _
  rw [if_neg h]
  rfl

/-- **A command is refused for its index only**, the pop of a constant apart. -/
theorem code_cases {c : Command} (hpop : ∀ i, c ≠ .pop .constant i) :
    (c.rangeMessage? = none ∧ ∃ code, e.code c = .ok code) ∨
    ∃ f, e.code c = .error f ∧ f.kind = .indexOutOfRange ∧ c.rangeMessage? = some f.message := by
  cases c with
  | push segment index =>
    rcases e.addressCode_cases segment index with
      ⟨hrange, lines, hcode⟩ | ⟨f, hcode, hkind, hrange⟩
    · exact .inl ⟨hrange, _, by rw [code, pushCode, hcode]; rfl⟩
    · exact .inr ⟨f, by rw [code, pushCode, hcode]; rfl, hkind, hrange⟩
  | pop segment index =>
    have hsegment : segment ≠ .constant := fun h => hpop index (h ▸ rfl)
    have hcode := e.code_pop hsegment index
    rcases e.addressCode_cases segment index with
      ⟨hrange, lines, haddress⟩ | ⟨f, haddress, hkind, hrange⟩
    · exact .inl ⟨hrange, _, by rw [hcode, haddress]; rfl⟩
    · exact .inr ⟨f, by rw [hcode, haddress]; rfl, hkind, hrange⟩
  | _ => exact .inl ⟨rfl, _, rfl⟩

end Emitter

/-! ## The first refusal -/

/-- A command as reading leaves it: sound, on a line, and in a module with a
name. -/
structure Placed.Read (p : Placed Draft) : Prop where
  sound : ∃ c : Command, p.item = c.draft ∧ c.FromSource
  line : p.line ≠ 0
  named : ∃ name, p.moduleName = some name ∧ name ≠ ""

theorem Fault.hint?_of_kind {f : Fault} (h : f.kind = .indexOutOfRange) : f.hint? = none := by
  cases f with
  | outsideBlock segment block index => rfl
  | constantTooWide value => rfl
  | _ => cases h

/-- The text of a push or a pop is not empty, so it is quoted. -/
theorem Command.text_ne_empty {c : Command} {message : String}
    (h : c.rangeMessage? = some message) : c.draft.text ≠ "" := by
  have happend (word segment index : String) (hword : word ≠ "") :
      word ++ segment ++ " " ++ index ≠ "" := by
    simp [hword]
  cases c with
  | push segment i => exact happend _ _ _ (by decide)
  | pop segment i => exact happend _ _ _ (by decide)
  | _ => cases h

namespace Session

variable (s : Session)

/-- A fault in the range of an index is reported as it deserves. -/
theorem report_eq {p : Placed Draft} {c : Command} {f : Fault} (hp : p.Read)
    (hitem : p.item = c.draft) (hkind : f.kind = .indexOutOfRange)
    (hrange : c.rangeMessage? = some f.message) :
    s.report p f = ⟨.error, f.message ++ " en '" ++ p.item.text ++ "'", some p.line, none,
      p.moduleName⟩ := by
  obtain ⟨name, hname, hne⟩ := hp.named
  have htext : p.item.text ≠ "" := hitem ▸ Command.text_ne_empty hrange
  unfold report Placed.line? Diagnostic.ofFault Diagnostic.report Diagnostic.error
  rw [hname, if_neg hp.line, Fault.hint?_of_kind hkind, hkind]
  dsimp only
  rw [if_neg (by rwa [String.isEmpty_iff]), if_neg (by rwa [String.isEmpty_iff])]
  show Diagnostic.mk _ (f.message ++ (" en '" ++ p.item.text ++ "'")) _ _ _ = _
  simp only [String.append_assoc]
  rfl

/-- **One command** is refused just when its index is out of range. -/
theorem emitPlaced_cases {p : Placed Draft} (hp : p.Read) :
    (p.rangeError? = none ∧ ∃ done, s.emitPlaced p = .ok done) ∨
    ∃ r, s.emitPlaced p = .error r ∧ p.rangeError? = some r.reason := by
  obtain ⟨c, hitem, hsource⟩ := hp.sound
  have hcheck : p.item.check = .ok c := hitem ▸ hsource.check
  have hmessage : p.item.rangeMessage? = c.rangeMessage? := by
    rw [Draft.rangeMessage?, hcheck]
    rfl
  rcases s.emitter.code_cases hsource.ne_pop_constant with
    ⟨hrange, code, hcode⟩ | ⟨f, hcode, hkind, hrange⟩
  · refine .inl ⟨?_, { emitter := s.emitter.next c, lines := s.lines ++ code }, ?_⟩
    · rw [Placed.rangeError?, hmessage, hrange, Option.map_none]
    · rw [emitPlaced, emit, hcheck]
      dsimp only
      rw [hcode]
  · refine .inr ⟨⟨s.report p f, s⟩, ?_, ?_⟩
    · rw [emitPlaced, emit, hcheck]
      dsimp only
      rw [hcode]
    · rw [Placed.rangeError?, hmessage, hrange, Option.map_some,
        s.report_eq hp hitem hkind hrange]

/-- **Commands in a row** are refused just when an index is out of range, and the
first of these is reported. -/
theorem emitAll_cases {ps : List (Placed Draft)} (hps : ∀ p ∈ ps, p.Read) :
    (ps.findSome? Placed.rangeError? = none ∧ ∃ done, s.emitAll ps = .ok done) ∨
    ∃ r, s.emitAll ps = .error r ∧ ps.findSome? Placed.rangeError? = some r.reason := by
  induction ps generalizing s with
  | nil => exact .inl ⟨rfl, s, rfl⟩
  | cons p ps ih =>
    have hstep : s.emitAll (p :: ps) = (s.emitPlaced p >>= fun s' => s'.emitAll ps) := rfl
    rw [hstep, List.findSome?_cons]
    rcases s.emitPlaced_cases (hps p List.mem_cons_self) with
      ⟨hrange, done, hdone⟩ | ⟨r, hr, hrange⟩
    · rw [hrange, hdone]
      exact ih done fun q hq => hps q (List.mem_cons_of_mem p hq)
    · rw [hrange, hr]
      exact .inr ⟨r, rfl, rfl⟩

/-- The bootstrap of an entry function whose name is a symbol is never refused. -/
theorem exists_bootstrap (stackBase : Field) {entry : String}
    (h : isSymbol entry.toList = true) :
    ∃ done, s.bootstrap stackBase (some entry) = .ok done := by
  have hcheck : (Draft.call (.text entry) (.int 0)).check = .ok (.call entry 0) := by
    rw [Draft.check, Field.symbol_of_isSymbol h]
    rfl
  unfold bootstrap emit
  dsimp only
  rw [hcheck]
  exact ⟨_, rfl⟩

end Session

/-! ## Linking -/

/-- A module that was read leaves its commands as such. -/
theorem Module.Parsed.read {m : Module} (h : m.Parsed)
    (hname : ∃ name, m.name = some name ∧ name ≠ "") : ∀ d ∈ m.commands, d.Read := by
  obtain ⟨text, htext⟩ := h
  intro d hd
  obtain ⟨hsound, hline, hmodule⟩ := read_of_ofText htext d hd
  exact ⟨hsound, by omega, hmodule ▸ hname⟩

theorem hasErrors_eq (ds : List Diagnostic) :
    hasErrors ds = !(ds.filter (·.isError)).isEmpty := by
  induction ds with
  | nil => rfl
  | cons d ds ih =>
    rw [hasErrors, List.any_cons, List.filter_cons]
    cases d.isError with
    | true => rfl
    | false => exact ih

namespace Program

variable {modules : List Module}

/-- Modules with names of their own are no duplicates. -/
theorem duplicateErrors_eq_nil {seen : List (Option String)}
    (hnodup : (modules.map Module.name).Nodup) (hseen : ∀ m ∈ modules, m.name ∉ seen) :
    duplicateErrors seen modules = [] := by
  induction modules generalizing seen with
  | nil => rfl
  | cons m ms ih =>
    rw [List.map_cons, List.nodup_cons] at hnodup
    have hrest : ∀ m' ∈ ms, m'.name ∉ m.name :: seen := by
      intro m' hm' hmem
      rcases List.mem_cons.mp hmem with heq | hmem
      · exact hnodup.1 (heq ▸ List.mem_map_of_mem hm')
      · exact hseen m' (List.mem_cons_of_mem m hm') hmem
    rw [duplicateErrors, ih hnodup.2 hrest, List.append_nil,
      if_neg (by simpa using hseen m List.mem_cons_self)]

/-- No function has the reserved name when no module declares it. -/
theorem haltErrors_eq_nil {label : Option String} (h : ∀ m ∈ modules, m.declares label = false) :
    haltErrors modules label = [] := by
  rw [haltErrors, List.flatMap_eq_nil_iff]
  intro m hm
  have hany := h m hm
  rw [Module.declares, List.any_eq_false] at hany
  rw [List.map_eq_nil_iff, List.filter_eq_nil_iff]
  exact hany

theorem mem_arrange {m : Module} {entry : Option String} :
    m ∈ arrange modules entry ↔ m ∈ modules :=
  (List.filter_append_perm _ modules).mem_iff

/-- Sound modules are put in order and linked. -/
theorem link_eq_linkArranged {o : LinkOptions} (hne : modules ≠ [])
    (hnodup : (modules.map Module.name).Nodup)
    (hhalt : ∀ m ∈ modules, m.declares o.haltLabel = false) :
    ∃ first rest, arrange modules o.entry = first :: rest ∧
      link modules o = linkArranged first rest o := by
  cases harrange : arrange modules o.entry with
  | nil =>
    obtain ⟨m, hm⟩ := List.exists_mem_of_ne_nil modules hne
    rw [← mem_arrange, harrange] at hm
    cases hm
  | cons first rest =>
    refine ⟨first, rest, rfl, ?_⟩
    rw [link, harrange]
    dsimp only
    rw [duplicateErrors_eq_nil hnodup fun _ _ => List.not_mem_nil, haltErrors_eq_nil hhalt]
    rfl

theorem filter_entryWarnings (n : Nat) (hasEntry boot : Bool) (entry : String) :
    (entryWarnings n hasEntry boot entry).filter (·.isError) = [] := by
  unfold entryWarnings
  split <;> split <;> rfl

/-- The end of linking: the errors are those of the first index out of range, and
without one the loop is written. -/
theorem emission_cases (s : Session) {ps : List (Placed Draft)} (hread : ∀ p ∈ ps, p.Read)
    {order : List (Option String)} {boot : Bool} {warnings : List Diagnostic}
    {label : Option String} (hwarnings : warnings.filter (·.isError) = []) :
    ∃ p, (match s.emitAll ps with
      | .error r => (pure (failed order boot (warnings ++ [r.reason])) : Except EntryError Program)
      | .ok done => pure ⟨done.lines.toList ++ haltLoop label, order, boot, warnings⟩) = .ok p ∧
      p.diagnostics.filter (·.isError) = (ps.findSome? Placed.rangeError?).toList ∧
      (hasErrors p.diagnostics = true → p.lines = []) ∧
      (hasErrors p.diagnostics = false → ∃ code, p.lines = code ++ haltLoop label) := by
  rcases s.emitAll_cases hread with ⟨hrange, done, hdone⟩ | ⟨r, hr, hrange⟩
  · rw [hdone, hrange]
    refine ⟨_, rfl, hwarnings, fun herr => ?_, fun _ => ⟨_, rfl⟩⟩
    rw [hasErrors_eq, hwarnings] at herr
    cases herr
  · have hfilter : (warnings ++ [r.reason]).filter (·.isError) = [r.reason] := by
      rw [List.filter_append, hwarnings, List.nil_append,
        List.filter_singleton, Session.isError_of_emitAll hr]
      rfl
    rw [hr, hrange]
    refine ⟨_, rfl, hfilter, fun _ => rfl, fun herr => ?_⟩
    rw [failed, hasErrors_eq, hfilter] at herr
    cases herr

/-- **Linking in order**, with an entry function that can be called. -/
theorem linkArranged_cases {first : Module} {rest : List Module} {o : LinkOptions} {entry : String}
    (hentry : o.entry = some entry) (hsymbol : isSymbol entry.toList = true)
    (hread : ∀ p ∈ (first :: rest).flatMap Module.commands, p.Read) :
    ∃ p, linkArranged first rest o = .ok p ∧
      p.diagnostics.filter (·.isError)
        = (((first :: rest).flatMap Module.commands).findSome? Placed.rangeError?).toList ∧
      (hasErrors p.diagnostics = true → p.lines = []) ∧
      (hasErrors p.diagnostics = false → ∃ code, p.lines = code ++ haltLoop o.haltLabel) := by
  unfold linkArranged
  dsimp only
  by_cases hboot : usesBootstrap o.bootstrap (first.declares o.entry) = true
  · obtain ⟨s, hs⟩ := Session.exists_bootstrap
      { emitter := .start (o.program.or first.name) {} } o.stackBase hsymbol
    rw [if_pos hboot, hentry, hs]
    exact emission_cases s hread (filter_entryWarnings ..)
  · rw [if_neg hboot]
    exact emission_cases _ hread (filter_entryWarnings ..)

/-- **What linking refuses.** Modules of different names that were read without
diagnostics, none of which declares the final loop, are always linked, and
their errors are at most one: that of the first index out of range in the order
of the code. There is one just when some index is out of range, and then there
are no lines; without one the lines end with the loop. No other check of a
command fails. -/
theorem link_refusal {o : LinkOptions} {entry : String} (hne : modules ≠ [])
    (hparsed : ∀ m ∈ modules, m.Parsed)
    (hnodup : (modules.map Module.name).Nodup)
    (hnamed : ∀ m ∈ modules, ∃ name, m.name = some name ∧ name ≠ "")
    (hentry : o.entry = some entry) (hsymbol : isSymbol entry.toList = true)
    (hhalt : ∀ m ∈ modules, m.declares o.haltLabel = false) :
    ∃ p, link modules o = .ok p ∧
      p.diagnostics.filter (·.isError) = (((arrange modules o.entry).flatMap
        Module.commands).findSome? Placed.rangeError?).toList ∧
      (hasErrors p.diagnostics = true ↔
        ∃ m ∈ modules, ∃ d ∈ m.commands, d.item.rangeMessage? ≠ none) ∧
      (hasErrors p.diagnostics = true → p.lines = []) ∧
      (hasErrors p.diagnostics = false → ∃ code, p.lines = code ++ haltLoop o.haltLabel) ∧
      ∀ m ∈ modules, ∀ d ∈ m.commands, d.moduleName = m.name ∧ 0 < d.line ∧
        ∃ c : Command, d.item = c.draft ∧ d.item.check = .ok c ∧
          ∀ e : Emitter, (c.rangeMessage? = none ∧ ∃ code, e.code c = .ok code) ∨
            ∃ f, e.code c = .error f ∧ f.kind = .indexOutOfRange ∧
              c.rangeMessage? = some f.message := by
  obtain ⟨first, rest, harrange, hlink⟩ := link_eq_linkArranged hne hnodup hhalt
  have hmem (d : Placed Draft) : d ∈ (first :: rest).flatMap Module.commands ↔
      ∃ m ∈ modules, d ∈ m.commands := by
    simp only [← harrange, List.mem_flatMap, mem_arrange]
  have hread (d : Placed Draft) (hd : d ∈ (first :: rest).flatMap Module.commands) : d.Read := by
    obtain ⟨m, hm, hd⟩ := (hmem d).mp hd
    exact (hparsed m hm).read (hnamed m hm) d hd
  obtain ⟨p, hp, herrors, hlines, hloop⟩ := linkArranged_cases hentry hsymbol hread
  refine ⟨p, hlink.trans hp, harrange ▸ herrors, ?_, hlines, hloop, fun m hm d hd => ?_⟩
  · have hsome (o : Option Diagnostic) : (!o.toList.isEmpty) = o.isSome := by
      cases o <;> rfl
    rw [hasErrors_eq, herrors, hsome, List.findSome?_isSome_iff]
    simp only [hmem, Placed.rangeError?, Option.isSome_map, Option.isSome_iff_ne_none]
    constructor
    · rintro ⟨d, ⟨m, hm, hd⟩, hrange⟩
      exact ⟨m, hm, d, hd, hrange⟩
    · rintro ⟨m, hm, d, hd, hrange⟩
      exact ⟨d, ⟨m, hm, hd⟩, hrange⟩
  · obtain ⟨text, htext⟩ := hparsed m hm
    obtain ⟨⟨c, hitem, hsource⟩, hline, hname⟩ := Module.read_of_ofText htext d hd
    exact ⟨hname, hline, c, hitem, hitem ▸ hsource.check,
      fun e => e.code_cases hsource.ne_pop_constant⟩

end Program

namespace Sample

/-- A module whose second line has a constant that is too wide. -/
def wideConstant : Module where
  name := some "A"
  commands := [⟨.push "constant" (.int 7), 1, some "A"⟩,
    ⟨.push "constant" (.int 32768), 2, some "A"⟩]

/-- A module that has the entry function, and an index outside of its block. -/
def farCell : Module where
  name := some "Sys"
  commands := [⟨.function (.text "Sys.init") (.int 0), 1, some "Sys"⟩,
    ⟨.pop "temp" (.int 8), 3, some "Sys"⟩]

theorem parsed_wideConstant : wideConstant.Parsed :=
  ⟨"push constant 7\npush constant 32768", by decide +kernel⟩

theorem parsed_farCell : farCell.Parsed :=
  ⟨"function Sys.init 0\n\npop temp 8", by decide +kernel⟩

end Sample

/-- Two modules have an index out of range, and the error is that of the module
with the entry function, although it was given last. -/
theorem Program.link_refusal_sample : ∃ p, link [Sample.wideConstant, Sample.farCell] {} = .ok p ∧
    p.diagnostics.filter (·.isError)
      = [⟨.error, "Índice 8 fuera de rango para temp (0..7) en 'pop temp 8'", some 3, none,
          some "Sys"⟩] ∧
    p.lines = [] := by
  obtain ⟨p, hlink, herrors, hiff, hlines, -⟩ :=
    @link_refusal [Sample.wideConstant, Sample.farCell] {} "Sys.init" (by decide)
      (by simpa using ⟨Sample.parsed_wideConstant, Sample.parsed_farCell⟩) (by decide)
      (by decide +kernel) rfl (by decide) (by decide)
  have hfirst : ((((arrange [Sample.wideConstant, Sample.farCell] (some "Sys.init")).flatMap
      Module.commands).findSome? Placed.rangeError?)).toList
      = [⟨.error, "Índice 8 fuera de rango para temp (0..7) en 'pop temp 8'", some 3, none,
          some "Sys"⟩] := by decide +kernel
  refine ⟨p, hlink, herrors.trans hfirst, hlines (hiff.mpr ?_)⟩
  exact ⟨Sample.farCell, by simp, ⟨.pop "temp" (.int 8), 3, some "Sys"⟩, by decide, by decide⟩

/-- **No modules at all are refused**, although no index is out of range. -/
theorem Program.link_nil_refused : ∃ p, link [] {} = .ok p ∧ hasErrors p.diagnostics = true ∧
    p.lines = [] :=
  ⟨_, rfl, rfl, rfl⟩

end HackStack
