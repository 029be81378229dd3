import HackStack.Program
import HackStack.Proofs.Written

/-!
# How a linked program lies

A linked program is its lead, which is empty or the bootstrap, then the code
of one command after another, then the loop at its end. A `Layout` keeps the
lead, the emitter that is left by it and the commands, and from these it says
where the code of each command lies and which function is in force there.
`Program.layout` is the layout of modules, and `Program.linked` ties it to
what linking writes.
-/

namespace HackStack

/-! ## Commands in a row -/

namespace Emitter

/-- The lines of a command; none when it is refused. -/
def lines (e : Emitter) (c : Command) : List Line := (e.code c).toOption.getD []

/-- The lines of commands in a row. -/
def linesOf (e : Emitter) : List Command → List Line
  | [] => []
  | c :: cs => e.lines c ++ (e.next c).linesOf cs

/-- Whether the code of no command in a row is refused. -/
def Accepts (e : Emitter) : List Command → Prop
  | [] => True
  | c :: cs => e.code c = .ok (e.lines c) ∧ (e.next c).Accepts cs

theorem lines_of_ok {e : Emitter} {c : Command} {code : List Line} (h : e.code c = .ok code) :
    e.lines c = code := by
  rw [lines, h]
  rfl

theorem linesOf_append (e : Emitter) (cs ds : List Command) :
    e.linesOf (cs ++ ds) = e.linesOf cs ++ (cs.foldl next e).linesOf ds := by
  induction cs generalizing e with
  | nil => rfl
  | cons c cs ih =>
    rw [List.cons_append, linesOf, linesOf, ih, List.append_assoc, List.foldl_cons]

theorem Accepts.of_append {e : Emitter} {cs ds : List Command} (h : e.Accepts (cs ++ ds)) :
    (cs.foldl next e).Accepts ds := by
  induction cs generalizing e with
  | nil => exact h
  | cons c cs ih => exact ih h.2

/-- The register file never changes. -/
@[simp] theorem regs_next (e : Emitter) (c : Command) : (e.next c).regs = e.regs := by
  cases c with
  | arithmetic op => cases op <;> rfl
  | _ => rfl

theorem regs_foldl_next (e : Emitter) (cs : List Command) : (cs.foldl next e).regs = e.regs := by
  induction cs generalizing e with
  | nil => rfl
  | cons c cs ih => rw [List.foldl_cons, ih, regs_next]

end Emitter

/-- **What emitting commands leaves**: all of them are sound, and their lines
stand behind those that were there. -/
theorem Session.emitAll_eq_ok {s done : Session} {ps : List (Placed Draft)}
    (h : s.emitAll ps = .ok done) :
    ∃ cs : List Command, ps.map (·.item.check) = cs.map .ok ∧ s.emitter.Accepts cs ∧
      done.emitter = cs.foldl Emitter.next s.emitter ∧
      done.lines.toList = s.lines.toList ++ s.emitter.linesOf cs := by
  induction ps generalizing s with
  | nil =>
    obtain rfl : s = done := Except.ok.inj h
    exact ⟨[], rfl, trivial, rfl, (List.append_nil _).symm⟩
  | cons p ps ih =>
    have hstep : (s.emitPlaced p >>= fun s' => Session.emitAll s' ps) = .ok done := h
    unfold emitPlaced emit at hstep
    cases hcheck : p.item.check with
    | error f => rw [hcheck] at hstep; cases hstep
    | ok c =>
      rw [hcheck] at hstep
      dsimp only at hstep
      cases hcode : s.emitter.code c with
      | error f => rw [hcode] at hstep; cases hstep
      | ok code =>
        rw [hcode] at hstep
        obtain ⟨cs, hchecks, haccepts, hemitter, hlines⟩ := ih hstep
        refine ⟨c :: cs, ?_, ⟨?_, haccepts⟩, hemitter, ?_⟩
        · rw [List.map_cons, hcheck, hchecks, List.map_cons]
        · rw [hcode, Emitter.lines_of_ok hcode]
        · rw [hlines, Emitter.linesOf, Emitter.lines_of_ok hcode, ← List.append_assoc]
          simp

/-- What stops emitting is an error. -/
theorem Session.isError_of_emitAll {s : Session} {ps : List (Placed Draft)}
    {r : Refusal Diagnostic} (h : s.emitAll ps = .error r) : r.reason.isError = true := by
  induction ps generalizing s with
  | nil => cases h
  | cons p ps ih =>
    have hstep : (s.emitPlaced p >>= fun s' => Session.emitAll s' ps) = .error r := h
    cases hp : s.emitPlaced p with
    | ok s' =>
      rw [hp] at hstep
      exact ih hstep
    | error r' =>
      rw [hp] at hstep
      obtain rfl := Except.error.inj hstep
      unfold emitPlaced at hp
      split at hp
      next => obtain rfl := Except.error.inj hp; rfl
      next => cases hp

/-! ## Layouts -/

/-- The name that a command declares a function by. -/
def Command.functionName? : Command → Option String
  | .function name _ => some name
  | _ => none

/-- A program as it lies before the loop at its end. -/
structure Layout where
  /-- The lines in front of the first command. -/
  lead : List Line
  /-- The emitter before the first command. -/
  emitter : Emitter
  commands : List Command

namespace Layout

variable (L : Layout)

/-- The emitter before a command. -/
def emitterAt (i : Nat) : Emitter := (L.commands.take i).foldl Emitter.next L.emitter

/-- The lines before a command. -/
def before (i : Nat) : List Line := L.lead ++ L.emitter.linesOf (L.commands.take i)

/-- **The address of a command**: the number of instructions before it. -/
def address (i : Nat) : Nat := Line.size (L.before i)

/-- **The function in force at a command**: the last one that is declared before
it, or else the one in force at the start. -/
def scopeAt (i : Nat) : Option String :=
  ((L.commands.take i).reverse.findSome? Command.functionName?).or L.emitter.functionName

/-- The place of a label that belongs to the function in force at a command. -/
def labelPlace? (i : Nat) (name : String) : Option Nat :=
  (List.range L.commands.length).find? fun j =>
    L.commands[j]? = some (.label name) ∧ L.scopeAt j = L.scopeAt i

/-- The place of a function. -/
def functionPlace? (name : String) : Option Nat :=
  (List.range L.commands.length).find? fun j =>
    (L.commands[j]?.bind Command.functionName?) = some name

/-- Whether a command goes to a place of the program: what it calls is a function
of it, and what it jumps to is a label of the function in force. -/
def resolves (i : Nat) : Command → Bool
  | .call name _ => (L.functionPlace? name).isSome
  | .goto name | .ifGoto name => (L.labelPlace? i name).isSome
  | _ => true

/-- **A closed program**: all its commands go to places of it. -/
def Closed : Prop := ∀ i < L.commands.length, L.commands[i]?.all (L.resolves i) = true

instance : Decidable L.Closed := inferInstanceAs (Decidable (∀ i < _, _))

variable {L} {i j : Nat} {c : Command}

theorem Closed.resolves (hL : L.Closed) (h : L.commands[i]? = some c) : L.resolves i c = true := by
  have hall := hL i (List.getElem?_eq_some_iff.mp h).1
  rwa [h, Option.all_some] at hall

theorem before_succ (h : L.commands[i]? = some c) :
    L.before (i + 1) = L.before i ++ (L.emitterAt i).lines c := by
  rw [before, List.take_add_one, h, Option.toList_some, Emitter.linesOf_append,
    ← List.append_assoc]
  congr 1
  exact List.append_nil _

theorem address_succ (h : L.commands[i]? = some c) :
    L.address (i + 1) = L.address i + Line.size ((L.emitterAt i).lines c) := by
  rw [address, before_succ h, Line.size_append, address]

theorem regs_emitterAt (i : Nat) : (L.emitterAt i).regs = L.emitter.regs :=
  Emitter.regs_foldl_next _ _

/-- The lines of everything contain the lines of a command at its place. -/
theorem before_length (h : L.commands[i]? = some c) :
    ∃ rest, L.before L.commands.length = L.before i ++ (L.emitterAt i).lines c ++ rest := by
  obtain ⟨hlt, hget⟩ := List.getElem?_eq_some_iff.mp h
  refine ⟨(L.emitterAt (i + 1)).linesOf (L.commands.drop (i + 1)), ?_⟩
  rw [← before_succ h, before, before, emitterAt, List.append_assoc, ← Emitter.linesOf_append,
    List.take_append_drop, List.take_length]

theorem code_of_accepts (hacc : L.emitter.Accepts L.commands) (h : L.commands[i]? = some c) :
    (L.emitterAt i).code c = .ok ((L.emitterAt i).lines c) := by
  obtain ⟨hlt, hget⟩ := List.getElem?_eq_some_iff.mp h
  rw [← List.take_append_drop i L.commands, List.drop_eq_getElem_cons hlt, hget] at hacc
  exact hacc.of_append.1

end Layout

/-- A command changes the function in force when it declares one. -/
theorem Emitter.functionName_next (e : Emitter) (c : Command) :
    (e.next c).functionName = c.functionName?.or e.functionName := by
  cases c with
  | arithmetic op => cases op <;> rfl
  | _ => rfl

/-- **Labels are scoped by the function in force.** -/
theorem Layout.functionName_emitterAt (L : Layout) (i : Nat) :
    (L.emitterAt i).functionName = L.scopeAt i := by
  have hfold (cs : List Command) (e : Emitter) : (cs.foldl Emitter.next e).functionName
      = (cs.reverse.findSome? Command.functionName?).or e.functionName := by
    induction cs generalizing e with
    | nil => rfl
    | cons c cs ih =>
      rw [List.foldl_cons, ih, Emitter.functionName_next, List.reverse_cons, List.findSome?_append,
        Option.or_assoc]
      cases h : c.functionName? with
      | none => simp [h]
      | some name => simp [h]
  exact hfold _ _

/-! ## The layout of modules -/

/-- The code that puts the stack where the bootstrap wants it. -/
def Session.stackCode (s : Session) (stackBase : Field) : List Line :=
  [.address stackBase.plain, .set .d (.y .a), .address s.emitter.regs.sp, .set .m .d]

/-- **The bootstrap**: the stack is set up and the entry function is called. -/
theorem Session.bootstrap_eq_ok {s done : Session} {stackBase : Field} {entry : Option String}
    (h : s.bootstrap stackBase entry = .ok done) :
    ∃ name, entry = some name ∧ isSymbol name.toList = true ∧
      done.emitter = (s.emitter.enter name).next (.call name 0) ∧
      done.lines.toList = s.lines.toList ++ s.stackCode stackBase
        ++ (s.emitter.enter name).callCode name 0 := by
  cases entry with
  | none => cases h
  | some name =>
    unfold bootstrap emit at h
    dsimp only at h
    by_cases hsym : isSymbol name.toList = true
    · have hcheck : (Draft.call (.text name) (.int 0)).check = .ok (.call name 0) := by
        show (do
          let x ← (if isSymbol name.toList = true then Except.ok name
            else Except.error (Fault.badName .functionName (.text name)))
          let n ← Field.count .argumentCount (.int 0)
          return Command.call x n) = _
        rw [if_pos hsym]
        rfl
      rw [hcheck] at h
      obtain rfl := Except.ok.inj h
      refine ⟨name, rfl, hsym, rfl, ?_⟩
      simp [write, stackCode]
    · have hcheck : (Draft.call (.text name) (.int 0)).check
          = .error (.badName .functionName (.text name)) := by
        show (do
          let x ← (if isSymbol name.toList = true then Except.ok name
            else Except.error (Fault.badName .functionName (.text name)))
          let n ← Field.count .argumentCount (.int 0)
          return Command.call x n) = _
        rw [if_neg hsym]
        rfl
      rw [hcheck] at h
      cases h

namespace Program

/-- Whether linking writes the bootstrap. -/
def boots (modules : List Module) (o : LinkOptions) : Bool :=
  usesBootstrap o.bootstrap ((arrange modules o.entry).head?.any (·.declares o.entry))

/-- The name of the program. -/
def title (modules : List Module) (o : LinkOptions) : Option String :=
  o.program.or ((arrange modules o.entry).head?.bind Module.name)

/-- The function in force before any is declared: the entry function when the
bootstrap is there, and else the program. -/
def rootScope (modules : List Module) (o : LinkOptions) : Option String :=
  if boots modules o then o.entry else title modules o

/-- The commands of modules in the order of their code. -/
def commands (modules : List Module) (o : LinkOptions) : List Command :=
  ((arrange modules o.entry).flatMap Module.commands).filterMap fun d => d.item.check.toOption

/-- The session before the first command. -/
def opening (modules : List Module) (o : LinkOptions) : Session :=
  let start : Session := { emitter := .start (title modules o) {} }
  if boots modules o then
    match start.bootstrap o.stackBase o.entry with
    | .ok s => s
    | .error r => r.session
  else start

/-- **The layout of modules.** -/
def layout (modules : List Module) (o : LinkOptions) : Layout where
  lead := (opening modules o).lines.toList
  emitter := (opening modules o).emitter
  commands := commands modules o

/-- **What linking without errors has done.** -/
structure Linked (modules : List Module) (o : LinkOptions) (p : Program) : Prop where
  /-- No function has the name of the final loop. -/
  halt : hasErrors (haltErrors modules o.haltLabel) = false
  /-- The bootstrap was written, if it had to be. -/
  opening : boots modules o = true →
    Session.bootstrap { emitter := .start (title modules o) {} } o.stackBase o.entry
      = .ok (opening modules o)
  /-- Every command is sound. -/
  checks : ((arrange modules o.entry).flatMap Module.commands).map (·.item.check)
    = (commands modules o).map .ok
  accepts : (layout modules o).emitter.Accepts (commands modules o)
  lines : p.lines = (layout modules o).before (commands modules o).length ++ haltLoop o.haltLabel

theorem hasErrors_append (ds es : List Diagnostic) :
    hasErrors (ds ++ es) = (hasErrors ds || hasErrors es) := List.any_append

variable {modules : List Module} {o : LinkOptions} {p : Program}

/-- The end of linking: the commands are emitted, and a command that is refused
is an error. -/
theorem linked_of_emission {order : List (Option String)} {boot : Bool}
    {warnings : List Diagnostic} (herr : hasErrors p.diagnostics = false)
    (hhalt : hasErrors (haltErrors modules o.haltLabel) = false)
    (hopening : boots modules o = true →
      Session.bootstrap { emitter := .start (title modules o) {} } o.stackBase o.entry
        = .ok (opening modules o))
    (h : (match (opening modules o).emitAll ((arrange modules o.entry).flatMap Module.commands) with
      | .error r => (pure (failed order boot (warnings ++ [r.reason])) : Except EntryError Program)
      | .ok done => pure ⟨done.lines.toList ++ haltLoop o.haltLabel, order, boot, warnings⟩)
        = .ok p) : Linked modules o p := by
  cases hdone : (opening modules o).emitAll ((arrange modules o.entry).flatMap Module.commands) with
  | error r =>
    rw [hdone] at h
    obtain rfl := Except.ok.inj h
    rw [failed, hasErrors_append, Bool.or_eq_false_iff] at herr
    have hreason : hasErrors [r.reason] = true := by
      rw [hasErrors, List.any_cons, Session.isError_of_emitAll hdone]
      rfl
    rw [hreason] at herr
    cases herr.2
  | ok done =>
    rw [hdone] at h
    obtain rfl := Except.ok.inj h
    obtain ⟨cs, hchecks, haccepts, -, hlines⟩ := Session.emitAll_eq_ok hdone
    have hcs : commands modules o = cs := by
      have hid := congrArg (List.filterMap Except.toOption) hchecks
      rw [List.filterMap_map, List.filterMap_map] at hid
      exact hid.trans (List.filterMap_some ..)
    refine ⟨hhalt, hopening, hcs ▸ hchecks, hcs ▸ haccepts, ?_⟩
    show done.lines.toList ++ _ = ((opening modules o).lines.toList ++
      (opening modules o).emitter.linesOf
        ((commands modules o).take (commands modules o).length)) ++ _
    rw [hlines, List.take_length, hcs]

/-- **Linking without errors.** -/
theorem linked (h : link modules o = .ok p) (herr : hasErrors p.diagnostics = false) :
    Linked modules o p := by
  unfold link at h
  split at h
  next =>
    obtain rfl := Except.ok.inj h
    cases herr
  next first rest harrange =>
    dsimp only at h
    split at h
    next herrors =>
      obtain rfl := Except.ok.inj h
      rw [failed, herrors] at herr
      cases herr
    next herrors =>
      have hhalt : hasErrors (haltErrors modules o.haltLabel) = false := by
        rw [hasErrors_append, Bool.or_eq_true, not_or] at herrors
        simpa using herrors.2
      have hboots : boots modules o = usesBootstrap o.bootstrap (first.declares o.entry) := by
        rw [boots, harrange]
        rfl
      have htitle : title modules o = o.program.or first.name := by
        rw [title, harrange]
        rfl
      unfold linkArranged at h
      dsimp only at h
      rw [← hboots, ← htitle] at h
      rw [← harrange] at h
      by_cases hb : boots modules o = true
      · rw [if_pos hb] at h
        cases hboot : Session.bootstrap { emitter := .start (title modules o) {} } o.stackBase
          o.entry with
        | error r => rw [hboot] at h; cases h
        | ok s =>
          have hs : opening modules o = s := by
            unfold opening
            dsimp only
            rw [if_pos hb, hboot]
          rw [hboot] at h
          exact linked_of_emission herr hhalt (fun _ => by rw [hboot, hs]) (hs ▸ h)
      · rw [if_neg hb] at h
        have hs : opening modules o = { emitter := .start (title modules o) {} } := by
          unfold opening
          dsimp only
          rw [if_neg hb]
        exact linked_of_emission herr hhalt (fun hb' => absurd hb' hb) (hs ▸ h)

namespace Linked

variable (h : Linked modules o p)

include h

/-- **The lead is empty or the bootstrap.** -/
theorem lead_cases :
    (boots modules o = false ∧ (layout modules o).lead = [] ∧
      (layout modules o).emitter = .start (title modules o) {}) ∨
    (boots modules o = true ∧ ∃ name, o.entry = some name ∧ isSymbol name.toList = true ∧
      (layout modules o).lead
        = Session.stackCode { emitter := .start (title modules o) {} } o.stackBase
          ++ ((Emitter.start (title modules o) {}).enter name).callCode name 0 ∧
      (layout modules o).emitter
        = ((Emitter.start (title modules o) {}).enter name).next (.call name 0)) := by
  cases hb : boots modules o with
  | false =>
    have hopen : Program.opening modules o = { emitter := .start (title modules o) {} } := by
      unfold Program.opening
      dsimp only
      rw [if_neg (by rw [hb]; decide)]
    refine .inl ⟨rfl, ?_, ?_⟩
    · show (Program.opening modules o).lines.toList = []
      rw [hopen]
    · show (Program.opening modules o).emitter = _
      rw [hopen]
  | true =>
    obtain ⟨name, hentry, hsym, hemitter, hlines⟩ := Session.bootstrap_eq_ok (h.opening hb)
    exact .inr ⟨rfl, name, hentry, hsym, hlines, hemitter⟩

/-- **The code of a command lies at its place** in the output. -/
theorem lines_eq {i : Nat} {c : Command} (hc : (layout modules o).commands[i]? = some c) :
    ∃ rest, p.lines = (layout modules o).before i
      ++ ((layout modules o).emitterAt i).lines c ++ rest := by
  obtain ⟨rest, hrest⟩ := Layout.before_length hc
  refine ⟨rest ++ haltLoop o.haltLabel, ?_⟩
  rw [← List.append_assoc, ← hrest]
  exact h.lines

theorem regs : (layout modules o).emitter.regs = {} := by
  rcases h.lead_cases with ⟨-, -, he⟩ | ⟨-, name, -, -, -, he⟩
  · rw [he]
    rfl
  · rw [he]
    rfl

theorem functionName : (layout modules o).emitter.functionName = rootScope modules o := by
  unfold rootScope
  rcases h.lead_cases with ⟨hb, -, he⟩ | ⟨hb, name, hentry, -, -, he⟩
  · rw [he, hb]
    rfl
  · rw [he, hb, hentry]
    rfl

end Linked

end Program

end HackStack
