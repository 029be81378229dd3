import HackStack.Proofs.Refusals

/-!
# Commands that are written or refused

Emitting a command either writes all of its code or changes nothing, and it
depends on the command alone which of the two happens. `Draft.Sound` says what
there is to ask of a command, field by field and without looking at any code.
`Session.emit_atomic` has the consequences: a sound command puts its code
behind the lines that are there, whatever these are, and any other leaves the
session as it was.

Since `Session.emit` makes its code first and writes it then, the second half
would be a matter of course. So it is also shown of a **scribe** that works in
place: it writes a line as soon as it has one, moves its counters and its
function when it comes to them, and checks the fields where they are used, in
between (`Scribe.emit`). A fault leaves the scribe with what it has done so
far. That this is nothing is the main point (`Scribe.emit_eq`): every check of
a command comes before its first line and before any counter.
-/

namespace HackStack

/-! ## Sound commands -/

/-- Whether a segment has an index: constants have fifteen bits, and the two
fixed blocks have two cells and eight. -/
def Segment.Has : Segment → Nat → Prop
  | constant, i => i ≤ 32767
  | pointer, i => i ≤ 1
  | temp, i => i ≤ 7
  | static, _ | indirect _, _ => True

/-- A field that holds a number from zero on. -/
def Field.IsCount (f : Field) : Prop := ∃ n : Nat, f = .int n

/-- A field that holds a symbol. -/
def Field.IsName (f : Field) : Prop := ∃ x : String, f = .text x ∧ isSymbol x.toList = true

/-- **What is asked of a command**: a known operator or segment, names that are
symbols, counts that are numbers from zero on, and an index that its segment
has. A pop has to have a place to go to. -/
def Draft.Sound : Draft → Prop
  | arithmetic op => op ∈ ["add", "sub", "and", "or", "neg", "not", "eq", "gt", "lt"]
  | push token index => ∃ segment n, Text.strip token = Segment.name segment ∧
      index = .int (n : Nat) ∧ segment.Has n
  | pop token index => ∃ segment n, Text.strip token = Segment.name segment ∧
      segment ≠ .constant ∧ index = .int (n : Nat) ∧ segment.Has n
  | label name | goto name | ifGoto name => name.IsName
  | function name count | call name count => name.IsName ∧ count.IsCount
  | ret => True
  | other _ => False

theorem Segment.has_iff {segment : Segment} {i : Nat} :
    segment.Has i ↔ segment.rangeMessage? i = none := by
  cases segment with
  | constant | pointer | temp => simp [Has, rangeMessage?]
  | static | indirect base => simp [Has, rangeMessage?]

/-- **Sound commands are those that pass every check** on the way to their
code. -/
theorem Draft.sound_iff {d : Draft} :
    d.Sound ↔ ∃ c, d.check = .ok c ∧ c.rangeMessage? = none := by
  cases d with
  | arithmetic op =>
    constructor
    · intro h
      obtain ⟨operator, -, rfl⟩ : ∃ o ∈ Operator.all, Operator.name o = op := List.mem_map.mp h
      exact ⟨.arithmetic operator, by rw [check, Operator.ofName?_name], rfl⟩
    · rintro ⟨c, hc, -⟩
      rw [check] at hc
      split at hc
      next operator hop =>
        rw [Operator.name_of_ofName? hop]
        exact List.mem_map_of_mem (f := Operator.name) operator.mem_all
      next => cases hc
  | push token index =>
    constructor
    · rintro ⟨segment, n, hname, rfl, hhas⟩
      refine ⟨.push segment n, ?_, Segment.has_iff.mp hhas⟩
      rw [check, Field.count_natCast, Segment.read_eq_ok_iff.mpr hname]
      rfl
    · rintro ⟨c, hc, hrange⟩
      obtain ⟨n, hn, hc⟩ := bind_eq_ok hc
      obtain ⟨segment, hsegment, hc⟩ := bind_eq_ok hc
      obtain rfl := Except.ok.inj hc
      exact ⟨segment, n, Segment.read_eq_ok_iff.mp hsegment, Field.count_eq_ok hn,
        Segment.has_iff.mpr hrange⟩
  | pop token index =>
    constructor
    · rintro ⟨segment, n, hname, hne, rfl, hhas⟩
      refine ⟨.pop segment n, ?_, Segment.has_iff.mp hhas⟩
      rw [check, Field.count_natCast, Segment.read_eq_ok_iff.mpr hname]
      show (if segment = .constant then _ else _) = _
      rw [if_neg hne]
      rfl
    · rintro ⟨c, hc, hrange⟩
      obtain ⟨segment, hsegment, hc⟩ := bind_eq_ok hc
      by_cases hne : segment = .constant
      · rw [if_pos hne] at hc
        cases hc
      · rw [if_neg hne] at hc
        obtain ⟨n, hn, hc⟩ := bind_eq_ok hc
        obtain rfl := Except.ok.inj hc
        exact ⟨segment, n, Segment.read_eq_ok_iff.mp hsegment, hne, Field.count_eq_ok hn,
          Segment.has_iff.mpr hrange⟩
  | label name | goto name | ifGoto name =>
    constructor
    · rintro ⟨x, rfl, hx⟩
      exact ⟨_, by rw [check, Field.symbol_of_isSymbol hx]; rfl, rfl⟩
    · rintro ⟨c, hc, -⟩
      obtain ⟨x, hx, -⟩ := bind_eq_ok hc
      exact ⟨x, Field.symbol_eq_ok hx⟩
  | function name count | call name count =>
    constructor
    · rintro ⟨⟨x, rfl, hx⟩, n, rfl⟩
      exact ⟨_, by rw [check, Field.symbol_of_isSymbol hx, Field.count_natCast]; rfl, rfl⟩
    · rintro ⟨c, hc, -⟩
      obtain ⟨x, hx, hc⟩ := bind_eq_ok hc
      obtain ⟨n, hn, -⟩ := bind_eq_ok hc
      exact ⟨⟨x, Field.symbol_eq_ok hx⟩, n, Field.count_eq_ok hn⟩
  | ret => exact ⟨fun _ => ⟨.ret, rfl, rfl⟩, fun _ => trivial⟩
  | other value =>
    constructor
    · exact False.elim
    · rintro ⟨c, hc, -⟩
      cases hc

instance : DecidablePred Draft.Sound := fun d =>
  decidable_of_iff (d.check.toOption.any (·.rangeMessage?.isNone) = true) <| by
    rw [Draft.sound_iff]
    cases d.check <;> simp [Except.toOption]

example : (Draft.pop " temp " (.int 7)).Sound ∧ ¬ (Draft.pop "temp" (.int 8)).Sound := by decide

theorem Draft.ne_pop_constant {d : Draft} {c : Command} (h : d.check = .ok c) (i : Nat) :
    c ≠ .pop .constant i := by
  rintro rfl
  cases d with
  | pop token index =>
    obtain ⟨segment, -, h⟩ := bind_eq_ok h
    by_cases hne : segment = .constant
    · rw [if_pos hne] at h
      cases h
    · rw [if_neg hne] at h
      obtain ⟨n, -, h⟩ := bind_eq_ok h
      exact hne (Command.pop.inj (Except.ok.inj h)).1
  | _ =>
    rcases check_cases h with ⟨_, _, _, -, hc⟩ | ⟨_, _, _, hd, -⟩ | hd
    · cases hc
    · cases hd
    · cases hd

namespace Session

@[simp] theorem emitter_write (s : Session) (code : List Line) :
    (s.write code).emitter = s.emitter := by
  rw [write]

@[simp] theorem write_write (s : Session) (code more : List Line) :
    (s.write code).write more = s.write (code ++ more) := by
  have hlines : s.lines ++ code ++ more = s.lines ++ (code ++ more) := by
    apply Array.toList_inj.mp
    simp
  unfold write
  rw [hlines]

@[simp] theorem write_nil (s : Session) : s.write [] = s := by
  unfold write
  simp

end Session

/-! ## Writing in place -/

/-- **Work on a session in place.** A fault ends it, and leaves what was done
before. -/
abbrev Scribe := EStateM Fault Session

namespace Scribe

/-- Goes on with what passes a check. -/
def require {α : Type} : Except Fault α → Scribe α
  | .ok a => pure a
  | .error f => throw f

/-- Writes lines. -/
def put (code : List Line) : Scribe Unit := modify (·.write code)

/-- The emitter at hand. -/
def emitter : Scribe Emitter := do
  return (← get).emitter

/-- Changes the emitter. -/
def setEmitter (f : Emitter → Emitter) : Scribe Unit :=
  modify fun s => { s with emitter := f s.emitter }

/-- Lets `A` point at a cell of a segment, or hold the constant. -/
def reach : Segment → Nat → Scribe Unit
  | .constant, i => do
    if maxConstant < i then throw (.constantTooWide i)
    put [.constant i]
  | .static, i => do
    put [.address (shownName (← emitter).staticScope ++ "." ++ toString i)]
  | .pointer, i => do
    put [.address ("R" ++ toString (← require (Segment.pointer.fixedAddress i)))]
  | .temp, i => do
    put [.address ("R" ++ toString (← require (Segment.temp.fixedAddress i)))]
  | .indirect base, i => do
    put (Block.loadConstant i)
    put [.address ((← emitter).regs.base base)]
    put [.set .a (.y .m)]
    put [.set .a (.dPlusY .a)]

def address (token : String) (index : Field) : Scribe Unit := do
  let i ← require (index.count .index)
  let segment ← require (Segment.read token)
  reach segment i

def push (token : String) (index : Field) : Scribe Unit := do
  address token index
  if (← require (Segment.read token)) = .constant then put [.set .d (.y .a)]
  else put [.set .d (.y .m)]
  put (Block.pushD (← emitter).regs.sp)

def pop (token : String) (index : Field) : Scribe Unit := do
  if (← require (Segment.read token)) = .constant then throw .popConstant
  address token index
  put [.set .d (.y .a)]
  put [.address (← emitter).regs.scratch, .set .m .d]
  put (Block.popD (← emitter).regs.sp)
  put [.address (← emitter).regs.scratch, .set .a (.y .m), .set .m .d]

/-- Writes a comparison. Its number is taken before its first line is written. -/
def compare (op : Comparison) : Scribe Unit := do
  let sp := (← emitter).regs.sp
  let n := (← emitter).comparisons
  setEmitter fun e => { e with comparisons := e.comparisons + 1 }
  put (Block.popD sp)
  put (Block.shrink sp)
  put (Block.toStack sp)
  put [.set .d (.yMinusD .m), .address (Emitter.trueLabel n),
    .branch .d (Emitter.comparisonJump op)]
  put (Block.toStack sp)
  put [.set .m .zero, .address (Emitter.falseLabel n), .branch .zero .always]
  put [.label (Emitter.trueLabel n)]
  put (Block.toStack sp)
  put [.set .m .minusOne, .label (Emitter.falseLabel n)]

def arithmetic (word : String) : Scribe Unit := do
  let sp := (← emitter).regs.sp
  match Operator.ofName? word with
  | some (.unary op) =>
    put (Block.shrink sp)
    put (Block.toStack sp)
    put [.set .m (Emitter.unaryComp op)]
  | some (.binary op) =>
    put (Block.popD sp)
    put (Block.shrink sp)
    put (Block.toStack sp)
    put [.set .m (Emitter.binaryComp op)]
  | some (.comparison op) => compare op
  | none => throw (.unknownOperator word)
  put (Block.grow sp)

def label (name : Field) : Scribe Unit := do
  let x ← require (name.symbol .labelName)
  put [.label ((← emitter).qualify x)]

def goto (target : Field) : Scribe Unit := do
  let x ← require (target.symbol .gotoTarget)
  put [.address ((← emitter).qualify x)]
  put [.branch .zero .always]

def ifGoto (target : Field) : Scribe Unit := do
  let x ← require (target.symbol .ifGotoTarget)
  put (Block.popD (← emitter).regs.sp)
  put [.address ((← emitter).qualify x)]
  put [.branch .d .ne]

/-- Pushes zeros, one after the other, as commands of their own. -/
def zeros : Nat → Scribe Unit
  | 0 => pure ()
  | n + 1 => do
    push "constant" (.int 0)
    zeros n

/-- Writes the start of a function, which is in force from before its label. -/
def function (name locals : Field) : Scribe Unit := do
  let x ← require (name.symbol .functionName)
  let n ← require (locals.count .localCount)
  setEmitter (·.enter x)
  put [.label x]
  zeros n

/-- Pushes the values of cells, one after the other. -/
def saves (sp : String) : List String → Scribe Unit
  | [] => pure ()
  | cell :: cells => do
    put [.address cell, .set .d (.y .m)]
    put (Block.pushD sp)
    saves sp cells

/-- Writes a call. The number of its return label is taken before its first
line is written. -/
def call (name args : Field) : Scribe Unit := do
  let x ← require (name.symbol .functionName)
  let n ← require (args.count .argumentCount)
  let r := (← emitter).regs
  let back := Emitter.returnLabel (← emitter).returns
  setEmitter fun e => { e with returns := e.returns + 1 }
  put [.address back, .set .d (.y .a)]
  put (Block.pushD r.sp)
  saves r.sp r.frame
  put [.address r.sp, .set .d (.y .m), .constant n, .set .d (.dMinusY .a), .constant 5,
    .set .d (.dMinusY .a), .address r.arg, .set .m .d]
  put [.address r.sp, .set .d (.y .m), .address r.lcl, .set .m .d]
  put [.address x, .branch .zero .always]
  put [.label back]

/-- Writes what restores a cell from the frame. -/
def restore (cell : String) (offset : Nat) : Scribe Unit := do
  put (Emitter.restoreCode (← emitter).regs cell offset)

def ret : Scribe Unit := do
  let r := (← emitter).regs
  put [.address r.lcl, .set .d (.y .m), .address r.endFrame, .set .m .d]
  put [.constant 5, .set .a (.dMinusY .a), .set .d (.y .m), .address r.retAddr, .set .m .d]
  put [.address r.sp, .set .a (.yMinusOne .m), .set .d (.y .m), .address r.arg, .set .a (.y .m),
    .set .m .d]
  put [.address r.arg, .set .d (.yPlusOne .m), .address r.sp, .set .m .d]
  restore r.thatPtr 1
  restore r.thisPtr 2
  restore r.arg 3
  restore r.lcl 4
  put [.address r.retAddr, .set .a (.y .m), .branch .zero .always]

/-- **Emits a command in place.** -/
def emit : Draft → Scribe Unit
  | .arithmetic op => arithmetic op
  | .push token index => push token index
  | .pop token index => pop token index
  | .label name => label name
  | .goto target => goto target
  | .ifGoto target => ifGoto target
  | .function name locals => function name locals
  | .call name args => call name args
  | .ret => ret
  | .other value => throw (.notCommand value)

/-- Makes all of the code of a command and then writes it. -/
def complete (c : Command) : Scribe Unit := do
  let code ← require ((← emitter).code c)
  setEmitter (·.next c)
  put code

/-- The outcome of emitting as the outcome of work in place. -/
def settled : Except (Refusal Fault) Session → EStateM.Result Fault Session Unit
  | .ok s => .ok () s
  | .error r => .error r.reason r.session

/-- Emitting is to check a command and then to complete it. -/
theorem settled_emit (d : Draft) (s : Session) :
    settled (s.emit d) = (require d.check >>= complete) s := by
  unfold Session.emit
  cases d.check with
  | error f => rfl
  | ok c =>
    show _ = (require (s.emitter.code c) >>= fun code => _) s
    dsimp only
    cases s.emitter.code c with
    | error f => rfl
    | ok code => rfl

section Steps

variable {α β : Type} {s s' : Session}

theorem bind_of_ok {x : Scribe α} (g : α → Scribe β) {a : α} (h : x s = .ok a s') :
    (x >>= g) s = g a s' := by
  show EStateM.bind x g s = _
  rw [EStateM.bind, h]

theorem bind_of_error {x : Scribe α} (g : α → Scribe β) {f : Fault} (h : x s = .error f s') :
    (x >>= g) s = .error f s' := by
  show EStateM.bind x g s = _
  rw [EStateM.bind, h]

@[simp] theorem put_run (code : List Line) (s : Session) : put code s = .ok () (s.write code) := rfl

@[simp] theorem put_bind (code : List Line) (g : Unit → Scribe β) (s : Session) :
    (put code >>= g) s = g () (s.write code) :=
  bind_of_ok g (put_run code s)

@[simp] theorem emitter_bind (g : Emitter → Scribe β) (s : Session) :
    (emitter >>= g) s = g s.emitter s := rfl

@[simp] theorem setEmitter_bind (h : Emitter → Emitter) (g : Unit → Scribe β) (s : Session) :
    (setEmitter h >>= g) s = g () { s with emitter := h s.emitter } :=
  bind_of_ok g rfl

@[simp] theorem require_ok_bind (a : α) (g : α → Scribe β) (s : Session) :
    (require (.ok a) >>= g) s = g a s :=
  bind_of_ok g rfl

@[simp] theorem require_pure_bind (a : α) (g : α → Scribe β) (s : Session) :
    (require (pure a) >>= g) s = g a s := rfl

/-- A check that is made of two is made one after the other. -/
theorem require_bind {γ : Type} (x : Except Fault α) (y : α → Except Fault β) (g : β → Scribe γ) :
    require (x >>= y) >>= g = require x >>= fun a => require (y a) >>= g := by
  cases x <;> rfl

/-- A check can be left out of account when both sides make it. -/
theorem require_congr {x : Except Fault α} {g h : α → Scribe β}
    (heq : ∀ a, x = .ok a → g a s = h a s) : (require x >>= g) s = (require x >>= h) s := by
  cases x with
  | error f => rfl
  | ok a => exact heq a rfl

end Steps

/-! ### Segments -/

section Segments

variable {s : Session} {segment : Segment} {i : Nat} {code : List Line} {f : Fault}

theorem reach_of_ok (h : s.emitter.addressCode segment i = .ok code) :
    reach segment i s = .ok () (s.write code) := by
  cases segment with
  | constant =>
    by_cases hi : maxConstant < i
    · rw [Emitter.addressCode, if_pos hi] at h
      cases h
    · rw [Emitter.addressCode, if_neg hi] at h
      obtain rfl := Except.ok.inj h
      rw [reach, if_neg hi]
      rfl
  | static =>
    obtain rfl := Except.ok.inj h
    rfl
  | pointer | temp =>
    obtain ⟨a, ha, hcode⟩ := bind_eq_ok h
    obtain rfl := Except.ok.inj hcode
    rw [reach, ha]
    rfl
  | indirect base =>
    obtain rfl := Except.ok.inj h
    simp [reach]

theorem reach_of_error (h : s.emitter.addressCode segment i = .error f) :
    reach segment i s = .error f s := by
  cases segment with
  | constant =>
    by_cases hi : maxConstant < i
    · rw [Emitter.addressCode, if_pos hi] at h
      obtain rfl := Except.error.inj h
      rw [reach, if_pos hi]
      rfl
    · rw [Emitter.addressCode, if_neg hi] at h
      cases h
  | static | indirect base => cases h
  | pointer | temp =>
    rcases bind_eq_error h with ha | ⟨a, -, hcode⟩
    · rw [reach, ha]
      rfl
    · cases hcode

/-- **Reaching is not half done**: what goes on from it goes on behind all of
its lines, or not at all. -/
theorem reach_bind (g : Unit → Scribe Unit) :
    (reach segment i >>= g) s
      = (require (s.emitter.addressCode segment i) >>= fun code => put code >>= g) s := by
  cases h : s.emitter.addressCode segment i with
  | error f => rw [bind_of_error _ (reach_of_error h)]; rfl
  | ok code => rw [bind_of_ok _ (reach_of_ok h)]; rfl

end Segments

/-! ### The kinds of command -/

section Kinds

variable (s : Session)

theorem push_eq (token : String) (index : Field) :
    push token index s = (require (Draft.push token index).check >>= complete) s := by
  rw [push, address, Draft.check, require_bind, bind_assoc]
  refine require_congr fun i _ => ?_
  rw [require_bind, bind_assoc]
  refine require_congr fun segment hread => ?_
  -- the segment is looked up once more behind its code, and it is known by then
  rw [reach_bind, hread, require_pure_bind, complete, emitter_bind, Emitter.code,
    Emitter.pushCode, require_bind]
  refine require_congr fun code _ => ?_
  by_cases hsegment : segment = .constant
  · simp [hsegment, Emitter.next]
  · simp [hsegment, Emitter.next]

theorem pop_eq (token : String) (index : Field) :
    pop token index s = (require (Draft.pop token index).check >>= complete) s := by
  rw [pop, Draft.check, require_bind]
  refine require_congr fun segment hread => ?_
  by_cases hsegment : segment = .constant
  · rw [if_pos hsegment, if_pos hsegment]
    rfl
  rw [if_neg hsegment, if_neg hsegment, address, hread]
  show ((require (index.count .index) >>= fun i => reach segment i) >>= _) s = _
  rw [bind_assoc, require_bind]
  refine require_congr fun i _ => ?_
  rw [reach_bind, require_pure_bind, complete, emitter_bind, s.emitter.code_pop hsegment,
    require_bind]
  refine require_congr fun code _ => ?_
  simp [Emitter.next]

theorem arithmetic_eq (word : String) :
    arithmetic word s = (require (Draft.arithmetic word).check >>= complete) s := by
  rw [arithmetic, Draft.check]
  cases Operator.ofName? word with
  | none => rfl
  | some op =>
    cases op with
    | unary op => simp [complete, Emitter.code, Emitter.operatorCode, Emitter.next]
    | binary op => simp [complete, Emitter.code, Emitter.operatorCode, Emitter.next]
    | comparison op =>
      simp [compare, complete, Emitter.code, Emitter.operatorCode, Emitter.comparisonCode,
        Emitter.next]

theorem label_eq (name : Field) :
    label name s = (require (Draft.label name).check >>= complete) s := by
  rw [label, Draft.check, require_bind]
  exact require_congr fun x _ => rfl

theorem goto_eq (target : Field) :
    goto target s = (require (Draft.goto target).check >>= complete) s := by
  rw [goto, Draft.check, require_bind]
  refine require_congr fun x _ => ?_
  simp [complete, Emitter.code, Emitter.next]

theorem ifGoto_eq (target : Field) :
    ifGoto target s = (require (Draft.ifGoto target).check >>= complete) s := by
  rw [ifGoto, Draft.check, require_bind]
  refine require_congr fun x _ => ?_
  simp [complete, Emitter.code, Emitter.next]

/-- The zeros of a function are never refused, so its label does not stand
alone. -/
theorem zeros_eq (n : Nat) : zeros n s = .ok () (s.write (List.replicate n
    ([Line.constant 0, .set .d (.y .a)] ++ Block.pushD s.emitter.regs.sp)).flatten) := by
  -- a zero leaves the emitter as it is, so the next has the same code
  induction n generalizing s with
  | zero => exact congrArg _ s.write_nil.symm
  | succ n ih =>
    have hpush : push "constant" (.int 0) s = .ok () (s.write
        ([Line.constant 0, .set .d (.y .a)] ++ Block.pushD s.emitter.regs.sp)) := by
      rw [push_eq]
      rfl
    rw [zeros, bind_of_ok _ hpush, ih]
    simp [List.replicate_succ]

theorem function_eq (name locals : Field) :
    function name locals s = (require (Draft.function name locals).check >>= complete) s := by
  rw [function, Draft.check, require_bind]
  refine require_congr fun x _ => ?_
  rw [require_bind]
  refine require_congr fun n _ => ?_
  simp [zeros_eq, complete, Emitter.code, Emitter.functionCode, Emitter.next, Emitter.enter]

theorem saves_eq (sp : String) (cells : List String) :
    saves sp cells s = .ok () (s.write (cells.flatMap (Emitter.saveCode sp))) := by
  induction cells generalizing s with
  | nil => exact congrArg _ s.write_nil.symm
  | cons cell cells ih => simp [saves, ih, Emitter.saveCode]

theorem call_eq (name args : Field) :
    call name args s = (require (Draft.call name args).check >>= complete) s := by
  rw [call, Draft.check, require_bind]
  refine require_congr fun x _ => ?_
  rw [require_bind]
  refine require_congr fun n _ => ?_
  simp only [emitter_bind, setEmitter_bind, put_bind, bind_of_ok _ (saves_eq _ _ _)]
  simp [complete, Emitter.code, Emitter.callCode, Emitter.next]

theorem ret_eq : ret s = (require Draft.ret.check >>= complete) s := by
  simp [ret, restore, complete, Draft.check, Emitter.code, Emitter.returnCode, Emitter.next]

end Kinds

/-- **A scribe that works in place leaves what emitting leaves.** -/
theorem emit_eq (d : Draft) (s : Session) : emit d s = settled (s.emit d) := by
  rw [settled_emit]
  cases d with
  | arithmetic word => exact arithmetic_eq s word
  | push token index => exact push_eq s token index
  | pop token index => exact pop_eq s token index
  | label name => exact label_eq s name
  | goto target => exact goto_eq s target
  | ifGoto target => exact ifGoto_eq s target
  | function name locals => exact function_eq s name locals
  | call name args => exact call_eq s name args
  | ret => exact ret_eq s
  | other value => rfl

end Scribe

/-! ## How an emitter advances -/

namespace Draft

/-- Whether a command compares. -/
def compares : Draft → Bool
  | arithmetic op => op == "eq" || op == "gt" || op == "lt"
  | _ => false

/-- Whether a command is a call. -/
def calls : Draft → Bool
  | call _ _ => true
  | _ => false

/-- The name of the function that a command starts. -/
def starts? : Draft → Option String
  | function (.text x) _ => some x
  | _ => none

end Draft

/-- **What commands change in an emitter.** Every comparison takes a number and
every call a return label; the names are those of the last function that was
started. Nothing else changes. -/
structure Emitter.Advances (ds : List Draft) (e e' : Emitter) : Prop where
  program : e'.program = e.program
  regs : e'.regs = e.regs
  comparisons : e'.comparisons = e.comparisons + ds.countP Draft.compares
  returns : e'.returns = e.returns + ds.countP Draft.calls
  functionName : e'.functionName = (ds.filterMap Draft.starts?).getLast?.or e.functionName
  staticScope : e'.staticScope
    = ((ds.filterMap Draft.starts?).getLast?.map classOf).or e.staticScope

namespace Emitter

theorem advances_nil (e : Emitter) : e.Advances [] e := ⟨rfl, rfl, rfl, rfl, rfl, rfl⟩

theorem Advances.append {ds ds' : List Draft} {e e' e'' : Emitter} (h : e.Advances ds e')
    (h' : e'.Advances ds' e'') : e.Advances (ds ++ ds') e'' where
  program := h'.program.trans h.program
  regs := h'.regs.trans h.regs
  comparisons := by rw [h'.comparisons, h.comparisons, List.countP_append, Nat.add_assoc]
  returns := by rw [h'.returns, h.returns, List.countP_append, Nat.add_assoc]
  functionName := by
    rw [h'.functionName, h.functionName, List.filterMap_append, List.getLast?_append,
      Option.or_assoc]
  staticScope := by
    rw [h'.staticScope, h.staticScope, List.filterMap_append, List.getLast?_append, Option.map_or,
      Option.or_assoc]

/-- The emitter after a command has advanced by it. -/
theorem advances_next {d : Draft} {c : Command} (h : d.check = .ok c) (e : Emitter) :
    e.Advances [d] (e.next c) := by
  rcases Draft.check_cases h with ⟨_, _, _, rfl, rfl⟩ | ⟨_, _, _, rfl, rfl⟩ | rfl
  · exact ⟨rfl, rfl, rfl, rfl, rfl, rfl⟩
  · exact ⟨rfl, rfl, rfl, rfl, rfl, rfl⟩
  cases c with
  | arithmetic op =>
    cases op with
    | unary op => cases op <;> exact ⟨rfl, rfl, rfl, rfl, rfl, rfl⟩
    | binary op => cases op <;> exact ⟨rfl, rfl, rfl, rfl, rfl, rfl⟩
    | comparison op => cases op <;> exact ⟨rfl, rfl, rfl, rfl, rfl, rfl⟩
  | _ => exact ⟨rfl, rfl, rfl, rfl, rfl, rfl⟩

/-! ## What is refused -/

/-- An address is refused whatever the emitter. -/
theorem addressCode_error {e : Emitter} {segment : Segment} {i : Nat} {f : Fault}
    (h : e.addressCode segment i = .error f) (e' : Emitter) :
    e'.addressCode segment i = .error f := by
  cases segment with
  | constant | pointer | temp => exact h
  | static | indirect base => cases h

/-- A command is refused whatever the emitter. -/
theorem code_error {e : Emitter} {c : Command} {f : Fault} (h : e.code c = .error f)
    (e' : Emitter) : e'.code c = .error f := by
  cases c with
  | push segment i =>
    rcases bind_eq_error h with haddress | ⟨code, -, h⟩
    · rw [code, pushCode, addressCode_error haddress e']
      rfl
    · cases h
  | pop segment i =>
    by_cases hsegment : segment = .constant
    · rw [code, popCode, if_pos hsegment] at h ⊢
      exact h
    · rw [code, popCode, if_neg hsegment] at h ⊢
      rcases bind_eq_error h with haddress | ⟨code, -, h⟩
      · rw [addressCode_error haddress e']
        rfl
      · cases h
  | _ => cases h

end Emitter

namespace Session

variable {d : Draft} {ps : List (Placed Draft)}

/-- **A sound command is written** behind the lines that are there. -/
theorem emit_of_sound (h : d.Sound) (e : Emitter) :
    ∃ code e', e.Advances [d] e' ∧ ∀ lines, emit ⟨e, lines⟩ d = .ok (write ⟨e', lines⟩ code) := by
  obtain ⟨c, hcheck, hrange⟩ := Draft.sound_iff.mp h
  rcases e.code_cases (Draft.ne_pop_constant hcheck) with ⟨-, code, hcode⟩ | ⟨f, -, -, hrange'⟩
  · refine ⟨code, e.next c, Emitter.advances_next hcheck e, fun lines => ?_⟩
    rw [emit, hcheck]
    dsimp only
    rw [hcode]
    rfl
  · rw [hrange] at hrange'
    cases hrange'

/-- **Any other is refused** for a fault of its own, and the session stays as
it is. -/
theorem emit_of_not_sound (h : ¬ d.Sound) : ∃ f, ∀ s : Session, s.emit d = .error ⟨f, s⟩ := by
  cases hcheck : d.check with
  | error f =>
    refine ⟨f, fun s => ?_⟩
    rw [emit, hcheck]
  | ok c =>
    -- any emitter shows the fault
    rcases (Emitter.start none {}).code_cases (Draft.ne_pop_constant hcheck) with
      ⟨hrange, -⟩ | ⟨f, hcode, -, -⟩
    · exact absurd (Draft.sound_iff.mpr ⟨c, hcheck, hrange⟩) h
    · refine ⟨f, fun s => ?_⟩
      rw [emit, hcheck]
      dsimp only
      rw [Emitter.code_error hcode s.emitter]

/-! ## Commands in a row -/

theorem emitAll_cons (s : Session) (p : Placed Draft) (ps : List (Placed Draft)) :
    s.emitAll (p :: ps) = s.emitPlaced p >>= fun s' => s'.emitAll ps := rfl

theorem emitAll_append (s : Session) (ps qs : List (Placed Draft)) :
    s.emitAll (ps ++ qs) = s.emitAll ps >>= fun s' => s'.emitAll qs := List.foldlM_append

/-- Sound commands are written one behind the other. -/
theorem emitAll_of_sound (h : ∀ p ∈ ps, p.item.Sound) (e : Emitter) :
    ∃ code e', e.Advances (ps.map Placed.item) e' ∧
      ∀ lines, emitAll ⟨e, lines⟩ ps = .ok (write ⟨e', lines⟩ code) := by
  induction ps generalizing e with
  | nil => exact ⟨[], e, e.advances_nil, fun lines => congrArg _ (write_nil _).symm⟩
  | cons p ps ih =>
    obtain ⟨code, e', hadvances, hemit⟩ := emit_of_sound (h p List.mem_cons_self) e
    obtain ⟨more, e'', hadvances', hrest⟩ := ih (fun q hq => h q (List.mem_cons_of_mem p hq)) e'
    refine ⟨code ++ more, e'', hadvances.append hadvances', fun lines => ?_⟩
    rw [emitAll_cons, emitPlaced, hemit, ← write_write]
    exact hrest _

/-- A report does not depend on what was done in the session. -/
theorem report_congr {s s' : Session} (h : s'.emitter.program = s.emitter.program)
    (p : Placed Draft) (f : Fault) : s'.report p f = s.report p f := by
  rw [report, report, h]

/-- The first command that is not sound ends the work, and it is the one that
is reported. -/
theorem emitAll_of_not_sound {front back : List (Placed Draft)} {p : Placed Draft} {f : Fault}
    (hfront : ∀ q ∈ front, q.item.Sound) (hp : ∀ s : Session, s.emit p.item = .error ⟨f, s⟩)
    (e : Emitter) :
    ∃ code e', e.Advances (front.map Placed.item) e' ∧ ∀ lines,
      emitAll ⟨e, lines⟩ (front ++ p :: back)
        = .error ⟨report ⟨e, lines⟩ p f, write ⟨e', lines⟩ code⟩ := by
  obtain ⟨code, e', hadvances, hemit⟩ := emitAll_of_sound hfront e
  refine ⟨code, e', hadvances, fun lines => ?_⟩
  rw [emitAll_append, hemit]
  show (emitPlaced _ p >>= fun s => s.emitAll back) = _
  rw [emitPlaced, hp]
  exact congrArg Except.error (congrArg (Refusal.mk · _) (report_congr hadvances.program p f))

/-- Commands that are not all sound have a first that is not. -/
theorem exists_first_unsound (h : ¬ ∀ p ∈ ps, p.item.Sound) :
    ∃ front p back, ps = front ++ p :: back ∧ (∀ q ∈ front, q.item.Sound) ∧ ¬ p.item.Sound := by
  cases hfind : ps.find? fun p => ¬ p.item.Sound with
  | none =>
    refine absurd (fun p hp => ?_) h
    simpa using List.find?_eq_none.mp hfind p hp
  | some p =>
    obtain ⟨hp, front, back, hps, hfront⟩ := List.find?_eq_some_iff_append.mp hfind
    exact ⟨front, p, back, hps, fun q hq => by simpa using hfront q hq, by simpa using hp⟩

/-- **Emitting is all or nothing.** Work in place comes out as emitting does. A
sound command advances the emitter and puts code behind the lines, the same
behind any lines; a command that is not sound has a fault that any session
reports, and changes none.

So commands in a row are all written, or they end at the first that is not
sound. The emitter is then left as the commands before it leave it, no line is
given out, not even those that were there before, and the one diagnostic is
about that command. -/
theorem emit_atomic (d : Draft) (ps : List (Placed Draft)) (e : Emitter) (before : List String) :
    (∀ s, Scribe.emit d s = Scribe.settled (s.emit d)) ∧
    ((d.Sound ∧ ∃ code e', e.Advances [d] e' ∧
        ∀ lines, emit ⟨e, lines⟩ d = .ok (write ⟨e', lines⟩ code)) ∨
      (¬ d.Sound ∧ ∃ f, ∀ s : Session, s.emit d = .error ⟨f, s⟩)) ∧
    (((∀ p ∈ ps, p.item.Sound) ∧ ∃ code e', e.Advances (ps.map Placed.item) e' ∧
        (∀ lines, emitAll ⟨e, lines⟩ ps = .ok (write ⟨e', lines⟩ code)) ∧
        Emission.after before (emitAll ⟨e, #[]⟩ ps) = ⟨before ++ code.map Line.text, []⟩) ∨
      ∃ front p back f code e', ps = front ++ p :: back ∧ (∀ q ∈ front, q.item.Sound) ∧
        ¬ p.item.Sound ∧ (∀ s : Session, s.emit p.item = .error ⟨f, s⟩) ∧
        e.Advances (front.map Placed.item) e' ∧
        (∀ lines, emitAll ⟨e, lines⟩ ps
          = .error ⟨report ⟨e, lines⟩ p f, write ⟨e', lines⟩ code⟩) ∧
        Emission.after before (emitAll ⟨e, #[]⟩ ps) = ⟨[], [report ⟨e, #[]⟩ p f]⟩) := by
  refine ⟨Scribe.emit_eq d, ?_, ?_⟩
  · by_cases hd : d.Sound
    · exact .inl ⟨hd, emit_of_sound hd e⟩
    · exact .inr ⟨hd, emit_of_not_sound hd⟩
  by_cases hps : ∀ p ∈ ps, p.item.Sound
  · obtain ⟨code, e', hadvances, hemit⟩ := emitAll_of_sound hps e
    refine .inl ⟨hps, code, e', hadvances, hemit, ?_⟩
    rw [hemit]
    simp [Emission.after, listed, write]
  · obtain ⟨front, p, back, rfl, hfront, hp⟩ := exists_first_unsound hps
    obtain ⟨f, hf⟩ := emit_of_not_sound hp
    obtain ⟨code, e', hadvances, hemit⟩ := emitAll_of_not_sound hfront hf e
    refine .inr ⟨front, p, back, f, code, e', rfl, hfront, hp, hf, hadvances, hemit, ?_⟩
    rw [hemit]
    rfl

end Session

end HackStack
