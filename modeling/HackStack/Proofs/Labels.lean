import HackStack.Proofs.Execution
import HackStack.Proofs.Parsed

/-!
# The labels of a program

Labels come from five places: the two labels of every comparison, the return
label of every call, the functions, the source's own labels, which are scoped
by the function in force, and the loop at the end. A `Label` is one of the
first four before it is spelled, and `Emitter.labels` lists those of a command.

The code of a command is gone through once. `Emitter.row_code` says what each of
its lines can be, and that it defines just the labels listed; whatever holds of
all lines of a program follows from there (`Emitter.Writes`).

The labels of comparisons and calls are numbered, each in a `Series` of its
own, and a dollar sign sets the scoped ones off from all others. So spelling is
injective, once functions keep out of the way (`Label.text_inj`).
-/

namespace HackStack

/-! ## Labels -/

namespace Command

def isComparison : Command → Bool
  | .arithmetic (.comparison _) => true
  | _ => false

def isCall : Command → Bool
  | .call _ _ => true
  | _ => false

/-- The name of a label of the source. -/
def labelName? : Command → Option String
  | .label name => some name
  | _ => none

end Command

/-- The series of numbered labels. -/
inductive Series where
  /-- Where a comparison goes when it holds. -/
  | whenTrue
  /-- Behind a comparison. -/
  | whenFalse
  /-- Where a call comes back to. -/
  | back
  deriving DecidableEq, Repr

namespace Series

/-- What stands before the number. -/
def front : Series → String
  | whenTrue | whenFalse => "COMPARISON_"
  | back => "FUNC_RETURN_"

/-- What stands behind the number. -/
def rear : Series → String
  | whenTrue => "_WAS_TRUE"
  | whenFalse => "_WAS_FALSE"
  | back => ""

/-- A label of a series as it is spelled. -/
def text (k : Series) (n : Nat) : String := k.front ++ toString n ++ k.rear

/-- The number that a series goes on with. -/
def counter (k : Series) (e : Emitter) : Nat :=
  match k with
  | whenTrue | whenFalse => e.comparisons
  | back => e.returns

/-- Whether a command takes the next number of a series. -/
def takes : Series → Command → Bool
  | whenTrue | whenFalse => Command.isComparison
  | back => Command.isCall

end Series

/-- A label of generated code. -/
inductive Label where
  | numbered (k : Series) (n : Nat)
  | function (name : String)
  /-- A label of the source, in the function in force. -/
  | source (scope name : String)
  deriving DecidableEq, Repr

/-- How a label is spelled. -/
def Label.text : Label → String
  | numbered k n => k.text n
  | function name => name
  | source scope name => scope ++ "$" ++ name

namespace Emitter

/-- The labels that the code of a command defines. -/
def labels (e : Emitter) : Command → List Label
  | .arithmetic (.comparison _) =>
    [.numbered .whenTrue e.comparisons, .numbered .whenFalse e.comparisons]
  | .label name => [.source (shownName e.functionName) name]
  | .function name _ => [.function name]
  | .call _ _ => [.numbered .back e.returns]
  | _ => []

variable {e : Emitter} {c : Command} {code : List Line}

/-- A label that the code of a command defines is numbered, or the command
names it. -/
theorem mem_labels {l : Label} (hl : l ∈ e.labels c) : (∃ k n, l = .numbered k n) ∨
    (∃ name, c = .label name ∧ l = .source (shownName e.functionName) name) ∨
    ∃ name locals, c = .function name locals ∧ l = .function name := by
  cases c with
  | arithmetic op =>
    cases op with
    | comparison op =>
      rcases List.mem_cons.mp hl with rfl | hl
      · exact .inl ⟨_, _, rfl⟩
      · exact .inl ⟨_, _, List.mem_singleton.mp hl⟩
    | _ => cases hl
  | label name => exact .inr (.inl ⟨name, rfl, List.mem_singleton.mp hl⟩)
  | function name locals => exact .inr (.inr ⟨name, locals, rfl, List.mem_singleton.mp hl⟩)
  | call name args => exact .inl ⟨_, _, List.mem_singleton.mp hl⟩
  | _ => cases hl

theorem returnLabel_eq (n : Nat) : returnLabel n = Series.back.text n :=
  (String.append_empty).symm

/-! ## The lines of a command -/

/-- **What a line in the code of a command can be.** -/
inductive Writes (e : Emitter) (c : Command) : Line → Prop
  | compute (dest : Dest) (comp : Comp) (jump : Jump) : Writes e c (.compute dest comp jump)
  /-- A number of fifteen bits, or the one that nothing has bounded. -/
  | constant {n : Nat} (h : n < 2 ^ 15 ∨ c.loaded? = some n) : Writes e c (.constant n)
  /-- A name of the register file. -/
  | register {x : String} (h : x ∈ e.regs.names) : Writes e c (.address x)
  /-- A cell of a fixed block. -/
  | block (n : Nat) : Writes e c (.address ("R" ++ toString n))
  | static (index : Nat) : Writes e c (.address (e.staticSymbol index))
  /-- A label of the source that the command jumps to. -/
  | target {name : String} (h : c = .goto name ∨ c = .ifGoto name) :
      Writes e c (.address (e.qualify name))
  /-- The function that the command calls. -/
  | callee {name : String} {args : Nat} (h : c = .call name args) : Writes e c (.address name)
  /-- A label that the code defines. -/
  | label {l : Label} (h : l ∈ e.labels c) : Writes e c (.label l.text)
  /-- A label that the code defines, where it is jumped to. -/
  | labelled {l : Label} (h : l ∈ e.labels c) : Writes e c (.address l.text)

attribute [simp] Writes.compute

/-- A small number can stand in every code. -/
theorem Writes.small (e : Emitter) (c : Command) {n : Nat} (h : n < 2 ^ 15) :
    e.Writes c (.constant n) := .constant (.inl h)

/-- A label that the code defines can stand in it twice. -/
theorem writes_defined {l : Label} (h : l ∈ e.labels c) :
    e.Writes c (.label l.text) ∧ e.Writes c (.address l.text) := ⟨.label h, .labelled h⟩

/-- The names of the register file can stand in every code. -/
theorem writes_names (e : Emitter) (c : Command) :
    e.Writes c (.address e.regs.sp) ∧ e.Writes c (.address e.regs.lcl) ∧
    e.Writes c (.address e.regs.arg) ∧ e.Writes c (.address e.regs.thisPtr) ∧
    e.Writes c (.address e.regs.thatPtr) ∧ e.Writes c (.address e.regs.scratch) ∧
    e.Writes c (.address e.regs.endFrame) ∧ e.Writes c (.address e.regs.retAddr) := by
  refine ⟨?_, ?_, ?_, ?_, ?_, ?_, ?_, ?_⟩ <;>
    exact .register (by simp [RegisterFile.names, RegisterFile.stackNames])

/-- Lines of the code of a command, with the labels that they define. -/
structure Row (e : Emitter) (c : Command) (ls : List Line) (labels : List Label) : Prop where
  writes : ∀ l ∈ ls, e.Writes c l
  labelNames : Line.labelNames ls = labels.map Label.text

theorem Row.append {ls ks : List Line} {front rear : List Label} (h : e.Row c ls front)
    (h' : e.Row c ks rear) : e.Row c (ls ++ ks) (front ++ rear) where
  writes := List.forall_mem_append.mpr ⟨h.writes, h'.writes⟩
  labelNames := by rw [Line.labelNames_append, h.labelNames, h'.labelNames, List.map_append]

theorem row_pushD (e : Emitter) (c : Command) : e.Row c (Block.pushD e.regs.sp) [] :=
  ⟨by simp [Block.pushD, Block.toStack, Block.grow, Line.set, writes_names], rfl⟩

theorem row_popD (e : Emitter) (c : Command) : e.Row c (Block.popD e.regs.sp) [] :=
  ⟨by simp [Block.popD, Block.toStack, Block.shrink, Line.set, writes_names], rfl⟩

theorem row_operatorCode (e : Emitter) (op : Operator) :
    e.Row (.arithmetic op) (e.operatorCode op) (e.labels (.arithmetic op)) := by
  refine ⟨?_, by cases op <;> rfl⟩
  cases op with
  | unary op | binary op =>
    simp only [operatorCode, Block.popD, Block.toStack, Block.shrink, Block.grow, Line.set,
      List.forall_mem_append, List.forall_mem_cons]
    simp [writes_names]
  | comparison op =>
    have htrue : e.Writes (.arithmetic (.comparison op)) (.label (trueLabel e.comparisons))
        ∧ e.Writes (.arithmetic (.comparison op)) (.address (trueLabel e.comparisons)) :=
      writes_defined (l := .numbered .whenTrue e.comparisons) List.mem_cons_self
    have hfalse : e.Writes (.arithmetic (.comparison op)) (.label (falseLabel e.comparisons))
        ∧ e.Writes (.arithmetic (.comparison op)) (.address (falseLabel e.comparisons)) :=
      writes_defined (l := .numbered .whenFalse e.comparisons)
        (List.mem_cons_of_mem _ List.mem_cons_self)
    simp only [operatorCode, comparisonCode, Block.popD, Block.toStack, Block.shrink, Block.grow,
      Line.set, Line.branch, List.forall_mem_append, List.forall_mem_cons]
    simp [writes_names, htrue, hfalse]

theorem row_addressCode {segment : Segment} {index : Nat} {address : List Line}
    (hc : ∀ b, segment = .indirect b → c.loaded? = some index)
    (h : e.addressCode segment index = .ok address) : e.Row c address [] := by
  cases segment with
  | constant =>
    unfold addressCode at h
    dsimp only at h
    split at h
    next => cases h
    next hle =>
      obtain rfl := Except.ok.inj h
      refine ⟨List.forall_mem_singleton.mpr (.small e c ?_), rfl⟩
      unfold maxConstant at hle
      omega
  | static =>
    obtain rfl := Except.ok.inj h
    exact ⟨List.forall_mem_singleton.mpr (.static index), rfl⟩
  | pointer | temp =>
    obtain ⟨-, rfl⟩ := addressCode_block rfl rfl h
    exact ⟨List.forall_mem_singleton.mpr (.block _), rfl⟩
  | indirect b =>
    obtain rfl := Except.ok.inj h
    have hbase : e.Writes c (.address (e.regs.base b)) := by
      cases b <;> simp [RegisterFile.base, writes_names]
    have hindex : e.Writes c (.constant index) := .constant (.inr (hc b rfl))
    exact ⟨by simp [Block.loadConstant, Line.set, hbase, hindex], rfl⟩

theorem row_zeros (e : Emitter) (c : Command) (n : Nat) :
    e.Row c (List.replicate n
      ([Line.constant 0, Line.set .d (.y .a)] ++ Block.pushD e.regs.sp)).flatten [] := by
  induction n with
  | zero => exact ⟨by simp, rfl⟩
  | succ n ih =>
    rw [List.replicate_succ, List.flatten_cons]
    have hzero : e.Writes c (.constant 0) := .small (n := 0) e c (by decide)
    have hload : e.Row c [Line.constant 0, Line.set .d (.y .a)] [] :=
      ⟨by simp [Line.set, hzero], rfl⟩
    exact (hload.append (row_pushD e c)).append ih

theorem row_callCode (e : Emitter) (name : String) (args : Nat) :
    e.Row (.call name args) (e.callCode name args) (e.labels (.call name args)) := by
  have hback : e.Writes (.call name args) (.label (returnLabel e.returns))
      ∧ e.Writes (.call name args) (.address (returnLabel e.returns)) := by
    rw [returnLabel_eq]
    exact writes_defined (l := .numbered .back e.returns) List.mem_cons_self
  have hargs : e.Writes (.call name args) (.constant args) := .constant (.inr rfl)
  have hfive : e.Writes (.call name args) (.constant 5) := .small (n := 5) e _ (by decide)
  have hname : e.Writes (.call name args) (.address name) := .callee rfl
  refine ⟨?_, congrArg (fun x => [x]) (returnLabel_eq e.returns)⟩
  simp only [callCode, saveCode, RegisterFile.frame, Block.pushD, Block.toStack, Block.grow,
    Line.set, Line.branch, List.flatMap_cons, List.flatMap_nil, List.forall_mem_append,
    List.forall_mem_cons]
  simp [writes_names, hback, hargs, hfive, hname]

theorem row_returnCode (e : Emitter) : e.Row .ret (returnCode e.regs) [] := by
  have hnumber : ∀ n ∈ [1, 2, 3, 4, 5], e.Writes .ret (.constant (n : Nat)) :=
    fun n hn => .small e _ ((by decide : ∀ n ∈ [1, 2, 3, 4, 5], n < 2 ^ 15) n hn)
  simp only [List.forall_mem_cons, Nat.cast_ofNat, Nat.cast_one] at hnumber
  refine ⟨?_, rfl⟩
  simp only [returnCode, restoreCode, Line.set, Line.branch, List.forall_mem_append,
    List.forall_mem_cons]
  simp [writes_names, hnumber]

/-- **The code of a command**: what its lines can be, and the labels among
them. -/
theorem row_code (h : e.code c = .ok code) : e.Row c code (e.labels c) := by
  cases c with
  | arithmetic op =>
    obtain rfl := Except.ok.inj h
    exact row_operatorCode e op
  | push segment index =>
    obtain ⟨address, haddress, rfl⟩ := pushCode_eq_ok h
    have hload : e.Row (.push segment index)
        [Line.set .d (if segment = .constant then .y .a else .y .m)] [] :=
      ⟨by simp [Line.set], rfl⟩
    refine ((row_addressCode ?_ haddress).append hload).append (row_pushD e _)
    rintro b rfl
    rfl
  | pop segment index =>
    obtain ⟨-, address, haddress, rfl⟩ := popCode_eq_ok h
    have hkeep : e.Row (.pop segment index)
        [Line.set .d (.y .a), .address e.regs.scratch, .set .m .d] [] :=
      ⟨by simp [Line.set, writes_names], rfl⟩
    have hstore : e.Row (.pop segment index)
        [Line.address e.regs.scratch, .set .a (.y .m), .set .m .d] [] :=
      ⟨by simp [Line.set, writes_names], rfl⟩
    refine (((row_addressCode ?_ haddress).append hkeep).append (row_popD e _)).append hstore
    rintro b rfl
    rfl
  | label name =>
    obtain rfl := Except.ok.inj h
    have hlabel := writes_defined (l := .source (shownName e.functionName) name) (e := e)
      (c := .label name) List.mem_cons_self
    exact ⟨List.forall_mem_singleton.mpr hlabel.1, rfl⟩
  | goto name =>
    obtain rfl := Except.ok.inj h
    have htarget : e.Writes (.goto name) (.address (e.qualify name)) := .target (.inl rfl)
    exact ⟨by simp [Line.branch, htarget], rfl⟩
  | ifGoto name =>
    obtain rfl := Except.ok.inj h
    have htarget : e.Writes (.ifGoto name) (.address (e.qualify name)) := .target (.inr rfl)
    exact (row_popD e _).append ⟨by simp [Line.branch, htarget], rfl⟩
  | function name locals =>
    obtain rfl := Except.ok.inj h
    have hlabel := writes_defined (l := .function name) (e := e) (c := .function name locals)
      List.mem_cons_self
    have hentry : e.Row (.function name locals) [.label name] [.function name] :=
      ⟨List.forall_mem_singleton.mpr hlabel.1, rfl⟩
    exact hentry.append (row_zeros e _ locals)
  | call name args =>
    obtain rfl := Except.ok.inj h
    exact row_callCode e name args
  | ret =>
    obtain rfl := Except.ok.inj h
    exact row_returnCode e

/-- **The labels in the code of a command.** -/
theorem labelNames_code (h : e.code c = .ok code) :
    Line.labelNames code = (e.labels c).map Label.text := (row_code h).labelNames

/-- The labels of sound commands are read as they are written. -/
theorem plain_text (hc : c.FromSource) {l : Label} (hl : l ∈ e.labels c) : Plain l.text := by
  rcases mem_labels hl with ⟨k, n, rfl⟩ | ⟨name, rfl, rfl⟩ | ⟨name, locals, rfl, rfl⟩
  · cases k with
    | whenTrue => exact plain_trueLabel n
    | whenFalse => exact plain_falseLabel n
    | back =>
      rw [Label.text, ← returnLabel_eq]
      exact plain_returnLabel n
  · exact plain_qualify e hc
  · exact hc.1.plain

/-- **An operand is a plain name or a number**, and only one number can be
large. -/
theorem Writes.operand {x : String} (hregs : e.regs = {}) (hc : c.FromSource)
    (h : e.Writes c (.address x)) :
    Plain x ∨ ∃ n : Nat, x = toString n ∧ (n < 2 ^ 15 ∨ c.loaded? = some n) := by
  cases h with
  | @constant n hn => exact .inr ⟨n, rfl, hn⟩
  | register hx =>
    have hnames : ∀ y ∈ ({} : RegisterFile).names, Plain y := by
      simp only [RegisterFile.names, RegisterFile.stackNames, List.forall_mem_append,
        List.forall_mem_cons]
      decide +kernel
    rw [hregs] at hx
    exact .inl (hnames x hx)
  | block n =>
    exact .inl (plain_append_toString n (c := 'R') (by decide)
      (isDigit_of_isSymbolStart (by decide)))
  | static index => exact .inl (plain_staticSymbol e index)
  | target hname => rcases hname with rfl | rfl <;> exact .inl (plain_qualify e hc)
  | callee hname =>
    subst hname
    exact .inl hc.1.plain
  | labelled hl => exact .inl (plain_text hc hl)

end Emitter

/-! ## Spelling -/

namespace Series

/-- The number of a label of a series. -/
def number? (k : Series) (x : String) : Option Nat :=
  let digits := (x.toList.drop k.front.length).take (x.length - k.front.length - k.rear.length)
  if x = k.text (Text.decimalOf digits) then some (Text.decimalOf digits) else none

theorem number?_eq_some {k : Series} {x : String} {n : Nat} :
    k.number? x = some n ↔ x = k.text n := by
  constructor
  · intro h
    unfold number? at h
    dsimp only at h
    split at h
    next heq =>
      rw [← Option.some.inj h]
      exact heq
    next => cases h
  · rintro rfl
    have hdigits : ((k.text n).toList.drop k.front.length).take
        ((k.text n).length - k.front.length - k.rear.length) = (toString n).toList := by
      have hlen : (k.text n).length - k.front.length - k.rear.length
          = (toString n).toList.length := by
        rw [text, String.length_append, String.length_append, String.length_toList]
        omega
      rw [hlen, text, String.toList_append, String.toList_append, List.append_assoc,
        ← String.length_toList, List.drop_left, List.take_left]
    unfold number?
    dsimp only
    rw [hdigits, Text.decimalOf_toString, if_pos rfl]

/-- Two series never spell the same label: they begin or end in another way. -/
theorem text_ne_text {k l : Series} (hkl : k ≠ l) (n m : Nat) : k.text n ≠ l.text m := by
  intro h
  have hfirst := congrArg (fun x => x.toList.head?) h
  have hlast := congrArg (fun x => x.toList.reverse[1]?) h
  simp only [text, String.toList_append, List.reverse_append] at hfirst hlast
  cases k <;> cases l <;> simp [front, rear] at hkl hfirst hlast

theorem text_inj {k l : Series} {n m : Nat} (h : k.text n = l.text m) : k = l ∧ n = m := by
  by_cases hkl : k = l
  · obtain rfl := hkl
    have hn := number?_eq_some.mpr h
    rw [number?_eq_some.mpr rfl] at hn
    exact ⟨rfl, Option.some.inj hn⟩
  · exact absurd h (text_ne_text hkl n m)

theorem dollar_notMem (k : Series) (n : Nat) : '$' ∉ (k.text n).toList := by
  rw [text, String.toList_append, String.toList_append, List.mem_append, List.mem_append]
  rintro ((h | h) | h)
  · revert h
    cases k <;> decide
  · exact absurd (Text.isDigit_of_mem_toString h) (by decide)
  · revert h
    cases k <;> decide

theorem underscore_mem (k : Series) (n : Nat) : '_' ∈ (k.text n).toList := by
  rw [text, String.toList_append, String.toList_append]
  refine List.mem_append_left _ (List.mem_append_left _ ?_)
  cases k <;> decide

end Series

/-- A scope without a dollar sign can be told from a label. -/
theorem scope_inj {s t a b : String} (hs : '$' ∉ s.toList) (ht : '$' ∉ t.toList)
    (h : s ++ "$" ++ a = t ++ "$" ++ b) : s = t ∧ a = b := by
  have hlist := congrArg (fun x => cutAt? '$' x.toList) h
  have hdollar : "$".toList = ['$'] := by decide
  simp only [String.toList_append, List.append_assoc, hdollar, List.singleton_append] at hlist
  rw [cutAt?_append hs, cutAt?_append ht, Option.some.injEq, Prod.mk.injEq] at hlist
  exact ⟨String.toList_injective hlist.1, String.toList_injective hlist.2⟩

namespace Label

/-- A label that cannot be taken for one of another kind: a function has neither a
dollar sign nor a number of a series, and a scope has no dollar sign. -/
def Apart : Label → Prop
  | numbered _ _ => True
  | function name => '$' ∉ name.toList ∧ ∀ k : Series, k.number? name = none
  | source scope _ => '$' ∉ scope.toList

/-- The number of a label in a series. -/
def number? (k : Series) : Label → Option Nat
  | numbered l n => if l = k then some n else none
  | _ => none

def function? : Label → Option String
  | function name => some name
  | _ => none

def source? : Label → Option (String × String)
  | source scope name => some (scope, name)
  | _ => none

/-- A dollar sign tells the labels of the source from the others. -/
theorem text_ne_source {x : String} (hx : '$' ∉ x.toList) (scope name : String) :
    x ≠ (source scope name).text := by
  rintro rfl
  rw [text, String.toList_append, String.toList_append] at hx
  exact hx (List.mem_append_left _ (List.mem_append_right _ (by decide)))

/-- **A label is known by its spelling.** -/
theorem text_inj {l l' : Label} (h : l.Apart) (h' : l'.Apart) (htext : l.text = l'.text) :
    l = l' := by
  cases l with
  | numbered k n =>
    cases l' with
    | numbered k' n' =>
      obtain ⟨rfl, rfl⟩ := Series.text_inj htext
      rfl
    | function name =>
      have hnumber := Series.number?_eq_some.mpr htext.symm
      exact absurd (hnumber.symm.trans (h'.2 k)) (Option.some_ne_none n)
    | source scope name => exact absurd htext (text_ne_source (k.dollar_notMem n) _ _)
  | function name =>
    cases l' with
    | numbered k n =>
      have hnumber := Series.number?_eq_some.mpr htext
      exact absurd (hnumber.symm.trans (h.2 k)) (Option.some_ne_none n)
    | function name' => exact congrArg function htext
    | source scope name' => exact absurd htext (text_ne_source h.1 _ _)
  | source scope name =>
    cases l' with
    | numbered k n => exact absurd htext.symm (text_ne_source (k.dollar_notMem n) _ _)
    | function name' => exact absurd htext.symm (text_ne_source h'.1 _ _)
    | source scope' name' =>
      obtain ⟨rfl, rfl⟩ := scope_inj h h' htext
      rfl

theorem number?_text {l : Label} (h : l.Apart) (k : Series) :
    k.number? l.text = l.number? k := by
  have happart (n : Nat) : (numbered k n).Apart := trivial
  refine Option.ext fun n => ?_
  rw [Series.number?_eq_some]
  constructor
  · intro htext
    rw [text_inj h (happart n) htext, number?, if_pos rfl]
  · intro hnumber
    cases l with
    | numbered k' m =>
      rw [number?] at hnumber
      split at hnumber
      next hk => rw [hk, Option.some.inj hnumber, text]
      next => cases hnumber
    | function name => cases hnumber
    | source scope name => cases hnumber

/-- Labels are distinct when those of each kind are. -/
theorem nodup_of_kinds {ls : List Label} (hnumber : ∀ k, (ls.filterMap (number? k)).Nodup)
    (hfunction : (ls.filterMap function?).Nodup) (hsource : (ls.filterMap source?).Nodup) :
    ls.Nodup := by
  rw [List.nodup_iff_sublist]
  intro l hl
  cases l with
  | numbered k n =>
    have htwice := hl.filterMap (number? k)
    simp only [number?, List.filterMap_cons, List.filterMap_nil, if_true] at htwice
    exact List.nodup_iff_sublist.mp (hnumber k) n htwice
  | function name => exact List.nodup_iff_sublist.mp hfunction name (hl.filterMap function?)
  | source scope name =>
    exact List.nodup_iff_sublist.mp hsource (scope, name) (hl.filterMap source?)

end Label

end HackStack
