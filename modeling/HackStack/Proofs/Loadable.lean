import HackStack.Proofs.DefinedOnce
import HackStack.Proofs.Simulation

/-!
# What loading refuses

Generated code is loaded line by line, and a line is read in one way whatever
the table of symbols is. So a block of lines is either `Accepted` or `Refused`,
and two blocks in a row do what the first one refused does.

A name is always accepted, and so is every number that a command prints after
looking at it. What nothing looks at are the numbers of `Command.loaded?`: the
index into an indirect segment and the count of arguments. They are refused
from fifteen bits on, and nothing else is (`Program.load_outcome`).
-/

namespace HackStack

/-! ## Blocks of lines -/

namespace Line

/-- The instructions among some lines, as they are read. -/
def codeOf (ls : List Line) : List (List Char) := (ls.filter isCode).map written

/-- Lines that are decoded with any table of symbols. -/
def Accepted (ls : List Line) : Prop :=
  ∀ v, ∃ r, Loading.decodeAll v (codeOf ls) = .ok r

/-- Lines that are refused with any table of symbols, and always for one
reason. -/
def Refused (ls : List Line) (e : LoadError) : Prop :=
  ∀ v, Loading.decodeAll v (codeOf ls) = .error e

theorem codeOf_append (ls ks : List Line) : codeOf (ls ++ ks) = codeOf ls ++ codeOf ks := by
  rw [codeOf, List.filter_append, List.map_append]
  rfl

variable {l : Line} {ls ks : List Line} {e : LoadError} {x : String} {n : Nat}

theorem Accepted.append (h : Accepted ls) (h' : Accepted ks) : Accepted (ls ++ ks) := by
  intro v
  obtain ⟨⟨is, v₁⟩, hls⟩ := h v
  obtain ⟨r, hks⟩ := h' v₁
  rw [codeOf_append, Loading.decodeAll_append_of_ok hls, hks]
  exact ⟨_, rfl⟩

theorem Refused.append (h : Refused ls e) (ks : List Line) : Refused (ls ++ ks) e := by
  intro v
  rw [codeOf_append, Loading.decodeAll_append_of_error (h v)]

theorem Accepted.refused (h : Accepted ls) (h' : Refused ks e) : Refused (ls ++ ks) e := by
  intro v
  obtain ⟨⟨is, v₁⟩, hls⟩ := h v
  rw [codeOf_append, Loading.decodeAll_append_of_ok hls, h' v₁]
  rfl

theorem accepted_nil : Accepted [] := fun v => ⟨([], v), rfl⟩

theorem accepted_cons : Accepted [l] → Accepted ls → Accepted (l :: ls) := fun h h' => h.append h'

theorem accepted_of_forall (h : ∀ l ∈ ls, Accepted [l]) : Accepted ls := by
  induction ls with
  | nil => exact accepted_nil
  | cons l ls ih =>
    exact accepted_cons (h l List.mem_cons_self) (ih fun k hk => h k (List.mem_cons_of_mem l hk))

/-- A line is decoded alone. -/
theorem accepted_of_decode (h : ∀ v, ∃ r, Loading.decode v l.written = .ok r) : Accepted [l] := by
  cases hl : l.isCode with
  | false =>
    rw [Accepted, codeOf, List.filter_cons_of_neg (by rw [hl]; decide)]
    exact accepted_nil
  | true =>
    intro v
    obtain ⟨r, hr⟩ := h v
    rw [codeOf, List.filter_cons_of_pos hl, List.filter_nil, List.map_singleton,
      Loading.decodeAll, hr]
    exact ⟨_, rfl⟩

/-! ## Single lines -/

@[simp] theorem accepted_label (x : String) : Accepted [label x] := accepted_nil

@[simp] theorem accepted_compute (dest : Dest) (comp : Comp) (jump : Jump) :
    Accepted [compute dest comp jump] := by
  refine accepted_of_decode fun v => ⟨(.compute dest comp jump, v), ?_⟩
  have hat : (compute dest comp jump).written.head? ≠ some '@' := fun hhead =>
    not_mem_text_compute dest comp jump (by decide) (by decide) (by decide)
      (List.mem_of_head? hhead)
  refine Loading.decode_compute_ok v hat ?_ ?_ ?_
  all_goals rw [written, splitCompute_text, String.ofList_toList]
  · exact Dest.ofText?_text dest
  · exact Comp.ofText?_text comp
  · exact Jump.ofText?_text jump

/-- A name is a label, a variable or predefined, and any of these has a value. -/
theorem accepted_address (hx : Plain x) : Accepted [address x] := by
  refine accepted_of_decode fun v => ⟨(.address (v.resolve x).1, (v.resolve x).2), ?_⟩
  rw [written, hx.1, Loading.decode_symbol v hx.2, String.ofList_toList]

theorem written_constant (n : Nat) : (constant n).written = '@' :: (toString n).toList :=
  congrArg _ (Text.trimEnd_toString n)

theorem decode_constant (hn : n < 10 ^ Text.maxDigits) (v : Loading.Variables) :
    Loading.decode v (constant n).written
      = if n < 2 ^ 15 then .ok (.address n, v) else .error (.tooWide ("@" ++ toString n)) := by
  have htext : String.ofList ('@' :: (toString n).toList) = "@" ++ toString n := by
    refine String.toList_injective ?_
    rw [String.toList_ofList, String.toList_append]
    rfl
  have hread := Text.readNumeral_toString (Text.length_toString_le (by decide) hn)
  rw [written_constant, ← htext, Loading.decode_number v (Text.isNumber_toString n) hread]

theorem accepted_constant (hn : n < 2 ^ 15) : Accepted [constant n] := by
  refine accepted_of_decode fun v => ⟨(.address n, v), ?_⟩
  rw [decode_constant (hn.trans_le (by decide +kernel)), if_pos hn]

theorem refused_constant (hn : n < 10 ^ Text.maxDigits) (hwide : 2 ^ 15 ≤ n) :
    Refused [constant n] (.tooWide ("@" ++ toString n)) := by
  intro v
  show Loading.decodeAll v [(constant n).written] = _
  rw [Loading.decodeAll, decode_constant hn, if_neg (by omega)]
  rfl

end Line

/-! ## Commands -/

namespace Emitter

variable {e : Emitter} {c : Command} {code : List Line} {n : Nat}

/-- A line is accepted when the number that nothing has looked at is small. -/
theorem accepted_of_writes {l : Line} (hregs : e.regs = {}) (hc : c.FromSource)
    (hn : ∀ n, c.loaded? = some n → n < 2 ^ 15) (h : e.Writes c l) : Line.Accepted [l] := by
  cases l with
  | label x => exact Line.accepted_label x
  | compute dest comp jump => exact Line.accepted_compute dest comp jump
  | address x =>
    rcases h.operand hregs hc with hplain | ⟨n, rfl, hnumber⟩
    · exact Line.accepted_address hplain
    · exact Line.accepted_constant (hnumber.elim id (hn n))

/-- **Code is accepted** when the number that nothing has looked at is small. -/
theorem accepted_code (hcode : e.code c = .ok code) (hregs : e.regs = {}) (hc : c.FromSource)
    (hn : ∀ n, c.loaded? = some n → n < 2 ^ 15) : Line.Accepted code :=
  Line.accepted_of_forall fun l hl => accepted_of_writes hregs hc hn ((row_code hcode).writes l hl)

/-- The code of a call before the count of arguments. -/
def callLead (e : Emitter) : List Line :=
  [Line.address (returnLabel e.returns), .set .d (.y .a)] ++ Block.pushD e.regs.sp
    ++ e.regs.frame.flatMap (saveCode e.regs.sp) ++ [Line.address e.regs.sp, .set .d (.y .m)]

/-- The code of a call behind the count of arguments. -/
def callRest (e : Emitter) (name : String) : List Line :=
  [.set .d (.dMinusY .a), .constant 5, .set .d (.dMinusY .a), .address e.regs.arg, .set .m .d,
    .address e.regs.sp, .set .d (.y .m), .address e.regs.lcl, .set .m .d,
    .address name, .branch .zero .always, .label (returnLabel e.returns)]

theorem callCode_eq_constant (e : Emitter) (name : String) (args : Nat) :
    e.callCode name args = e.callLead ++ ([.constant args] ++ e.callRest name) := by
  simp only [callCode, callLead, callRest, List.append_assoc, List.cons_append, List.nil_append]

/-- A call without arguments is a command that sources have. -/
theorem fromSource_call {name : String} (hname : SourceSymbol name) :
    (Command.call name 0).FromSource := ⟨hname, Nat.pow_pos (by decide)⟩

theorem loaded?_call {name : String} :
    ∀ n, (Command.call name 0).loaded? = some n → n < 2 ^ 15 := by
  intro n hn
  rw [← Option.some.inj hn]
  decide

/-- The code of a call is accepted up to the count of arguments. -/
theorem accepted_callLead (hregs : e.regs = {}) {name : String} (hname : SourceSymbol name) :
    Line.Accepted e.callLead := by
  have hrow := (row_callCode e name 0).writes
  rw [callCode_eq_constant, List.forall_mem_append] at hrow
  exact Line.accepted_of_forall fun l hl =>
    accepted_of_writes hregs (fromSource_call hname) loaded?_call (hrow.1 l hl)

/-- **Code is refused** for a number of more than fifteen bits. -/
theorem refused_code (hcode : e.code c = .ok code) (hregs : e.regs = {}) (hc : c.FromSource)
    (hn : c.loaded? = some n) (hwide : 2 ^ 15 ≤ n) :
    Line.Refused code (.tooWide ("@" ++ toString n)) := by
  have hconstant : Line.Refused [.constant n] (.tooWide ("@" ++ toString n)) :=
    Line.refused_constant (hc.lt_of_loaded? hn) hwide
  cases c with
  | push segment index =>
    obtain ⟨address, haddress, rfl⟩ := pushCode_eq_ok hcode
    cases segment with
    | indirect b =>
      obtain rfl := Except.ok.inj haddress
      obtain rfl := Option.some.inj hn
      exact hconstant.append _
    | _ => cases hn
  | pop segment index =>
    obtain ⟨-, address, haddress, rfl⟩ := popCode_eq_ok hcode
    cases segment with
    | indirect b =>
      obtain rfl := Except.ok.inj haddress
      obtain rfl := Option.some.inj hn
      exact hconstant.append _
    | _ => cases hn
  | call name args =>
    obtain rfl := Except.ok.inj hcode
    obtain rfl := Option.some.inj hn
    rw [callCode_eq_constant]
    exact (accepted_callLead hregs hc.1).refused (hconstant.append _)
  | _ => cases hn

/-- **The first wide number decides** how commands in a row are loaded. -/
theorem outcome_linesOf {cs : List Command} (hacc : e.Accepts cs) (hregs : e.regs = {})
    (hcs : ∀ c ∈ cs, c.FromSource) :
    ((∀ n ∈ cs.filterMap Command.loaded?, n < 2 ^ 15) ∧ Line.Accepted (e.linesOf cs)) ∨
    ∃ n, (cs.filterMap Command.loaded?).find? (2 ^ 15 ≤ ·) = some n ∧
      Line.Refused (e.linesOf cs) (.tooWide ("@" ++ toString n)) := by
  induction cs generalizing e with
  | nil => exact .inl ⟨by simp, Line.accepted_nil⟩
  | cons c cs ih =>
    have hc := hcs c List.mem_cons_self
    have hnext : (e.next c).regs = {} := by rw [regs_next, hregs]
    by_cases hwide : ∃ n, c.loaded? = some n ∧ 2 ^ 15 ≤ n
    · obtain ⟨n, hn, hle⟩ := hwide
      refine .inr ⟨n, ?_, (refused_code hacc.1 hregs hc hn hle).append _⟩
      rw [List.filterMap_cons_some hn, List.find?_cons_of_pos (by simpa using hle)]
    · have hsmall (n : Nat) (hn : c.loaded? = some n) : n < 2 ^ 15 :=
        Nat.lt_of_not_le fun hle => hwide ⟨n, hn, hle⟩
      have haccepted := accepted_code hacc.1 hregs hc hsmall
      have hrest := ih hacc.2 hnext fun d hd => hcs d (List.mem_cons_of_mem c hd)
      cases hloaded : c.loaded? with
      | none =>
        rw [List.filterMap_cons_none hloaded]
        exact hrest.imp (fun h => ⟨h.1, haccepted.append h.2⟩)
          fun ⟨n, hfind, hn⟩ => ⟨n, hfind, haccepted.refused hn⟩
      | some k =>
        have hk := hsmall k hloaded
        rw [List.filterMap_cons_some hloaded, List.forall_mem_cons,
          List.find?_cons_of_neg (by simpa using hk)]
        exact hrest.imp (fun h => ⟨⟨hk, h.1⟩, haccepted.append h.2⟩)
          fun ⟨n, hfind, hn⟩ => ⟨n, hfind, haccepted.refused hn⟩

end Emitter

/-! ## Programs -/

namespace Loading

variable {ls : List Line}

/-- Lines whose labels are new are loaded like their instructions. -/
theorem load_map_text (hnamed : Line.label "" ∉ ls)
    (hfresh : Fresh .predefined (labelNames (ls.map Line.text))) :
    ∃ v, Machine.load (ls.map Line.text) = (decodeAll v (Line.codeOf ls)).map
      fun r => { rom := r.1.toArray, symbols := r.2.symbols } := by
  have hload := load_of_fresh hfresh
  rw [Line.source_map_text, Line.codeLines_map_written hnamed] at hload
  exact ⟨_, hload⟩

end Loading

namespace Program

/-- The numbers that the commands of modules ask to load, and that nothing has
bounded. -/
def loadedNumbers (modules : List Module) (o : LinkOptions) : List Nat :=
  (commands modules o).filterMap Command.loaded?

theorem accepted_haltLoop : Line.Accepted (haltLoop (some "END")) := by
  have hend : Line.Accepted [.address "END"] := Line.accepted_address (by decide +kernel)
  exact Line.accepted_of_forall (by simp [haltLoop, Line.branch, hend])

namespace Linked

variable {modules : List Module} {p : Program} (h : Linked modules {} p)

include h

theorem accepted_lead : Line.Accepted (layout modules {}).lead := by
  rcases h.lead_cases with ⟨-, hlead, -⟩ | ⟨-, name, hentry, -, hlead, -⟩
  · rw [hlead]
    exact Line.accepted_nil
  · obtain rfl := Option.some.inj hentry
    have hbase : Line.Accepted [.constant 256] := Line.accepted_constant (n := 256) (by decide)
    have hsp : Line.Accepted [.address "SP"] := Line.accepted_address (by decide +kernel)
    have hinit : SourceSymbol "Sys.init" := ⟨by decide, Text.forall_of_all (by decide)⟩
    rw [hlead]
    refine Line.Accepted.append ?_ (Emitter.accepted_code (c := .call "Sys.init" 0) rfl rfl
      (Emitter.fromSource_call hinit) Emitter.loaded?_call)
    exact Line.accepted_cons hbase (Line.accepted_of_forall (by
      simp [Line.set, Emitter.start, hsp]))

/-- **The first wide number decides** how a program is loaded. -/
theorem outcome_lines (hparsed : ∀ m ∈ modules, m.Parsed) :
    ((∀ n ∈ loadedNumbers modules {}, n < 2 ^ 15) ∧ Line.Accepted p.lines) ∨
    ∃ n, (loadedNumbers modules {}).find? (2 ^ 15 ≤ ·) = some n ∧
      Line.Refused p.lines (.tooWide ("@" ++ toString n)) := by
  have hlines : p.lines = (layout modules {}).lead
      ++ (layout modules {}).emitter.linesOf (commands modules {}) ++ haltLoop (some "END") := by
    rw [h.lines, Layout.before, show (layout modules {}).commands = commands modules {} from rfl,
      List.take_length]
  rw [hlines]
  refine (Emitter.outcome_linesOf h.accepts h.regs (h.fromSource hparsed)).imp ?_ ?_
  · rintro ⟨hsmall, haccepted⟩
    exact ⟨hsmall, (h.accepted_lead.append haccepted).append accepted_haltLoop⟩
  · rintro ⟨n, hfind, hrefused⟩
    exact ⟨n, hfind, (h.accepted_lead.refused hrefused).append _⟩

end Linked

/-- **What loading says about a program that was read and linked.** It refuses the
program for a label that is not new. When all labels are new it accepts the
program exactly when every number that nothing has bounded has fifteen bits,
and else it names the first that has more. It has nothing else to say. -/
theorem load_outcome {modules : List Module} {p : Program} (hparsed : ∀ m ∈ modules, m.Parsed)
    (hlink : link modules {} = .ok p) (herr : hasErrors p.diagnostics = false) :
    (¬ Loading.Fresh .predefined (Loading.labelNames p.listed) →
      ∃ x, Machine.load p.listed = .error (.redefined x)) ∧
    (Loading.Fresh .predefined (Loading.labelNames p.listed) →
      (∀ n ∈ loadedNumbers modules {}, n < 2 ^ 15) → ∃ m, Machine.load p.listed = .ok m) ∧
    (Loading.Fresh .predefined (Loading.labelNames p.listed) →
      ∀ n, (loadedNumbers modules {}).find? (2 ^ 15 ≤ ·) = some n →
        Machine.load p.listed = .error (.tooWide ("@" ++ toString n))) := by
  have h := linked hlink herr
  have hnamed := h.label_empty_notMem (by decide)
  refine ⟨Loading.load_of_not_fresh, fun hfresh hsmall => ?_, fun hfresh n hn => ?_⟩
  · obtain ⟨v, hload⟩ := Loading.load_map_text hnamed hfresh
    rcases h.outcome_lines hparsed with ⟨-, haccepted⟩ | ⟨k, hfind, -⟩
    · obtain ⟨r, hr⟩ := haccepted v
      rw [hr] at hload
      exact ⟨_, hload⟩
    · have hwide := List.find?_some hfind
      have hlt := hsmall k (List.mem_of_find?_eq_some hfind)
      exact absurd (of_decide_eq_true hwide) (by omega)
  · obtain ⟨v, hload⟩ := Loading.load_map_text hnamed hfresh
    rcases h.outcome_lines hparsed with ⟨hsmall, -⟩ | ⟨k, hfind, hrefused⟩
    · have hwide := List.find?_some hn
      have hlt := hsmall n (List.mem_of_find?_eq_some hn)
      exact absurd (of_decide_eq_true hwide) (by omega)
    · obtain rfl : k = n := Option.some.inj (hfind.symm.trans hn)
      rw [hrefused v] at hload
      exact hload

end Program

namespace Sample

/-- A module with the greatest index and the greatest count that can be loaded. -/
def edge : Module where
  name := some "M"
  commands := [⟨.push "local" (.int 32767), 1, some "M"⟩,
    ⟨.call (.text "f") (.int 32767), 2, some "M"⟩,
    ⟨.function (.text "f") (.int 0), 3, some "M"⟩, ⟨.ret, 4, some "M"⟩]

/-- A module with an index that is one too great. -/
def wide : Module where
  name := some "M"
  commands := [⟨.push "constant" (.int 7), 1, some "M"⟩, ⟨.pop "local" (.int 32768), 2, some "M"⟩]

theorem parsed_edge : edge.Parsed :=
  ⟨"push local 32767\ncall f 32767\nfunction f 0\nreturn", by decide +kernel⟩

theorem parsed_wide : wide.Parsed := ⟨"push constant 7\npop local 32768", by decide +kernel⟩

end Sample

/-- Numbers of fifteen bits are loaded. -/
theorem Program.load_outcome_sample : Sample.edge.Parsed ∧ ∃ p, link [Sample.edge] {} = .ok p ∧
    hasErrors p.diagnostics = false ∧ loadedNumbers [Sample.edge] {} = [32767, 32767] ∧
    ∃ m, Machine.load p.listed = .ok m := by
  obtain ⟨p, hp⟩ : ∃ p, p = (link [Sample.edge] {}).toOption.getD (failed [] false []) := ⟨_, rfl⟩
  have hlink : link [Sample.edge] {} = .ok p := by rw [hp]; decide +kernel
  have herr : hasErrors p.diagnostics = false := by rw [hp]; decide +kernel
  have hfresh : Loading.Fresh .predefined (Loading.labelNames p.listed) := by
    rw [hp]
    exact ⟨by decide +kernel, by decide +kernel⟩
  have hnumbers : loadedNumbers [Sample.edge] {} = [32767, 32767] := by decide +kernel
  have hparsed : ∀ m ∈ [Sample.edge], m.Parsed := by
    intro m hm
    rw [List.mem_singleton.mp hm]
    exact Sample.parsed_edge
  refine ⟨Sample.parsed_edge, p, hlink, herr, hnumbers, ?_⟩
  exact (load_outcome hparsed hlink herr).2.1 hfresh (by rw [hnumbers]; decide)

/-- **A program that is accepted need not load**: nothing bounds the index into an
indirect segment. -/
theorem Program.load_wide_index : Sample.wide.Parsed ∧ ∃ p, link [Sample.wide] {} = .ok p ∧
    hasErrors p.diagnostics = false ∧
    Machine.load p.listed = .error (.tooWide "@32768") := by
  refine ⟨Sample.parsed_wide,
    (link [Sample.wide] {}).toOption.getD (failed [] false []), ?_, ?_, ?_⟩
  · decide +kernel
  · decide +kernel
  · have hload : (match Machine.load
        ((link [Sample.wide] {}).toOption.getD (failed [] false [])).listed with
      | .error e => e == .tooWide "@32768"
      | .ok _ => false) = true := by decide +kernel
    split at hload
    next e he => rw [he, eq_of_beq hload]
    next => cases hload

end HackStack
