import HackStack.Proofs.Layout
import HackStack.Proofs.Names
import HackStack.Proofs.Splitting

/-!
# Commands that were read from source

Reading lets only sound commands through. Their names are symbols without
blanks, because they are words of a line; their counts have at most as many
digits as a numeral may have; and no constant is popped. Checking such a
command again gives the same command (`Command.check_draft`).
-/

namespace HackStack

/-! ## Numerals -/

namespace Text

theorem decimalValue?_lt {c : Char} {n : Nat} (h : decimalValue? c = some n) : n < 10 := by
  obtain ⟨z, hz, rfl⟩ := Option.map_eq_some_iff.mp h
  have := List.find?_some hz
  simp only [Bool.and_eq_true, decide_eq_true_eq] at this
  omega

/-- A numeral is below the power of ten of its length. -/
theorem decimalOf_lt (cs : List Char) : decimalOf cs < 10 ^ cs.length := by
  have hdigit (c : Char) : (decimalValue? c).getD 0 < 10 := by
    cases h : decimalValue? c with
    | none => decide
    | some n => exact decimalValue?_lt h
  have hfold (a : Nat) : cs.foldl (fun n c => 10 * n + (decimalValue? c).getD 0) a
      < (a + 1) * 10 ^ cs.length := by
    induction cs generalizing a with
    | nil => simp
    | cons c cs ih =>
      rw [List.foldl_cons, List.length_cons, pow_succ']
      have hc := hdigit c
      calc _ < (10 * a + (decimalValue? c).getD 0 + 1) * 10 ^ cs.length := ih _
        _ ≤ (10 * (a + 1)) * 10 ^ cs.length := Nat.mul_le_mul_right _ (by omega)
        _ = (a + 1) * (10 * 10 ^ cs.length) := by ring
  have := hfold 0
  rwa [Nat.zero_add, Nat.one_mul] at this

theorem readNumeral_lt {cs : List Char} {n : Nat} (h : readNumeral cs = .ok n) :
    n < 10 ^ maxDigits := by
  unfold readNumeral at h
  dsimp only at h
  split at h
  next => cases h
  next hlen =>
    split at h
    next => cases h
    next =>
      obtain rfl := Except.ok.inj h
      exact (decimalOf_lt _).trans_le (Nat.pow_le_pow_right (by decide) (by omega))

end Text

/-! ## Commands -/

/-- What reading makes sure of. -/
def Command.FromSource : Command → Prop
  | .label name | .goto name | .ifGoto name => SourceSymbol name
  | .function name n | .call name n => SourceSymbol name ∧ n < 10 ^ Text.maxDigits
  | .push _ n => n < 10 ^ Text.maxDigits
  | .pop segment n => segment ≠ .constant ∧ n < 10 ^ Text.maxDigits
  | .arithmetic _ | .ret => True

theorem readCount_lt {role : Role} {token : String} {n : Nat} (h : readCount role token = .ok n) :
    n < 10 ^ Text.maxDigits := by
  unfold readCount at h
  split at h
  next => cases h
  next =>
    split at h
    next => cases h
    next k hk =>
      split at h
      next => cases h
      next =>
        obtain rfl := Except.ok.inj h
        exact Text.readNumeral_lt hk

theorem sourceSymbol_of_readSymbol {role : Role} {token name : String}
    (htoken : ∀ c ∈ token.toList, Text.isBlank c = false) (h : readSymbol role token = .ok name) :
    SourceSymbol name := by
  unfold readSymbol at h
  split at h
  next hsym =>
    obtain rfl := Except.ok.inj h
    exact ⟨hsym, htoken⟩
  next => cases h

/-- The two outcomes of a step that may fail. -/
theorem bind_eq_ok {ε α β : Type} {x : Except ε α} {f : α → Except ε β} {b : β}
    (h : (x >>= f) = .ok b) : ∃ a, x = .ok a ∧ f a = .ok b := by
  cases x with
  | error e => cases h
  | ok a => exact ⟨a, rfl, h⟩

theorem bind_eq_error {ε α β : Type} {x : Except ε α} {f : α → Except ε β} {e : ε}
    (h : (x >>= f) = .error e) : x = .error e ∨ ∃ a, x = .ok a ∧ f a = .error e := by
  cases x with
  | error e' => exact .inl (congrArg _ (Except.error.inj h))
  | ok a => exact .inr ⟨a, rfl, h⟩

theorem fromSource_of_read {op : Operation} {args : List String} {c : Command}
    (hargs : ∀ a ∈ args, ∀ ch ∈ a.toList, Text.isBlank ch = false)
    (h : op.read args = .ok c) : c.FromSource := by
  unfold Operation.read at h
  split at h
  · obtain rfl := Except.ok.inj h
    trivial
  · obtain rfl := Except.ok.inj h
    trivial
  · obtain ⟨segment, -, h⟩ := bind_eq_ok h
    obtain ⟨n, hn, h⟩ := bind_eq_ok h
    obtain rfl := Except.ok.inj h
    exact readCount_lt hn
  · obtain ⟨segment, -, h⟩ := bind_eq_ok h
    obtain ⟨n, hn, h⟩ := bind_eq_ok h
    by_cases hc : segment = .constant
    · rw [if_pos hc] at h
      cases h
    · rw [if_neg hc] at h
      obtain rfl := Except.ok.inj h
      exact ⟨hc, readCount_lt hn⟩
  · obtain ⟨name, hname, h⟩ := bind_eq_ok h
    obtain rfl := Except.ok.inj h
    exact sourceSymbol_of_readSymbol (hargs _ (by simp)) hname
  · obtain ⟨name, hname, h⟩ := bind_eq_ok h
    obtain rfl := Except.ok.inj h
    exact sourceSymbol_of_readSymbol (hargs _ (by simp)) hname
  · obtain ⟨name, hname, h⟩ := bind_eq_ok h
    obtain rfl := Except.ok.inj h
    exact sourceSymbol_of_readSymbol (hargs _ (by simp)) hname
  · obtain ⟨name, hname, h⟩ := bind_eq_ok h
    obtain ⟨n, hn, h⟩ := bind_eq_ok h
    obtain rfl := Except.ok.inj h
    exact ⟨sourceSymbol_of_readSymbol (hargs _ (by simp)) hname, readCount_lt hn⟩
  · obtain ⟨name, hname, h⟩ := bind_eq_ok h
    obtain ⟨n, hn, h⟩ := bind_eq_ok h
    obtain rfl := Except.ok.inj h
    exact ⟨sourceSymbol_of_readSymbol (hargs _ (by simp)) hname, readCount_lt hn⟩
  · cases h

theorem Command.fromSource_of_read {line : List Char} {c : Command}
    (h : Command.read line = .ok c) : c.FromSource := by
  have hwords : ∀ a ∈ (splitOperation line).2, ∀ ch ∈ a.toList, Text.isBlank ch = false := by
    intro a ha
    unfold splitOperation at ha
    split at ha
    next => cases ha
    next op args hmap =>
      have hmem : a ∈ (Text.words line).map String.ofList := by
        rw [hmap]
        exact List.mem_cons_of_mem op ha
      obtain ⟨w, hw, rfl⟩ := List.mem_map.mp hmem
      rw [String.toList_ofList]
      exact Text.isBlank_of_mem_words hw
  unfold Command.read at h
  dsimp only at h
  split at h
  next => cases h
  next => exact HackStack.fromSource_of_read hwords h

/-- Every item of some lines is the item of one of them, with its number. -/
theorem exists_readLine_of_mem {name file : Option String} {number : Nat}
    {lines : List (List Char)} {items : List Item} {item : Item}
    (h : readLines name file number lines = .ok items) (hmem : item ∈ items) :
    ∃ line ∈ lines, ∃ k, number ≤ k ∧ readLine name file k line = .ok (some item) := by
  induction lines generalizing number items with
  | nil =>
    obtain rfl := Except.ok.inj h
    cases hmem
  | cons line rest ih =>
    obtain ⟨first, hfirst, h⟩ := bind_eq_ok h
    obtain ⟨tail, htail, h⟩ := bind_eq_ok h
    obtain rfl := Except.ok.inj h
    rcases List.mem_append.mp hmem with hmem | hmem
    · rw [Option.mem_toList] at hmem
      exact ⟨line, List.mem_cons_self, number, le_refl _, hmem ▸ hfirst⟩
    · obtain ⟨l, hl, k, hk, hitem⟩ := ih htail hmem
      exact ⟨l, List.mem_cons_of_mem line hl, k, by omega, hitem⟩

/-- **A command on a line** is sound, and carries the number of the line and the
name of the module. -/
theorem command_of_readLine {name file : Option String} {number : Nat} {line : List Char}
    {p : Placed Command} (h : readLine name file number line = .ok (some (.command p))) :
    p.item.FromSource ∧ p.line = number ∧ p.moduleName = name := by
  unfold readLine at h
  dsimp only at h
  split at h
  next => cases h
  next =>
    split at h
    next c hc =>
      obtain rfl := Item.command.inj (Option.some.inj (Except.ok.inj h))
      exact ⟨Command.fromSource_of_read hc, rfl, rfl⟩
    next => cases h
    next => cases h

/-- Every command and every diagnostic of a text comes from a line of it. -/
theorem Reading.exists_readLine_of_ofText {text : String} {name file : Option String} {r : Reading}
    (h : Reading.ofText text name file = .ok r) :
    (∀ p ∈ r.commands, ∃ line k, 0 < k ∧
      readLine name (file.or name) k line = .ok (some (.command p))) ∧
    ∀ d ∈ r.diagnostics, ∃ line k, 0 < k ∧
      readLine name (file.or name) k line = .ok (some (.diagnostic d)) := by
  unfold Reading.ofText at h
  cases hlines : readLines name (file.or name) 1 (Text.lines text.toList) with
  | error e => rw [hlines] at h; cases h
  | ok items =>
    rw [hlines] at h
    obtain rfl := Except.ok.inj h
    have hitem {item : Item} (hmem : item ∈ items) : ∃ line k, 0 < k ∧
        readLine name (file.or name) k line = .ok (some item) := by
      obtain ⟨line, -, k, hk, hread⟩ := exists_readLine_of_mem hlines hmem
      exact ⟨line, k, hk, hread⟩
    constructor
    · intro p hp
      obtain ⟨item, hmem, hp⟩ := List.mem_filterMap.mp hp
      cases item with
      | diagnostic _ => cases hp
      | command q => exact Option.some.inj hp ▸ hitem hmem
    · intro d hd
      obtain ⟨item, hmem, hd⟩ := List.mem_filterMap.mp hd
      cases item with
      | command _ => cases hd
      | diagnostic e => exact Option.some.inj hd ▸ hitem hmem

/-- **Every command that was read** is sound, has a line and knows its module. -/
theorem Reading.read_of_ofText {text : String} {name file : Option String} {r : Reading}
    (h : Reading.ofText text name file = .ok r) :
    ∀ p ∈ r.commands, p.item.FromSource ∧ 0 < p.line ∧ p.moduleName = name := by
  intro p hp
  obtain ⟨line, k, hk, hread⟩ := (exists_readLine_of_ofText h).1 p hp
  obtain ⟨hsource, hline, hname⟩ := command_of_readLine hread
  exact ⟨hsource, by omega, hname⟩

theorem Module.read_of_ofText {text : String} {name path : Option String} {m : Module}
    {diagnostics : List Diagnostic} (h : Module.ofText text name path = .ok (m, diagnostics)) :
    ∀ d ∈ m.commands, (∃ c : Command, d.item = c.draft ∧ c.FromSource) ∧
      0 < d.line ∧ d.moduleName = name := by
  obtain ⟨reading, hreading, h⟩ := bind_eq_ok h
  obtain ⟨rfl, -⟩ := Prod.mk.inj (Except.ok.inj h)
  intro d hd
  obtain ⟨p, hp, rfl⟩ := List.mem_map.mp hd
  obtain ⟨hsource, hline, hname⟩ := Reading.read_of_ofText hreading p hp
  exact ⟨⟨p.item, rfl, hsource⟩, hline, hname⟩

theorem Module.fromSource_of_ofText {text : String} {name path : Option String} {m : Module}
    {diagnostics : List Diagnostic} (h : Module.ofText text name path = .ok (m, diagnostics)) :
    ∀ d ∈ m.commands, ∃ c : Command, d.item = c.draft ∧ c.FromSource :=
  fun d hd => (read_of_ofText h d hd).1

/-- Only an integer is a count. -/
theorem Field.count_eq_ok {role : Role} {f : Field} {n : Nat} (h : f.count role = .ok n) :
    f = .int n := by
  cases f with
  | int z =>
    change (if z < 0 then Except.error (Fault.negative role z) else Except.ok z.toNat) = _ at h
    split at h
    next => cases h
    next hz => rw [← Except.ok.inj h, Int.toNat_of_nonneg (by omega)]
  | _ => cases h

/-- Only a text that is a symbol is a name. -/
theorem Field.symbol_eq_ok {role : Role} {f : Field} {x : String} (h : f.symbol role = .ok x) :
    f = .text x ∧ isSymbol x.toList = true := by
  cases f with
  | text s =>
    change (if isSymbol s.toList = true then Except.ok s
      else Except.error (Fault.badName role (.text s))) = _ at h
    split at h
    next hs =>
      obtain rfl := Except.ok.inj h
      exact ⟨rfl, hs⟩
    next => cases h
  | _ => cases h

/-- A count that is checked again is the same count. -/
theorem Field.count_int {role : Role} {n k : Nat}
    (h : Field.count role (.int n) = .ok k) : k = n :=
  (Int.ofNat_inj.mp (Field.int.inj (count_eq_ok h))).symm

theorem Field.symbol_text {role : Role} {x y : String}
    (h : Field.symbol role (.text x) = .ok y) : y = x :=
  (Field.text.inj (symbol_eq_ok h).1).symm

theorem Operator.name_of_ofName? {x : String} {op : Operator} (h : ofName? x = some op) :
    x = op.name := by
  have hfound := List.find?_some h
  exact (eq_of_beq hfound).symm

/-- **What a sound draft looks like.** It is the draft of its command, but for the
token that names the segment of a push or a pop. -/
theorem Draft.check_cases {d : Draft} {c : Command} (h : d.check = .ok c) :
    (∃ token segment n, d = .push token (.int (n : Nat)) ∧ c = .push segment n) ∨
    (∃ token segment n, d = .pop token (.int (n : Nat)) ∧ c = .pop segment n) ∨
    d = c.draft := by
  cases d with
  | push token index =>
    obtain ⟨n, hn, h⟩ := bind_eq_ok h
    obtain ⟨segment, -, h⟩ := bind_eq_ok h
    rw [Field.count_eq_ok hn]
    exact .inl ⟨token, segment, n, rfl, (Except.ok.inj h).symm⟩
  | pop token index =>
    obtain ⟨segment, -, h⟩ := bind_eq_ok h
    by_cases hc : segment = .constant
    · rw [if_pos hc] at h
      cases h
    · rw [if_neg hc] at h
      obtain ⟨n, hn, h⟩ := bind_eq_ok h
      rw [Field.count_eq_ok hn]
      exact .inr (.inl ⟨token, segment, n, rfl, (Except.ok.inj h).symm⟩)
  | arithmetic word =>
    rw [check] at h
    split at h
    next op hop =>
      rw [← Except.ok.inj h, Operator.name_of_ofName? hop]
      exact .inr (.inr rfl)
    next => cases h
  | label name | goto name | ifGoto name =>
    obtain ⟨x, hx, h⟩ := bind_eq_ok h
    rw [← Except.ok.inj h, (Field.symbol_eq_ok hx).1]
    exact .inr (.inr rfl)
  | function name count | call name count =>
    obtain ⟨x, hx, h⟩ := bind_eq_ok h
    obtain ⟨n, hn, h⟩ := bind_eq_ok h
    rw [← Except.ok.inj h, (Field.symbol_eq_ok hx).1, Field.count_eq_ok hn]
    exact .inr (.inr rfl)
  | ret =>
    rw [← Except.ok.inj h]
    exact .inr (.inr rfl)
  | other value => cases h

theorem Segment.read_eq_ok_iff {token : String} {segment : Segment} :
    Segment.read token = .ok segment ↔ Text.strip token = segment.name := by
  unfold Segment.read Segment.ofToken?
  constructor
  · intro h
    split at h
    next found hfound =>
      obtain rfl := Except.ok.inj h
      have hname := List.find?_some hfound
      exact (eq_of_beq hname).symm
    next => cases h
  · intro h
    rw [h, Segment.ofName?_name]

theorem Segment.read_name {s t : Segment} (h : Segment.read s.name = .ok t) : t = s := by
  rw [Segment.read, Segment.ofToken?_name] at h
  exact (Except.ok.inj h).symm

/-- **A command that is checked again is the same command.** -/
theorem Command.check_draft {c c' : Command} (h : c.draft.check = .ok c') : c' = c := by
  cases c with
  | arithmetic op =>
    rw [draft, Draft.check, Operator.ofName?_name] at h
    exact (Except.ok.inj h).symm
  | push segment index =>
    obtain ⟨n, hn, h⟩ := bind_eq_ok h
    obtain ⟨s, hs, h⟩ := bind_eq_ok h
    rw [← Except.ok.inj h, Field.count_int hn, Segment.read_name hs]
  | pop segment index =>
    obtain ⟨s, hs, h⟩ := bind_eq_ok h
    by_cases hc : s = .constant
    · rw [if_pos hc] at h
      cases h
    · rw [if_neg hc] at h
      obtain ⟨n, hn, h⟩ := bind_eq_ok h
      rw [← Except.ok.inj h, Field.count_int hn, Segment.read_name hs]
  | label name =>
    obtain ⟨x, hx, h⟩ := bind_eq_ok h
    rw [← Except.ok.inj h, Field.symbol_text hx]
  | goto target =>
    obtain ⟨x, hx, h⟩ := bind_eq_ok h
    rw [← Except.ok.inj h, Field.symbol_text hx]
  | ifGoto target =>
    obtain ⟨x, hx, h⟩ := bind_eq_ok h
    rw [← Except.ok.inj h, Field.symbol_text hx]
  | function name locals =>
    obtain ⟨x, hx, h⟩ := bind_eq_ok h
    obtain ⟨n, hn, h⟩ := bind_eq_ok h
    rw [← Except.ok.inj h, Field.symbol_text hx, Field.count_int hn]
  | call name args =>
    obtain ⟨x, hx, h⟩ := bind_eq_ok h
    obtain ⟨n, hn, h⟩ := bind_eq_ok h
    rw [← Except.ok.inj h, Field.symbol_text hx, Field.count_int hn]
  | ret => exact (Except.ok.inj h).symm

/-! ## Modules -/

/-- A module that is read from some text without any diagnostic. -/
def Module.Parsed (m : Module) : Prop :=
  ∃ text, Module.ofText text m.name m.path = .ok (m, [])

/-- The commands of a linked program come from its modules. -/
theorem Program.Linked.exists_draft {modules : List Module} {o : LinkOptions} {p : Program}
    (h : Linked modules o p) {c : Command} (hc : c ∈ commands modules o) :
    ∃ m ∈ modules, ∃ d ∈ m.commands, d.item.check = .ok c := by
  have hmem := List.mem_map_of_mem (f := (Except.ok : Command → Except Fault Command)) hc
  rw [← h.checks] at hmem
  obtain ⟨d, hd, hcheck⟩ := List.mem_map.mp hmem
  obtain ⟨m, hm, hd⟩ := List.mem_flatMap.mp hd
  have hmodule : m ∈ modules := by
    rcases List.mem_append.mp hm with hm | hm
    · exact List.mem_of_mem_filter hm
    · exact List.mem_of_mem_filter hm
  exact ⟨m, hmodule, d, hd, hcheck⟩

/-- **The commands of a program that was read and linked are sound.** -/
theorem Program.Linked.fromSource {modules : List Module} {o : LinkOptions} {p : Program}
    (h : Linked modules o p) (hparsed : ∀ m ∈ modules, m.Parsed) :
    ∀ c ∈ commands modules o, c.FromSource := by
  intro c hc
  obtain ⟨m, hmodule, d, hd, hcheck⟩ := h.exists_draft hc
  obtain ⟨text, htext⟩ := hparsed m hmodule
  obtain ⟨c', hdraft, hsource⟩ := Module.fromSource_of_ofText htext d hd
  rw [hdraft] at hcheck
  rw [Command.check_draft hcheck]
  exact hsource

end HackStack
