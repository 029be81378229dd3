import HackStack.Machine.Loading
import Mathlib.Tactic

/-!
# Loading in two passes

What a loaded program is, said without the passes that load it. The first
pass succeeds exactly when every label is new (`labels_eq_ok`), and ends at
the first that is not (`labels_of_clashes`). When it succeeds, the table has
each label with the number of instructions before it. The second pass only
adds to the table: the symbols that had no value become variables, one cell
after the other, and **every instruction is decoded with the table as it is
at the end** (`decodeAll_eq_ok`).
-/

namespace HackStack

namespace Symbols

variable {t : Symbols} {name : String}

theorem contains_eq_false : t.contains name = false ↔ t.get? name = none := by
  simp [contains]

theorem get?_eq_none : t.get? name = none ↔ name ∉ t.entries.map Prod.fst := by
  rw [get?, List.lookup_eq_none_iff]
  simp only [List.mem_map, not_exists, not_and]
  constructor
  · intro h e he hname
    exact absurd (h e he) (by simp [hname])
  · intro h e he
    exact bne_iff_ne.mpr fun hname => h e he hname.symm

/-- A value found in front of a table is one of the values in front. -/
theorem get?_append (es : List (String × Nat)) (t : Symbols) (name : String) :
    get? ⟨es ++ t.entries⟩ name = (get? ⟨es⟩ name).or (t.get? name) := by
  show (es ++ t.entries).lookup name = _
  rw [List.lookup_append]
  rfl

/-- With distinct names, a table gives an entry its value. -/
theorem get?_of_mem {es : List (String × Nat)} {x : Nat} (hnd : (es.map Prod.fst).Nodup)
    (h : (name, x) ∈ es) : get? ⟨es⟩ name = some x := by
  induction es with
  | nil => cases h
  | cons e es ih =>
    rw [List.map_cons, List.nodup_cons] at hnd
    show List.lookup name (e :: es) = some x
    rcases List.mem_cons.mp h with rfl | h
    · simp
    · have hne : name ≠ e.1 := by
        rintro rfl
        exact hnd.1 (List.mem_map.mpr ⟨_, h, rfl⟩)
      rw [List.lookup_cons, beq_false_of_ne hne]
      exact ih hnd.2 h

theorem mem_of_get? {es : List (String × Nat)} {x : Nat} (h : get? ⟨es⟩ name = some x) :
    (name, x) ∈ es := by
  obtain ⟨l₁, l₂, heq, -⟩ := List.lookup_eq_some_iff.mp h
  rw [show es = _ from heq]
  simp

end Symbols

namespace Loading

/-! ## The first pass -/

/-- The labels of some lines in order, each with the number of instructions
before it. -/
def labelEntries (address : Nat) : List (List Char) → List (String × Nat)
  | [] => []
  | line :: rest =>
    match labelName? line with
    | some name => (String.ofList name, address) :: labelEntries address rest
    | none => labelEntries (address + 1) rest

/-- The lines that are no labels. -/
def codeLines (lines : List (List Char)) : List (List Char) :=
  lines.filter fun line => (labelName? line).isNone

section Cons

variable {line : List Char} {name : List Char} (rest : List (List Char))

theorem labelEntries_cons_label (h : labelName? line = some name) (a : Nat) :
    labelEntries a (line :: rest) = (String.ofList name, a) :: labelEntries a rest := by
  rw [labelEntries, h]

theorem labelEntries_cons_code (h : labelName? line = none) (a : Nat) :
    labelEntries a (line :: rest) = labelEntries (a + 1) rest := by
  rw [labelEntries, h]

theorem codeLines_cons_label (h : labelName? line = some name) :
    codeLines (line :: rest) = codeLines rest := List.filter_cons_of_neg (by simp [h])

theorem codeLines_cons_code (h : labelName? line = none) :
    codeLines (line :: rest) = line :: codeLines rest := List.filter_cons_of_pos (by simp [h])

end Cons

theorem source_append (xs ys : List String) : source (xs ++ ys) = source xs ++ source ys := by
  rw [source, List.map_append, List.filter_append]
  rfl

theorem codeLines_append (xs ys : List (List Char)) :
    codeLines (xs ++ ys) = codeLines xs ++ codeLines ys := List.filter_append ..

theorem labelEntries_append (a : Nat) (xs ys : List (List Char)) :
    labelEntries a (xs ++ ys)
      = labelEntries a xs ++ labelEntries (a + (codeLines xs).length) ys := by
  induction xs generalizing a with
  | nil => rfl
  | cons line rest ih =>
    rw [List.cons_append]
    cases hname : labelName? line with
    | some name =>
      rw [labelEntries_cons_label _ hname, labelEntries_cons_label _ hname,
        codeLines_cons_label _ hname, ih, List.cons_append]
    | none =>
      rw [labelEntries_cons_code _ hname, labelEntries_cons_code _ hname,
        codeLines_cons_code _ hname, ih, List.length_cons, Nat.add_right_comm, Nat.add_assoc]

/-- Labels that are defined once and are new to a table. -/
def Fresh (symbols : Symbols) (names : List String) : Prop :=
  names.Nodup ∧ ∀ name ∈ names, symbols.contains name = false

theorem fresh_cons {symbols : Symbols} {name : String} {names : List String} {x : Nat} :
    Fresh symbols (name :: names)
      ↔ symbols.contains name = false ∧ Fresh (symbols.insert name x) names := by
  have hins (other : String) (hne : other ≠ name) :
      (symbols.insert name x).contains other = symbols.contains other := by
    rw [Symbols.contains, Symbols.contains, Symbols.get?_insert_of_ne symbols x hne]
  constructor
  · rintro ⟨hnd, hnew⟩
    rw [List.nodup_cons] at hnd
    refine ⟨hnew name (by simp), hnd.2, fun other ho => ?_⟩
    have hne : other ≠ name := fun h => hnd.1 (h ▸ ho)
    rw [hins other hne]
    exact hnew other (List.mem_cons_of_mem name ho)
  · rintro ⟨hname, hnd, hnew⟩
    have hnot : name ∉ names := by
      intro hmem
      have := hnew name hmem
      simp [Symbols.contains] at this
    refine ⟨List.nodup_cons.mpr ⟨hnot, hnd⟩, fun other ho => ?_⟩
    rcases List.mem_cons.mp ho with rfl | ho
    · exact hname
    · have hne : other ≠ name := fun h => hnot (h ▸ ho)
      rw [← hins other hne]
      exact hnew other ho

/-- The outcome of the first pass on labels that are all new. -/
theorem labels_of_fresh {symbols : Symbols} {address : Nat} {lines : List (List Char)}
    (h : Fresh symbols ((labelEntries address lines).map Prod.fst)) :
    labels symbols address lines
      = .ok (⟨(labelEntries address lines).reverse ++ symbols.entries⟩, codeLines lines) := by
  induction lines generalizing symbols address with
  | nil => rfl
  | cons line rest ih =>
    unfold labels
    cases hl : labelName? line with
    | some name =>
      rw [labelEntries_cons_label rest hl, List.map_cons, fresh_cons (x := address)] at h
      dsimp only
      rw [if_neg (by rw [h.1]; decide), ih h.2, labelEntries_cons_label rest hl,
        codeLines_cons_label rest hl, List.reverse_cons, List.append_assoc]
      rfl
    | none =>
      rw [labelEntries_cons_code rest hl] at h
      dsimp only
      rw [ih h, labelEntries_cons_code rest hl, codeLines_cons_code rest hl]
      rfl

/-- **The first name that is not new**: the table has it, or it is one of those
before it. -/
def Clashes (symbols : Symbols) (names : List String) (x : String) : Prop :=
  ∃ pre post, names = pre ++ x :: post ∧ Fresh symbols pre ∧
    (symbols.contains x = true ∨ x ∈ pre)

theorem clashes_cons {symbols : Symbols} {name x : String} {names : List String} {n : Nat} :
    Clashes symbols (name :: names) x ↔ (symbols.contains name = true ∧ name = x) ∨
      (symbols.contains name = false ∧ Clashes (symbols.insert name n) names x) := by
  have hins (other : String) : (symbols.insert name n).contains other = true
      ↔ other = name ∨ symbols.contains other = true := by
    by_cases hne : other = name
    · simp [hne, Symbols.contains]
    · rw [Symbols.contains, Symbols.get?_insert_of_ne symbols n hne, ← Symbols.contains]
      simp [hne]
  constructor
  · rintro ⟨pre, post, heq, hfresh, hx⟩
    cases pre with
    | nil =>
      obtain ⟨rfl, -⟩ := List.cons.inj heq
      exact .inl ⟨hx.resolve_right List.not_mem_nil, rfl⟩
    | cons first pre =>
      obtain ⟨rfl, rfl⟩ := List.cons.inj heq
      obtain ⟨hnew, hpre⟩ := (fresh_cons (x := n)).mp hfresh
      refine .inr ⟨hnew, pre, post, rfl, hpre, ?_⟩
      rw [hins]
      rcases hx with hx | hx
      · exact .inl (.inr hx)
      · exact (List.mem_cons.mp hx).imp_left .inl
  · rintro (⟨hold, rfl⟩ | ⟨hnew, pre, post, rfl, hfresh, hx⟩)
    · exact ⟨[], names, rfl, ⟨List.nodup_nil, fun _ h => by cases h⟩, .inl hold⟩
    · refine ⟨name :: pre, post, rfl, fresh_cons.mpr ⟨hnew, hfresh⟩, ?_⟩
      rw [hins] at hx
      rw [List.mem_cons]
      rcases hx with (hx | hx) | hx
      · exact .inr (.inl hx)
      · exact .inl hx
      · exact .inr (.inr hx)

/-- Names that are not all new have a first one that is not. -/
theorem exists_clashes {symbols : Symbols} {names : List String} (h : ¬ Fresh symbols names) :
    ∃ x, Clashes symbols names x := by
  induction names generalizing symbols with
  | nil => exact absurd ⟨List.nodup_nil, fun _ hn => by cases hn⟩ h
  | cons name names ih =>
    cases hname : symbols.contains name with
    | true => exact ⟨name, (clashes_cons (n := 0)).mpr (.inl ⟨hname, rfl⟩)⟩
    | false =>
      obtain ⟨x, hx⟩ := ih fun hf => h ((fresh_cons (x := 0)).mpr ⟨hname, hf⟩)
      exact ⟨x, clashes_cons.mpr (.inr ⟨hname, hx⟩)⟩

/-- **The first label that is not new ends the first pass.** -/
theorem labels_of_clashes {symbols : Symbols} {address : Nat} {lines : List (List Char)}
    {x : String} (h : Clashes symbols ((labelEntries address lines).map Prod.fst) x) :
    labels symbols address lines = .error (.redefined x) := by
  induction lines generalizing symbols address with
  | nil =>
    obtain ⟨pre, post, heq, -⟩ := h
    exact absurd heq.symm (List.append_ne_nil_of_right_ne_nil _ (List.cons_ne_nil _ _))
  | cons line rest ih =>
    unfold labels
    cases hl : labelName? line with
    | some name =>
      rw [labelEntries_cons_label rest hl, List.map_cons, clashes_cons (n := address)] at h
      dsimp only at h ⊢
      obtain ⟨hold, rfl⟩ | ⟨hnew, h⟩ := h
      · rw [if_pos hold]
      · rw [if_neg (by rw [hnew]; decide), ih h]
    | none =>
      rw [labelEntries_cons_code rest hl] at h
      dsimp only
      rw [ih h]
      rfl

/-- The names of the labels of a text. -/
def labelNames (lines : List String) : List String :=
  (labelEntries 0 (source lines)).map Prod.fst

/-- **The first pass succeeds exactly when every label is new.** -/
theorem labels_eq_ok {symbols t : Symbols} {address : Nat} {lines code : List (List Char)}
    (h : labels symbols address lines = .ok (t, code)) :
    Fresh symbols ((labelEntries address lines).map Prod.fst) ∧
      t.entries = (labelEntries address lines).reverse ++ symbols.entries ∧
      code = codeLines lines := by
  by_cases hf : Fresh symbols ((labelEntries address lines).map Prod.fst)
  · rw [labels_of_fresh hf] at h
    obtain ⟨rfl, rfl⟩ := Prod.mk.inj (Except.ok.inj h)
    exact ⟨hf, rfl, rfl⟩
  · obtain ⟨x, hx⟩ := exists_clashes hf
    rw [labels_of_clashes hx] at h
    cases h

/-! ## The second pass -/

/-- The instruction of a line, given the final table. -/
def instruction? (t : Symbols) (line : List Char) : Option Instruction :=
  match line with
  | '@' :: operand =>
    if isNumber operand then
      ((Text.readNumeral operand).toOption.filter (· < 2 ^ 15)).map .address
    else (t.get? (String.ofList operand)).map .address
  | _ =>
    let parts := splitCompute line
    match Dest.ofText? (String.ofList parts.dest), Comp.ofText? (String.ofList parts.comp),
      Jump.ofText? (String.ofList parts.jump) with
    | some dest, some comp, some jump => some (.compute dest comp jump)
    | _, _, _ => none

theorem instruction?_address (t : Symbols) (operand : List Char) :
    instruction? t ('@' :: operand)
      = if isNumber operand then
          ((Text.readNumeral operand).toOption.filter (· < 2 ^ 15)).map .address
        else (t.get? (String.ofList operand)).map .address := rfl

/-- One table of variables after another: nothing has changed, and new symbols
have the next cells in order. -/
def Variables.Extends (v v' : Variables) : Prop :=
  ∃ names : List String, Fresh v.symbols names ∧
    v'.symbols.entries = (names.zipIdx v.next).reverse ++ v.symbols.entries ∧
    v'.next = v.next + names.length

namespace Variables.Extends

theorem refl (v : Variables) : v.Extends v :=
  ⟨[], ⟨List.nodup_nil, fun _ h => by cases h⟩, rfl, rfl⟩

variable {v v₁ v' : Variables}

/-- A symbol keeps its value. -/
theorem get? (h : v.Extends v') {name : String} {x : Nat} (hx : v.symbols.get? name = some x) :
    v'.symbols.get? name = some x := by
  obtain ⟨names, ⟨-, hnew⟩, hentries, -⟩ := h
  have hnot : name ∉ names := by
    intro hmem
    have := Symbols.contains_eq_false.mp (hnew name hmem)
    rw [hx] at this
    cases this
  have hnone : Symbols.get? ⟨(names.zipIdx v.next).reverse⟩ name = none := by
    rw [Symbols.get?_eq_none, List.map_reverse, List.mem_reverse, List.zipIdx_map_fst]
    exact hnot
  have heq : v'.symbols = ⟨(names.zipIdx v.next).reverse ++ v.symbols.entries⟩ := by
    rw [← hentries]
  rw [heq, Symbols.get?_append, hnone, Option.none_or, hx]

theorem trans (h₁ : v.Extends v₁) (h₂ : v₁.Extends v') : v.Extends v' := by
  obtain ⟨names₁, ⟨hnd₁, hnew₁⟩, hentries₁, hnext₁⟩ := h₁
  obtain ⟨names₂, ⟨hnd₂, hnew₂⟩, hentries₂, hnext₂⟩ := h₂
  have hnew (name : String) (hn : name ∈ names₂) :
      name ∉ names₁ ∧ v.symbols.contains name = false := by
    have := Symbols.get?_eq_none.mp (Symbols.contains_eq_false.mp (hnew₂ name hn))
    rw [hentries₁, List.map_append, List.mem_append, List.map_reverse, List.mem_reverse,
      List.zipIdx_map_fst, not_or] at this
    exact ⟨this.1, Symbols.contains_eq_false.mpr (Symbols.get?_eq_none.mpr this.2)⟩
  refine ⟨names₁ ++ names₂, ⟨?_, ?_⟩, ?_, ?_⟩
  · refine List.nodup_append.mpr ⟨hnd₁, hnd₂, ?_⟩
    rintro a ha b hb rfl
    exact (hnew a hb).1 ha
  · intro name hn
    rcases List.mem_append.mp hn with hn | hn
    · exact hnew₁ name hn
    · exact (hnew name hn).2
  · rw [hentries₂, hentries₁, hnext₁, List.zipIdx_append, List.reverse_append, List.append_assoc]
  · rw [hnext₂, hnext₁, List.length_append, Nat.add_assoc]

end Variables.Extends

/-- Looking up a symbol gives the value that it has from then on. -/
theorem Variables.resolve_eq (v : Variables) (name : String) :
    v.Extends (v.resolve name).2 ∧
      (v.resolve name).2.symbols.get? name = some (v.resolve name).1 := by
  unfold resolve
  cases hget : v.symbols.get? name with
  | some x => exact ⟨.refl v, hget⟩
  | none =>
    refine ⟨⟨[name], ⟨List.nodup_singleton name, ?_⟩, rfl, rfl⟩, ?_⟩
    · intro other ho
      rw [List.mem_singleton.mp ho]
      exact Symbols.contains_eq_false.mpr hget
    · exact Symbols.get?_insert_self _ _ _

/-! ### A line -/

section Decode

variable {line operand : List Char} {dest : Dest} {comp : Comp} {jump : Jump} (v : Variables)

theorem decode_number {n : Nat} (hnum : isNumber operand = true)
    (hread : Text.readNumeral operand = .ok n) :
    decode v ('@' :: operand) = if n < 2 ^ 15 then .ok (.address n, v)
      else .error (.tooWide (String.ofList ('@' :: operand))) := by
  show (if isNumber operand = true then _ else _) = _
  rw [if_pos hnum, hread]
  rfl

theorem decode_number_error {e : Text.NumeralError} (hnum : isNumber operand = true)
    (hread : Text.readNumeral operand = .error e) :
    decode v ('@' :: operand) = .error (.numeral e) := by
  show (if isNumber operand = true then _ else _) = _
  rw [if_pos hnum, hread]

theorem decode_symbol (hnum : isNumber operand = false) :
    decode v ('@' :: operand) = .ok (.address (v.resolve (String.ofList operand)).1,
      (v.resolve (String.ofList operand)).2) := by
  show (if isNumber operand = true then _ else _) = _
  rw [if_neg (by rw [hnum]; decide)]
  rfl

variable (hat : line.head? ≠ some '@')

include hat

theorem decode_compute_ok
    (hdest : Dest.ofText? (String.ofList (splitCompute line).dest) = some dest)
    (hcomp : Comp.ofText? (String.ofList (splitCompute line).comp) = some comp)
    (hjump : Jump.ofText? (String.ofList (splitCompute line).jump) = some jump) :
    decode v line = .ok (.compute dest comp jump, v) := by
  unfold decode
  split
  next => exact absurd rfl hat
  next => simp only [hdest, hjump, Comp.read, hcomp]

theorem decode_compute_mnemonic
    (hdest : Dest.ofText? (String.ofList (splitCompute line).dest) = some dest)
    (hcomp : Comp.ofText? (String.ofList (splitCompute line).comp) = none)
    (hjump : Jump.ofText? (String.ofList (splitCompute line).jump) = some jump) :
    decode v line = .error (.mnemonic (.computation (String.ofList (splitCompute line).comp))) := by
  unfold decode
  split
  next => exact absurd rfl hat
  next => simp only [hdest, hjump, Comp.read, hcomp]

theorem decode_compute_invalid
    (hpart : Dest.ofText? (String.ofList (splitCompute line).dest) = none ∨
      Jump.ofText? (String.ofList (splitCompute line).jump) = none) :
    decode v line = .error (.invalid (String.ofList line)) := by
  unfold decode
  split
  next => exact absurd rfl hat
  next =>
    dsimp only
    split
    next hdest hjump =>
      rw [hdest, hjump] at hpart
      rcases hpart with hpart | hpart <;> cases hpart
    next => rfl

end Decode

/-- **What decoding a line does.** It leaves the table as it is, or it looks up
the operand of an address instruction. -/
theorem decode_cases {v v' : Variables} {line : List Char} {ins : Instruction}
    (h : decode v line = .ok (ins, v')) :
    (v' = v ∧ ∀ t, instruction? t line = some ins) ∨
    ∃ operand, line = '@' :: operand ∧ isNumber operand = false ∧
      ins = .address (v.resolve (String.ofList operand)).1 ∧
      v' = (v.resolve (String.ofList operand)).2 := by
  unfold decode at h
  split at h
  next operand =>
    by_cases hnum : isNumber operand = true
    · rw [if_pos hnum] at h
      split at h
      next => cases h
      next x hx =>
        split at h
        next hlt =>
          obtain ⟨rfl, rfl⟩ := Prod.mk.inj (Except.ok.inj h)
          refine .inl ⟨rfl, fun _ => ?_⟩
          rw [instruction?_address, if_pos hnum, hx, Except.toOption,
            Option.filter_some_pos (by simpa using hlt), Option.map_some]
        next => cases h
    · rw [if_neg hnum] at h
      change Except.ok (Instruction.address (v.resolve (String.ofList operand)).1,
        (v.resolve (String.ofList operand)).2) = _ at h
      obtain ⟨rfl, rfl⟩ := Prod.mk.inj (Except.ok.inj h)
      exact .inr ⟨operand, rfl, Bool.eq_false_iff.mpr hnum, rfl, rfl⟩
  next hat =>
    dsimp only at h
    split at h
    next dest jump hdest hjump =>
      cases hcomp : Comp.ofText? (String.ofList (splitCompute line).comp) with
      | none => rw [Comp.read, hcomp] at h; cases h
      | some comp =>
        rw [Comp.read, hcomp] at h
        obtain ⟨rfl, rfl⟩ := Prod.mk.inj (Except.ok.inj h)
        refine .inl ⟨rfl, fun t => ?_⟩
        unfold instruction?
        split
        next operand => exact absurd rfl (hat operand)
        next => simp only [hdest, hcomp, hjump]
    next => cases h

/-- **An instruction is decoded as any later table says**, and the table only
grows. -/
theorem decode_eq_ok {v v' : Variables} {line : List Char} {ins : Instruction}
    (h : decode v line = .ok (ins, v')) :
    v.Extends v' ∧ ∀ w, v'.Extends w → instruction? w.symbols line = some ins := by
  obtain ⟨rfl, hins⟩ | ⟨operand, rfl, hnum, rfl, rfl⟩ := decode_cases h
  · exact ⟨.refl _, fun w _ => hins w.symbols⟩
  · obtain ⟨hext, hget⟩ := v.resolve_eq (String.ofList operand)
    refine ⟨hext, fun w hw => ?_⟩
    rw [instruction?_address, if_neg (by rw [hnum]; decide), hw.get? hget, Option.map_some]

/-- A line asks for one variable at most. -/
theorem next_le_of_decode {v v' : Variables} {line : List Char} {ins : Instruction}
    (h : decode v line = .ok (ins, v')) : v'.next ≤ v.next + 1 := by
  obtain ⟨rfl, -⟩ | ⟨operand, -, -, -, rfl⟩ := decode_cases h
  · exact Nat.le_succ _
  · unfold Variables.resolve
    split
    · exact Nat.le_succ _
    · exact Nat.le_refl _

/-- The second pass takes one line after the other. -/
theorem decodeAll_cons_eq_ok {v v' : Variables} {line : List Char} {rest : List (List Char)}
    {rom : List Instruction} (h : decodeAll v (line :: rest) = .ok (rom, v')) :
    ∃ ins v₁ tail, decode v line = .ok (ins, v₁) ∧ decodeAll v₁ rest = .ok (tail, v') ∧
      rom = ins :: tail := by
  unfold decodeAll at h
  cases hline : decode v line with
  | error e => rw [hline] at h; cases h
  | ok r =>
    obtain ⟨ins, v₁⟩ := r
    rw [hline] at h
    change (decodeAll v₁ rest >>= fun _ => _) = _ at h
    cases hrest : decodeAll v₁ rest with
    | error e => rw [hrest] at h; cases h
    | ok r =>
      obtain ⟨tail, v₂⟩ := r
      rw [hrest] at h
      obtain ⟨rfl, rfl⟩ := Prod.mk.inj (Except.ok.inj h)
      exact ⟨ins, v₁, tail, rfl, hrest, rfl⟩

theorem decodeAll_append_of_ok {v v₁ : Variables} {xs : List (List Char)} {is : List Instruction}
    (h : decodeAll v xs = .ok (is, v₁)) (ys : List (List Char)) :
    decodeAll v (xs ++ ys) = (decodeAll v₁ ys).map fun r => (is ++ r.1, r.2) := by
  induction xs generalizing v is with
  | nil =>
    obtain ⟨rfl, rfl⟩ := Prod.mk.inj (Except.ok.inj h)
    rw [List.nil_append]
    cases decodeAll v ys <;> rfl
  | cons x xs ih =>
    obtain ⟨ins, v₂, tail, hx, hxs, rfl⟩ := decodeAll_cons_eq_ok h
    rw [List.cons_append, decodeAll, hx]
    show (decodeAll v₂ (xs ++ ys) >>= fun _ => _) = _
    rw [ih hxs]
    cases decodeAll v₁ ys <;> rfl

theorem decodeAll_append_of_error {v : Variables} {xs : List (List Char)} {e : LoadError}
    (h : decodeAll v xs = .error e) (ys : List (List Char)) :
    decodeAll v (xs ++ ys) = .error e := by
  induction xs generalizing v with
  | nil => cases h
  | cons x xs ih =>
    rw [List.cons_append]
    unfold decodeAll at h ⊢
    cases hx : decode v x with
    | error e' =>
      rw [hx] at h
      exact h
    | ok r =>
      rw [hx] at h
      change (decodeAll r.2 xs >>= fun _ => _) = _ at h
      show (decodeAll r.2 (xs ++ ys) >>= fun _ => _) = _
      cases hxs : decodeAll r.2 xs with
      | error e' =>
        rw [hxs] at h
        rw [ih (hxs.trans h)]
        rfl
      | ok r' =>
        rw [hxs] at h
        cases h

/-- **Every instruction is decoded with the table as it is at the end**, and
there are no more variables than instructions. -/
theorem decodeAll_eq_ok {v v' : Variables} {lines : List (List Char)} {rom : List Instruction}
    (h : decodeAll v lines = .ok (rom, v')) :
    v.Extends v' ∧ v'.next ≤ v.next + rom.length ∧ ∀ w, v'.Extends w →
      lines.map (instruction? w.symbols) = rom.map some := by
  induction lines generalizing v rom with
  | nil =>
    obtain ⟨rfl, rfl⟩ := Prod.mk.inj (Except.ok.inj h)
    exact ⟨.refl v, le_rfl, fun _ _ => rfl⟩
  | cons line rest ih =>
    obtain ⟨ins, v₁, tail, hline, hrest, rfl⟩ := decodeAll_cons_eq_ok h
    obtain ⟨hext₁, hins⟩ := decode_eq_ok hline
    have hnext := next_le_of_decode hline
    obtain ⟨hext₂, hnexts, htail⟩ := ih hrest
    refine ⟨hext₁.trans hext₂, ?_, fun w hw => ?_⟩
    · calc v'.next ≤ v₁.next + tail.length := hnexts
        _ ≤ v.next + 1 + tail.length := Nat.add_le_add_right hnext _
        _ = v.next + (tail.length + 1) := by omega
    · rw [List.map_cons, List.map_cons, hins w (hext₂.trans hw), htail w hw]

/-- The second pass has nothing to say about labels. -/
theorem decode_ne_redefined (v : Variables) (line : List Char) (name : String) :
    decode v line ≠ .error (.redefined name) := by
  intro h
  unfold decode at h
  split at h
  next operand =>
    split at h
    next =>
      split at h
      next => cases h
      next => split at h <;> cases h
    next => cases h
  next =>
    dsimp only at h
    split at h
    next => split at h <;> cases h
    next => cases h

theorem decodeAll_ne_redefined (v : Variables) (lines : List (List Char)) (name : String) :
    decodeAll v lines ≠ .error (.redefined name) := by
  induction lines generalizing v with
  | nil => exact fun h => by cases h
  | cons line rest ih =>
    intro h
    unfold decodeAll at h
    cases hline : decode v line with
    | error e =>
      rw [hline] at h
      obtain rfl : e = .redefined name := Except.error.inj h
      exact decode_ne_redefined v line name hline
    | ok r =>
      obtain ⟨ins, v₁⟩ := r
      rw [hline] at h
      change (decodeAll v₁ rest >>= fun _ => _) = _ at h
      cases hrest : decodeAll v₁ rest with
      | error e =>
        rw [hrest] at h
        obtain rfl : e = .redefined name := Except.error.inj h
        exact ih v₁ hrest
      | ok r => rw [hrest] at h; cases h

end Loading

/-! ## The table -/

/-- **A table of labels and variables**: the variables, one cell after the other,
stand before the labels and these before the predefined symbols, and no
symbol is in it twice. -/
structure Symbols.Lists (t : Symbols) (labels : List (String × Nat)) (names : List String) :
    Prop where
  freshLabels : Loading.Fresh .predefined (labels.map Prod.fst)
  freshNames : Loading.Fresh ⟨labels.reverse ++ predefined.entries⟩ names
  entries : t.entries
    = (names.zipIdx variableBase).reverse ++ (labels.reverse ++ predefined.entries)

namespace Symbols.Lists

variable {t : Symbols} {labels : List (String × Nat)} {names : List String} {name : String}
  {x : Nat}

theorem get?_variables (hx : name ∉ names) :
    get? ⟨(names.zipIdx variableBase).reverse⟩ name = none := by
  rw [get?_eq_none, List.map_reverse, List.mem_reverse, List.zipIdx_map_fst]
  exact hx

theorem get?_labels (hx : name ∉ labels.map Prod.fst) : get? ⟨labels.reverse⟩ name = none := by
  rw [get?_eq_none, List.map_reverse, List.mem_reverse]
  exact hx

variable (h : t.Lists labels names)

include h

/-- The table is looked through from the variables on. -/
theorem get?_eq (name : String) :
    t.get? name = (get? ⟨(names.zipIdx variableBase).reverse⟩ name).or
      ((get? ⟨labels.reverse⟩ name).or (predefined.get? name)) := by
  rw [show t = ⟨_⟩ from congrArg Symbols.mk h.entries, ← get?_append]
  exact get?_append (names.zipIdx variableBase).reverse ⟨labels.reverse ++ predefined.entries⟩ name

/-- Variables are new names. -/
theorem not_mem_names (hx : name ∈ labels.map Prod.fst ∨ predefined.contains name = true) :
    name ∉ names := by
  intro hmem
  have hnone := contains_eq_false.mp (h.freshNames.2 name hmem)
  rw [get?_eq_none, List.map_append, List.mem_append, List.map_reverse, List.mem_reverse,
    not_or] at hnone
  rcases hx with hx | hx
  · exact hnone.1 hx
  · have hpre := contains_eq_false.mpr (get?_eq_none.mpr hnone.2)
    rw [hx] at hpre
    cases hpre

/-- **A label has the value it is listed with.** -/
theorem get?_label (hmem : (name, x) ∈ labels) : t.get? name = some x := by
  have hname : name ∈ labels.map Prod.fst := List.mem_map.mpr ⟨_, hmem, rfl⟩
  have hnd : (labels.reverse.map Prod.fst).Nodup := by
    rw [List.map_reverse, List.nodup_reverse]
    exact h.freshLabels.1
  rw [h.get?_eq, get?_variables (h.not_mem_names (.inl hname)), Option.none_or,
    get?_of_mem hnd (List.mem_reverse.mpr hmem), Option.some_or]

/-- **A predefined symbol keeps its value.** -/
theorem get?_predefined (hx : predefined.get? name = some x) : t.get? name = some x := by
  have hc : predefined.contains name = true := by rw [contains, hx]; rfl
  have hlabel : name ∉ labels.map Prod.fst := by
    intro hmem
    have := h.freshLabels.2 name hmem
    rw [hc] at this
    cases this
  rw [h.get?_eq, get?_variables (h.not_mem_names (.inr hc)), Option.none_or,
    get?_labels hlabel, Option.none_or, hx]

/-- **Any other symbol is a variable**, with the cell of its number. -/
theorem exists_variable (hx : t.get? name = some x) (hlabel : name ∉ labels.map Prod.fst)
    (hpre : predefined.get? name = none) : ∃ i, names[i]? = some name ∧ x = variableBase + i := by
  have hfront := h.get?_eq name
  rw [get?_labels hlabel, hpre, Option.none_or, Option.or_none, hx] at hfront
  have hmem := List.mem_reverse.mp (mem_of_get? hfront.symm)
  rw [List.mem_zipIdx_iff_le_and_getElem?_sub] at hmem
  exact ⟨x - variableBase, hmem.2, (Nat.add_sub_cancel' hmem.1).symm⟩

end Symbols.Lists

namespace Loading

/-! ## What is loaded -/

/-- **Loading a text whose labels are new** is decoding its instructions. -/
theorem load_of_fresh {lines : List String} (h : Fresh .predefined (labelNames lines)) :
    Machine.load lines
      = (decodeAll
          ⟨⟨(labelEntries 0 (source lines)).reverse ++ Symbols.predefined.entries⟩,
            Symbols.variableBase⟩
          (codeLines (source lines))).map
          fun r => { rom := r.1.toArray, symbols := r.2.symbols } := by
  unfold Machine.load
  rw [labels_of_fresh h]
  change (decodeAll _ _ >>= fun _ => _) = _
  cases decodeAll _ (codeLines (source lines)) with
  | error e => rfl
  | ok r => rfl

/-- **Labels that are new are never redefined.** -/
theorem load_ne_redefined {lines : List String} (h : Fresh .predefined (labelNames lines))
    (name : String) : Machine.load lines ≠ .error (.redefined name) := by
  rw [load_of_fresh h]
  intro herr
  cases hcode : decodeAll _ (codeLines (source lines)) with
  | error e =>
    rw [hcode] at herr
    obtain rfl : e = .redefined name := Except.error.inj herr
    exact decodeAll_ne_redefined _ _ name hcode
  | ok r => rw [hcode] at herr; cases herr

/-- **The first label that is not new ends loading.** -/
theorem load_of_clashes {lines : List String} {x : String}
    (h : Clashes .predefined (labelNames lines) x) :
    Machine.load lines = .error (.redefined x) := by
  unfold Machine.load
  rw [labels_of_clashes h]
  rfl

theorem load_of_not_fresh {lines : List String} (h : ¬ Fresh .predefined (labelNames lines)) :
    ∃ x, Machine.load lines = .error (.redefined x) :=
  (exists_clashes h).imp fun _ => load_of_clashes

/-- A program that is loaded as asked. -/
theorem exists_load {lines : List String} {p : Machine → Bool}
    (h : (Machine.load lines).toOption.any p = true) :
    ∃ m, Machine.load lines = .ok m ∧ p m = true := by
  cases hload : Machine.load lines with
  | error e => rw [hload] at h; cases h
  | ok m =>
    rw [hload] at h
    exact ⟨m, rfl, h⟩

/-- **A loaded program.** Its symbols are the labels, which were new, the
variables, of which there are no more than instructions, and the predefined
ones; its instructions are what the lines say under these symbols. All else
is as at the start. -/
theorem load_eq_ok {lines : List String} {m : Machine} (h : Machine.load lines = .ok m) :
    m = { rom := m.rom, symbols := m.symbols } ∧
    (codeLines (source lines)).map (instruction? m.symbols) = m.rom.toList.map some ∧
      ∃ names : List String, m.symbols.Lists (labelEntries 0 (source lines)) names ∧
        names.length ≤ m.rom.size := by
  unfold Machine.load at h
  cases hlabels : labels .predefined 0 (source lines) with
  | error e => rw [hlabels] at h; cases h
  | ok r =>
    obtain ⟨t, code⟩ := r
    rw [hlabels] at h
    change (decodeAll { symbols := t } code >>= fun _ => _) = _ at h
    cases hcode : decodeAll { symbols := t } code with
    | error e => rw [hcode] at h; cases h
    | ok r =>
      obtain ⟨rom, v⟩ := r
      rw [hcode] at h
      obtain rfl := Except.ok.inj h
      obtain ⟨hfresh, hentries, rfl⟩ := labels_eq_ok hlabels
      obtain ⟨⟨names, hnew, hsymbols, hnext⟩, hle, hrom⟩ := decodeAll_eq_ok hcode
      obtain rfl : t = ⟨_⟩ := congrArg Symbols.mk hentries
      refine ⟨rfl, by rw [hrom v (.refl v)], names, ⟨hfresh, hnew, hsymbols⟩, ?_⟩
      show names.length ≤ rom.length
      dsimp only at hnext hle
      omega

end Loading

end HackStack
