import HackStack.FileTree
import HackStack.Proofs.Parsed
import HackStack.Text.LineBreak
import HackStack.Text.Utf8
import Mathlib.Data.List.TakeWhile

/-!
# Files that were written

Text is written to a file as bytes, and read from it as bytes, which are
decoded and have their line ends unified. Nothing is lost on the way: the bytes
of a text decode to the text (`Text.Utf8.decode_toUTF8`), also of a marked
text, if it has bytes at all (`Text.decode_of_encode`), and a text without
carriage returns has its line ends unified already.

A file that was written is found at its path, with its bytes, and it is the
only thing in the tree that is new or changed (`FileTree.writes_put`). The
first needs an argument, since the path is followed in the new tree: the way to
the file leads through directories of the old tree, and the file has replaced
none of these.
-/

/-! ## Bytes of a text -/

namespace HackStack

theorem byteArray_toList_loop (bytes : ByteArray) (i : Nat) (front : List UInt8) :
    ByteArray.toList.loop bytes i front = front.reverse ++ bytes.data.toList.drop i := by
  fun_induction ByteArray.toList.loop bytes i front with
  | case1 i front hi ih =>
    have hlt : i < bytes.data.toList.length := by simpa using hi
    rw [ih, List.drop_eq_getElem_cons hlt]
    simp [ByteArray.get!, hi]
  | case2 i front hi =>
    have hle : bytes.data.toList.length ≤ i := by simpa using hi
    rw [List.drop_eq_nil_of_le hle, List.append_nil]

/-- The bytes of a text are those of its characters. -/
theorem toList_toUTF8 (s : String) : s.toUTF8.toList = s.toList.flatMap String.utf8EncodeChar := by
  rw [String.toUTF8_eq_toByteArray, ← String.utf8Encode_toList, ByteArray.toList,
    byteArray_toList_loop, List.utf8Encode, List.toList_data_toByteArray]
  rfl

namespace Text.Utf8

variable {offset start point n : Nat} {b : UInt8} {bs : List UInt8} {r : Range} {rs : List Range}

/-- Between two characters nothing is remembered of the one before. -/
theorem decodeFrom_idle (offset start point : Nat) (bs : List UInt8) :
    decodeFrom offset start point [] bs = decodeFrom offset 0 0 [] bs := by
  cases bs <;> rfl

/-- A byte that announces others. -/
theorem decodeFrom_lead (h : lead? b = some (n, r :: rs)) :
    decodeFrom offset start point [] (b :: bs) = decodeFrom (offset + 1) offset n (r :: rs) bs := by
  rw [decodeFrom, h]

/-- A byte that was announced, with more to come. -/
theorem decodeFrom_more {s : Range} (hlo : r.1 ≤ b.toNat) (hhi : b.toNat ≤ r.2) :
    decodeFrom offset start point (r :: s :: rs) (b :: bs)
      = decodeFrom (offset + 1) start (point * 64 + b.toNat % 64) (s :: rs) bs := by
  rw [decodeFrom]
  simp [hlo, hhi]

/-- The last byte that was announced. -/
theorem decodeFrom_last (hlo : r.1 ≤ b.toNat) (hhi : b.toNat ≤ r.2) :
    decodeFrom offset start point [r] (b :: bs)
      = (Char.ofNat (point * 64 + b.toNat % 64) :: ·) <$> decodeFrom (offset + 1) 0 0 [] bs := by
  rw [decodeFrom]
  simp only [hlo, hhi, decide_true, Bool.and_true, if_true, List.isEmpty_nil]
  rw [decodeFrom_idle]

theorem lead?_two (hlo : 0xC2 ≤ b.toNat) (hhi : b.toNat < 0xE0) :
    lead? b = some (b.toNat - 0xC0, [tail]) := by
  unfold lead?
  dsimp only
  rw [if_neg (by omega), if_neg (by omega), if_pos hhi]

/-- The byte behind the first of three is bounded from below where the form
would be overlong, and from above where it would be a surrogate. -/
theorem lead?_three (hlo : 0xE0 ≤ b.toNat) (hhi : b.toNat < 0xF0) :
    lead? b = some (b.toNat - 0xE0,
      [(if b.toNat = 0xE0 then 0xA0 else 0x80, if b.toNat = 0xED then 0x9F else 0xBF), tail]) := by
  unfold lead?
  dsimp only
  rw [if_neg (by omega), if_neg (by omega), if_neg (by omega)]
  by_cases hE0 : b.toNat = 0xE0
  · rw [if_pos (by simpa using hE0), if_pos hE0, if_neg (by omega), hE0]
  · rw [if_neg (by simpa using hE0), if_neg hE0]
    by_cases hED : b.toNat = 0xED
    · rw [if_pos (by simpa using hED), if_pos hED, hED]
    · rw [if_neg (by simpa using hED), if_neg hED, if_pos hhi]
      rfl

/-- The byte behind the first of four is bounded from below where the form
would be overlong, and from above where it would lie beyond the last
character. -/
theorem lead?_four (hlo : 0xF0 ≤ b.toNat) (hhi : b.toNat ≤ 0xF4) :
    lead? b = some (b.toNat - 0xF0,
      [(if b.toNat = 0xF0 then 0x90 else 0x80, if b.toNat = 0xF4 then 0x8F else 0xBF), tail,
        tail]) := by
  unfold lead?
  dsimp only
  rw [if_neg (by omega), if_neg (by omega), if_neg (by omega), if_neg (by simp; omega),
    if_neg (by simp; omega), if_neg (by omega)]
  by_cases hF0 : b.toNat = 0xF0
  · rw [if_pos (by simpa using hF0), if_pos hF0, if_neg (by omega), hF0]
  · rw [if_neg (by simpa using hF0), if_neg hF0]
    by_cases hF4 : b.toNat = 0xF4
    · rw [if_neg (by omega), if_pos (by simpa using hF4), if_pos hF4, hF4]
    · rw [if_pos (by omega), if_neg hF4]
      rfl

/-- A character is no surrogate and not beyond the last. -/
theorem toNat_valid (c : Char) : c.toNat < 0xD800 ∨ 0xDFFF < c.toNat ∧ c.toNat < 0x110000 := c.valid

-- `omega` has to see the bound as a numeral
theorem toNat_ofNat_of_lt {k : Nat} (h : k < 256) : (UInt8.ofNat k).toNat = k :=
  UInt8.toNat_ofNat_of_lt' h

theorem decodeFrom_one {v : Nat} (hv : v < 0x80) :
    decodeFrom offset start point [] (UInt8.ofNat v :: bs)
      = (Char.ofNat v :: ·) <$> decodeFrom (offset + 1) 0 0 [] bs := by
  have hlead : lead? (UInt8.ofNat v) = some (v, []) := by
    unfold lead?
    rw [toNat_ofNat_of_lt (k := v) (by omega)]
    exact if_pos hv
  rw [decodeFrom, hlead]
  dsimp only
  rw [decodeFrom_idle]

theorem decodeFrom_two {v : Nat} (hlo : 0x80 ≤ v) (hhi : v < 0x800) :
    decodeFrom offset start point []
        (UInt8.ofNat (v / 64 % 32 + 192) :: UInt8.ofNat (v % 64 + 128) :: bs)
      = (Char.ofNat v :: ·) <$> decodeFrom (offset + 2) 0 0 [] bs := by
  have h₁ := toNat_ofNat_of_lt (k := v / 64 % 32 + 192) (by omega)
  have h₂ := toNat_ofNat_of_lt (k := v % 64 + 128) (by omega)
  have hpoint : (v / 64 % 32 + 192 - 0xC0) * 64 + (v % 64 + 128) % 64 = v := by omega
  rw [decodeFrom_lead (lead?_two (by omega) (by omega)),
    decodeFrom_last (by rw [h₂, tail]; omega) (by rw [h₂, tail]; omega), h₁, h₂, hpoint]

theorem decodeFrom_three {v : Nat} (hlo : 0x800 ≤ v) (hhi : v < 0x10000)
    (hv : v < 0xD800 ∨ 0xDFFF < v) :
    decodeFrom offset start point [] (UInt8.ofNat (v / 4096 % 16 + 224)
        :: UInt8.ofNat (v / 64 % 64 + 128) :: UInt8.ofNat (v % 64 + 128) :: bs)
      = (Char.ofNat v :: ·) <$> decodeFrom (offset + 3) 0 0 [] bs := by
  have h₁ := toNat_ofNat_of_lt (k := v / 4096 % 16 + 224) (by omega)
  have h₂ := toNat_ofNat_of_lt (k := v / 64 % 64 + 128) (by omega)
  have h₃ := toNat_ofNat_of_lt (k := v % 64 + 128) (by omega)
  have hpoint : ((v / 4096 % 16 + 224 - 0xE0) * 64 + (v / 64 % 64 + 128) % 64) * 64
      + (v % 64 + 128) % 64 = v := by omega
  rw [decodeFrom_lead (lead?_three (by omega) (by omega)),
    decodeFrom_more (by rw [h₂, h₁]; dsimp only; split <;> omega)
      (by rw [h₂, h₁]; dsimp only; split <;> omega),
    decodeFrom_last (by rw [h₃, tail]; omega) (by rw [h₃, tail]; omega), h₁, h₂, h₃, hpoint]

theorem decodeFrom_four {v : Nat} (hlo : 0x10000 ≤ v) (hhi : v < 0x110000) :
    decodeFrom offset start point [] (UInt8.ofNat (v / 262144 % 8 + 240)
        :: UInt8.ofNat (v / 4096 % 64 + 128) :: UInt8.ofNat (v / 64 % 64 + 128)
        :: UInt8.ofNat (v % 64 + 128) :: bs)
      = (Char.ofNat v :: ·) <$> decodeFrom (offset + 4) 0 0 [] bs := by
  have h₁ := toNat_ofNat_of_lt (k := v / 262144 % 8 + 240) (by omega)
  have h₂ := toNat_ofNat_of_lt (k := v / 4096 % 64 + 128) (by omega)
  have h₃ := toNat_ofNat_of_lt (k := v / 64 % 64 + 128) (by omega)
  have h₄ := toNat_ofNat_of_lt (k := v % 64 + 128) (by omega)
  have hpoint : (((v / 262144 % 8 + 240 - 0xF0) * 64 + (v / 4096 % 64 + 128) % 64) * 64
      + (v / 64 % 64 + 128) % 64) * 64 + (v % 64 + 128) % 64 = v := by omega
  rw [decodeFrom_lead (lead?_four (by omega) (by omega)),
    decodeFrom_more (by rw [h₂, h₁]; dsimp only; split <;> omega)
      (by rw [h₂, h₁]; dsimp only; split <;> omega),
    decodeFrom_more (by rw [h₃, tail]; omega) (by rw [h₃, tail]; omega),
    decodeFrom_last (by rw [h₄, tail]; omega) (by rw [h₄, tail]; omega), h₁, h₂, h₃, h₄, hpoint]

/-- **The bytes of a character decode to it.** -/
theorem decodeFrom_encodeChar (c : Char) (offset : Nat) (bs : List UInt8) :
    ∃ next, decodeFrom offset 0 0 [] (String.utf8EncodeChar c ++ bs)
      = (c :: ·) <$> decodeFrom next 0 0 [] bs := by
  have hvalid := toNat_valid c
  obtain ⟨v, hv⟩ : ∃ v, v = c.toNat := ⟨_, rfl⟩
  have hc : c = Char.ofNat v := by rw [hv, Char.ofNat_toNat]
  unfold String.utf8EncodeChar
  rw [← hv] at hvalid
  rw [show c.val.toNat = v from hv.symm, hc]
  dsimp only
  split
  next => exact ⟨_, decodeFrom_one (by omega)⟩
  next =>
    split
    next => exact ⟨_, decodeFrom_two (by omega) (by omega)⟩
    next =>
      split
      next => exact ⟨_, decodeFrom_three (by omega) (by omega) (by omega)⟩
      next => exact ⟨_, decodeFrom_four (by omega) (by omega)⟩

theorem decode_flatMap (cs : List Char) :
    decode (cs.flatMap String.utf8EncodeChar) = .ok cs := by
  have hchars (offset : Nat) :
      decodeFrom offset 0 0 [] (cs.flatMap String.utf8EncodeChar) = .ok cs := by
    induction cs generalizing offset with
    | nil => rfl
    | cons c cs ih =>
      obtain ⟨next, hnext⟩ := decodeFrom_encodeChar c offset (cs.flatMap String.utf8EncodeChar)
      rw [List.flatMap_cons, hnext, ih]
      rfl
  exact hchars 0

/-- **The bytes of a text decode to the text.** -/
theorem decode_toUTF8 (s : String) : decode s.toUTF8.toList = .ok s.toList := by
  rw [toList_toUTF8, decode_flatMap]

end Text.Utf8

/-! ## Bytes of a marked text -/

namespace Text

/-- A code point is a character or a surrogate. -/
theorem isSurrogate_or_isValidChar {cs : List Char} :
    ∀ n ∈ codePoints cs, isSurrogate n = true ∨ n.isValidChar := by
  fun_induction codePoints cs with
  | case1 => simp
  | case2 c => exact List.forall_mem_singleton.mpr (.inr c.valid)
  | case3 c d cs hmarks ih => exact List.forall_mem_cons.mpr ⟨.inr mark.valid, ih⟩
  | case4 c d cs _ hsurrogate ih => exact List.forall_mem_cons.mpr ⟨.inl hsurrogate.2, ih⟩
  | case5 c d cs _ _ ih => exact List.forall_mem_cons.mpr ⟨.inr c.valid, ih⟩

/-- **A text is encoded when it has no surrogates**, and then character by
character. -/
theorem encode_eq_ok_iff {s : String} {bytes : List UInt8} :
    encode s = .ok bytes ↔ (∀ n ∈ codePoints s.toList, isSurrogate n = false) ∧
      (characters s).toList.flatMap String.utf8EncodeChar = bytes := by
  have hnone : refused? (fun _ => false) (codePoints s.toList) = none
      ↔ ∀ n ∈ codePoints s.toList, isSurrogate n = false := by
    simp [refused?, List.findIdx?_eq_none_iff]
  rw [← hnone, encode]
  cases refused? (fun _ => false) (codePoints s.toList) <;> simp

/-- **The bytes of a marked text stand for its code points.** -/
theorem decode_of_encode {s : String} {bytes : List UInt8} (h : encode s = .ok bytes) :
    ∃ cs, Utf8.decode bytes = .ok cs ∧ cs.map Char.toNat = codePoints s.toList := by
  obtain ⟨hplain, rfl⟩ := encode_eq_ok_iff.mp h
  refine ⟨_, Utf8.decode_flatMap _, ?_⟩
  have hpoint : ∀ n ∈ codePoints s.toList, (Char.ofNat n).toNat = n := by
    intro n hn
    have hsurrogate : isSurrogate n ≠ true := by simp [hplain n hn]
    exact toNat_ofNat ((isSurrogate_or_isValidChar n hn).resolve_left hsurrogate)
  rw [characters, String.toList_ofList, List.map_map]
  exact (List.map_congr_left hpoint).trans (List.map_id _)

/-- A text without the mark can be encoded. -/
theorem exists_encode {s : String} (h : mark ∉ s.toList) : ∃ bytes, encode s = .ok bytes := by
  refine ⟨_, encode_eq_ok_iff.mpr ⟨?_, rfl⟩⟩
  rw [← marked_eq_self h, codePoints_marked]
  intro n hn
  obtain ⟨c, -, rfl⟩ := List.mem_map.mp hn
  have hvalid := Utf8.toNat_valid c
  simp only [isSurrogate, Bool.and_eq_false_iff, decide_eq_false_iff_not]
  omega

end Text

/-- Without carriage returns there is nothing to unify. -/
theorem Text.unifyNewlines_eq_self {cs : List Char} (h : '\r' ∉ cs) : unifyNewlines cs = cs := by
  induction cs with
  | nil => rfl
  | cons c cs ih =>
    rw [List.mem_cons, not_or] at h
    rw [unifyNewlines.eq_4 c cs (fun _ hc _ => h.1 hc.symm) (fun hc => h.1 hc.symm), ih h.2]

/-! ## Paths that were followed -/

namespace Path

theorem components_cons_of_ne {c : Char} (hc : c ≠ '/') {w : List Char} {cs : List Char}
    {ws : List (List Char)} (h : components cs = w :: ws) :
    components (c :: cs) = (c :: w) :: ws := by
  rw [components, if_neg (by simpa using hc), h]

theorem components_ne_nil (cs : List Char) : components cs ≠ [] := by
  fun_cases components cs <;> simp

/-- A slash divides the components. -/
theorem components_append_slash (xs ys : List Char) :
    components (xs ++ '/' :: ys) = components xs ++ components ys := by
  induction xs with
  | nil => rfl
  | cons x xs ih =>
    by_cases hx : x = '/'
    · subst hx
      simp [components, ih]
    · obtain ⟨w, ws, hws⟩ := List.exists_cons_of_ne_nil (components_ne_nil xs)
      rw [hws] at ih
      rw [List.cons_append, components_cons_of_ne hx ih, components_cons_of_ne hx hws]
      rfl

theorem components_of_not_mem {cs : List Char} (h : '/' ∉ cs) : components cs = [cs] := by
  induction cs with
  | nil => rfl
  | cons c cs ih =>
    rw [List.mem_cons, not_or] at h
    exact components_cons_of_ne (Ne.symm h.1) (ih h.2)

/-- A path ends with a name, unless it ends with a slash. -/
theorem exists_components_eq {cs : List Char} (hne : cs ≠ []) (hslash : cs.getLast? ≠ some '/') :
    ∃ above w, components cs = above ++ [w] ∧ w ≠ [] := by
  induction cs with
  | nil => exact absurd rfl hne
  | cons c cs ih =>
    cases cs with
    | nil =>
      have hc : c ≠ '/' := by simpa using hslash
      exact ⟨[], [c], components_cons_of_ne hc rfl, by simp⟩
    | cons d cs =>
      obtain ⟨above, w, heq, hw⟩ := ih (by simp) (by simpa using hslash)
      by_cases hc : c = '/'
      · subst hc
        exact ⟨[] :: above, w, by rw [components, heq]; rfl, hw⟩
      · cases above with
        | nil => exact ⟨[], c :: w, components_cons_of_ne hc heq, by simp⟩
        | cons v above => exact ⟨(c :: v) :: above, w, components_cons_of_ne hc heq, hw⟩

theorem slash_notMem_components {cs : List Char} : ∀ w ∈ components cs, '/' ∉ w := by
  induction cs with
  | nil => simp [components]
  | cons c cs ih =>
    by_cases hc : c = '/'
    · subst hc
      simpa [components] using ih
    · obtain ⟨w, ws, hws⟩ := List.exists_cons_of_ne_nil (components_ne_nil cs)
      rw [hws, List.forall_mem_cons] at ih
      rw [components_cons_of_ne hc hws, List.forall_mem_cons, List.mem_cons, not_or]
      exact ⟨⟨Ne.symm hc, ih.1⟩, ih.2⟩

/-- Names without slashes lead to names without slashes. -/
theorem slash_notMem_follow {place steps : List String} (hplace : ∀ name ∈ place, '/' ∉ name.toList)
    (hsteps : ∀ name ∈ steps, '/' ∉ name.toList) :
    ∀ name ∈ follow place steps, '/' ∉ name.toList := by
  induction steps generalizing place with
  | nil => exact hplace
  | cons step steps ih =>
    rw [List.forall_mem_cons] at hsteps
    refine ih ?_ hsteps.2
    dsimp only
    split_ifs
    · exact hplace
    · exact fun name hname => hplace name (List.mem_of_mem_dropLast hname)
    · intro name hname
      rcases List.mem_append.mp hname with hname | hname
      · exact hplace name hname
      · rw [List.mem_singleton.mp hname]
        exact hsteps.1

theorem toList_join {path name : String} (hpath : path ≠ "") (hslash : '/' ∉ name.toList) :
    (join path name).toList = path.toList
      ++ if path.toList.getLast? = some '/' then name.toList else '/' :: name.toList := by
  have habsolute : isAbsolute name = false := by
    rw [isAbsolute, beq_eq_false_iff_ne]
    exact fun hhead => hslash (List.mem_of_mem_head? hhead)
  unfold join
  rw [habsolute, Bool.false_or, if_neg (by simpa using hpath)]
  by_cases hend : path.toList.getLast? = some '/'
  · rw [if_pos (by simpa using hend), if_pos hend, String.toList_append]
  · rw [if_neg (by simpa using hend), if_neg hend, String.toList_append, String.toList_append,
      List.append_assoc]
    rfl

/-- A name in a directory stands behind the components of the directory, of
which the last is left out when it is empty. -/
theorem names_join {path name : String} (hpath : path ≠ "") (hslash : '/' ∉ name.toList) :
    ∃ front, (names path = front ∨ names path = front ++ [""])
      ∧ names (join path name) = front ++ [name] := by
  have hlast : components name.toList = [name.toList] := components_of_not_mem hslash
  rw [names, names, toList_join hpath hslash]
  by_cases hend : path.toList.getLast? = some '/'
  · obtain ⟨init, hinit⟩ := List.getLast?_eq_some_iff.mp hend
    refine ⟨(components init).map String.ofList, .inr ?_, ?_⟩
    · rw [hinit, components_append_slash, List.map_append]
      rfl
    · rw [if_pos hend, hinit, List.append_assoc, List.singleton_append, components_append_slash,
        hlast]
      simp
  · refine ⟨_, .inl rfl, ?_⟩
    rw [if_neg hend, components_append_slash, hlast]
    simp

theorem isAbsolute_join {path name : String} (hpath : path ≠ "") (hslash : '/' ∉ name.toList) :
    isAbsolute (join path name) = isAbsolute path := by
  obtain ⟨c, cs, hcs⟩ := List.exists_cons_of_ne_nil (by simpa using hpath : path.toList ≠ [])
  rw [isAbsolute, isAbsolute, toList_join hpath hslash, hcs]
  rfl

end Path

namespace FileTree

variable {t : FileTree} {path : String} {place : List String} {node : Node}

theorem lookup_filter_of_ne {q : List String} (h : q ≠ place)
    (entries : List (List String × Node)) :
    (entries.filter (·.1 != place)).lookup q = entries.lookup q := by
  induction entries with
  | nil => rfl
  | cons e entries ih =>
    by_cases he : e.1 = place
    · rw [List.filter_cons_of_neg (by simp [he]), List.lookup_cons, ih,
        show (q == e.1) = false by simpa [he] using h]
    · rw [List.filter_cons_of_pos (by simp [he]), List.lookup_cons, List.lookup_cons, ih]

/-- What is put at a place is there. -/
theorem node?_put_self (t : FileTree) (h : place ≠ []) (node : Node) :
    (t.put place node).node? place = some node := by
  simp [node?, put, h]

/-- Other places keep what they have. -/
theorem node?_put_of_ne (t : FileTree) {q : List String} (h : q ≠ place) (node : Node) :
    (t.put place node).node? q = t.node? q := by
  unfold node? put
  dsimp only
  rw [List.lookup_cons, show (q == place) = false by simpa using h, lookup_filter_of_ne h]

theorem walk_append (t : FileTree) (names names' : List String) (place : List String) :
    t.walk place (names ++ names') = t.walk place names >>= fun there => t.walk there names' := by
  induction names generalizing place with
  | nil => rfl
  | cons name names ih =>
    simp only [List.cons_append, walk, ih]
    split_ifs <;> rfl

/-- The way of a path is kept where something is put, unless a directory is
replaced. -/
theorem walk_put (hplace : t.node? place ≠ some .directory) (node : Node) {names : List String}
    {here there : List String} (h : t.walk here names = .ok there) :
    (t.put place node).walk here names = .ok there := by
  have hne : place ≠ [] := by
    rintro rfl
    exact hplace rfl
  -- every place that a name is looked up in is a directory, so it is not the
  -- one replaced
  induction names generalizing here with
  | nil => exact h
  | cons name names ih =>
    rw [walk] at h ⊢
    by_cases hhere : t.node? here = some .directory
    · have hother : here ≠ place := by
        rintro rfl
        exact hplace hhere
      have hnext (hsome : (t.node? (here ++ [name])).isNone = false) :
          ((t.put place node).node? (here ++ [name])).isNone = false := by
        by_cases heq : here ++ [name] = place
        · rw [heq, node?_put_self t hne]
          rfl
        · rw [node?_put_of_ne t heq, hsome]
      rw [node?_put_of_ne t hother]
      grind
    · rw [if_pos (by simpa using hhere)] at h
      cases h

/-- A check that was passed. -/
theorem of_guard {ε α β : Type} {c : Prop} [Decidable c] {e : ε} {f : β → Except ε α}
    {k : Except ε α} {a : α} (h : (if c then throw e >>= f else k) = .ok a) : ¬c ∧ k = .ok a := by
  by_cases hc : c
  · rw [if_pos hc] at h
    cases h
  · rw [if_neg hc] at h
    exact ⟨hc, h⟩

/-- **What is checked of a path before a file is written**: it leads through
directories to one that is there, and ends with a name that can stand in it. -/
structure Reaches (t : FileTree) (path : String) (above dir : List String) (name : String) :
    Prop where
  short : isLongPath path = false
  names_eq : Path.names path = above ++ [name]
  walk_eq : t.walk (t.origin path) above = .ok dir
  isDirectory : t.node? dir = some .directory
  isName : name ≠ "" ∧ name ≠ "." ∧ name ≠ ".."
  shortName : isLongName name = false
  free : t.node? (dir ++ [name]) ≠ some .directory

theorem exists_reaches_of_target (h : t.target path = .ok place) :
    ∃ above dir name, t.Reaches path above dir name ∧ place = dir ++ [name] := by
  unfold target at h
  obtain ⟨hlong, h⟩ := of_guard h
  split at h
  next => cases h
  next name above heq =>
    obtain ⟨dir, hwalk, h⟩ := bind_eq_ok h
    obtain ⟨hdir, h⟩ := of_guard h
    obtain ⟨hend, h⟩ := of_guard h
    obtain ⟨hshort, h⟩ := of_guard h
    obtain ⟨hfree, h⟩ := of_guard h
    have hne : path.toList ≠ [] := by
      intro hempty
      rw [Path.names, hempty] at heq
      cases heq
    simp only [Bool.or_eq_true, beq_iff_eq, not_or] at hend
    -- without a slash at the end the last component is the name itself
    obtain ⟨front, w, hw, hwne⟩ := Path.exists_components_eq hne hend.2
    have hnames : Path.names path = front.map String.ofList ++ [String.ofList w] := by
      simp [Path.names, hw]
    rw [hnames, List.reverse_append, List.reverse_singleton, List.singleton_append,
      List.dropWhile_cons_of_neg (by simpa using hwne), List.cons.injEq] at heq
    obtain ⟨hname, habove⟩ := heq
    refine ⟨above.reverse, dir, name, ⟨by simpa using hlong, ?_, hwalk, by simpa using hdir,
      ⟨?_, hend.1⟩, by simpa using hshort, hfree⟩, (Except.ok.inj h).symm⟩
    · rw [hnames, ← habove, List.reverse_reverse, hname]
    · rw [← hname]
      simpa using hwne

/-- What is put last at a place stays. -/
theorem put_put (t : FileTree) (place : List String) (first last : Node) :
    (t.put place first).put place last = t.put place last := by
  simp [put]

/-- A file that was written: its place, and the tree with the file put there. -/
theorem exists_target_of_write {bytes : List UInt8} {t' : FileTree}
    (h : t.write path bytes = .ok t') :
    ∃ place, t.target path = .ok place ∧ t' = t.put place (.file bytes) := by
  unfold write create at h
  cases htarget : t.target path with
  | error cause =>
    rw [htarget] at h
    cases h
  | ok place =>
    rw [htarget] at h
    refine ⟨place, rfl, ?_⟩
    rw [← Except.ok.inj h, put_put]

/-- What the components of a path lead to is found at the path. -/
theorem find_of_walk (hne : path ≠ "") (hshort : isLongPath path = false)
    (hwalk : t.walk (t.origin path) (Path.names path) = .ok place)
    (hnode : t.node? place = some node) : t.find path = .ok node := by
  unfold find
  rw [if_neg (by simpa using hne), hshort, hwalk]
  simp [hnode, bind, Except.bind, pure, Except.pure]

/-- **A tree after a file was written**: the file is found at its path, with
the bytes written, and nothing else is new or changed. -/
structure Writes (t t' : FileTree) (path : String) (bytes : List UInt8) : Prop where
  content : t'.read path = .ok bytes
  frame : ∃ place, t.target path = .ok place ∧ ∀ other ≠ place, t'.node? other = t.node? other
  workingDirectory : t'.workingDirectory = t.workingDirectory

/-- **A file is written where its path leads.** -/
theorem writes_put (htarget : t.target path = .ok place) (bytes : List UInt8) :
    t.Writes (t.put place (.file bytes)) path bytes := by
  obtain ⟨above, dir, name, hreach, rfl⟩ := exists_reaches_of_target htarget
  have hplace : dir ++ [name] ≠ [] := by simp
  have hother : dir ≠ dir ++ [name] := by simp
  have hwalk : (t.put (dir ++ [name]) (.file bytes)).walk (t.origin path) (Path.names path)
      = .ok (dir ++ [name]) := by
    rw [hreach.names_eq, walk_append, walk_put hreach.free _ hreach.walk_eq]
    change walk _ dir [name] = _
    rw [walk, node?_put_of_ne t hother, hreach.isDirectory, node?_put_self t hplace,
      hreach.shortName]
    simp [hreach.isName, walk]
  have hempty : path ≠ "" := by
    rintro rfl
    have hnames : [] ++ [""] = above ++ [name] := hreach.names_eq
    exact hreach.isName.1 (List.append_singleton_inj.1 hnames).2.symm
  refine ⟨?_, ⟨_, htarget, fun other hne => node?_put_of_ne t hne _⟩, rfl⟩
  rw [read, find_of_walk hempty hreach.short hwalk (node?_put_self t hplace _)]

/-- **A file that was written is found at its path**, with the bytes written. -/
theorem read_of_write {bytes : List UInt8} {t' : FileTree} (h : t.write path bytes = .ok t') :
    t'.read path = .ok bytes := by
  obtain ⟨place, htarget, rfl⟩ := exists_target_of_write h
  exact (writes_put htarget bytes).content

/-! ## Files of a directory -/

/-- What it takes to find something at a path. -/
theorem exists_walk_of_find (h : t.find path = .ok node) :
    path ≠ "" ∧ ∃ place, t.walk (t.origin path) (Path.names path) = .ok place
      ∧ t.node? place = some node := by
  unfold find at h
  obtain ⟨hne, h⟩ := of_guard h
  obtain ⟨-, h⟩ := of_guard h
  obtain ⟨place, hwalk, h⟩ := bind_eq_ok h
  refine ⟨by simpa using hne, place, hwalk, ?_⟩
  split at h
  next found heq => rw [heq, Except.ok.inj h]
  next => cases h

theorem find_of_isDirectory (h : t.isDirectory path = true) : t.find path = .ok .directory := by
  unfold isDirectory at h
  split at h
  next heq => exact heq
  next => cases h

theorem find_of_read {bytes : List UInt8} (h : t.read path = .ok bytes) :
    t.find path = .ok (.file bytes) := by
  unfold read at h
  split at h
  next heq => rw [heq, Except.ok.inj h]
  next => cases h
  next => cases h

/-- An empty component stays where it is. -/
theorem walk_empty {here there : List String} (h : t.walk here [""] = .ok there) :
    there = here := by
  rw [walk] at h
  split at h
  next => cases h
  next => exact (Except.ok.inj h).symm

/-- A name leads to the entry of this name. -/
theorem walk_name {name : String} (hname : name ≠ "" ∧ name ≠ "." ∧ name ≠ "..")
    {here there : List String} (h : t.walk here [name] = .ok there) : there = here ++ [name] := by
  rw [walk] at h
  simp only [beq_iff_eq, hname, or_self, Bool.or_eq_true, if_false] at h
  split_ifs at h
  exact (Except.ok.inj h).symm

/-- What a directory lists are the last names of the entries in it. -/
theorem mem_list {name : String} (hwalk : t.walk (t.origin path) (Path.names path) = .ok place) :
    name ∈ t.list path ↔ ∃ node, (place ++ [name], node) ∈ t.entries := by
  rw [list, hwalk]
  simp only [List.mem_filterMap, Prod.exists, Option.ite_none_right_eq_some]
  constructor
  · rintro ⟨p, node, hmem, rfl, hlast⟩
    exact ⟨node, by rwa [List.dropLast_append_getLast? name hlast]⟩
  · rintro ⟨node, hmem⟩
    exact ⟨_, node, hmem, List.dropLast_concat, List.getLast?_concat⟩

/-- The way to a name in a directory is the way to the directory and one step
more. -/
theorem walk_join {name : String} (hne : path ≠ "") (hslash : '/' ∉ name.toList)
    (hwalk : t.walk (t.origin path) (Path.names path) = .ok place) :
    t.walk (t.origin (Path.join path name)) (Path.names (Path.join path name))
      = t.walk place [name] := by
  obtain ⟨front, hfront, hnames⟩ := Path.names_join hne hslash
  rw [origin, Path.isAbsolute_join hne hslash, ← origin, hnames, walk_append]
  -- the way to the directory may have an empty component more
  rcases hfront with hfront | hfront
  · rw [← hfront, hwalk]
    rfl
  · rw [hfront, walk_append] at hwalk
    obtain ⟨here, hhere, hwalk⟩ := bind_eq_ok hwalk
    rw [hhere, walk_empty hwalk]
    rfl

/-- **A file that is read by its name in a directory is listed there.** -/
theorem mem_list_of_read {name : String} (hdir : t.isDirectory path = true)
    (hslash : '/' ∉ name.toList) (hname : name ≠ "" ∧ name ≠ "." ∧ name ≠ "..") {bytes : List UInt8}
    (hread : t.read (Path.join path name) = .ok bytes) : name ∈ t.list path := by
  obtain ⟨hne, dir, hwalk, -⟩ := exists_walk_of_find (find_of_isDirectory hdir)
  obtain ⟨-, place, hplace, hnode⟩ := exists_walk_of_find (find_of_read hread)
  rw [walk_join hne hslash hwalk] at hplace
  obtain rfl := walk_name hname hplace
  rw [node?, if_neg (by simp), List.lookup_eq_some_iff] at hnode
  obtain ⟨before, after, hentries, -⟩ := hnode
  exact (mem_list hwalk).mpr ⟨.file bytes, by simp [hentries]⟩

end FileTree

end HackStack
