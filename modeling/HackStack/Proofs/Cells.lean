import HackStack.Proofs.Arithmetic
import HackStack.Machine

/-!
# Cells of memory

Memory is reached through positions that may be missing. A program that
stays inside memory never sees that, and for it memory is a total thing:
`Memory.cell` reads an address and `Memory.store` writes one, and an address
outside `0 … 32767` has nothing to read and takes nothing. Two memories are
the same when they have the same cells (`Memory.ext_cell`), which is how
every statement about the contents of memory is proved.
-/

namespace HackStack

open Word

/-- The addresses of cells. -/
def IsCell (a : Int) : Prop := 0 ≤ a ∧ a < 32768

instance (a : Int) : Decidable (IsCell a) := inferInstanceAs (Decidable (_ ∧ _))

theorem position?_of_isCell {a : Int} (h : IsCell a) :
    position? memorySize a = some ⟨a.toNat, by have := h.2; unfold memorySize; omega⟩ := by
  unfold position?
  rw [dif_pos ⟨h.1, by have := h.2; unfold memorySize; omega⟩]

/-- An address from 0 on that is no cell names no position. -/
theorem position?_of_not_isCell {a : Int} (h₀ : 0 ≤ a) (h : ¬ IsCell a) :
    position? memorySize a = none := by
  have hle : 32768 ≤ a := by
    by_contra hlt
    exact h ⟨h₀, by omega⟩
  unfold position?
  rw [dif_neg (by unfold memorySize; omega), dif_neg (by omega)]

namespace Memory

/-- The value in a cell, and zero where there is no cell. -/
def cell (m : Memory) (a : Int) : Int :=
  if h : IsCell a then m.get ⟨a.toNat, by have := h.2; unfold memorySize; omega⟩ else 0

/-- Memory after a value was stored; nothing changes where there is no cell. -/
def store (m : Memory) (a v : Int) : Memory :=
  if h : IsCell a then m.set a.toNat v (by have := h.2; unfold memorySize; omega) else m

theorem get?_of_isCell (m : Memory) {a : Int} (h : IsCell a) : m.get? a = some (m.cell a) := by
  rw [get?, position?_of_isCell h, Option.map_some, cell, dif_pos h]

@[simp] theorem cell_store_self (m : Memory) {a : Int} (h : IsCell a) (v : Int) :
    (m.store a v).cell a = v := by
  rw [cell, dif_pos h, store, dif_pos h]
  exact Vector.getElem_set_self _

theorem cell_store_of_ne (m : Memory) {a b : Int} (h : b ≠ a) (v : Int) :
    (m.store a v).cell b = m.cell b := by
  unfold cell
  split
  next hb =>
    unfold store
    split
    next ha =>
      have hne : a.toNat ≠ b.toNat := by
        have := ha.1
        have := hb.1
        omega
      exact Vector.getElem_set_ne _ _ hne
    next => rfl
  next => rfl

/-- Reading after a store: the value at its address, what was there elsewhere. -/
theorem cell_store (m : Memory) {a : Int} (h : IsCell a) (b v : Int) :
    (m.store a v).cell b = if b = a then v else m.cell b := by
  by_cases hb : b = a
  · rw [if_pos hb, hb, cell_store_self m h]
  · rw [if_neg hb, cell_store_of_ne m hb]

/-- **Memory is its cells.** -/
theorem ext_cell {m n : Memory} (h : ∀ a, IsCell a → m.cell a = n.cell a) : m = n := by
  apply Vector.ext
  intro i hi
  have hc : IsCell (i : Int) := ⟨by omega, by unfold memorySize at hi; omega⟩
  have := h i hc
  rw [cell, cell, dif_pos hc, dif_pos hc] at this
  exact this

/-- Of two stores at one address the second counts. -/
theorem store_store (m : Memory) (a v w : Int) : (m.store a v).store a w = m.store a w := by
  refine ext_cell fun b hb => ?_
  by_cases hba : b = a
  · subst hba
    rw [cell_store_self _ hb, cell_store_self _ hb]
  · rw [cell_store_of_ne _ hba, cell_store_of_ne _ hba, cell_store_of_ne _ hba]

/-- Stores at different addresses can be made in any order. -/
theorem store_comm (m : Memory) {a b : Int} (h : a ≠ b) (v w : Int) :
    (m.store a v).store b w = (m.store b w).store a v := by
  refine ext_cell fun c hc => ?_
  by_cases hca : c = a
  · subst hca
    rw [cell_store_of_ne _ h, cell_store_self _ hc, cell_store_self _ hc]
  · by_cases hcb : c = b
    · subst hcb
      rw [cell_store_self _ hc, cell_store_of_ne _ hca, cell_store_self _ hc]
    · rw [cell_store_of_ne _ hcb, cell_store_of_ne _ hca, cell_store_of_ne _ hca,
        cell_store_of_ne _ hcb]

/-- To store what is there changes nothing. -/
theorem store_cell (m : Memory) (a : Int) : m.store a (m.cell a) = m := by
  refine ext_cell fun b hb => ?_
  by_cases hba : b = a
  · subst hba
    rw [cell_store_self _ hb]
  · rw [cell_store_of_ne _ hba]

/-- Memory of words. -/
def Words (m : Memory) : Prop := ∀ a, IsWord (m.cell a)

/-- A word stored in memory of words. -/
theorem Words.store {m : Memory} (hm : m.Words) (a : Int) {v : Int} (hv : IsWord v) :
    (m.store a v).Words := by
  intro b
  by_cases ha : IsCell a
  · rw [cell_store m ha]
    split
    · exact hv
    · exact hm b
  · rw [Memory.store, dif_neg ha]
    exact hm b

theorem words_empty : empty.Words := by
  intro a
  have hzero : empty.cell a = 0 := by
    unfold cell empty
    split
    · exact Vector.getElem_replicate _
    · rfl
  rw [hzero]
  decide

theorem Words.wrap_cell {m : Memory} (hm : m.Words) (a : Int) : wrap (m.cell a) = m.cell a :=
  (hm a).wrap_eq

/-! ## Agreement

Generated code keeps work in progress in a few cells of its own. Two
memories **agree outside** those when they are the same everywhere else. -/

/-- Two memories that have the same cells outside of some. -/
def AgreeOutside (cells : List Int) (m n : Memory) : Prop :=
  ∀ a, IsCell a → a ∉ cells → m.cell a = n.cell a

theorem AgreeOutside.refl (cells : List Int) (m : Memory) : AgreeOutside cells m m :=
  fun _ _ _ => rfl

theorem AgreeOutside.trans {cells : List Int} {m n k : Memory}
    (h₁ : AgreeOutside cells m n) (h₂ : AgreeOutside cells n k) : AgreeOutside cells m k :=
  fun a ha hc => (h₁ a ha hc).trans (h₂ a ha hc)

/-- The same store on both sides keeps agreement. -/
theorem AgreeOutside.store {cells : List Int} {m n : Memory} (h : AgreeOutside cells m n)
    (a v : Int) : AgreeOutside cells (m.store a v) (n.store a v) := by
  intro b hb hc
  by_cases hba : b = a
  · subst hba
    rw [cell_store_self m hb, cell_store_self n hb]
  · rw [cell_store_of_ne m hba, cell_store_of_ne n hba]
    exact h b hb hc

/-- A store into one of the cells is not seen outside of them. -/
theorem AgreeOutside.store_left {cells : List Int} {m n : Memory} (h : AgreeOutside cells m n)
    {a : Int} (ha : a ∈ cells) (v : Int) : AgreeOutside cells (m.store a v) n := by
  intro b hb hc
  have hba : b ≠ a := fun hba => hc (hba ▸ ha)
  rw [cell_store_of_ne m hba]
  exact h b hb hc

/-- Cells that are outside no longer, once they hold the same. -/
theorem AgreeOutside.store_right {cells : List Int} {m n : Memory} {a : Int}
    (h : AgreeOutside (a :: cells) m n) : AgreeOutside cells m (n.store a (m.cell a)) := by
  intro b hb hc
  by_cases hba : b = a
  · subst hba
    rw [cell_store_self n hb]
  · rw [cell_store_of_ne n hba]
    exact h b hb (List.not_mem_cons_of_ne_of_not_mem hba hc)

theorem AgreeOutside.eq {m n : Memory} (h : AgreeOutside [] m n) : m = n :=
  ext_cell fun a ha => h a ha List.not_mem_nil

-- from here on memory is known by the lemmas above
attribute [irreducible] cell store

end Memory

end HackStack
