import HackStack.Proofs.Refusals
import Mathlib.Data.List.Nodup

/-!
# Modules in another order

The modules that declare the entry function come first in the code of a
program, wherever they were given. So the place of these modules among the
others does not matter: a program is the same for any two lists that have the
modules of either group in the same order (`Program.link_rearranged`).

What has to be looked at is everything that linking takes from the list: the
name of the program, the warnings, the decision about the bootstrap and the
scopes at the start all come from the first module, and this is the first one
*in the order of the code*. The errors about names are found in the order
given, so the statement is about modules without such errors.
-/

namespace HackStack

/-- In a list without repetitions no two elements come one before the other
both ways. -/
theorem not_sublist_swap {α : Type} {l : List α} (hl : l.Nodup) {a b : α}
    (h : [a, b].Sublist l) : ¬[b, a].Sublist l := by
  induction l with
  | nil => cases h
  | cons c l ih =>
    rw [List.nodup_cons] at hl
    rw [List.cons_sublist_cons', List.singleton_sublist] at h
    rw [List.cons_sublist_cons', List.singleton_sublist]
    rintro (hswap | ⟨rfl, ha⟩)
    · rcases h with h | ⟨rfl, hb⟩
      · exact ih hl.2 h hswap
      · exact hl.1 (hswap.subset (by simp))
    · rcases h with h | ⟨rfl, hb⟩
      · exact hl.1 (h.subset (by simp))
      · exact hl.1 hb

/-- The order of two elements of a group is that of the group. -/
theorem sublist_of_filter_eq {α : Type} {l l' : List α} {p : α → Bool}
    (h : l.filter p = l'.filter p) {a b : α} (ha : p a = true) (hb : p b = true)
    (hsub : [a, b].Sublist l) : [a, b].Sublist l' := by
  have hgroup := hsub.filter p
  rw [List.filter_eq_self.mpr (by simp [ha, hb]), h] at hgroup
  exact hgroup.trans List.filter_sublist

namespace Program

variable {modules modules' : List Module} {entry : Option String}

/-! ## The order of the code -/

theorem arrange_perm (modules : List Module) (entry : Option String) :
    (arrange modules entry).Perm modules :=
  List.filter_append_perm _ modules

theorem filter_arrange (modules : List Module) (entry : Option String) :
    (arrange modules entry).filter (·.declares entry) = modules.filter (·.declares entry) ∧
    (arrange modules entry).filter (!·.declares entry) = modules.filter (!·.declares entry) := by
  simp [arrange, List.filter_append, List.filter_filter]

/-- Modules in the order of their code stay in it. -/
theorem arrange_arrange (modules : List Module) (entry : Option String) :
    arrange (arrange modules entry) entry = arrange modules entry := by
  obtain ⟨hfirst, hrest⟩ := filter_arrange modules entry
  rw [arrange, hfirst, hrest, arrange]

/-- **Modules that were put in another order, but each group in its own.** Of
two modules that both declare the entry function, or both do not, the one that
came first still does. -/
structure Rearranged (entry : Option String) (modules modules' : List Module) : Prop where
  perm : modules'.Perm modules
  inOrder : ∀ a b : Module, a.declares entry = b.declares entry →
    [a, b].Sublist modules → [a, b].Sublist modules'

/-- A group is the same list before and after. -/
theorem Rearranged.filter_eq (h : Rearranged entry modules modules') (hnodup : modules.Nodup)
    {p : Module → Bool}
    (hp : ∀ a b : Module, p a = true → p b = true → a.declares entry = b.declares entry) :
    modules.filter p = modules'.filter p := by
  have hnodup' : modules'.Nodup := h.perm.nodup_iff.mpr hnodup
  -- both are in the order of the second list, and this is an order
  refine @List.Perm.eq_of_pairwise Module (fun a b => [a, b].Sublist modules') _ _
    (fun a b _ _ hab hba => absurd hba (not_sublist_swap hnodup' hab)) ?_ ?_ (h.perm.symm.filter p)
  · rw [List.pairwise_iff_forall_sublist]
    intro a b hab
    have ha := (List.mem_filter.mp (hab.subset (by simp : a ∈ [a, b]))).2
    have hb := (List.mem_filter.mp (hab.subset (by simp : b ∈ [a, b]))).2
    exact h.inOrder a b (hp a b ha hb) (hab.trans List.filter_sublist)
  · rw [List.pairwise_iff_forall_sublist]
    intro a b hab
    exact hab.trans List.filter_sublist

/-- **The order of the code is what such lists have in common.** -/
theorem rearranged_iff (hnodup : modules.Nodup) :
    Rearranged entry modules modules' ↔ arrange modules' entry = arrange modules entry := by
  constructor
  · intro h
    have hfirst := h.filter_eq hnodup (p := (·.declares entry)) fun a b ha hb => ha.trans hb.symm
    have hrest := h.filter_eq hnodup (p := (!·.declares entry)) fun a b ha hb => by
      rw [Bool.not_eq_true'] at ha hb
      rw [ha, hb]
    rw [arrange, arrange, hfirst, hrest]
  · intro h
    obtain ⟨hfirst, hrest⟩ := filter_arrange modules entry
    obtain ⟨hfirst', hrest'⟩ := filter_arrange modules' entry
    rw [h, hfirst] at hfirst'
    rw [h, hrest] at hrest'
    refine ⟨?_, fun a b hab hsub => ?_⟩
    · exact (arrange_perm modules' entry).symm.trans (h ▸ arrange_perm modules entry)
    · cases hb : b.declares entry with
      | true => exact sublist_of_filter_eq hfirst' (hab.trans hb) hb hsub
      | false =>
        rw [hb] at hab
        exact sublist_of_filter_eq hrest' (by rw [hab]; rfl) (by rw [hb]; rfl) hsub

/-! ## Linking -/

/-- Linking sees no more of sound modules than the order of their code. -/
theorem link_congr {o : LinkOptions} (hperm : modules'.Perm modules)
    (harrange : arrange modules' o.entry = arrange modules o.entry)
    (hnodup : (modules.map Module.name).Nodup)
    (hhalt : ∀ m ∈ modules, m.declares o.haltLabel = false) :
    link modules' o = link modules o := by
  by_cases hne : modules = []
  · subst hne
    rw [hperm.eq_nil]
  · have hne' : modules' ≠ [] := fun h => hne (h ▸ hperm).nil_eq.symm
    obtain ⟨first, rest, hfirst, hlink⟩ := link_eq_linkArranged hne hnodup hhalt
    obtain ⟨first', rest', hfirst', hlink'⟩ := link_eq_linkArranged (o := o) hne'
      ((hperm.map Module.name).nodup_iff.mpr hnodup) fun m hm => hhalt m (hperm.mem_iff.mp hm)
    rw [harrange, hfirst] at hfirst'
    obtain ⟨rfl, rfl⟩ := List.cons.inj hfirst'
    rw [hlink, hlink']

/-- **The place of the entry module does not matter.** Let modules have names
of their own and no function with the name of the final loop. However they are
rearranged, as long as the modules that declare the entry function keep their
order and the others keep theirs, linking comes to the same program, or to the
same error, whatever its options; in particular the modules may be put in the
order of the code before. That order is a rearrangement of any modules, and
putting them in it twice changes nothing more. -/
theorem link_rearranged {o : LinkOptions} (h : Rearranged o.entry modules modules')
    (hnodup : (modules.map Module.name).Nodup)
    (hhalt : ∀ m ∈ modules, m.declares o.haltLabel = false) :
    link modules' o = link modules o ∧
    link (arrange modules o.entry) o = link modules o ∧
    ∀ (ms : List Module) (entry : Option String),
      (arrange ms entry).Perm ms ∧ arrange (arrange ms entry) entry = arrange ms entry := by
  have harrange := (rearranged_iff (List.Nodup.of_map _ hnodup)).mp h
  refine ⟨link_congr h.perm harrange hnodup hhalt, ?_, fun ms entry => ?_⟩
  · exact link_congr (arrange_perm modules o.entry) (arrange_arrange modules o.entry) hnodup hhalt
  · exact ⟨arrange_perm ms entry, arrange_arrange ms entry⟩

end Program

namespace Sample

/-- A module that compares, so that its labels are numbered. -/
def comparing : Module where
  name := some "A"
  commands := [⟨.function (.text "A.f") (.int 0), 1, some "A"⟩, ⟨.arithmetic "eq", 2, some "A"⟩,
    ⟨.ret, 3, some "A"⟩]

/-- A module with the entry function, which compares before it is declared. -/
def starting : Module where
  name := some "Sys"
  commands := [⟨.arithmetic "lt", 1, some "Sys"⟩, ⟨.pop "static" (.int 0), 2, some "Sys"⟩,
    ⟨.function (.text "Sys.init") (.int 0), 3, some "Sys"⟩,
    ⟨.call (.text "A.f") (.int 0), 4, some "Sys"⟩]

/-- A module without a function. -/
def trailing : Module where
  name := some "B"
  commands := [⟨.push "static" (.int 1), 1, some "B"⟩, ⟨.label (.text "L"), 2, some "B"⟩]

end Sample

/-- The module with the entry function is given last, or else in between;
without the bootstrap it gives the program its name. -/
theorem Program.link_rearranged_sample :
    Rearranged (some "Sys.init") [Sample.comparing, Sample.starting, Sample.trailing]
      [Sample.comparing, Sample.trailing, Sample.starting] ∧
    link [Sample.comparing, Sample.trailing, Sample.starting] { bootstrap := .never }
      = link [Sample.comparing, Sample.starting, Sample.trailing] { bootstrap := .never } ∧
    link [Sample.starting, Sample.comparing, Sample.trailing] { bootstrap := .never }
      = link [Sample.comparing, Sample.starting, Sample.trailing] { bootstrap := .never } := by
  have h : Rearranged (some "Sys.init") [Sample.comparing, Sample.starting, Sample.trailing]
      [Sample.comparing, Sample.trailing, Sample.starting] :=
    (rearranged_iff (by decide)).mpr (by decide)
  obtain ⟨hlink, harranged, -⟩ :=
    link_rearranged (o := { bootstrap := .never }) h (by decide) (by decide)
  exact ⟨h, hlink, harranged⟩

end HackStack
