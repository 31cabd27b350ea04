/-
# Longest common sublists

How the length of a longest common sublist of two lists changes when the lists grow at their ends:
it grows with an element that both end with, and is else the greater of the lengths without one of
the two last elements.
-/

import Mathlib.Data.List.Infix

namespace PiOxidized.Math

open List

universe u

variable {X : Type u} {as bs common : List X} {x y : X} {m n : Nat}

/-- The length of a longest list that is a sublist of both. -/
structure IsLcsLength (as bs : List X) (n : Nat) : Prop where
  exists_common : ∃ common : List X, common.Sublist as ∧ common.Sublist bs ∧ common.length = n
  le : ∀ common : List X, common.Sublist as → common.Sublist bs → common.length ≤ n

/-- A sublist of a list that ends with an element does not use it or ends with it. -/
theorem sublist_concat (h : common.Sublist (as ++ [x])) :
    common.Sublist as ∨ ∃ front, common = front ++ [x] ∧ front.Sublist as := by
  obtain ⟨front, last, rfl, hfront, hlast⟩ := sublist_append_iff.mp h
  cases last with
  | nil =>
    rw [append_nil]
    exact .inl hfront
  | cons z last =>
    have hlen := hlast.length_le
    have hz := hlast.subset mem_cons_self
    rw [length_cons, length_singleton] at hlen
    rw [length_eq_zero_iff.mp (Nat.le_zero.mp (Nat.le_of_succ_le_succ hlen)), mem_singleton.mp hz]
    exact .inr ⟨front, rfl, hfront⟩

theorem dropLast_sublist_of_concat (h : common.Sublist (as ++ [x])) :
    common.dropLast.Sublist as := by
  rcases sublist_concat h with h | ⟨front, rfl, h⟩
  · exact (dropLast_sublist common).trans h
  · rwa [dropLast_concat]

theorem IsLcsLength.unique (hm : IsLcsLength as bs m) (hn : IsLcsLength as bs n) : m = n := by
  obtain ⟨first, has, hbs, hlen⟩ := hm.exists_common
  obtain ⟨second, has', hbs', hlen'⟩ := hn.exists_common
  have hle := hn.le first has hbs
  have hge := hm.le second has' hbs'
  omega

theorem isLcsLength_nil_left (bs : List X) : IsLcsLength [] bs 0 where
  exists_common := ⟨[], List.Sublist.refl [], nil_sublist bs, rfl⟩
  le _ h _ := by rw [sublist_nil.mp h]; exact Nat.le_refl 0

theorem isLcsLength_nil_right (as : List X) : IsLcsLength as [] 0 where
  exists_common := ⟨[], nil_sublist as, List.Sublist.refl [], rfl⟩
  le _ _ h := by rw [sublist_nil.mp h]; exact Nat.le_refl 0

theorem isLcsLength_self (as : List X) : IsLcsLength as as as.length where
  exists_common := ⟨as, List.Sublist.refl as, List.Sublist.refl as, rfl⟩
  le _ h _ := h.length_le

/-- Lists that end with the same element. -/
theorem IsLcsLength.concat (h : IsLcsLength as bs n) (x : X) :
    IsLcsLength (as ++ [x]) (bs ++ [x]) (n + 1) where
  exists_common := by
    obtain ⟨common, has, hbs, hlen⟩ := h.exists_common
    refine ⟨common ++ [x], has.append (List.Sublist.refl _), hbs.append (List.Sublist.refl _), ?_⟩
    rw [length_append, hlen, length_singleton]
  le := by
    intro common has hbs
    have hshorter := h.le common.dropLast (dropLast_sublist_of_concat has)
      (dropLast_sublist_of_concat hbs)
    rw [length_dropLast] at hshorter
    omega

/-- Lists that end with different elements. -/
theorem IsLcsLength.concat_ne (hne : x ≠ y) (hleft : IsLcsLength (as ++ [x]) bs n)
    (hright : IsLcsLength as (bs ++ [y]) m) :
    IsLcsLength (as ++ [x]) (bs ++ [y]) (max n m) where
  exists_common := by
    rcases Nat.le_total m n with hle | hle
    · obtain ⟨common, has, hbs, hlen⟩ := hleft.exists_common
      exact ⟨common, has, hbs.trans (sublist_append_left _ _), by omega⟩
    · obtain ⟨common, has, hbs, hlen⟩ := hright.exists_common
      exact ⟨common, has.trans (sublist_append_left _ _), hbs, by omega⟩
  le := by
    intro common has hbs
    rcases sublist_concat has with hwithout | ⟨front, rfl, -⟩
    · exact Nat.le_trans (hright.le common hwithout hbs) (Nat.le_max_right n m)
    · rcases sublist_concat hbs with hwithout | ⟨other, heq, -⟩
      · exact Nat.le_trans (hleft.le _ has hwithout) (Nat.le_max_left n m)
      · exact absurd (cons.inj (append_inj_right' heq rfl)).1 hne

end PiOxidized.Math
