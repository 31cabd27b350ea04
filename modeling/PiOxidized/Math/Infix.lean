/-
# Words inside a text

A word that is in neither of two texts is not in what they make with enough copies of one
letter between them, when the word neither begins nor ends with that letter.
-/

import Mathlib.Data.List.Infix

namespace PiOxidized.Math

open List

universe u

variable {X : Type u} {word left right middle : List X} {c : X} {n : Nat}

/-- A word inside a part is inside the whole. -/
theorem infix_append_of_infix (h : word <:+: middle) (left right : List X) :
    word <:+: left ++ (middle ++ right) := by
  have hmiddle : middle <:+: left ++ (middle ++ right) := ⟨left, right, append_assoc _ _ _⟩
  exact h.trans hmiddle

/-- Copies of a letter end with it. -/
theorem getLast?_of_replicate_eq_append {pre after : List X}
    (h : replicate n c = pre ++ after) (hne : pre ≠ []) : pre.getLast? = some c := by
  rw [getLast?_eq_some_getLast hne]
  congr 1
  apply eq_of_mem_replicate (n := n)
  rw [h]
  exact mem_append_left _ (getLast_mem hne)

/-- Copies of a letter begin with it. -/
theorem head?_of_replicate_eq_append {pre after : List X}
    (h : replicate n c = pre ++ after) (hne : after ≠ []) : after.head? = some c := by
  rw [head?_eq_some_head hne]
  congr 1
  apply eq_of_mem_replicate (n := n)
  rw [h]
  exact mem_append_right _ (head_mem hne)

theorem not_infix_of_filler (hleft : ¬ word <:+: left) (hright : ¬ word <:+: right)
    (hfst : word.head? ≠ some c) (hlast : word.getLast? ≠ some c) (hlen : word.length < n) :
    ¬ word <:+: left ++ (replicate n c ++ right) := by
  rintro ⟨pre, after, heq⟩
  rw [append_assoc] at heq
  rcases append_eq_append_iff.mp heq with ⟨rest, hpre, hword⟩ | ⟨rest, hpre, hrest⟩
  · -- The word begins in the left text.
    rcases append_eq_append_iff.mp hword with ⟨tail, hin, -⟩ | ⟨tail, hout, hfill⟩
    · exact hleft ⟨pre, tail, by rw [hpre, hin, append_assoc]⟩
    · rcases append_eq_append_iff.mp hfill with ⟨rest, hover, -⟩ | ⟨rest, hcopies, -⟩
      · rw [hout, hover, length_append, length_append, length_replicate] at hlen
        omega
      · cases htail : tail with
        | nil =>
          rw [htail, append_nil] at hout
          exact hleft ⟨pre, [], by rw [hpre, hout, append_nil]⟩
        | cons letter more =>
          have hne : tail ≠ [] := by
            rw [htail]
            exact cons_ne_nil letter more
          rw [hout, getLast?_append_of_ne_nil _ hne] at hlast
          exact hlast (getLast?_of_replicate_eq_append hcopies hne)
  · -- The word begins behind the left text.
    rcases append_eq_append_iff.mp hrest with ⟨tail, -, hin⟩ | ⟨tail, hcopies, hout⟩
    · exact hright ⟨tail, after, by rw [hin, append_assoc]⟩
    · cases htail : tail with
      | nil =>
        rw [htail, nil_append] at hout
        exact hright ⟨[], after, by rw [nil_append, hout]⟩
      | cons letter more =>
        have hne : tail ≠ [] := by
          rw [htail]
          exact cons_ne_nil letter more
        have hword : word ≠ [] := by
          rintro rfl
          exact hleft nil_infix
        have hhead := congrArg head? hout
        rw [head?_append_of_ne_nil _ hword, head?_append_of_ne_nil _ hne] at hhead
        exact hfst (hhead.trans (head?_of_replicate_eq_append hcopies hne))

end PiOxidized.Math
