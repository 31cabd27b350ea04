/-
# Terminated lines

A text of lines, each closed by a separator, with an open rest after the last one:
how the closed lines are told from the rest.
-/

import Mathlib.Data.List.Basic
import Mathlib.Data.List.Flatten

namespace PiOxidized.Math

open List

universe u

variable {X : Type u} [BEq X] [LawfulBEq X] {sep : X} {lines : List (List X)} {rest : List X}

/-- Lines, each closed by the separator. -/
def terminated (sep : X) (lines : List (List X)) : List X := lines.flatMap (· ++ [sep])

omit [BEq X] [LawfulBEq X] in
theorem terminated_append (sep : X) (lines more : List (List X)) :
    terminated sep (lines ++ more) = terminated sep lines ++ terminated sep more :=
  flatMap_append

omit [BEq X] [LawfulBEq X] in
theorem terminated_cons (sep : X) (line : List X) (lines : List (List X)) :
    terminated sep (line :: lines) = line ++ [sep] ++ terminated sep lines := rfl

omit [BEq X] [LawfulBEq X] in
/-- The last separator closes the joined lines. -/
theorem terminated_eq_intercalate (sep : X) (hlines : lines ≠ []) :
    terminated sep lines = [sep].intercalate lines ++ [sep] := by
  induction lines with
  | nil => exact absurd rfl hlines
  | cons line lines ih =>
    cases lines with
    | nil => simp [terminated, intercalate]
    | cons next lines =>
      rw [terminated_cons, ih (cons_ne_nil _ _), intercalate_cons_cons]
      simp only [append_assoc]

/-- The lines before the last separator. -/
theorem splitOn_terminated (hlines : lines ≠ []) (hsep : ∀ line ∈ lines, sep ∉ line) :
    (terminated sep lines).dropLast.splitOn sep = lines := by
  rw [terminated_eq_intercalate sep hlines, dropLast_concat]
  exact splitOn_intercalate sep hsep hlines

omit [BEq X] [LawfulBEq X] in
theorem getLast?_terminated (sep : X) (hlines : lines ≠ []) :
    (terminated sep lines).getLast? = some sep := by
  rw [terminated_eq_intercalate sep hlines, getLast?_concat]

/-- What stands before the last separator, when something open follows it. -/
theorem dropWhile_reverse_terminated (hlines : lines ≠ []) (hrest : sep ∉ rest) :
    (terminated sep lines ++ rest).reverse.dropWhile (fun c => c != sep) =
      (terminated sep lines).reverse := by
  rw [reverse_append]
  have hall : ∀ c ∈ rest.reverse, (c != sep) = true := by
    intro c hc
    rw [bne_iff_ne]
    rintro rfl
    exact hrest (mem_reverse.mp hc)
  rw [dropWhile_append_of_pos hall, terminated_eq_intercalate sep hlines,
    reverse_append, reverse_singleton, singleton_append]
  exact dropWhile_cons_of_neg (by simp)

/-- No piece between separators holds one. -/
theorem not_mem_of_mem_splitOn {text line : List X} (h : line ∈ text.splitOn sep) : sep ∉ line := by
  induction text generalizing line with
  | nil =>
    rw [splitOn_nil, mem_singleton] at h
    subst h
    exact not_mem_nil
  | cons c text ih =>
    rw [splitOn_cons_eq_if_modifyHead] at h
    split_ifs at h with hc
    · rcases mem_cons.mp h with rfl | h
      · exact not_mem_nil
      · exact ih h
    · cases hsplit : text.splitOn sep with
      | nil => exact absurd hsplit (splitOn_ne_nil sep text)
      | cons head tail =>
        rw [hsplit] at ih
        rw [hsplit, modifyHead_cons] at h
        rcases mem_cons.mp h with rfl | h
        · intro hmem
          rcases mem_cons.mp hmem with rfl | hmem
          · exact hc (beq_self_eq_true sep)
          · exact ih mem_cons_self hmem
        · exact ih (mem_cons_of_mem _ h)

/-- A text that ends with a separator is its lines, each closed. -/
theorem terminated_splitOn (sep : X) (text : List X) :
    terminated sep (text.splitOn sep) = text ++ [sep] := by
  rw [terminated_eq_intercalate sep (splitOn_ne_nil sep text), intercalate_splitOn]

end PiOxidized.Math
