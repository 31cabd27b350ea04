/-
# Lines with their endings

A text is cut behind each separator; the last line has none when the text does not end with one.
-/

import Mathlib.Data.List.Basic
import Mathlib.Data.List.Flatten

namespace PiOxidized.Math

open List

universe u

variable {X : Type u} [DecidableEq X] {sep : X}

/-- The lines of a text, each with its separator. -/
def splitInclusive (sep : X) : List X → List (List X)
  | [] => []
  | c :: text =>
    if c = sep then [c] :: splitInclusive sep text
    else
      match splitInclusive sep text with
      | [] => [[c]]
      | line :: lines => (c :: line) :: lines

theorem flatten_splitInclusive (sep : X) (text : List X) :
    (splitInclusive sep text).flatten = text := by
  induction text with
  | nil => rfl
  | cons c text ih =>
    rw [splitInclusive]
    split_ifs
    · rw [flatten_cons, ih]
      rfl
    · cases hlines : splitInclusive sep text with
      | nil | cons =>
        rw [hlines] at ih
        rw [← ih]
        rfl

/-- A text without a separator is a line of its own. -/
theorem splitInclusive_of_not_mem {text : List X} (h : sep ∉ text) (hne : text ≠ []) :
    splitInclusive sep text = [text] := by
  induction text with
  | nil => exact absurd rfl hne
  | cons c text ih =>
    rw [mem_cons, not_or] at h
    rw [splitInclusive, if_neg fun heq => h.1 heq.symm]
    cases text with
    | nil => rfl
    | cons d text => rw [ih h.2 (cons_ne_nil _ _)]

/-- A line is cut behind its separator. -/
theorem splitInclusive_append {line : List X} (h : sep ∉ line) (text : List X) :
    splitInclusive sep (line ++ sep :: text) = (line ++ [sep]) :: splitInclusive sep text := by
  induction line with
  | nil => rw [nil_append, splitInclusive, if_pos rfl]; rfl
  | cons c line ih =>
    rw [mem_cons, not_or] at h
    rw [cons_append, splitInclusive, if_neg fun heq => h.1 heq.symm, ih h.2]
    rfl

end PiOxidized.Math
