/-
# The lines that a range touches

Lines follow each other, and each begins where the one before it ends.  A range that lies in the
text begins in one line and ends in the same or a later one; these lines and those between them are
the lines that it touches.
-/

import PiOxidized.Tools.EditDiff

namespace PiOxidized.Tools

open List Math

/-- Where a line begins, which is where the lines before it end. -/
def lineStart (lines : List (List Char)) (k : Nat) : Nat := (lines.take k).flatten.length

/-- A range meets the text between two positions: it begins there, or it began before and reaches
into it. -/
def Meets (start stop : Nat) (range : Replacement Char) : Prop :=
  (start ≤ range.start ∧ range.start < stop) ∨ (range.start < start ∧ start < range.stop)

variable {lines : List (List Char)} {i j k s e matchIndex matchLength offset : Nat}

/-! ## Positions of lines -/

theorem lineStart_zero (lines : List (List Char)) : lineStart lines 0 = 0 := rfl

theorem lineStart_length (lines : List (List Char)) :
    lineStart lines lines.length = lines.flatten.length := by
  rw [lineStart, take_length]

theorem lineStart_cons_succ (line : List Char) (lines : List (List Char)) (k : Nat) :
    lineStart (line :: lines) (k + 1) = line.length + lineStart lines k := by
  rw [lineStart, take_succ_cons, flatten_cons, length_append, lineStart]

theorem lineStart_add (lines : List (List Char)) (j k : Nat) :
    lineStart lines (j + k) = lineStart lines j + lineStart (lines.drop j) k := by
  rw [lineStart, take_add, flatten_append, length_append, lineStart, lineStart]

theorem lineStart_mono (lines : List (List Char)) (h : j ≤ k) :
    lineStart lines j ≤ lineStart lines k := by
  obtain ⟨d, rfl⟩ := Nat.exists_eq_add_of_le h
  rw [lineStart_add]
  exact Nat.le_add_right _ _

/-- Every position in the text lies in a line. -/
theorem exists_line (h : i < lines.flatten.length) :
    ∃ k < lines.length, lineStart lines k ≤ i ∧ i < lineStart lines (k + 1) := by
  induction lines generalizing i with
  | nil => exact absurd h (Nat.not_lt_zero i)
  | cons line lines ih =>
    by_cases hline : i < line.length
    · exact ⟨0, by simp, Nat.zero_le i, by rwa [lineStart_cons_succ, lineStart_zero]⟩
    · rw [flatten_cons, length_append] at h
      obtain ⟨k, hk, hsta, hstop⟩ := ih (i := i - line.length) (by omega)
      refine ⟨k + 1, by simpa using hk, ?_, ?_⟩
      · rw [lineStart_cons_succ]
        omega
      · rw [lineStart_cons_succ]
        omega

theorem getElem?_lineSpans (lines : List (List Char)) (offset k : Nat) :
    (lineSpans offset lines)[k]? = if k < lines.length then
        some ⟨offset + lineStart lines k, offset + lineStart lines (k + 1)⟩ else none := by
  induction lines generalizing offset k with
  | nil => rfl
  | cons line lines ih =>
    rw [lineSpans]
    cases k with
    | zero =>
      rw [getElem?_cons_zero, if_pos (by simp), lineStart_cons_succ]
      rfl
    | succ k =>
      rw [getElem?_cons_succ, ih, lineStart_cons_succ, lineStart_cons_succ]
      simp only [length_cons, Nat.add_lt_add_iff_right, Nat.add_assoc]

theorem length_lineSpans (lines : List (List Char)) (offset : Nat) :
    (lineSpans offset lines).length = lines.length := by
  induction lines generalizing offset with
  | nil => rfl
  | cons line lines ih => rw [lineSpans, length_cons, ih, length_cons]

theorem getElem_lineSpans (h : k < (lineSpans offset lines).length) : (lineSpans offset lines)[k] =
      ⟨offset + lineStart lines k, offset + lineStart lines (k + 1)⟩ := by
  have hget := getElem?_lineSpans lines offset k
  rw [length_lineSpans] at h
  rw [if_pos h, getElem?_eq_some_iff] at hget
  exact hget.2

/-! ## Lines of a range -/

/-- The range begins in the first of the lines, ends in the last one, and reaches into all of
them. -/
structure Touches (lines : List (List Char)) (matchIndex matchLength s e : Nat) : Prop where
  lt : s < e
  le_length : e ≤ lines.length
  start_le : lineStart lines s ≤ matchIndex
  lt_stop : matchIndex < lineStart lines (s + 1)
  stop_le : matchIndex + matchLength ≤ lineStart lines e
  reaches : ∀ k, s < k → k < e → lineStart lines k < matchIndex + matchLength

theorem touches_of_getReplacementLineRange
    (h : getReplacementLineRange (lineSpans 0 lines) matchIndex matchLength = .ok (s, e)) :
    Touches lines matchIndex matchLength s e := by
  rw [getReplacementLineRange] at h
  split at h
  · cases h
  · rename_i first hfst
    split at h
    · cases h
    · rename_i more hmore
      obtain ⟨rfl, rfl⟩ := Prod.mk.inj (Except.ok.inj h)
      obtain ⟨hlt, hin, -⟩ := findIdx?_eq_some_iff_getElem.mp hfst
      obtain ⟨hmoreLt, hend, hpre⟩ := findIdx?_eq_some_iff_getElem.mp hmore
      rw [getElem_lineSpans, Bool.and_eq_true, decide_eq_true_iff, decide_eq_true_iff,
        Nat.zero_add, Nat.zero_add] at hin
      rw [getElem_drop, getElem_lineSpans, decide_eq_true_iff] at hend
      dsimp only at hend
      rw [Nat.zero_add] at hend
      rw [length_drop, length_lineSpans] at hmoreLt
      refine ⟨by omega, by omega, hin.1, hin.2, hend, ?_⟩
      intro k hs hk
      have hearl := hpre (k - 1 - first) (by omega)
      rw [getElem_drop, getElem_lineSpans, decide_eq_true_iff] at hearl
      dsimp only at hearl
      rw [Nat.zero_add, Nat.not_le] at hearl
      have hidx : first + (k - 1 - first) + 1 = k := by omega
      rwa [hidx] at hearl

/-- A range of the text that begins in front of its end touches lines. -/
theorem exists_getReplacementLineRange (hsta : matchIndex < lines.flatten.length)
    (hstop : matchIndex + matchLength ≤ lines.flatten.length) :
    ∃ s e, getReplacementLineRange (lineSpans 0 lines) matchIndex matchLength = .ok (s, e) := by
  obtain ⟨k, hk, hbegins, hends⟩ := exists_line hsta
  rw [getReplacementLineRange]
  cases hfst : (lineSpans 0 lines).findIdx? fun line =>
      line.start ≤ matchIndex && matchIndex < line.stop with
  | none =>
    have hnone := findIdx?_eq_none_iff.mp hfst _
      (getElem_mem (l := lineSpans 0 lines) (by rwa [length_lineSpans]))
    rw [getElem_lineSpans] at hnone
    simp only [Nat.zero_add, Bool.and_eq_false_iff, decide_eq_false_iff_not] at hnone
    omega
  | some first =>
    obtain ⟨hlt, hin, -⟩ := findIdx?_eq_some_iff_getElem.mp hfst
    rw [length_lineSpans] at hlt
    dsimp only
    cases hmore : ((lineSpans 0 lines).drop first).findIdx? fun line =>
        matchIndex + matchLength ≤ line.stop with
    | none =>
      -- the last line ends with the text
      have hlen : lines.length - 1 - first < ((lineSpans 0 lines).drop first).length := by
        rw [length_drop, length_lineSpans]
        omega
      have hnone := findIdx?_eq_none_iff.mp hmore _ (getElem_mem hlen)
      rw [getElem_drop, getElem_lineSpans, decide_eq_false_iff_not] at hnone
      dsimp only at hnone
      rw [Nat.zero_add] at hnone
      have hlast : first + (lines.length - 1 - first) + 1 = lines.length := by omega
      rw [hlast, lineStart_length] at hnone
      exact absurd hstop hnone
    | some more => exact ⟨first, first + more + 1, rfl⟩

end PiOxidized.Tools
