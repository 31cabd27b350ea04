/-
# Occurrences of a pattern in a text

The first position of a pattern, and how many of its positions a search finds that goes on behind
each of them.  That search finds two when there are two that do not overlap.
-/

import Mathlib.Data.List.Infix

namespace PiOxidized.Math

open List

universe u

variable {X : Type u} [BEq X] [LawfulBEq X] {pattern text : List X} {i : Nat}

/-- The first position of a pattern. -/
def findIndex (pattern : List X) : List X → Option Nat
  | [] => if pattern.isEmpty then some 0 else none
  | c :: text =>
    if pattern.isPrefixOf (c :: text) then some 0 else (findIndex pattern text).map (· + 1)

/-- How many positions of a pattern are found behind some that are skipped, when the search goes
on behind each of them. -/
def countDisjoint (pattern : List X) (skip : Nat) : List X → Nat
  | [] => 0
  | c :: text =>
    match skip with
    | skip + 1 => countDisjoint pattern skip text
    | 0 =>
      if pattern.isPrefixOf (c :: text) then 1 + countDisjoint pattern (pattern.length - 1) text
      else countDisjoint pattern 0 text

/-- The pattern stands at one position of the text and at no other. -/
def OccursOnlyAt (pattern text : List X) (i : Nat) : Prop :=
  pattern <+: text.drop i ∧ ∀ j, pattern <+: text.drop j → j = i

/-- The pattern stands at two positions that overlap. -/
def Overlapping (pattern text : List X) : Prop :=
  ∃ i j, i < j ∧ j < i + pattern.length ∧ pattern <+: text.drop i ∧ pattern <+: text.drop j

/-- The pattern stands at two positions that do not overlap. -/
def TwoApart (pattern text : List X) : Prop :=
  ∃ i j, i + pattern.length ≤ j ∧ pattern <+: text.drop i ∧ pattern <+: text.drop j

/-! ## The first position -/

theorem findIndex_eq_some (h : findIndex pattern text = some i) :
    i ≤ text.length ∧ pattern <+: text.drop i ∧ ∀ j < i, ¬ pattern <+: text.drop j := by
  induction text generalizing i with
  | nil =>
    rw [findIndex] at h
    split_ifs at h with hemp
    rw [← Option.some.inj h, isEmpty_iff.mp hemp]
    exact ⟨le_rfl, nil_prefix, fun j hj => absurd hj (Nat.not_lt_zero j)⟩
  | cons c text ih =>
    rw [findIndex] at h
    split_ifs at h with hpref
    · rw [← Option.some.inj h]
      exact ⟨Nat.zero_le _, isPrefixOf_iff_prefix.mp hpref,
        fun j hj => absurd hj (Nat.not_lt_zero j)⟩
    · obtain ⟨k, hk, hi⟩ := Option.map_eq_some_iff.mp h
      obtain ⟨hle, hocc, hfst⟩ := ih hk
      rw [← hi]
      refine ⟨Nat.succ_le_succ hle, hocc, ?_⟩
      intro j hj
      cases j with
      | zero => exact fun hzero => hpref ( isPrefixOf_iff_prefix.mpr hzero)
      | succ j => exact hfst j (Nat.lt_of_succ_lt_succ hj)

theorem findIndex_eq_none (h : findIndex pattern text = none) (hi : i ≤ text.length) :
    ¬ pattern <+: text.drop i := by
  induction text generalizing i with
  | nil =>
    rw [findIndex] at h
    split_ifs at h with hemp
    rw [drop_nil, prefix_nil]
    exact fun hnil => hemp (isEmpty_iff.mpr hnil)
  | cons c text ih =>
    rw [findIndex] at h
    split_ifs at h with hpref
    cases i with
    | zero => exact fun hzero => hpref ( isPrefixOf_iff_prefix.mpr hzero)
    | succ i => exact ih (Option.map_eq_none_iff.mp h) (Nat.le_of_succ_le_succ hi)

theorem isSome_findIndex_iff : (findIndex pattern text).isSome = true ↔ pattern <:+: text := by
  constructor
  · intro h
    obtain ⟨i, hi⟩ := Option.isSome_iff_exists.mp h
    obtain ⟨rest, hrest⟩ := (findIndex_eq_some hi).2.1
    exact ⟨text.take i, rest, by rw [append_assoc, hrest, take_append_drop]⟩
  · rintro ⟨before, after, rfl⟩
    by_contra hnone
    rw [Option.not_isSome_iff_eq_none] at hnone
    apply @findIndex_eq_none X _ _ pattern _ before.length hnone
    · rw [append_assoc, length_append]
      exact Nat.le_add_right _ _
    · rw [append_assoc, drop_left]
      exact prefix_append pattern after

omit [BEq X] [LawfulBEq X] in
/-- The end of a pattern lies in the text. -/
theorem add_length_le (h : pattern <+: text.drop i) (hi : i ≤ text.length) :
    i + pattern.length ≤ text.length := by
  have hlen := h.length_le
  rw [length_drop] at hlen
  omega

omit [BEq X] [LawfulBEq X] in
/-- A pattern that is not empty has no position at the end of the text. -/
theorem lt_length_of_prefix_drop (hpat : pattern ≠ []) (h : pattern <+: text.drop i) :
    i < text.length := by
  by_contra hge
  rw [drop_eq_nil_of_le (Nat.le_of_not_lt hge), prefix_nil] at h
  exact hpat h

/-! ## Positions that do not overlap -/

omit [LawfulBEq X] in
theorem countDisjoint_skip (skip : Nat) (text : List X) :
    countDisjoint pattern skip text = countDisjoint pattern 0 (text.drop skip) := by
  induction skip generalizing text with
  | zero => rfl
  | succ skip ih =>
    cases text with
    | nil => rfl
    | cons c text =>
      rw [drop_succ_cons, ← ih]
      rfl

/-- The search finds a position when there is one. -/
theorem countDisjoint_pos_iff (hpat : pattern ≠ []) :
    0 < countDisjoint pattern 0 text ↔ ∃ i, pattern <+: text.drop i := by
  induction text with
  | nil =>
    constructor
    · intro h
      cases h
    · rintro ⟨i, hi⟩
      rw [drop_nil, prefix_nil] at hi
      exact absurd hi hpat
  | cons c text ih =>
    rw [countDisjoint]
    split_ifs with hpref
    · exact iff_of_true (by omega) ⟨0, isPrefixOf_iff_prefix.mp hpref⟩
    · rw [ih]
      constructor
      · rintro ⟨i, hi⟩
        exact ⟨i + 1, hi⟩
      · rintro ⟨i, hi⟩
        cases i with
        | zero => exact absurd ( isPrefixOf_iff_prefix.mpr hi) hpref
        | succ i => exact ⟨i, hi⟩

/-- The search finds two positions when there are two that do not overlap. -/
theorem two_le_countDisjoint_iff (hpat : pattern ≠ []) :
    2 ≤ countDisjoint pattern 0 text ↔ TwoApart pattern text := by
  unfold TwoApart
  have hlen := length_pos_iff.mpr hpat
  induction text with
  | nil =>
    constructor
    · intro h
      cases h
    · rintro ⟨i, j, -, hi, -⟩
      rw [drop_nil, prefix_nil] at hi
      exact absurd hi hpat
  | cons c text ih =>
    rw [countDisjoint]
    split_ifs with hpref
    · have htail : 2 ≤ 1 + countDisjoint pattern (pattern.length - 1) text ↔
          0 < countDisjoint pattern 0 (text.drop (pattern.length - 1)) := by
        rw [countDisjoint_skip]
        omega
      rw [htail, countDisjoint_pos_iff hpat]
      constructor
      · rintro ⟨i, hi⟩
        refine ⟨0, pattern.length + i, by omega, isPrefixOf_iff_prefix.mp hpref, ?_⟩
        rw [drop_drop] at hi
        have hshift : pattern.length + i = pattern.length - 1 + i + 1 := by omega
        rwa [hshift, drop_succ_cons]
      · -- the later of the two lies behind the first position of all
        rintro ⟨i, j, hij, -, hj⟩
        refine ⟨j - pattern.length, ?_⟩
        rw [drop_drop]
        have hshift : j = pattern.length - 1 + (j - pattern.length) + 1 := by omega
        rwa [hshift, drop_succ_cons] at hj
    · refine ih.trans ?_
      constructor
      · rintro ⟨i, j, hij, hi, hj⟩
        exact ⟨i + 1, j + 1, by omega, hi, hj⟩
      · rintro ⟨i, j, hij, hi, hj⟩
        cases i with
        | zero => exact absurd ( isPrefixOf_iff_prefix.mpr hi) hpref
        | succ i =>
          cases j with
          | zero => omega
          | succ j => exact ⟨i, j, by omega, hi, hj⟩

/-! ## One position -/

omit [BEq X] [LawfulBEq X] in
/-- A pattern occurs at one position when it occurs, and at no two positions that overlap or lie
apart. -/
theorem occursOnlyAt_iff (hpat : pattern ≠ []) (h : pattern <+: text.drop i) :
    OccursOnlyAt pattern text i ↔ ¬ Overlapping pattern text ∧ ¬ TwoApart pattern text := by
  have hlen := length_pos_iff.mpr hpat
  constructor
  · rintro ⟨-, honly⟩
    constructor
    · rintro ⟨j, k, hlt, -, hj, hk⟩
      rw [honly j hj, honly k hk] at hlt
      exact absurd hlt (Nat.lt_irrefl i)
    · rintro ⟨j, k, hle, hj, hk⟩
      rw [honly j hj, honly k hk] at hle
      omega
  · rintro ⟨hoverlapping, hapart⟩
    -- two positions in some order overlap or lie apart
    have hnone : ∀ j k, j < k → pattern <+: text.drop j → ¬ pattern <+: text.drop k := by
      intro j k hlt hj hk
      by_cases hover : k < j + pattern.length
      · exact hoverlapping ⟨j, k, hlt, hover, hj, hk⟩
      · exact hapart ⟨j, k, Nat.le_of_not_lt hover, hj, hk⟩
    refine ⟨h, fun j hj => ?_⟩
    rcases Nat.lt_trichotomy j i with hlt | heq | hlt
    · exact absurd h (hnone j i hlt hj)
    · exact heq
    · exact absurd hj (hnone i j hlt h)

end PiOxidized.Math
