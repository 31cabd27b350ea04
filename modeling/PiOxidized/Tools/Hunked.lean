/-
# The lines of the hunks

The hunks cover all changes.  The lines in front of the first hunk, between two hunks and behind the
last one are context, and between two hunks there is at least one line.
-/

import PiOxidized.Tools.Patch
import Mathlib.Data.List.Chain

namespace PiOxidized.Tools

open List

variable {lines : List PatchLine} {start stop first last change contextLines : Nat}

/-- The lines from one position up to another are context. -/
def ContextBetween (lines : List PatchLine) (start stop : Nat) : Prop :=
  ∀ line ∈ (lines.take stop).drop start, line.isContext = true

/-- The changes are the lines from a position on that are not context. -/
def ChangesAt (lines : List PatchLine) (start : Nat) : List Nat → Prop
  | [] => ContextBetween lines start lines.length
  | change :: changes =>
    start ≤ change ∧ change < lines.length ∧ ContextBetween lines start change ∧
      ChangesAt lines (change + 1) changes

/-- The bounds follow each other from a position on, and all lines that are not between bounds are
context. -/
def Covers (lines : List PatchLine) (start : Nat) : List (Nat × Nat) → Prop
  | [] => start ≤ lines.length ∧ ContextBetween lines start lines.length
  | bounds :: rest =>
    start ≤ bounds.1 ∧ bounds.1 < bounds.2 ∧ bounds.2 ≤ lines.length ∧
      ContextBetween lines start bounds.1 ∧ Covers lines bounds.2 rest

/-! ## Context -/

variable {changes : List Nat} {line : PatchLine}

theorem ContextBetween.mono {start' stop' : Nat} (h : ContextBetween lines start stop)
    (hsta : start ≤ start') (hstop : stop' ≤ stop) : ContextBetween lines start' stop' := by
  intro line hline
  apply h line
  obtain ⟨k, hk⟩ := mem_iff_getElem?.mp hline
  rw [getElem?_drop, getElem?_take] at hk
  split_ifs at hk with hlt
  apply mem_iff_getElem?.mpr
  refine ⟨start' + k - start, ?_⟩
  have hidx : start + (start' + k - start) = start' + k := by omega
  rw [getElem?_drop, hidx, getElem?_take, if_pos (by omega)]
  exact hk

theorem contextBetween_self (lines : List PatchLine) (start : Nat) :
    ContextBetween lines start start := by
  intro line hline
  rw [drop_eq_nil_of_le (length_take_le _ _)] at hline
  cases hline

/-- A line of context in front of lines of context. -/
theorem ContextBetween.cons (h : ContextBetween lines (start + 1) stop)
    (hget : lines[start]? = some line) (hline : line.isContext = true) :
    ContextBetween lines start stop := by
  intro other hoth
  obtain ⟨k, hk⟩ := mem_iff_getElem?.mp hoth
  cases k with
  | zero =>
    rw [getElem?_drop, getElem?_take, Nat.add_zero] at hk
    split_ifs at hk
    rw [hget] at hk
    rw [← Option.some.inj hk]
    exact hline
  | succ k =>
    apply h other
    apply mem_iff_getElem?.mpr
    refine ⟨k, ?_⟩
    rw [getElem?_drop] at hk ⊢
    rwa [Nat.add_right_comm, Nat.add_assoc]

theorem ChangesAt.cons (h : ChangesAt lines (start + 1) changes) (hget : lines[start]? = some line)
    (hline : line.isContext = true) : ChangesAt lines start changes := by
  cases changes with
  | nil => exact ContextBetween.cons h hget hline
  | cons change changes => exact ⟨Nat.le_of_succ_le h.1, h.2.1, h.2.2.1.cons hget hline, h.2.2.2⟩

theorem changesAt_changesFrom (lines : List PatchLine) (start : Nat) :
    ChangesAt lines start (changesFrom start (lines.drop start)) := by
  cases hdrop : lines.drop start with
  | nil =>
    intro line hline
    rw [take_length, hdrop] at hline
    cases hline
  | cons line rest =>
    have hlt : start < lines.length := by
      by_contra hle
      rw [drop_eq_nil_of_le (Nat.le_of_not_lt hle)] at hdrop
      cases hdrop
    have hget : lines[start]? = some line := by
      have hzero := congrArg (·[0]?) hdrop
      rwa [getElem?_drop, Nat.add_zero] at hzero
    have hrest : rest = lines.drop (start + 1) := by
      rw [← tail_drop, hdrop, tail_cons]
    have hlater := changesAt_changesFrom lines (start + 1)
    rw [← hrest] at hlater
    rw [changesFrom]
    split_ifs with hctx
    · exact hlater.cons hget hctx
    · exact ⟨Nat.le_refl _, hlt, contextBetween_self lines start, hlater⟩
termination_by lines.length - start

/-! ## The walk over context -/

theorem walked_le (contextLines context : Nat) (lines : List PatchLine) :
    walked contextLines context lines ≤ lines.length := by
  induction lines generalizing context with
  | nil => exact Nat.le_refl 0
  | cons line lines ih =>
    have hmore := ih (context + 1)
    have hsame := ih context
    rw [walked, length_cons]
    split_ifs <;> omega

/-- The walk over more lines of context than are asked for takes as many as are. -/
theorem walked_context {before : List PatchLine} {context : Nat}
    (hpre : ∀ line ∈ before, line.isContext = true) (hle : context ≤ contextLines)
    (hlen : contextLines < context + before.length) (after : List PatchLine) :
    walked contextLines context (before ++ after) = contextLines - context := by
  induction before generalizing context with
  | nil => exact absurd hlen (Nat.not_lt_of_le hle)
  | cons line before ih =>
    obtain ⟨hline, hrest⟩ := forall_mem_cons.mp hpre
    rw [length_cons] at hlen
    rw [cons_append, walked, if_pos hline]
    split_ifs with heq
    · omega
    · rw [ih hrest (by omega) (by omega)]
      omega

/-- Between two groups the first one takes the context behind it and the second one the context in
front of it. -/
theorem contextBoundary_of_gap (contextLines : Nat) (hctx : ContextBetween lines start stop)
    (hstop : stop ≤ lines.length) (hgap : contextLines < stop - start) :
    contextBoundary lines start contextLines false = start + contextLines ∧
      contextBoundary lines stop contextLines true = stop - contextLines := by
  have hlen : ((lines.take stop).drop start).length = stop - start := by
    rw [length_drop, length_take, Nat.min_eq_left hstop]
  constructor
  · have hsplit : lines.drop start = (lines.take stop).drop start ++ lines.drop stop := by
      conv_lhs => rw [← take_append_drop stop lines]
      rw [drop_append_of_le_length]
      rw [length_take]
      omega
    rw [contextBoundary, if_neg Bool.false_ne_true, hsplit,
      walked_context hctx (Nat.zero_le _) (by omega)]
    rfl
  · have hsplit : lines.take stop = lines.take start ++ (lines.take stop).drop start := by
      conv_lhs => rw [← take_append_drop start (lines.take stop)]
      rw [take_take, Nat.min_eq_left (by omega)]
    have hreversed : ∀ line ∈ ((lines.take stop).drop start).reverse, line.isContext = true :=
      fun line hline => hctx line (mem_reverse.mp hline)
    rw [contextBoundary, if_pos rfl, hsplit, reverse_append,
      walked_context hreversed (Nat.zero_le _) (by rw [length_reverse]; omega)]
    rfl

/-! ## Groups -/

theorem boundary_le (lines : List PatchLine) (first contextLines : Nat) :
    contextBoundary lines first contextLines true ≤ first := Nat.sub_le _ _

theorem le_boundary (lines : List PatchLine) (start contextLines : Nat) :
    start ≤ contextBoundary lines start contextLines false := Nat.le_add_right _ _

theorem boundary_le_length (lines : List PatchLine) (h : start ≤ lines.length) (contextLines : Nat) :
    contextBoundary lines start contextLines false ≤ lines.length := by
  have hwalked := walked_le contextLines 0 (lines.drop start)
  rw [length_drop] at hwalked
  rw [contextBoundary, if_neg Bool.false_ne_true]
  omega

/-- How many lines there are between two changes in a row. -/
theorem unchangedBetween_eq (hctx : ContextBetween lines start change)
    (hchange : change ≤ lines.length) :
    ((lines.take change).drop start).countP PatchLine.isContext = change - start := by
  rw [countP_eq_length.mpr hctx, length_drop, length_take, Nat.min_eq_left hchange]

/-- The bounds of groups cover all lines that are not context, and leave lines between them. -/
structure Grouped (lines : List PatchLine) (start first : Nat) (bounds : List (Nat × Nat)) :
    Prop where
  covers : Covers lines start bounds
  head : ∀ bound ∈ bounds.head?, bound.1 = first
  apart : bounds.IsChain fun earlier later => earlier.2 < later.1

theorem grouped_groupChanges (contextLines : Nat) (hchanges : ChangesAt lines (last + 1) changes)
    (hle : first ≤ last) (hlast : last < lines.length)
    (hsta : start ≤ contextBoundary lines first contextLines true)
    (hctx : ContextBetween lines start (contextBoundary lines first contextLines true)) :
    Grouped lines start (contextBoundary lines first contextLines true)
      ((groupChanges lines contextLines first last changes).map
        (groupBounds lines contextLines)) := by
  have hfst := boundary_le lines first contextLines
  have hbeh := le_boundary lines (last + 1) contextLines
  have hins := boundary_le_length lines (Nat.succ_le_of_lt hlast) contextLines
  induction changes generalizing first last start with
  | nil =>
    refine ⟨⟨hsta, ?_, hins, hctx, hins, ?_⟩, ?_, List.IsChain.singleton _⟩
    · show contextBoundary lines first contextLines true <
        contextBoundary lines (last + 1) contextLines false
      omega
    · exact ContextBetween.mono hchanges hbeh (Nat.le_refl _)
    · intro bound hbound
      rw [← Option.some.inj hbound]
      rfl
  | cons change changes ih =>
    obtain ⟨hlater, hlt, hbetween, hrest⟩ := hchanges
    have hchange := boundary_le lines change contextLines
    have hchangeBehind := le_boundary lines (change + 1) contextLines
    have hchangeInside := boundary_le_length lines (Nat.succ_le_of_lt hlt) contextLines
    rw [groupChanges]
    rw [unchangedBetween_eq hbetween (Nat.le_of_lt hlt)]
    split_ifs with hgap
    · -- the context of the two groups does not use up the lines between them
      obtain ⟨hend, hbegin⟩ := contextBoundary_of_gap contextLines hbetween
        (Nat.le_of_lt hlt) (by omega)
      have hroom : contextBoundary lines (last + 1) contextLines false <
          contextBoundary lines change contextLines true := by omega
      have hnext := ih hrest (Nat.le_refl change) hlt (Nat.le_of_lt hroom)
        (hbetween.mono hbeh hchange) hchange hchangeBehind hchangeInside
      rw [map_cons]
      refine ⟨⟨hsta, ?_, hins, hctx, hnext.covers⟩, ?_, ?_⟩
      · show contextBoundary lines first contextLines true <
          contextBoundary lines (last + 1) contextLines false
        omega
      · intro bound hbound
        rw [← Option.some.inj hbound]
        rfl
      · apply List.IsChain.cons hnext.apart
        intro bound hbound
        rw [hnext.head bound hbound]
        exact hroom
    · exact ih hrest (by omega) hlt hsta hctx hfst hchangeBehind hchangeInside

end PiOxidized.Tools
