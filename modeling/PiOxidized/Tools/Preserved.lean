/-
# Edits that keep the lines they do not touch

After a fuzzy match the edits are applied to the normalized content, but the lines that no range
touches are written as they were: each maximal run of touched lines is replaced by its normalized
text with the ranges replaced.

The line numbers of the content and of the normalized content agree unless the text behind the last
newline is not empty and nothing but whitespace.  Edits that are found and do not overlap are
written exactly when they agree and the content is not empty.
-/

import PiOxidized.Tools.Grouped
import PiOxidized.Tools.Matched
import PiOxidized.Tools.Normalized

namespace PiOxidized.Tools

open List Math

variable (nfkc : List Char → List Char) (content : List Char)

/-- Where a line begins in the normalized content. -/
def normalizedStart (k : Nat) : Nat :=
  (normalizeForFuzzyMatch nfkc ((splitLinesWithEndings content).take k).flatten).length

/-- The lines of the content as they are, but for the runs, whose lines are normalized and have
their ranges replaced. -/
def writeTouched (start : Nat) : List TouchedRun → List Char
  | [] => ((splitLinesWithEndings content).drop start).flatten
  | run :: runs =>
    (((splitLinesWithEndings content).take run.first).drop start).flatten ++
      splice (normalizedStart nfkc content run.first) (normalizeForFuzzyMatch nfkc
          (((splitLinesWithEndings content).take run.last).drop run.first).flatten)
        run.ranges ++
        writeTouched run.last runs

/-- The runs are the maximal runs of lines that a range touches, and hold all the ranges. -/
structure MaximalRuns (ranges : List (Replacement Char)) (runs : List TouchedRun) : Prop where
  inside : ∀ run ∈ runs, run.first < run.last ∧ run.last ≤ (splitLinesWithEndings content).length ∧
      Ordered (normalizedStart nfkc content run.first) (normalizedStart nfkc content run.last)
        run.ranges
  apart : runs.IsChain fun earlier later => earlier.last < later.first
  touched : ∀ k < (splitLinesWithEndings content).length, (∃ range ∈ ranges,
      Meets (normalizedStart nfkc content k) (normalizedStart nfkc content (k + 1)) range) ↔
      ∃ run ∈ runs, run.first ≤ k ∧ k < run.last
  ranges : runs.flatMap TouchedRun.ranges = ranges

variable {nfkc content} {path : String} {edits : List Edit} {result : AppliedEditsResult}

/-! ## Ranges in the normalized content -/

variable {base : List Char}

/-- The range of a text that is not empty lies in the content, and begins in front of its end unless
there is no content. -/
theorem foundRange_inside {edit : Edit} (hset : normalizeForFuzzyMatch nfkc base = base)
    (hold : edit.oldText ≠ []) (hfnd : (fuzzyFindText nfkc base edit.oldText).isSome = true) :
    (foundRange nfkc base edit).stop ≤ base.length ∧
      (base ≠ [] → (foundRange nfkc base edit).start < base.length) := by
  rw [foundRange]
  cases hlit : findIndex edit.oldText base with
  | some index =>
    obtain ⟨hle, hocc, -⟩ := findIndex_eq_some hlit
    rw [fuzzyFindText, hlit]
    exact ⟨add_length_le hocc hle, fun _ => lt_length_of_prefix_drop hold hocc⟩
  | none =>
    rw [fuzzyFindText, hlit, hset] at hfnd ⊢
    dsimp only at hfnd ⊢
    cases hfuzzy : findIndex (normalizeForFuzzyMatch nfkc edit.oldText) base with
    | none =>
      rw [hfuzzy] at hfnd
      cases hfnd
    | some index =>
      obtain ⟨hle, hocc, hfst⟩ := findIndex_eq_some hfuzzy
      refine ⟨add_length_le hocc hle, fun hbase => ?_⟩
      by_cases hemp : normalizeForFuzzyMatch nfkc edit.oldText = []
      · -- the empty text is found at the begin
        rw [hemp] at hfst
        have hzero : index = 0 := by
          by_contra hpos
          exact hfst 0 (Nat.pos_of_ne_zero hpos) nil_prefix
        rw [hzero]
        exact length_pos_iff.mpr hbase
      · exact lt_length_of_prefix_drop hemp hocc

/-! ## Normalized lines -/

section

variable (hnfkc : Normalizes nfkc)

include hnfkc

theorem normalize_slice (content : List Char) (a b : Nat) :
    normalizeForFuzzyMatch nfkc (((splitLinesWithEndings content).take b).drop a).flatten =
      ((((splitLinesWithEndings content).map (normalizeForFuzzyMatch nfkc)).take b).drop
        a).flatten := by
  unfold splitLinesWithEndings
  induction content using line_induction generalizing a b with
  | line text h =>
    by_cases hemp : text = []
    · rw [hemp]
      simp [splitInclusive, normalize_nil hnfkc]
    · rw [splitInclusive_of_not_mem h hemp]
      cases b with
      | zero => simp [normalize_nil hnfkc]
      | succ b => cases a <;> simp [normalize_nil hnfkc]
  | cut front rest h ih =>
    rw [splitInclusive_append h, map_cons]
    cases b with
    | zero => simp [normalize_nil hnfkc]
    | succ b =>
      cases a with
      | zero =>
        have hrest := ih 0 b
        rw [drop_zero, drop_zero] at hrest
        rw [take_succ_cons, take_succ_cons, drop_zero, drop_zero,
          flatten_cons, flatten_cons, ← hrest, normalize_ending hnfkc,
          append_assoc, append_assoc, singleton_append, singleton_append,
          normalize_cut hnfkc]
      | succ a => exact ih a b

theorem normalizedStart_eq (content : List Char) (k : Nat) : normalizedStart nfkc content k =
      lineStart ((splitLinesWithEndings content).map (normalizeForFuzzyMatch nfkc)) k := by
  have hslice := normalize_slice hnfkc content 0 k
  rw [drop_zero, drop_zero] at hslice
  rw [normalizedStart, hslice, lineStart]

theorem writeTouched_eq (content : List Char) (start : Nat) (runs : List TouchedRun) :
    writeTouched nfkc content start runs = writeRuns (splitLinesWithEndings content)
        ((splitLinesWithEndings content).map (normalizeForFuzzyMatch nfkc)) start runs := by
  induction runs generalizing start with
  | nil => rfl
  | cons run runs ih =>
    rw [writeTouched, writeRuns, ih, normalize_slice hnfkc, normalizedStart_eq hnfkc]

/-- There are as many lines as before when no line becomes empty. -/
theorem length_splitLines_eq_iff : (splitLinesWithEndings content).length =
        (splitLinesWithEndings (normalizeForFuzzyMatch nfkc content)).length ↔
      ∀ line ∈ (splitLinesWithEndings content).map (normalizeForFuzzyMatch nfkc),
        decide (line ≠ []) = true := by
  have hmap : (splitLinesWithEndings content).length =
      ((splitLinesWithEndings content).map (normalizeForFuzzyMatch nfkc)).length :=
    (length_map (normalizeForFuzzyMatch nfkc)).symm
  rw [splitLines_normalize hnfkc, hmap, eq_comm, length_filter_eq_length_iff]

/-- When there are as many lines as before, each is normalized by itself. -/
theorem splitLines_of_length_eq (h : (splitLinesWithEndings content).length =
      (splitLinesWithEndings (normalizeForFuzzyMatch nfkc content)).length) :
    splitLinesWithEndings (normalizeForFuzzyMatch nfkc content) =
      (splitLinesWithEndings content).map (normalizeForFuzzyMatch nfkc) := by
  rw [splitLines_normalize hnfkc]
  exact filter_eq_self.mpr ((length_splitLines_eq_iff hnfkc).mp h)

theorem length_splitLines_eq_iff_lastLine : (splitLinesWithEndings content).length =
        (splitLinesWithEndings (normalizeForFuzzyMatch nfkc content)).length ↔
      (lastLine content = [] ∨ ∃ c ∈ nfkc (lastLine content), isWhitespace c = false) := by
  have hemp := exists_line_normalize_eq_nil_iff hnfkc content
  rw [length_splitLines_eq_iff hnfkc]
  constructor
  · intro h
    by_contra hnot
    rw [not_or, not_exists] at hnot
    obtain ⟨line, hline, hgone⟩ := hemp.mpr ⟨hnot.1, fun c hc => by
      by_contra hblack
      exact hnot.2 c ⟨hc, Bool.eq_false_iff.mpr hblack⟩⟩
    exact of_decide_eq_true (h _ (mem_map_of_mem hline)) hgone
  · intro h line hline
    obtain ⟨original, horig, rfl⟩ := mem_map.mp hline
    apply decide_eq_true
    intro hgone
    obtain ⟨hlast, hwhite⟩ := hemp.mp ⟨original, horig, hgone⟩
    rcases h with h | ⟨c, hc, hblack⟩
    · exact hlast h
    · rw [hwhite c hc] at hblack
      cases hblack

end

/-! ## What is written -/

variable {matched : List MatchedEdit}

theorem replacementBaseContent_of_fuzzy (hfuzzy : usesFuzzyMatch nfkc content edits = true) :
    replacementBaseContent nfkc content edits = normalizeForFuzzyMatch nfkc content :=
  if_pos hfuzzy

theorem flatten_normalized_lines (hnfkc : Normalizes nfkc)
    (h : (splitLinesWithEndings content).length =
      (splitLinesWithEndings (normalizeForFuzzyMatch nfkc content)).length) :
    ((splitLinesWithEndings content).map (normalizeForFuzzyMatch nfkc)).flatten =
      normalizeForFuzzyMatch nfkc content := by
  rw [← splitLines_of_length_eq hnfkc h]
  exact flatten_splitInclusive '\n' _

/-- Fitting runs, merged, are the maximal ones. -/
theorem maximalRuns_mergeRuns (hnfkc : Normalizes nfkc) {runs : List TouchedRun}
    (h : RunsFit ((splitLinesWithEndings content).map (normalizeForFuzzyMatch nfkc)) 0 runs) :
    MaximalRuns nfkc content (runs.flatMap TouchedRun.ranges) (mergeRuns runs) where
  inside := by
    intro run hrun
    have hins := h.merge.inside hrun
    rw [length_map] at hins
    rwa [normalizedStart_eq hnfkc, normalizedStart_eq hnfkc]
  apart := h.apart
  touched := by
    intro k _
    rw [normalizedStart_eq hnfkc, normalizedStart_eq hnfkc, ← flatMap_mergeRuns]
    exact h.merge.touched
  ranges := flatMap_mergeRuns runs

/-- What is written is the lines as they were around the maximal runs of touched lines. -/
theorem runs_of_written (hnfkc : Normalizes nfkc) {newContent : List Char} {last : Nat}
    (h : applyReplacementsPreservingUnchangedLines content (normalizeForFuzzyMatch nfkc content)
      (sortByMatchIndex matched) = .ok newContent)
    (hord : Ordered 0 last ((sortByMatchIndex matched).map MatchedEdit.range)) :
    ∃ runs, MaximalRuns nfkc content ((sortByMatchIndex matched).map MatchedEdit.range) runs ∧
      newContent = writeTouched nfkc content 0 runs := by
  rw [applyReplacementsPreservingUnchangedLines, getLineSpans, length_lineSpans,
    sortByMatchIndex_sortByMatchIndex] at h
  split_ifs at h with hlen
  obtain ⟨groups, hgroups, h⟩ := bind_ok h
  have hflatten := flatten_normalized_lines hnfkc (not_not.mp hlen)
  rw [splitLines_of_length_eq hnfkc (not_not.mp hlen)] at hgroups h
  obtain ⟨hfit, hall⟩ := replacementGroups_fit hgroups hord
  have hranges : (groups.map ReplacementGroup.run).flatMap TouchedRun.ranges =
      (sortByMatchIndex matched).map MatchedEdit.range := by
    rw [← hall, flatMap_map, map_flatMap]
    rfl
  refine ⟨mergeRuns (groups.map ReplacementGroup.run), ?_, ?_⟩
  · rw [← hranges]
    exact maximalRuns_mergeRuns hnfkc hfit
  · rw [writeTouched_eq hnfkc, writeRuns_mergeRuns hfit, ← writeGroups_eq_writeRuns hfit, hflatten]
    exact (Except.ok.inj h).symm

/-! ## Accepted edits -/

/-- Edits of the normalized content do not overlap when their ranges follow each other in it. -/
theorem checkOverlaps_fuzzy_iff {total index : Nat}
    (hset : normalizeForFuzzyMatch nfkc base = base) (hold : ∀ edit ∈ edits, edit.oldText ≠ [])
    (hmat : matchEdits nfkc base path total index edits = .ok matched) :
    checkOverlaps path (sortByMatchIndex matched) = .ok () ↔
      Ordered 0 base.length (foundRanges nfkc base edits) := by
  rw [← ranges_sorted hmat]
  apply checkOverlaps_eq_ok_iff (Nat.zero_le _) (fun _ _ => Nat.zero_le _)
  intro found hfnd
  obtain ⟨edit, hedit, heq⟩ := exists_matched_range hmat hfnd
  rw [heq]
  exact (foundRange_inside hset (hold edit hedit) ((ranges_of_matchEdits hmat).1 edit hedit).1).1

/-- Fuzzy edits leave every line that no range touches as it was, and replace each maximal run of
touched lines by its normalized text with the ranges replaced. -/
theorem fuzzy_edits_keep_untouched_lines (nfkc : List Char → List Char)
    (hnfkc : Normalizes nfkc) (path : String) (content : List Char) (edits : List Edit)
    (hfuzzy : usesFuzzyMatch nfkc content (edits.map normalizeEdit) = true)
    (result : AppliedEditsResult)
    (h : applyEditsToNormalizedContent nfkc content edits path = .ok result) :
    ∃ runs, MaximalRuns nfkc content
          (foundRanges nfkc (normalizeForFuzzyMatch nfkc content) (edits.map normalizeEdit)) runs ∧
        result.newContent = writeTouched nfkc content 0 runs := by
  obtain ⟨hold, matched, hmatched, hoverlaps, newContent, hnew, -, rfl⟩ := apply_eq_ok_iff.mp h
  rw [writeMatches, if_pos hfuzzy, replacementBaseContent_of_fuzzy hfuzzy] at hnew
  rw [replacementBaseContent_of_fuzzy hfuzzy] at hmatched
  have hordered := (checkOverlaps_fuzzy_iff (normalize_normalize hnfkc content) hold hmatched).mp
    hoverlaps
  rw [← ranges_sorted hmatched] at hordered ⊢
  exact runs_of_written hnfkc hnew hordered

/-- An edit of a quoted letter, whose quotes are not those of the content. -/
def quoted : List Edit := [⟨['"', 'a', '"'], ['b']⟩]

/-- A content of two lines, the second of which ends with a space. -/
def twoLines : List Char := ['“', 'a', '”', '\n', 'c', ' ', '\n']

theorem quoted_keeps_untouched_lines : ∃ runs, MaximalRuns id twoLines
          (foundRanges id (normalizeForFuzzyMatch id twoLines) (quoted.map normalizeEdit)) runs ∧
        ['b', '\n', 'c', ' ', '\n'] = writeTouched id twoLines 0 runs :=
  fuzzy_edits_keep_untouched_lines id normalizes_id "f" twoLines quoted (by decide)
    ⟨twoLines, ['b', '\n', 'c', ' ', '\n']⟩ (by decide +kernel)

/-! ## Edits that are written -/

/-- The lines of the content and of the normalized content agree, all ranges lie in lines, and the
edits are refused only when they change nothing. -/
structure WritesFuzzyEdits (nfkc : List Char → List Char) (path : String) (content : List Char)
    (edits : List Edit) : Prop where
  lines : (splitLinesWithEndings content).length =
    (getLineSpans (normalizeForFuzzyMatch nfkc content)).length
  inside : ∀ edit ∈ edits.map normalizeEdit, ∃ s e,
    getReplacementLineRange (getLineSpans (normalizeForFuzzyMatch nfkc content))
      (foundRange nfkc (normalizeForFuzzyMatch nfkc content) edit).start
      (foundRange nfkc (normalizeForFuzzyMatch nfkc content) edit).length = .ok (s, e)
  outcome : ∃ newContent, applyEditsToNormalizedContent nfkc content edits path =
      if content = newContent then .error (noChangeError path edits.length)
      else .ok ⟨content, newContent⟩

/-- Fuzzy edits that are found, unique and disjoint are written exactly when there is content and
the text behind its last newline is empty or more than whitespace. -/
theorem fuzzy_edits_are_written_iff (nfkc : List Char → List Char) (hnfkc : Normalizes nfkc)
    (path : String) (content : List Char) (edits : List Edit)
    (hfuzzy : usesFuzzyMatch nfkc content (edits.map normalizeEdit) = true)
    (hresolved : ∀ edit ∈ edits.map normalizeEdit,
      edit.oldText ≠ [] ∧ Resolved nfkc (normalizeForFuzzyMatch nfkc content) edit)
    (hdisjoint : Ordered 0 (normalizeForFuzzyMatch nfkc content).length
      (foundRanges nfkc (normalizeForFuzzyMatch nfkc content) (edits.map normalizeEdit))) :
    WritesFuzzyEdits nfkc path content edits ↔ content ≠ [] ∧
        (lastLine content = [] ∨ ∃ c ∈ nfkc (lastLine content), isWhitespace c = false) := by
  have hsettled := normalize_normalize hnfkc content
  constructor
  · intro h
    have hlines := h.lines
    rw [getLineSpans, length_lineSpans] at hlines
    refine ⟨?_, (length_splitLines_eq_iff_lastLine hnfkc).mp hlines⟩
    -- without content there are no lines for the range of an edit
    intro hempty
    obtain ⟨edit, hedit, -⟩ := List.any_eq_true.mp hfuzzy
    obtain ⟨s, e, hrange⟩ := h.inside edit hedit
    rw [hempty, normalize_nil hnfkc] at hrange
    cases hrange
  · rintro ⟨hcontent, hlast⟩
    have hlines := (length_splitLines_eq_iff_lastLine hnfkc).mpr hlast
    have hflatten := flatten_splitInclusive '\n' (normalizeForFuzzyMatch nfkc content)
    have hbase : normalizeForFuzzyMatch nfkc content ≠ [] := by
      intro hempty
      rw [hempty] at hlines
      apply hcontent
      rw [← flatten_splitInclusive '\n' content]
      exact congrArg List.flatten (List.length_eq_zero_iff.mp hlines)
    have hinside : ∀ edit ∈ edits.map normalizeEdit, ∃ s e,
        getReplacementLineRange (getLineSpans (normalizeForFuzzyMatch nfkc content))
          (foundRange nfkc (normalizeForFuzzyMatch nfkc content) edit).start
          (foundRange nfkc (normalizeForFuzzyMatch nfkc content) edit).length = .ok (s, e) := by
      intro edit hedit
      obtain ⟨hold, hfound, -⟩ := hresolved edit hedit
      obtain ⟨hstop, hstart⟩ := foundRange_inside hsettled hold hfound
      apply exists_getReplacementLineRange
      · rw [splitLinesWithEndings, hflatten]
        exact hstart hbase
      · rw [splitLinesWithEndings, hflatten]
        exact hstop
    have hold : ∀ edit ∈ edits.map normalizeEdit, edit.oldText ≠ [] :=
      fun edit hedit => (hresolved edit hedit).1
    obtain ⟨matched, hmatched⟩ := exists_matchEdits path (edits.map normalizeEdit).length 0
      fun edit hedit => (hresolved edit hedit).2
    have hoverlaps : checkOverlaps path (sortByMatchIndex matched) = .ok () :=
      (checkOverlaps_fuzzy_iff hsettled hold hmatched).mpr hdisjoint
    have hlie : ∀ found ∈ sortByMatchIndex matched, ∃ s e,
        getReplacementLineRange (getLineSpans (normalizeForFuzzyMatch nfkc content))
          found.matchIndex found.matchLength = .ok (s, e) := by
      intro found hfound
      obtain ⟨edit, hedit, heq⟩ := exists_matched_range hmatched hfound
      obtain ⟨s, e, hrange⟩ := hinside edit hedit
      rw [← heq] at hrange
      exact ⟨s, e, hrange⟩
    obtain ⟨groups, hgroups⟩ := exists_replacementGroups _ hlie
    have hwritten : writeMatches nfkc content (edits.map normalizeEdit) matched =
        .ok (writeGroups (splitLinesWithEndings content) (normalizeForFuzzyMatch nfkc content)
          (getLineSpans (normalizeForFuzzyMatch nfkc content)) 0 groups) := by
      rw [writeMatches, if_pos hfuzzy, replacementBaseContent_of_fuzzy hfuzzy,
        applyReplacementsPreservingUnchangedLines, getLineSpans, length_lineSpans,
        sortByMatchIndex_sortByMatchIndex, if_neg (not_not.mpr hlines)]
      rw [getLineSpans] at hgroups
      rw [hgroups]
      rfl
    rw [← replacementBaseContent_of_fuzzy hfuzzy] at hmatched
    refine ⟨?_, hinside, _, apply_of_written hold hmatched hoverlaps hwritten⟩
    rw [getLineSpans, length_lineSpans]
    exact hlines

/-- A content whose text behind the last newline is a space. -/
def spacedEnd : List Char := ['“', 'a', '”', '\n', ' ']

theorem quoted_ranges (content : List Char)
    (h : (quoted.map normalizeEdit).map (foundRange id content) = [⟨0, 3, ['b']⟩]) :
    foundRanges id content (quoted.map normalizeEdit) = [⟨0, 3, ['b']⟩] := by
  rw [foundRanges, h, sortRanges, mergeSort_singleton]

theorem quoted_is_written : WritesFuzzyEdits id "f" twoLines quoted ↔ twoLines ≠ [] ∧
        (lastLine twoLines = [] ∨ ∃ c ∈ id (lastLine twoLines), isWhitespace c = false) :=
  fuzzy_edits_are_written_iff id normalizes_id "f" twoLines quoted (by decide) (by decide)
    (by rw [quoted_ranges _ (by decide)]; decide)

/-- A space behind the last newline is a line of the content only, and the edit is refused. -/
theorem quoted_not_written : normalizeToLf spacedEnd = spacedEnd ∧ Normalizes id ∧
      usesFuzzyMatch id spacedEnd (quoted.map normalizeEdit) = true ∧
        (∀ edit ∈ quoted.map normalizeEdit,
          edit.oldText ≠ [] ∧ Resolved id (normalizeForFuzzyMatch id spacedEnd) edit) ∧
          Ordered 0 (normalizeForFuzzyMatch id spacedEnd).length
            (foundRanges id (normalizeForFuzzyMatch id spacedEnd) (quoted.map normalizeEdit)) ∧
            applyEditsToNormalizedContent id spacedEnd quoted "f" =
              .error ("Cannot preserve unchanged lines because the base content has a " ++
                "different line count.") ∧
              ¬ WritesFuzzyEdits id "f" spacedEnd quoted := by
  refine ⟨by decide, normalizes_id, by decide, by decide, ?_, by decide +kernel, ?_⟩
  · rw [quoted_ranges _ (by decide)]
    decide
  · intro h
    exact absurd h.lines (by decide)

end PiOxidized.Tools
