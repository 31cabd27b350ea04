/-
# Runs of touched lines

The ranges of the edits are grouped by the lines that they share.  The groups of neighbouring lines
together are the maximal runs of lines that a range touches, and what is written for the groups is
the lines between the runs as they were and, for each run, its normalized lines with the ranges
replaced.
-/

import PiOxidized.Math.Fallible
import PiOxidized.Tools.LineRanges

namespace PiOxidized.Tools

open List Math

/-- Lines from one up to another, with the ranges that lie in them. -/
structure TouchedRun where
  first : Nat
  last : Nat
  ranges : List (Replacement Char)

/-- The runs follow each other, and their ranges lie in them and reach into all of their lines. -/
def RunsFit (lines : List (List Char)) (start : Nat) : List TouchedRun → Prop
  | [] => start ≤ lines.length
  | run :: runs =>
    start ≤ run.first ∧ run.first < run.last ∧
      Ordered (lineStart lines run.first) (lineStart lines run.last) run.ranges ∧
        (∀ range ∈ run.ranges, range.start < lineStart lines run.last) ∧
          (∀ k, run.first ≤ k → k < run.last →
            ∃ range ∈ run.ranges, Meets (lineStart lines k) (lineStart lines (k + 1)) range) ∧
            RunsFit lines run.last runs

/-- The original lines between the runs, and the runs with their ranges replaced in the lines of
the base content. -/
def writeRuns (original lines : List (List Char)) (start : Nat) : List TouchedRun → List Char
  | [] => (original.drop start).flatten
  | run :: runs =>
    ((original.take run.first).drop start).flatten ++
      splice (lineStart lines run.first) ((lines.take run.last).drop run.first).flatten
        run.ranges ++
        writeRuns original lines run.last runs

/-- Runs of neighbouring lines as one. -/
def mergeRuns : List TouchedRun → List TouchedRun
  | [] => []
  | run :: runs =>
    match mergeRuns runs with
    | [] => [run]
    | next :: rest =>
      if run.last = next.first then ⟨run.first, next.last, run.ranges ++ next.ranges⟩ :: rest
      else run :: next :: rest

def ReplacementGroup.run (group : ReplacementGroup) : TouchedRun :=
  ⟨group.startLine, group.endLine, group.replacements.map MatchedEdit.range⟩

variable {original lines : List (List Char)} {start last reached : Nat} {run : TouchedRun}
  {runs : List TouchedRun} {groups : List ReplacementGroup} {cur : ReplacementGroup}
  {repls : List MatchedEdit}

/-! ## Runs -/

variable {k : Nat}

theorem RunsFit.le_length (h : RunsFit lines start runs) : start ≤ lines.length := by
  induction runs generalizing start with
  | nil => exact h
  | cons run runs ih =>
    obtain ⟨hsta, hlt, -, -, -, hruns⟩ := h
    have hlast := ih hruns
    omega

theorem RunsFit.inside (h : RunsFit lines start runs) (hrun : run ∈ runs) :
    run.first < run.last ∧ run.last ≤ lines.length ∧
      Ordered (lineStart lines run.first) (lineStart lines run.last) run.ranges := by
  induction runs generalizing start with
  | nil => cases hrun
  | cons other runs ih =>
    obtain ⟨-, hlt, hord, -, -, hruns⟩ := h
    rcases mem_cons.mp hrun with rfl | hrun
    · exact ⟨hlt, hruns.le_length, hord⟩
    · exact ih hruns hrun

theorem lt_of_lineStart_lt {j : Nat} (h : lineStart lines j < lineStart lines k) : j < k := by
  by_contra hle
  exact Nat.not_lt_of_le (lineStart_mono lines (Nat.le_of_not_lt hle)) h

/-- The lines of the runs are those that a range of the runs meets. -/
theorem RunsFit.touched (h : RunsFit lines start runs) : (∃ range ∈ runs.flatMap TouchedRun.ranges,
      Meets (lineStart lines k) (lineStart lines (k + 1)) range) ↔
      ∃ run ∈ runs, run.first ≤ k ∧ k < run.last := by
  induction runs generalizing start with
  | nil => simp
  | cons run runs ih =>
    obtain ⟨-, -, hord, hpre, hmet, hruns⟩ := h
    rw [exists_mem_cons_iff, ← ih hruns, flatMap_cons]
    constructor
    · rintro ⟨range, hrng, hmeets⟩
      rcases mem_append.mp hrng with hhere | hlater
      · left
        have hsta := le_start_of_ordered hord hhere
        have hstop := stop_le_of_ordered hord hhere
        have hbegins := hpre range hhere
        rcases hmeets with ⟨hle, hlt⟩ | ⟨hlt, hreach⟩
        · exact ⟨Nat.le_of_lt_succ (lt_of_lineStart_lt (Nat.lt_of_le_of_lt hsta hlt)),
            lt_of_lineStart_lt (Nat.lt_of_le_of_lt hle hbegins)⟩
        · exact ⟨Nat.le_of_lt (lt_of_lineStart_lt (Nat.lt_of_le_of_lt hsta hlt)),
            lt_of_lineStart_lt (Nat.lt_of_lt_of_le hreach hstop)⟩
      · exact .inr ⟨range, hlater, hmeets⟩
    · rintro (⟨hfst, hlast⟩ | ⟨range, hrng, hmeets⟩)
      · obtain ⟨range, hrng, hmeets⟩ := hmet k hfst hlast
        exact ⟨range, mem_append_left _ hrng, hmeets⟩
      · exact ⟨range, mem_append_right _ hrng, hmeets⟩

theorem flatMap_mergeRuns (runs : List TouchedRun) :
    (mergeRuns runs).flatMap TouchedRun.ranges = runs.flatMap TouchedRun.ranges := by
  induction runs with
  | nil => rfl
  | cons run runs ih =>
    rw [mergeRuns, flatMap_cons, ← ih]
    cases mergeRuns runs with
    | nil => rfl
    | cons next rest =>
      dsimp only
      split_ifs
      · rw [flatMap_cons, flatMap_cons, append_assoc]
      · rfl

theorem RunsFit.merge (h : RunsFit lines start runs) : RunsFit lines start (mergeRuns runs) := by
  induction runs generalizing start with
  | nil => exact h
  | cons run runs ih =>
    obtain ⟨hsta, hlt, hord, hpre, hmet, hruns⟩ := h
    have hlater := ih hruns
    rw [mergeRuns]
    cases hmerged : mergeRuns runs with
    | nil =>
      rw [hmerged] at hlater
      exact ⟨hsta, hlt, hord, hpre, hmet, hlater⟩
    | cons next rest =>
      rw [hmerged] at hlater
      dsimp only
      split_ifs with heq
      · obtain ⟨hnextStart, hnextLt, hnextOrdered, hnextBefore, hnextMet, hrest⟩ := hlater
        rw [heq] at hord hpre hmet hlt
        refine ⟨hsta, Nat.lt_trans hlt hnextLt, hord.append hnextOrdered, ?_, ?_, hrest⟩
        · intro range hrng
          rcases mem_append.mp hrng with hhere | hthere
          · exact Nat.lt_of_lt_of_le (hpre range hhere)
              (lineStart_mono lines (Nat.le_of_lt hnextLt))
          · exact hnextBefore range hthere
        · intro k hfst hlast
          by_cases hk : k < next.first
          · obtain ⟨range, hrng, hmeets⟩ := hmet k hfst hk
            exact ⟨range, mem_append_left _ hrng, hmeets⟩
          · obtain ⟨range, hrng, hmeets⟩ := hnextMet k (Nat.le_of_not_lt hk) hlast
            exact ⟨range, mem_append_right _ hrng, hmeets⟩
      · exact ⟨hsta, hlt, hord, hpre, hmet, hlater⟩

/-- Between two merged runs there is a line that no range touches. -/
theorem RunsFit.apart (h : RunsFit lines start runs) :
    (mergeRuns runs).IsChain fun early later => early.last < later.first := by
  induction runs generalizing start with
  | nil => exact List.IsChain.nil
  | cons run runs ih =>
    obtain ⟨-, -, -, -, -, hruns⟩ := h
    have hchain := ih hruns
    have hfit := hruns.merge
    rw [mergeRuns]
    cases hmerged : mergeRuns runs with
    | nil => exact List.IsChain.singleton run
    | cons next rest =>
      rw [hmerged] at hchain hfit
      dsimp only
      split_ifs with heq
      · cases rest with
        | nil => exact List.IsChain.singleton _
        | cons other rest =>
          rw [isChain_cons_cons] at hchain ⊢
          exact hchain
      · apply List.IsChain.cons_cons _ hchain
        exact Nat.lt_of_le_of_ne hfit.1 heq

/-! ## What is written for runs -/

theorem slice_append {a b c : Nat} (hab : a ≤ b) (hbc : b ≤ c) (lines : List (List Char)) :
    (lines.take c).drop a = (lines.take b).drop a ++ (lines.take c).drop b := by
  obtain ⟨m, rfl⟩ := Nat.exists_eq_add_of_le hab
  obtain ⟨n, rfl⟩ := Nat.exists_eq_add_of_le hbc
  rw [drop_take, drop_take, drop_take, ← drop_drop]
  have hac : a + m + n - a = m + n := by omega
  have hb : a + m - a = m := by omega
  have hc : a + m + n - (a + m) = n := by omega
  rw [hac, hb, hc, take_add]

theorem flatten_take_split {a b : Nat} (hab : a ≤ b) (lines : List (List Char)) :
    (lines.take b).flatten = (lines.take a).flatten ++ ((lines.take b).drop a).flatten := by
  have hsplit := slice_append (Nat.zero_le a) hab lines
  rw [drop_zero, drop_zero] at hsplit
  exact (congrArg flatten hsplit).trans flatten_append

theorem lineStart_slice {a b : Nat} (hab : a ≤ b) (lines : List (List Char)) :
    lineStart lines a + ((lines.take b).drop a).flatten.length = lineStart lines b := by
  have hlen := congrArg length (flatten_take_split hab lines)
  rw [length_append] at hlen
  exact hlen.symm

/-- Merging runs makes no difference to what is written. -/
theorem writeRuns_mergeRuns (h : RunsFit lines start runs) :
    writeRuns original lines start (mergeRuns runs) = writeRuns original lines start runs := by
  induction runs generalizing start with
  | nil => rfl
  | cons run runs ih =>
    obtain ⟨-, hlt, hord, -, -, hruns⟩ := h
    have hfit := hruns.merge
    rw [mergeRuns, writeRuns, ← ih hruns]
    cases hmerged : mergeRuns runs with
    | nil => rfl
    | cons next rest =>
      rw [hmerged] at hfit
      obtain ⟨-, hnextLt, hnextOrdered, -, -, -⟩ := hfit
      dsimp only
      split_ifs with heq
      · have hslice := slice_append (Nat.le_of_lt (heq ▸ hlt)) (Nat.le_of_lt hnextLt) lines
        have hlen := lineStart_slice (Nat.le_of_lt (heq ▸ hlt)) lines
        rw [heq] at hord
        rw [← hlen] at hord hnextOrdered
        -- nothing is kept between the two runs
        have hnone : ((original.take next.first).drop next.first).flatten = [] := by
          rw [drop_eq_nil_of_le (length_take_le _ _)]
          rfl
        rw [writeRuns, writeRuns, heq, hnone, hslice, flatten_append,
          splice_append hord hnextOrdered, hlen]
        simp only [append_assoc, nil_append]
      · rfl

theorem flatten_take_lineStart (lines : List (List Char)) (k : Nat) :
    lines.flatten.take (lineStart lines k) = (lines.take k).flatten := by
  conv_lhs => rw [← take_append_drop k lines, flatten_append]
  rw [lineStart, take_append_drop, take_left]

theorem flatten_slice {a b : Nat} (hab : a ≤ b) (lines : List (List Char)) :
    (lines.flatten.take (lineStart lines b)).drop (lineStart lines a) =
      ((lines.take b).drop a).flatten := by
  rw [flatten_take_lineStart, flatten_take_split hab lines, lineStart, drop_left]

theorem getD_lineSpans (h : k < lines.length) :
    (lineSpans 0 lines).getD k ⟨0, 0⟩ = ⟨lineStart lines k, lineStart lines (k + 1)⟩ := by
  rw [getD_eq_getElem?_getD, getElem?_lineSpans, if_pos h, Option.getD_some, Nat.zero_add,
    Nat.zero_add]

theorem writeGroups_eq_writeRuns (h : RunsFit lines start (groups.map ReplacementGroup.run)) :
    writeGroups original lines.flatten (lineSpans 0 lines) start groups =
      writeRuns original lines start (groups.map ReplacementGroup.run) := by
  induction groups generalizing start with
  | nil => rfl
  | cons group groups ih =>
    obtain ⟨-, hlt, hord, -, -, hruns⟩ := h
    have hle : group.endLine ≤ lines.length := hruns.le_length
    have hfst : group.run.first = group.startLine := rfl
    have hlast : group.run.last = group.endLine := rfl
    rw [hfst, hlast] at hlt hord
    have hend : group.endLine - 1 + 1 = group.endLine := by omega
    have hrest := ih hruns
    rw [hlast] at hrest
    rw [writeGroups, map_cons, writeRuns, hfst, hlast, hrest, getD_lineSpans (by omega),
      getD_lineSpans (by omega), hend]
    dsimp only
    rw [flatten_slice (Nat.le_of_lt hlt), applyReplacements]
    have hranges : group.run.ranges = group.replacements.map MatchedEdit.range := rfl
    rw [← lineStart_slice (Nat.le_of_lt hlt), hranges] at hord
    rw [foldr_replace hord, hranges]

/-! ## Groups -/

/-- A range reaches into all lines from the one that it begins in. -/
theorem Touches.meets {matchIndex matchLength s e : Nat} {range : Replacement Char}
    (h : Touches lines matchIndex matchLength s e) (hsta : range.start = matchIndex)
    (hstop : range.stop = matchIndex + matchLength) (hs : s ≤ k) (he : k < e) :
    Meets (lineStart lines k) (lineStart lines (k + 1)) range := by
  rw [Meets, hsta, hstop]
  rcases Nat.eq_or_lt_of_le hs with rfl | hlt
  · exact .inl ⟨h.start_le, h.lt_stop⟩
  · have hlater := lineStart_mono lines (show s + 1 ≤ k from hlt)
    exact .inr ⟨Nat.lt_of_lt_of_le h.lt_stop hlater, h.reaches k hlt he⟩

theorem Touches.lt_start_last {matchIndex matchLength s e : Nat}
    (h : Touches lines matchIndex matchLength s e) : matchIndex < lineStart lines e :=
  Nat.lt_of_lt_of_le h.lt_stop (lineStart_mono lines h.lt)

/-- A range is a run of the lines that it touches. -/
theorem Touches.runsFit {repl : MatchedEdit} {s e : Nat}
    (h : Touches lines repl.matchIndex repl.matchLength s e) (hsta : start ≤ s) :
    RunsFit lines start [(⟨s, e, [repl]⟩ : ReplacementGroup).run] := by
  refine ⟨hsta, h.lt, ⟨h.start_le, h.stop_le⟩, ?_, ?_, h.le_length⟩
  · intro range hrng
    rw [mem_singleton.mp hrng]
    exact h.lt_start_last
  · intro k hs he
    exact ⟨repl.range, mem_cons_self, h.meets rfl rfl hs he⟩

/-- Replacements in order are grouped into runs. -/
theorem groupReplacements_fit (h : groupReplacements (lineSpans 0 lines) cur repls = .ok groups)
    (hfit : RunsFit lines start [cur.run])
    (hord : Ordered (lineStart lines cur.startLine) reached cur.run.ranges)
    (hrest : Ordered reached last (repls.map MatchedEdit.range)) :
    RunsFit lines start (groups.map ReplacementGroup.run) ∧
      groups.flatMap ReplacementGroup.replacements = cur.replacements ++ repls := by
  induction repls generalizing cur reached groups start with
  | nil =>
    rw [← Except.ok.inj h, append_nil]
    exact ⟨hfit, flatMap_singleton _ _⟩
  | cons repl repls ih =>
    obtain ⟨⟨s, e⟩, hlines, h⟩ := bind_ok h
    have htch := touches_of_getReplacementLineRange hlines
    obtain ⟨hreached, hrest⟩ := hrest
    obtain ⟨hsta, hlt, hins, hpre, hmet, hlen⟩ := hfit
    dsimp only at h
    split_ifs at h with hshared
    · -- the range shares a line with the group and joins it
      have hgrow : lineStart lines cur.endLine ≤ lineStart lines (max cur.endLine e) :=
        lineStart_mono lines (Nat.le_max_left _ _)
      have hstop : repl.range.stop ≤ lineStart lines (max cur.endLine e) :=
        Nat.le_trans htch.stop_le (lineStart_mono lines (Nat.le_max_right _ _))
      have hranges : (cur.replacements ++ [repl]).map MatchedEdit.range =
          cur.run.ranges ++ [repl.range] := map_append
      have hjnd : RunsFit lines start [(⟨cur.startLine, max cur.endLine e,
            cur.replacements ++ [repl]⟩ : ReplacementGroup).run] := by
        rw [ReplacementGroup.run, hranges]
        refine ⟨hsta, Nat.lt_of_lt_of_le hlt (Nat.le_max_left _ _),
          hord.append ⟨hreached, hstop⟩, ?_, ?_,
          Nat.max_le.mpr ⟨hlen, htch.le_length⟩⟩
        · intro range hrng
          rcases mem_append.mp hrng with hhere | hthere
          · exact Nat.lt_of_lt_of_le (hpre range hhere) hgrow
          · rw [mem_singleton.mp hthere]
            exact Nat.lt_of_lt_of_le htch.lt_start_last
              (lineStart_mono lines (Nat.le_max_right _ _))
        · intro k hfst hlast
          by_cases hk : k < cur.endLine
          · obtain ⟨range, hrng, hmeets⟩ := hmet k hfst hk
            exact ⟨range, mem_append_left _ hrng, hmeets⟩
          · have hs : s ≤ k := by omega
            have he : k < e := by
              have hmax : k < max cur.endLine e := hlast
              omega
            exact ⟨repl.range, mem_append_right _ mem_cons_self, htch.meets rfl rfl hs he⟩
      obtain ⟨hruns, hall⟩ := ih h hjnd (by
        rw [ReplacementGroup.run, hranges]
        exact hord.append ⟨hreached, Nat.le_refl _⟩) hrest
      exact ⟨hruns, by rw [hall, append_assoc, singleton_append]⟩
    · obtain ⟨later, hlater, h⟩ := bind_ok h
      have hnext : RunsFit lines cur.endLine [(⟨s, e, [repl]⟩ : ReplacementGroup).run] :=
        htch.runsFit (Nat.le_of_not_lt hshared)
      obtain ⟨hruns, hall⟩ := ih hlater hnext ⟨htch.start_le, Nat.le_refl _⟩ hrest
      rw [← Except.ok.inj h, flatMap_cons, hall]
      exact ⟨⟨hsta, hlt, hins, hpre, hmet, hruns⟩, by rw [singleton_append]⟩

theorem replacementGroups_fit (h : replacementGroups (lineSpans 0 lines) repls = .ok groups)
    (hord : Ordered 0 last (repls.map MatchedEdit.range)) :
    RunsFit lines 0 (groups.map ReplacementGroup.run) ∧
      groups.flatMap ReplacementGroup.replacements = repls := by
  cases repls with
  | nil =>
    rw [← Except.ok.inj h]
    exact ⟨Nat.zero_le _, rfl⟩
  | cons repl repls =>
    obtain ⟨⟨s, e⟩, hlines, h⟩ := bind_ok h
    have htch := touches_of_getReplacementLineRange hlines
    exact groupReplacements_fit h (htch.runsFit (Nat.zero_le s))
      ⟨htch.start_le, Nat.le_refl _⟩ hord.2

/-- The grouping fails only at a range outside of the lines. -/
theorem exists_groupReplacements (lines : List LineSpan) (cur : ReplacementGroup)
    (h : ∀ repl ∈ repls, ∃ s e,
      getReplacementLineRange lines repl.matchIndex repl.matchLength = .ok (s, e)) :
    ∃ groups, groupReplacements lines cur repls = .ok groups := by
  induction repls generalizing cur with
  | nil => exact ⟨[cur], rfl⟩
  | cons repl repls ih =>
    obtain ⟨⟨s, e, hlines⟩, hlater⟩ := forall_mem_cons.mp h
    rw [groupReplacements, hlines]
    by_cases hshared : s < cur.endLine
    · obtain ⟨groups, hgroups⟩ := ih { cur with
          endLine := max cur.endLine e
          replacements := cur.replacements ++ [repl] } hlater
      exact ⟨groups, (if_pos hshared).trans hgroups⟩
    · obtain ⟨groups, hgroups⟩ := ih ⟨s, e, [repl]⟩ hlater
      refine ⟨cur :: groups, (if_neg hshared).trans ?_⟩
      rw [hgroups]
      rfl

theorem exists_replacementGroups (lines : List LineSpan) (h : ∀ repl ∈ repls, ∃ s e,
      getReplacementLineRange lines repl.matchIndex repl.matchLength = .ok (s, e)) :
    ∃ groups, replacementGroups lines repls = .ok groups := by
  cases repls with
  | nil => exact ⟨[], rfl⟩
  | cons repl repls =>
    obtain ⟨⟨s, e, hlines⟩, hlater⟩ := forall_mem_cons.mp h
    rw [replacementGroups, hlines]
    exact exists_groupReplacements lines ⟨s, e, [repl]⟩ hlater

end PiOxidized.Tools
