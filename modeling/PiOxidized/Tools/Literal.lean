/-
# Edits of literal texts

When every text occurs in the content as it is, all edits are applied at once: each replaces the
first occurrence of its text, wherever the other edits are and whatever they insert.  The order
that the edits are given in makes no difference.
-/

import PiOxidized.Tools.Matched

namespace PiOxidized.Tools

open List Math

variable {nfkc : List Char → List Char} {content : List Char} {path : String}
  {edits others : List Edit} {res : AppliedEditsResult}

/-- The content is made of gaps, the texts to be replaced, each where it is found first, and a tail;
the new content has the same gaps and tail around the texts that replace them. -/
def ReplacesFound (content : List Char) (edits : List Edit) (newContent : List Char) : Prop :=
  ∃ (segments : List (List Char × Edit)) (tail : List Char), (segments.map Prod.snd).Perm edits ∧
      content = (segments.flatMap fun segment => segment.1 ++ segment.2.oldText) ++ tail ∧
      newContent = (segments.flatMap fun segment => segment.1 ++ segment.2.newText) ++ tail ∧
      ∀ before gap edit after, segments = before ++ (gap, edit) :: after →
        findIndex edit.oldText content = some
          ((before.flatMap fun segment => segment.1 ++ segment.2.oldText).length + gap.length)

/-- Where the text of an edit stands in the content as it is. -/
def literalRange (content : List Char) (edit : Edit) : Replacement Char :=
  ⟨(findIndex edit.oldText content).getD 0, edit.oldText.length, edit.newText⟩

def literalRanges (content : List Char) (edits : List Edit) : List (Replacement Char) :=
  sortRanges (edits.map (literalRange content))

theorem fuzzyFindText_of_literal (nfkc : List Char → List Char) {oldText : List Char}
    (h : oldText <:+: content) :
    ∃ i, findIndex oldText content = some i ∧
      fuzzyFindText nfkc content oldText = some ⟨i, oldText.length, false⟩ := by
  obtain ⟨i, hidx⟩ := Option.isSome_iff_exists.mp (isSome_findIndex_iff.mpr h)
  exact ⟨i, hidx, by rw [fuzzyFindText, hidx]⟩

theorem not_usesFuzzyMatch (h : ∀ edit ∈ edits, edit.oldText <:+: content) :
    usesFuzzyMatch nfkc content edits = false := by
  rw [usesFuzzyMatch, any_eq_false]
  intro edit hedit
  obtain ⟨i, -, hfnd⟩ := fuzzyFindText_of_literal nfkc (h edit hedit)
  rw [hfnd]
  exact Bool.false_ne_true

theorem foundRange_of_literal {edit : Edit} (h : edit.oldText <:+: content) :
    foundRange nfkc content edit = literalRange content edit := by
  obtain ⟨i, hidx, hfnd⟩ := fuzzyFindText_of_literal nfkc h
  rw [foundRange, hfnd, literalRange, hidx]
  rfl

theorem stop_literalRange_le {edit : Edit} (h : edit.oldText <:+: content) :
    (literalRange content edit).stop ≤ content.length ∧
      edit.oldText <+: content.drop (literalRange content edit).start := by
  obtain ⟨i, hidx⟩ := Option.isSome_iff_exists.mp (isSome_findIndex_iff.mpr h)
  obtain ⟨hle, hocc, -⟩ := findIndex_eq_some hidx
  rw [Replacement.stop, literalRange, hidx]
  exact ⟨add_length_le hocc hle, hocc⟩

/-- When literal edits are accepted, and what they make of the content. -/
theorem apply_literal_eq_ok_iff
    (hlit : ∀ edit ∈ edits.map normalizeEdit, edit.oldText <:+: content) :
    applyEditsToNormalizedContent nfkc content edits path = .ok res ↔
      (∀ edit ∈ edits.map normalizeEdit,
        edit.oldText ≠ [] ∧ countOccurrences nfkc content edit.oldText ≤ 1) ∧
        Ordered 0 content.length (literalRanges content (edits.map normalizeEdit)) ∧
          content ≠ splice 0 content (literalRanges content (edits.map normalizeEdit)) ∧ res =
              ⟨content, splice 0 content (literalRanges content (edits.map normalizeEdit))⟩ := by
  have hnot : usesFuzzyMatch nfkc content (edits.map normalizeEdit) = false :=
    not_usesFuzzyMatch hlit
  have hbase : replacementBaseContent nfkc content (edits.map normalizeEdit) = content := by
    rw [replacementBaseContent, hnot]
    rfl
  -- the matched ranges are those of the first occurrences
  have hranges : ∀ matched,
      matchEdits nfkc content path (edits.map normalizeEdit).length 0 (edits.map normalizeEdit) =
          .ok matched →
        (sortByMatchIndex matched).map MatchedEdit.range =
          literalRanges content (edits.map normalizeEdit) := by
    intro matched hmat
    rw [ranges_sortByMatchIndex, (ranges_of_matchEdits hmat).2, literalRanges]
    congr 1
    exact map_congr_left fun edit hedit => foundRange_of_literal (hlit edit hedit)
  have hins : ∀ matched,
      matchEdits nfkc content path (edits.map normalizeEdit).length 0 (edits.map normalizeEdit) =
          .ok matched →
        ∀ found ∈ sortByMatchIndex matched, found.range.stop ≤ content.length := by
    intro matched hmat found hfnd
    obtain ⟨edit, hedit, heq⟩ := exists_matched_range hmat hfnd
    rw [heq, foundRange_of_literal (hlit edit hedit)]
    exact (stop_literalRange_le (hlit edit hedit)).1
  rw [apply_eq_ok_iff, hbase]
  constructor
  · rintro ⟨hold, matched, hmat, hoverlaps, newContent, hnew, hsame, rfl⟩
    have hord := (checkOverlaps_eq_ok_iff (Nat.zero_le _) (fun _ _ => Nat.zero_le _)
      (hins matched hmat)).mp hoverlaps
    rw [hranges matched hmat] at hord
    have hwrit : newContent =
        splice 0 content (literalRanges content (edits.map normalizeEdit)) := by
      rw [writeMatches, hnot, if_neg Bool.false_ne_true, hbase] at hnew
      rw [← Except.ok.inj hnew, applyReplacements, hranges matched hmat]
      exact foldr_replace (by rwa [Nat.zero_add])
    refine ⟨?_, hord, hwrit ▸ hsame, by rw [hwrit]⟩
    intro edit hedit
    exact ⟨hold edit hedit, ((ranges_of_matchEdits hmat).1 edit hedit).2⟩
  · rintro ⟨hedits, hord, hsame, rfl⟩
    have hsolved : ∀ edit ∈ edits.map normalizeEdit, Resolved nfkc content edit := by
      intro edit hedit
      obtain ⟨i, -, hfnd⟩ := fuzzyFindText_of_literal nfkc (hlit edit hedit)
      exact ⟨by rw [hfnd]; rfl, (hedits edit hedit).2⟩
    obtain ⟨matched, hmat⟩ := exists_matchEdits path (edits.map normalizeEdit).length 0 hsolved
    refine ⟨fun edit hedit => (hedits edit hedit).1, matched, hmat, ?_, _, ?_, hsame, rfl⟩
    · apply (checkOverlaps_eq_ok_iff (Nat.zero_le _) (fun _ _ => Nat.zero_le _)
        (hins matched hmat)).mpr
      rwa [hranges matched hmat]
    · rw [writeMatches, hnot, if_neg Bool.false_ne_true, hbase, applyReplacements,
        hranges matched hmat]
      exact congrArg Except.ok (foldr_replace (by rwa [Nat.zero_add]))

/-! ## One order or another -/

theorem literalRanges_eq_map (content : List Char) (edits : List Edit) :
    literalRanges content edits = (edits.mergeSort fun first second =>
        (literalRange content first).start ≤ (literalRange content second).start).map
          (literalRange content) := by
  rw [literalRanges, sortRanges]
  symm
  apply map_mergeSort
  intro _ _ _ _
  rfl

/-- Ranges that replace the first occurrences and do not overlap replace what is found. -/
theorem replacesFound_splice (hlit : ∀ edit ∈ edits, edit.oldText <:+: content)
    (hord : Ordered 0 content.length (literalRanges content edits)) :
    ReplacesFound content edits (splice 0 content (literalRanges content edits)) := by
  rw [literalRanges_eq_map] at hord ⊢
  have hperm := mergeSort_perm edits fun first second =>
    decide ((literalRange content first).start ≤ (literalRange content second).start)
  obtain ⟨segments, tail, hitems, hcont, hnew, hpositions⟩ :=
    @exists_segments _ 0 content Edit (literalRange content) Edit.oldText _
      (by rwa [Nat.zero_add]) (fun edit hedit =>
        ⟨rfl, (stop_literalRange_le (hlit edit (hperm.mem_iff.mp hedit))).2⟩)
  refine ⟨segments, tail, hitems ▸ hperm, hcont, hnew, ?_⟩
  intro before gap edit after hsegments
  have hedit : edit ∈ edits := by
    apply hperm.mem_iff.mp
    rw [← hitems, hsegments, map_append]
    exact mem_append_right _ mem_cons_self
  obtain ⟨i, hidx, -⟩ := fuzzyFindText_of_literal id (hlit edit hedit)
  have hplc := hpositions before gap edit after hsegments
  rw [literalRange, hidx] at hplc
  rw [hidx, ← Nat.zero_add (length _), ← hplc]
  rfl

theorem apply_literal_of_perm (hlit : ∀ edit ∈ edits, (normalizeEdit edit).oldText <:+: content)
    (hperm : others.Perm edits)
    (h : applyEditsToNormalizedContent nfkc content edits path = .ok res) :
    applyEditsToNormalizedContent nfkc content others path = .ok res := by
  have hnormalized : ∀ edit ∈ edits.map normalizeEdit, edit.oldText <:+: content :=
    forall_mem_map.mpr hlit
  have hsame := hperm.map normalizeEdit
  obtain ⟨hedits, hord, hchanged, hret⟩ := (apply_literal_eq_ok_iff hnormalized).mp h
  have hlen : ∀ range ∈ (edits.map normalizeEdit).map (literalRange content), 0 < range.length := by
    intro range hrng
    obtain ⟨edit, hedit, rfl⟩ := mem_map.mp hrng
    exact length_pos_iff.mpr (hedits edit hedit).1
  have hranges : literalRanges content (others.map normalizeEdit) =
      literalRanges content (edits.map normalizeEdit) :=
    sortRanges_eq_of_perm hord hlen (hsame.map (literalRange content))
  apply (apply_literal_eq_ok_iff fun edit hedit => hnormalized edit (hsame.mem_iff.mp hedit)).mpr
  rw [hranges]
  exact ⟨fun edit hedit => hedits edit (hsame.mem_iff.mp hedit), hord, hchanged, hret⟩

/-- Edits of literal texts are applied at once, and in whatever order they are given. -/
theorem literal_edits_are_simultaneous (nfkc : List Char → List Char) (path : String)
    (content : List Char) (edits : List Edit)
    (hliteral : ∀ edit ∈ edits, (normalizeEdit edit).oldText <:+: content) :
    (∀ res, applyEditsToNormalizedContent nfkc content edits path = .ok res →
      res.baseContent = content ∧ ReplacesFound content (edits.map normalizeEdit) res.newContent) ∧
      ∀ others, others.Perm edits → ∀ res,
        applyEditsToNormalizedContent nfkc content others path = .ok res ↔
          applyEditsToNormalizedContent nfkc content edits path = .ok res := by
  constructor
  · intro res h
    have hnormalized : ∀ edit ∈ edits.map normalizeEdit, edit.oldText <:+: content :=
      List.forall_mem_map.mpr hliteral
    obtain ⟨-, hord, -, rfl⟩ := (apply_literal_eq_ok_iff hnormalized).mp h
    exact ⟨rfl, replacesFound_splice hnormalized hord⟩
  · intro others hperm res
    constructor
    · apply apply_literal_of_perm _ hperm.symm
      exact fun edit hedit => hliteral edit (hperm.mem_iff.mp hedit)
    · exact apply_literal_of_perm hliteral hperm

/-- Two edits whose new texts hold the text of the other. -/
def swapped : List Edit := [⟨['a'], ['b', 'b']⟩, ⟨['b'], ['a']⟩]

theorem swapped_are_simultaneous :
    (∀ res, applyEditsToNormalizedContent id ['b', ',', 'a'] swapped "f" = .ok res →
      res.baseContent = ['b', ',', 'a'] ∧
        ReplacesFound ['b', ',', 'a'] (swapped.map normalizeEdit) res.newContent) ∧
      ∀ others, others.Perm swapped → ∀ res,
        applyEditsToNormalizedContent id ['b', ',', 'a'] others "f" = .ok res ↔
          applyEditsToNormalizedContent id ['b', ',', 'a'] swapped "f" = .ok res :=
  literal_edits_are_simultaneous id "f" ['b', ',', 'a'] swapped (by decide)

end PiOxidized.Tools
