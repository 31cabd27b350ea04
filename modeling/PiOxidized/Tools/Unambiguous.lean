/-
# Whether accepted edits are unambiguous

The search for a text takes its first position, and the count that is to find more of them looks
at the normalized text in the normalized content and goes on behind each position.  The two
disagree on texts of whitespace only, whose normalization is empty and not counted, on texts that
overlap themselves, and on texts whose occurrences the normalization changes.  Apart from these,
the text of an accepted edit stands at one position, and that is the one replaced.
-/

import PiOxidized.Tools.Matched
import PiOxidized.Tools.Normalized

namespace PiOxidized.Tools

open Option Math

variable (nfkc : List Char → List Char) (content : List Char) (edits : List Edit)

/-- Where the range of an edit begins in the content that the edits are matched against. -/
def replacedAt (edit : Edit) : Nat :=
  (foundRange nfkc (replacementBaseContent nfkc content edits) edit).start

/-- The place in the normalized content of a position of the content: behind the lines in front and
behind what stands in front of the position in its own line, as far as the trimming leaves it. -/
def placeOf (i : Nat) : Nat :=
  let before := lastLine (content.take i)
  let line := before ++ (content.drop i).takeWhile (· ≠ '\n')
  let lines := (content.take i).take ((content.take i).length - before.length)
  (normalizeForFuzzyMatch nfkc lines).length +
    min (nfkc before).length (normalizeForFuzzyMatch nfkc line).length

/-- The range of an edit is at a position of the content, or, when the edits are matched against
the normalized content, at its place there. -/
def ReplacedAt (edit : Edit) (i : Nat) : Prop :=
  replacedAt nfkc content edits edit =
    if usesFuzzyMatch nfkc content edits then placeOf nfkc content i else i

/-- The text stands at one position, or its normalization, which is not empty, stands at one position
of the normalized content, and this position is replaced. -/
def Unambiguous (edit : Edit) : Prop :=
  (∃ i, OccursOnlyAt edit.oldText content i ∧ ReplacedAt nfkc content edits edit i) ∨
    (¬ edit.oldText <:+: content ∧ normalizeForFuzzyMatch nfkc edit.oldText ≠ [] ∧
      OccursOnlyAt (normalizeForFuzzyMatch nfkc edit.oldText) (normalizeForFuzzyMatch nfkc content)
        (replacedAt nfkc content edits edit))

/-- The text that is searched in the normalized content: as it is when it stands there, and else
normalized. -/
def searchedText (oldText : List Char) : List Char :=
  if oldText <:+: normalizeForFuzzyMatch nfkc content then oldText
  else normalizeForFuzzyMatch nfkc oldText

/-- In the normalized content the text stands at the place of its position, and nowhere in front. -/
def KeptInPlace (oldText : List Char) : Prop := ∀ i, OccursOnlyAt oldText content i →
  searchedText nfkc content oldText <+:
      (normalizeForFuzzyMatch nfkc content).drop (placeOf nfkc content i) ∧
    ∀ k < placeOf nfkc content i, ¬ searchedText nfkc content oldText <+:
      (normalizeForFuzzyMatch nfkc content).drop k

/-- The count tells the positions of the text apart.  A text of the content has no two positions
that overlap, and when it has two that do not, so has its normalization, which is not empty; if
the edits are matched against the normalized content, the text keeps its place.  Of another
text the normalization is not empty and has no two positions that overlap. -/
structure Distinguishable (edit : Edit) : Prop where
  literal : edit.oldText <:+: content → ¬ Overlapping edit.oldText content ∧
      (TwoApart edit.oldText content → normalizeForFuzzyMatch nfkc edit.oldText ≠ [] ∧
          TwoApart (normalizeForFuzzyMatch nfkc edit.oldText)
            (normalizeForFuzzyMatch nfkc content)) ∧
        (usesFuzzyMatch nfkc content edits = true → KeptInPlace nfkc content edit.oldText)
  fuzzy : ¬ edit.oldText <:+: content → normalizeForFuzzyMatch nfkc edit.oldText ≠ [] ∧
      ¬ Overlapping (normalizeForFuzzyMatch nfkc edit.oldText) (normalizeForFuzzyMatch nfkc content)

variable {nfkc content edits} {edit : Edit} {path : String} {result : AppliedEditsResult}

/-! ## What the count says -/

theorem normalize_base (hnfkc : Normalizes nfkc) :
    normalizeForFuzzyMatch nfkc (replacementBaseContent nfkc content edits) =
      normalizeForFuzzyMatch nfkc content := by
  rw [replacementBaseContent]
  split_ifs
  · exact normalize_normalize hnfkc content
  · rfl

/-- A normalized text that is counted at most once has no two positions apart. -/
theorem not_twoApart_of_resolved (hnfkc : Normalizes nfkc)
    (h : Resolved nfkc (replacementBaseContent nfkc content edits) edit)
    (hne : normalizeForFuzzyMatch nfkc edit.oldText ≠ []) :
    ¬ TwoApart (normalizeForFuzzyMatch nfkc edit.oldText) (normalizeForFuzzyMatch nfkc content) := by
  have hcnt := h.2
  rw [countOccurrences, normalize_base hnfkc] at hcnt
  rw [if_neg fun hemp => hne (List.isEmpty_iff.mp hemp)] at hcnt
  rw [← two_le_countDisjoint_iff hne]
  omega

theorem isInfix_iff_findIndex {pattern text : List Char} :
    pattern <:+: text ↔ ∃ i, findIndex pattern text = some i := by
  rw [← isSome_findIndex_iff, isSome_iff_exists]

/-! ## Where the range is -/

theorem replacedAt_of_not_fuzzy {i : Nat} (hfuzzy : usesFuzzyMatch nfkc content edits = false)
    (h : findIndex edit.oldText content = some i) : replacedAt nfkc content edits edit = i := by
  rw [replacedAt, replacementBaseContent, hfuzzy, if_neg Bool.false_ne_true, foundRange,
    fuzzyFindText, h]

/-- In the normalized content the range is where the searched text is found first. -/
theorem findIndex_searchedText (hnfkc : Normalizes nfkc)
    (hfuzzy : usesFuzzyMatch nfkc content edits = true)
    (h : Resolved nfkc (replacementBaseContent nfkc content edits) edit) :
    findIndex (searchedText nfkc content edit.oldText) (normalizeForFuzzyMatch nfkc content) =
      some (replacedAt nfkc content edits edit) := by
  have hfnd := h.1
  rw [replacedAt, foundRange]
  rw [replacementBaseContent, if_pos hfuzzy] at hfnd ⊢
  rw [searchedText]
  cases hlit : findIndex edit.oldText (normalizeForFuzzyMatch nfkc content) with
  | some index =>
    rw [if_pos (isInfix_iff_findIndex.mpr ⟨index, hlit⟩), fuzzyFindText, hlit]
  | none =>
    have hnot : ¬ edit.oldText <:+: normalizeForFuzzyMatch nfkc content := by
      rw [← isSome_findIndex_iff, hlit]
      exact Bool.false_ne_true
    rw [fuzzyFindText, hlit, normalize_normalize hnfkc] at hfnd ⊢
    rw [if_neg hnot]
    dsimp only at hfnd ⊢
    rw [isSome_map] at hfnd
    obtain ⟨index, hidx⟩ := isSome_iff_exists.mp hfnd
    rw [hidx]
    rfl

/-- The normalization of the text stands where the searched text does. -/
theorem normalize_occurs (hnfkc : NormalizesParts nfkc) {oldText : List Char} {i : Nat}
    (h : findIndex (searchedText nfkc content oldText) (normalizeForFuzzyMatch nfkc content) =
      some i) :
    normalizeForFuzzyMatch nfkc oldText <+: (normalizeForFuzzyMatch nfkc content).drop i := by
  obtain ⟨-, hocc, -⟩ := findIndex_eq_some h
  rw [searchedText] at hocc
  split_ifs at hocc with hlit
  · exact (normalize_part hnfkc hlit).trans hocc
  · exact hocc

/-- A resolved edit whose text does not stand in the content is a fuzzy match. -/
theorem usesFuzzyMatch_of_not_infix (hmem : edit ∈ edits)
    (h : Resolved nfkc (replacementBaseContent nfkc content edits) edit)
    (hnot : ¬ edit.oldText <:+: content) : usesFuzzyMatch nfkc content edits = true := by
  by_contra hfuzzy
  have hfnd := h.1
  rw [replacementBaseContent, if_neg hfuzzy] at hfnd
  obtain ⟨found, hfnd⟩ := isSome_iff_exists.mp hfnd
  apply hfuzzy
  rw [usesFuzzyMatch, List.any_eq_true]
  refine ⟨edit, hmem, ?_⟩
  rw [hfnd]
  have hnone : findIndex edit.oldText content = none := by
    rw [← not_isSome_iff_eq_none, isSome_findIndex_iff]
    exact hnot
  rw [fuzzyFindText, hnone] at hfnd
  obtain ⟨index, -, rfl⟩ := map_eq_some_iff.mp hfnd
  rfl

/-! ## Accepted edits -/

theorem unambiguous_iff_of_literal (hnfkc : Normalizes nfkc) (hold : edit.oldText ≠ [])
    (hsolved : Resolved nfkc (replacementBaseContent nfkc content edits) edit)
    (hlit : edit.oldText <:+: content) :
    Unambiguous nfkc content edits edit ↔ Distinguishable nfkc content edits edit := by
  obtain ⟨i, hi⟩ := isInfix_iff_findIndex.mp hlit
  have hocc := (findIndex_eq_some hi).2.1
  constructor
  · rintro (⟨k, honly, hreplaced⟩ | ⟨hnot, -⟩)
    · have hsame := honly.2 i hocc
      rw [← hsame] at honly hreplaced
      obtain ⟨hover, hapart⟩ := (occursOnlyAt_iff hold hocc).mp honly
      refine ⟨fun _ => ⟨hover, fun h => absurd h hapart, fun hfuzzy => ?_⟩,
        fun hnot => absurd hlit hnot⟩
      rw [ReplacedAt, if_pos hfuzzy] at hreplaced
      intro j hj
      rw [hj.2 i hocc] at hreplaced
      rw [← hreplaced]
      exact (findIndex_eq_some (findIndex_searchedText hnfkc hfuzzy hsolved)).2
    · exact absurd hlit hnot
  · intro h
    obtain ⟨hover, hapart, hkept⟩ := h.literal hlit
    have hnotApart : ¬ TwoApart edit.oldText content := by
      intro htwo
      obtain ⟨hne, htwo⟩ := hapart htwo
      exact not_twoApart_of_resolved hnfkc hsolved hne htwo
    have honly := (occursOnlyAt_iff hold hocc).mpr ⟨hover, hnotApart⟩
    refine .inl ⟨i, honly, ?_⟩
    rw [ReplacedAt]
    split_ifs with hfuzzy
    · obtain ⟨hstands, hfront⟩ := hkept hfuzzy i honly
      obtain ⟨-, hfound, hnone⟩ := findIndex_eq_some (findIndex_searchedText hnfkc hfuzzy hsolved)
      rcases lt_trichotomy (replacedAt nfkc content edits edit) (placeOf nfkc content i) with
        hlt | hsame | hgt
      · exact absurd hfound (hfront _ hlt)
      · exact hsame
      · exact absurd hstands (hnone _ hgt)
    · exact replacedAt_of_not_fuzzy (Bool.eq_false_iff.mpr hfuzzy) hi

theorem unambiguous_iff_of_not_literal (hnfkc : NormalizesParts nfkc) (hmem : edit ∈ edits)
    (hsolved : Resolved nfkc (replacementBaseContent nfkc content edits) edit)
    (hnot : ¬ edit.oldText <:+: content) :
    Unambiguous nfkc content edits edit ↔ Distinguishable nfkc content edits edit := by
  have hfuzzy := usesFuzzyMatch_of_not_infix hmem hsolved hnot
  have hocc := normalize_occurs hnfkc (findIndex_searchedText hnfkc.toNormalizes hfuzzy hsolved)
  constructor
  · rintro (⟨i, honly, -⟩ | ⟨-, hne, honly⟩)
    · exact absurd (honly.1.isInfix.trans (List.drop_suffix i content).isInfix) hnot
    · exact ⟨fun hlit => absurd hlit hnot, fun _ => ⟨hne, ((occursOnlyAt_iff hne hocc).mp honly).1⟩⟩
  · intro h
    obtain ⟨hne, hover⟩ := h.fuzzy hnot
    have hapart := not_twoApart_of_resolved hnfkc.toNormalizes hsolved hne
    exact .inr ⟨hnot, hne, (occursOnlyAt_iff hne hocc).mpr ⟨hover, hapart⟩⟩

/-- The edits of an accepted call are unambiguous exactly when the count tells the positions of
their texts apart. -/
theorem accepted_edits_unambiguous_iff (nfkc : List Char → List Char)
    (hnfkc : NormalizesParts nfkc) (path : String) (content : List Char) (edits : List Edit)
    (result : AppliedEditsResult)
    (h : applyEditsToNormalizedContent nfkc content edits path = .ok result) :
    (∀ edit ∈ edits.map normalizeEdit, Unambiguous nfkc content (edits.map normalizeEdit) edit) ↔
      ∀ edit ∈ edits.map normalizeEdit,
        Distinguishable nfkc content (edits.map normalizeEdit) edit := by
  obtain ⟨hold, matched, hmatched, -⟩ := apply_eq_ok_iff.mp h
  have hresolved := (ranges_of_matchEdits hmatched).1
  apply forall₂_congr
  intro edit hmem
  by_cases hliteral : edit.oldText <:+: content
  · exact unambiguous_iff_of_literal hnfkc.toNormalizes (hold edit hmem) (hresolved edit hmem)
      hliteral
  · exact unambiguous_iff_of_not_literal hnfkc hmem (hresolved edit hmem) hliteral

/-- The identity leaves the parts of all texts alone. -/
theorem normalizesParts_id : NormalizesParts id where
  toNormalizes := normalizes_id
  parts _ _ _ := rfl

/-- An edit of a text that overlaps itself. -/
def doubled : List Edit := [⟨['a', 'a'], ['b']⟩]

/-- An edit of a space. -/
def space : List Edit := [⟨[' '], ['_']⟩]

/-- Two spaces, one of which no search for a space finds, and a quoted letter. -/
def spaced : List Char := ['a', '\u00a0', ' ', '“', 'q', '”']

/-- Edits of the space and of the quoted letter. -/
def spaceAndQuote : List Edit := [⟨[' '], ['_']⟩, ⟨['"', 'q', '"'], ['b']⟩]

def spaceAndQuoteMatches : List MatchedEdit := [⟨0, 1, 1, ['_']⟩, ⟨1, 3, 3, ['b']⟩]

theorem spaceAndQuote_accepted : applyEditsToNormalizedContent id spaced spaceAndQuote "f" =
    .ok ⟨spaced, ['a', '_', ' ', 'b']⟩ := by
  have hsorted : sortByMatchIndex spaceAndQuoteMatches = spaceAndQuoteMatches :=
    List.mergeSort_of_pairwise (by decide)
  refine apply_eq_ok_iff.mpr ⟨by decide, spaceAndQuoteMatches, by decide +kernel, ?_, _, ?_,
    by decide, rfl⟩
  · rw [hsorted]
    rfl
  · rw [writeMatches, if_pos (by decide +kernel), hsorted,
      applyReplacementsPreservingUnchangedLines, hsorted]
    decide +kernel

/-- With the quotes both spaces are normalized, and the one in front is replaced. -/
theorem spaceAndQuote_unambiguous_iff :
    replacedAt id spaced spaceAndQuote ⟨[' '], ['_']⟩ = 1 ∧ placeOf id spaced 2 = 2 ∧
      ((∀ edit ∈ spaceAndQuote.map normalizeEdit,
          Unambiguous id spaced (spaceAndQuote.map normalizeEdit) edit) ↔
        ∀ edit ∈ spaceAndQuote.map normalizeEdit,
          Distinguishable id spaced (spaceAndQuote.map normalizeEdit) edit) :=
  ⟨by decide +kernel, by decide +kernel, accepted_edits_unambiguous_iff id normalizesParts_id "f"
    spaced spaceAndQuote _ spaceAndQuote_accepted⟩

/-- Of three letters the first two are replaced, and of two spaces the first one. -/
theorem ambiguous_edits_accepted : (applyEditsToNormalizedContent id ['a', 'a', 'a'] doubled "f" =
        .ok ⟨['a', 'a', 'a'], ['b', 'a']⟩ ∧
      ¬ ∀ edit ∈ doubled.map normalizeEdit,
        Unambiguous id ['a', 'a', 'a'] (doubled.map normalizeEdit) edit) ∧
      applyEditsToNormalizedContent id ['a', ' ', 'b', ' ', 'c'] space "f" =
          .ok ⟨['a', ' ', 'b', ' ', 'c'], ['a', '_', 'b', ' ', 'c']⟩ ∧
        ¬ ∀ edit ∈ space.map normalizeEdit,
          Unambiguous id ['a', ' ', 'b', ' ', 'c'] (space.map normalizeEdit) edit := by
  refine ⟨⟨by decide +kernel, fun h => ?_⟩, by decide +kernel, fun h => ?_⟩
  · rcases h ⟨['a', 'a'], ['b']⟩ (by decide) with ⟨i, honly, -⟩ | ⟨hnot, -⟩
    · have hfirst := honly.2 0 (by decide)
      have hsecond := honly.2 1 (by decide)
      omega
    · exact hnot (by decide)
  · rcases h ⟨[' '], ['_']⟩ (by decide) with ⟨i, honly, -⟩ | ⟨hnot, -⟩
    · have hfirst := honly.2 1 (by decide)
      have hsecond := honly.2 3 (by decide)
      omega
    · exact hnot (by decide)

end PiOxidized.Tools
