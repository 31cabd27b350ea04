/-
# The ranges of accepted edits

An edit is resolved when its text is found and counted at most once.  Edits that pass the checks
are resolved, and their ranges, sorted by where they begin, follow each other in the content that
they were matched against.  Ranges that are not empty are therefore the same in every order of the
edits.
-/

import PiOxidized.Math.Fallible
import PiOxidized.Tools.EditDiff

namespace PiOxidized.Tools

open List Math

variable (nfkc : List Char → List Char)

/-- Where the text of an edit is found, with what is to stand there. -/
def foundRange (base : List Char) (edit : Edit) : Replacement Char :=
  match fuzzyFindText nfkc base edit.oldText with
  | some found => ⟨found.index, found.matchLength, edit.newText⟩
  | none => ⟨0, 0, edit.newText⟩

/-- The text of the edit is found and counted at most once. -/
def Resolved (base : List Char) (edit : Edit) : Prop :=
  (fuzzyFindText nfkc base edit.oldText).isSome = true ∧ countOccurrences nfkc base edit.oldText ≤ 1

instance (base : List Char) (edit : Edit) : Decidable (Resolved nfkc base edit) :=
  inferInstanceAs (Decidable (_ ∧ _))

/-- Ranges in the order of where they begin. -/
def sortRanges (ranges : List (Replacement Char)) : List (Replacement Char) :=
  ranges.mergeSort fun first second => first.start ≤ second.start

/-- The ranges of the edits in the order of where they begin. -/
def foundRanges (base : List Char) (edits : List Edit) : List (Replacement Char) :=
  sortRanges (edits.map (foundRange nfkc base))

/-- What the ranges make of the content that they were matched against. -/
def writeMatches (content : List Char) (edits : List Edit) (matched : List MatchedEdit) :
    Except String (List Char) :=
  let base := replacementBaseContent nfkc content edits
  if usesFuzzyMatch nfkc content edits then
    applyReplacementsPreservingUnchangedLines content base (sortByMatchIndex matched)
  else .ok (applyReplacements base (sortByMatchIndex matched) 0)

variable {nfkc} {base content : List Char} {path : String} {total i first last : Nat}
  {edits : List Edit} {matched : List MatchedEdit} {ranges : List (Replacement Char)}

/-! ## Matches -/

theorem checkOldTexts_eq_ok_iff :
    checkOldTexts path total i edits = .ok () ↔ ∀ edit ∈ edits, edit.oldText ≠ [] := by
  induction edits generalizing i with
  | nil => exact iff_of_true rfl fun _ h => absurd h not_mem_nil
  | cons edit edits ih =>
    rw [checkOldTexts, forall_mem_cons]
    split_ifs with hemp
    · exact iff_of_false nofun fun h => h.1 (isEmpty_iff.mp hemp)
    · rw [ih]
      exact (and_iff_right fun hnil => hemp (isEmpty_iff.mpr hnil)).symm

theorem ranges_of_matchEdits (h : matchEdits nfkc base path total i edits = .ok matched) :
    (∀ edit ∈ edits, Resolved nfkc base edit) ∧
      matched.map MatchedEdit.range = edits.map (foundRange nfkc base) := by
  induction edits generalizing i matched with
  | nil =>
    rw [← Except.ok.inj h]
    exact ⟨fun _ hmem => absurd hmem not_mem_nil, rfl⟩
  | cons edit edits ih =>
    rw [matchEdits] at h
    cases hfnd : fuzzyFindText nfkc base edit.oldText with
    | none =>
      rw [hfnd] at h
      cases h
    | some found =>
      rw [hfnd] at h
      dsimp only at h
      split_ifs at h with hcnt
      obtain ⟨rest, hrest, h⟩ := bind_ok h
      obtain ⟨hsolved, hranges⟩ := ih hrest
      have hhere : Resolved nfkc base edit :=
        ⟨by rw [hfnd, Option.isSome_some], Nat.le_of_not_lt hcnt⟩
      have hrng : foundRange nfkc base edit = ⟨found.index, found.matchLength, edit.newText⟩ := by
        rw [foundRange, hfnd]
      rw [← Except.ok.inj h, map_cons, map_cons, hranges, hrng]
      exact ⟨forall_mem_cons.mpr ⟨hhere, hsolved⟩, rfl⟩

theorem exists_matchEdits (path : String) (total i : Nat)
    (h : ∀ edit ∈ edits, Resolved nfkc base edit) :
    ∃ matched, matchEdits nfkc base path total i edits = .ok matched := by
  induction edits generalizing i with
  | nil => exact ⟨[], rfl⟩
  | cons edit edits ih =>
    obtain ⟨⟨hsome, hcnt⟩, hlater⟩ := forall_mem_cons.mp h
    obtain ⟨found, hfnd⟩ := Option.isSome_iff_exists.mp hsome
    obtain ⟨rest, hrest⟩ := ih (i + 1) hlater
    refine ⟨⟨i, found.index, found.matchLength, edit.newText⟩ :: rest, ?_⟩
    rw [matchEdits, hfnd]
    dsimp only
    rw [if_neg (Nat.not_lt_of_le hcnt), hrest]
    rfl

/-! ## Order -/

theorem ranges_sortByMatchIndex (matched : List MatchedEdit) :
    (sortByMatchIndex matched).map MatchedEdit.range = sortRanges (matched.map MatchedEdit.range) :=
  map_mergeSort fun _ _ _ _ => rfl

theorem sortRanges_perm (ranges : List (Replacement Char)) :
    (sortRanges ranges).Perm ranges := mergeSort_perm _ _

theorem pairwise_mergeSort_key {A : Type} (key : A → Nat) (items : List A) :
    (items.mergeSort fun first second => key first ≤ key second).Pairwise
      fun first second => decide (key first ≤ key second) = true := by
  apply pairwise_mergeSort
  · intro a b c hab hbc
    rw [decide_eq_true_iff] at *
    exact Nat.le_trans hab hbc
  · intro a b
    rw [Bool.or_eq_true, decide_eq_true_iff, decide_eq_true_iff]
    exact Nat.le_total _ _

theorem sortRanges_pairwise (ranges : List (Replacement Char)) :
    (sortRanges ranges).Pairwise fun early later => early.start ≤ later.start :=
  (pairwise_mergeSort_key Replacement.start ranges).imp fun h => of_decide_eq_true h

theorem sortByMatchIndex_sortByMatchIndex (matched : List MatchedEdit) :
    sortByMatchIndex (sortByMatchIndex matched) = sortByMatchIndex matched :=
  mergeSort_of_pairwise (pairwise_mergeSort_key MatchedEdit.matchIndex matched)

/-- The ranges of matched edits are those that the search finds, in their order. -/
theorem ranges_sorted (h : matchEdits nfkc base path total i edits = .ok matched) :
    (sortByMatchIndex matched).map MatchedEdit.range = foundRanges nfkc base edits := by
  rw [ranges_sortByMatchIndex, (ranges_of_matchEdits h).2, foundRanges]

theorem exists_matched_range
    (hmat : matchEdits nfkc base path total i edits = .ok matched) {found : MatchedEdit}
    (hfnd : found ∈ sortByMatchIndex matched) :
    ∃ edit ∈ edits, found.range = foundRange nfkc base edit := by
  have hmem := mem_map_of_mem (f := MatchedEdit.range) hfnd
  rw [ranges_sorted hmat, foundRanges, (sortRanges_perm _).mem_iff] at hmem
  obtain ⟨edit, hedit, heq⟩ := mem_map.mp hmem
  exact ⟨edit, hedit, heq.symm⟩

/-- Sorted ranges that do not overlap are the same in every order that they are given in. -/
theorem sortRanges_eq_of_perm {others : List (Replacement Char)}
    (hord : Ordered first last (sortRanges ranges))
    (hlen : ∀ range ∈ ranges, 0 < range.length) (hperm : others.Perm ranges) :
    sortRanges others = sortRanges ranges := by
  apply hord.eq_of_perm _ (sortRanges_pairwise others)
  · exact (sortRanges_perm others).trans (hperm.trans (sortRanges_perm ranges).symm)
  · intro range hrng
    exact hlen range ((sortRanges_perm ranges).mem_iff.mp hrng)

/-- The comparison of neighbours finds whether any two of the sorted ranges overlap. -/
theorem checkOverlaps_eq_ok_iff (hle : first ≤ last)
    (hfst : ∀ found ∈ matched.head?, first ≤ found.matchIndex)
    (hlast : ∀ found ∈ matched, found.range.stop ≤ last) :
    checkOverlaps path matched = .ok () ↔ Ordered first last (matched.map MatchedEdit.range) := by
  induction matched generalizing first with
  | nil => exact iff_of_true rfl hle
  | cons previous matched ih =>
    have hsta : first ≤ previous.range.start := hfst previous (Option.mem_some.mpr rfl)
    obtain ⟨hstop, hlater⟩ := forall_mem_cons.mp hlast
    rw [map_cons, Ordered, and_iff_right hsta]
    cases matched with
    | nil => exact iff_of_true rfl hstop
    | cons current matched =>
      rw [checkOverlaps]
      split_ifs with hoverlap
      · apply iff_of_false nofun
        intro hord
        exact Nat.not_lt_of_le hord.1 hoverlap
      · apply ih hstop _ hlater
        intro next hnext
        rw [head?_cons, Option.mem_some] at hnext
        rw [← hnext]
        exact Nat.le_of_not_lt hoverlap

/-! ## Accepted edits -/

theorem apply_eq (nfkc : List Char → List Char) (content : List Char) (edits : List Edit)
    (path : String) :
    applyEditsToNormalizedContent nfkc content edits path = (do
        let normalized := edits.map normalizeEdit
        checkOldTexts path normalized.length 0 normalized
        let matched ← matchEdits nfkc (replacementBaseContent nfkc content normalized) path
          normalized.length 0 normalized
        checkOverlaps path (sortByMatchIndex matched)
        let newContent ← writeMatches nfkc content normalized matched
        if content = newContent then .error (noChangeError path normalized.length)
        else .ok ⟨content, newContent⟩) := by
  rw [applyEditsToNormalizedContent]
  dsimp only
  congr
  funext _
  congr
  funext matched
  congr
  funext _
  rw [writeMatches]
  split_ifs <;> rfl

theorem apply_eq_ok_iff {result : AppliedEditsResult} :
    applyEditsToNormalizedContent nfkc content edits path = .ok result ↔
      (∀ edit ∈ edits.map normalizeEdit, edit.oldText ≠ []) ∧ ∃ matched,
          matchEdits nfkc (replacementBaseContent nfkc content (edits.map normalizeEdit)) path
              (edits.map normalizeEdit).length 0 (edits.map normalizeEdit) = .ok matched ∧
            checkOverlaps path (sortByMatchIndex matched) = .ok () ∧ ∃ newContent,
                writeMatches nfkc content (edits.map normalizeEdit) matched = .ok newContent ∧
                  content ≠ newContent ∧ result = ⟨content, newContent⟩ := by
  rw [apply_eq]
  constructor
  · intro h
    obtain ⟨_, hold, h⟩ := bind_ok h
    obtain ⟨matched, hmat, h⟩ := bind_ok h
    obtain ⟨_, hoverlaps, h⟩ := bind_ok h
    obtain ⟨newContent, hnew, h⟩ := bind_ok h
    split_ifs at h with hsame
    exact ⟨checkOldTexts_eq_ok_iff.mp hold, matched, hmat, hoverlaps, newContent, hnew, hsame,
      (Except.ok.inj h).symm⟩
  · rintro ⟨hold, matched, hmat, hoverlaps, newContent, hnew, hsame, rfl⟩
    apply bind_ok_iff.mpr
    refine ⟨(), checkOldTexts_eq_ok_iff.mpr hold, bind_ok_iff.mpr ?_⟩
    refine ⟨matched, hmat, bind_ok_iff.mpr ?_⟩
    refine ⟨(), hoverlaps, bind_ok_iff.mpr ⟨newContent, hnew, ?_⟩⟩
    exact if_neg hsame

/-- What a call comes to when its ranges are written. -/
theorem apply_of_written {newContent : List Char}
    (hold : ∀ edit ∈ edits.map normalizeEdit, edit.oldText ≠ [])
    (hmat : matchEdits nfkc (replacementBaseContent nfkc content (edits.map normalizeEdit)) path
      (edits.map normalizeEdit).length 0 (edits.map normalizeEdit) = .ok matched)
    (hoverlaps : checkOverlaps path (sortByMatchIndex matched) = .ok ())
    (hnew : writeMatches nfkc content (edits.map normalizeEdit) matched = .ok newContent) :
    applyEditsToNormalizedContent nfkc content edits path =
      if content = newContent then .error (noChangeError path edits.length)
      else .ok ⟨content, newContent⟩ := by
  rw [apply_eq]
  dsimp only
  rw [checkOldTexts_eq_ok_iff.mpr hold, hmat, length_map]
  dsimp only [bind, Except.bind]
  rw [hoverlaps, hnew]

end PiOxidized.Tools
