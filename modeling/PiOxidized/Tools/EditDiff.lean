/-
# Edits of a file

Each edit names a text that is to be replaced.  The texts are searched in the content as it is, or,
when one of them is not found there, in the content normalized for a fuzzy match; the edits are
then applied from the last to the first.  After a fuzzy match the lines that are not touched keep
their original text.

Texts are lists of characters, and positions count characters.  The compatibility normalization of
Unicode is code of a library and comes as a parameter.
-/

import PiOxidized.Math.Occurrence
import PiOxidized.Math.Splice
import PiOxidized.Math.SplitLines
import PiOxidized.Math.Text

namespace PiOxidized.Tools

open Math

/-- One replacement of a text by another. -/
structure Edit where
  oldText : List Char
  newText : List Char
  deriving DecidableEq

/-- The content before and after the edits. -/
structure AppliedEditsResult where
  baseContent : List Char
  newContent : List Char
  deriving DecidableEq

/-! ## Normalization -/

def replaceCrlf : List Char → List Char
  | '\r' :: '\n' :: text => '\n' :: replaceCrlf text
  | c :: text => c :: replaceCrlf text
  | [] => []

/-- Every line ending as a newline. -/
def normalizeToLf (text : List Char) : List Char :=
  (replaceCrlf text).map fun c => if c = '\r' then '\n' else c

/-- Quotes, dashes and spaces as those of ASCII. -/
def toAscii (c : Char) : Char := if [0x2018, 0x2019, 0x201A, 0x201B].contains c.toNat then '\''
  else if [0x201C, 0x201D, 0x201E, 0x201F].contains c.toNat then '"'
  else if [0x2010, 0x2011, 0x2012, 0x2013, 0x2014, 0x2015, 0x2212].contains c.toNat then '-'
  else if [0xA0, 0x2002, 0x2003, 0x2004, 0x2005, 0x2006, 0x2007, 0x2008, 0x2009, 0x200A, 0x202F,
      0x205F, 0x3000].contains c.toNat then ' '
  else c

/-- The text with every line trimmed at its end. -/
def trimLines (text : List Char) : List Char := ['\n'].intercalate ((text.splitOn '\n').map trimEnd)

variable (nfkc : List Char → List Char)

def normalizeForFuzzyMatch (text : List Char) : List Char := (trimLines (nfkc text)).map toAscii

/-! ## Search -/

structure FuzzyMatchResult where
  index : Nat
  matchLength : Nat
  usedFuzzyMatch : Bool
  deriving DecidableEq

/-- The first position of a text, or else of its normalization in the normalized content. -/
def fuzzyFindText (content oldText : List Char) : Option FuzzyMatchResult :=
  match findIndex oldText content with
  | some index => some ⟨index, oldText.length, false⟩
  | none =>
    let fuzzyOld := normalizeForFuzzyMatch nfkc oldText
    (findIndex fuzzyOld (normalizeForFuzzyMatch nfkc content)).map fun index =>
      ⟨index, fuzzyOld.length, true⟩

/-- The occurrences that do not overlap after normalization; the empty text has none. -/
def countOccurrences (content oldText : List Char) : Nat :=
  let fuzzyOld := normalizeForFuzzyMatch nfkc oldText
  if fuzzyOld.isEmpty then 0
  else countDisjoint fuzzyOld 0 (normalizeForFuzzyMatch nfkc content)

/-! ## Errors -/

def emptyOldTextError (path : String) (editIndex totalEdits : Nat) : String :=
  if totalEdits = 1 then s!"oldText must not be empty in {path}."
  else s!"edits[{editIndex}].oldText must not be empty in {path}."

def notFoundError (path : String) (editIndex totalEdits : Nat) : String := if totalEdits = 1 then
    s!"Could not find the exact text in {path}. " ++
      "The old text must match exactly including all whitespace and newlines."
  else
    s!"Could not find edits[{editIndex}] in {path}. " ++
      "The oldText must match exactly including all whitespace and newlines."

def duplicateError (path : String) (editIndex totalEdits occurrences : Nat) : String :=
  if totalEdits = 1 then
    s!"Found {occurrences} occurrences of the text in {path}. The text must be unique. " ++
      "Please provide more context to make it unique."
  else
    s!"Found {occurrences} occurrences of edits[{editIndex}] in {path}. " ++
      "Each oldText must be unique. Please provide more context to make it unique."

def noChangeError (path : String) (totalEdits : Nat) : String := if totalEdits = 1 then
    s!"No changes made to {path}. The replacement produced identical content. " ++
      "This might indicate an issue with special characters or the text not existing as expected."
  else s!"No changes made to {path}. The replacements produced identical content."

def overlapError (path : String) (previous current : Nat) : String :=
  s!"edits[{previous}] and edits[{current}] overlap in {path}. " ++
    "Merge them into one edit or target disjoint regions."

/-! ## Replacements -/

/-- An edit with the range that its text was found at. -/
structure MatchedEdit where
  editIndex : Nat
  matchIndex : Nat
  matchLength : Nat
  newText : List Char
  deriving DecidableEq

def MatchedEdit.range (matched : MatchedEdit) : Replacement Char :=
  ⟨matched.matchIndex, matched.matchLength, matched.newText⟩

/-- Replace the ranges of a text that begins at an offset, the last one first. -/
def applyReplacements (content : List Char) (replacements : List MatchedEdit) (offset : Nat) :
    List Char :=
  (replacements.map MatchedEdit.range).foldr (Replacement.replace offset) content

def splitLinesWithEndings (content : List Char) : List (List Char) := splitInclusive '\n' content

structure LineSpan where
  start : Nat
  stop : Nat
  deriving DecidableEq

/-- Where lines that begin at an offset begin and end. -/
def lineSpans (offset : Nat) : List (List Char) → List LineSpan
  | [] => []
  | line :: lines => ⟨offset, offset + line.length⟩ :: lineSpans (offset + line.length) lines

def getLineSpans (content : List Char) : List LineSpan :=
  lineSpans 0 (splitLinesWithEndings content)

/-- The lines that a range touches: from the one it begins in to the one it ends in. -/
def getReplacementLineRange (lines : List LineSpan) (matchIndex matchLength : Nat) :
    Except String (Nat × Nat) :=
  match lines.findIdx? fun line => line.start ≤ matchIndex && matchIndex < line.stop with
  | none => .error "Replacement range is outside the base content."
  | some startLine =>
    match (lines.drop startLine).findIdx? fun line => matchIndex + matchLength ≤ line.stop with
    | none => .error "Replacement range is outside the base content."
    | some more => .ok (startLine, startLine + more + 1)

/-- Replacements of some lines. -/
structure ReplacementGroup where
  startLine : Nat
  endLine : Nat
  replacements : List MatchedEdit
  deriving DecidableEq

/-- Replacements in order are grouped when they share lines; the last group is `current`. -/
def groupReplacements (lines : List LineSpan) (current : ReplacementGroup) :
    List MatchedEdit → Except String (List ReplacementGroup)
  | [] => .ok [current]
  | replacement :: replacements => do
    let (startLine, endLine) ←
      getReplacementLineRange lines replacement.matchIndex replacement.matchLength
    if startLine < current.endLine then
      groupReplacements lines { current with
          endLine := max current.endLine endLine
          replacements := current.replacements ++ [replacement] } replacements
    else
      let groups ← groupReplacements lines ⟨startLine, endLine, [replacement]⟩ replacements
      .ok (current :: groups)

def replacementGroups (lines : List LineSpan) :
    List MatchedEdit → Except String (List ReplacementGroup)
  | [] => .ok []
  | replacement :: replacements => do
    let (startLine, endLine) ←
      getReplacementLineRange lines replacement.matchIndex replacement.matchLength
    groupReplacements lines ⟨startLine, endLine, [replacement]⟩ replacements

/-- The lines between the groups as they were, and the groups with their ranges replaced. -/
def writeGroups (originalLines : List (List Char)) (baseContent : List Char)
    (baseLines : List LineSpan) (originalLineIndex : Nat) : List ReplacementGroup → List Char
  | [] => (originalLines.drop originalLineIndex).flatten
  | group :: groups =>
    let kept := ((originalLines.take group.startLine).drop originalLineIndex).flatten
    let groupStartOffset := (baseLines.getD group.startLine ⟨0, 0⟩).start
    let groupEndOffset := (baseLines.getD (group.endLine - 1) ⟨0, 0⟩).stop
    let slice := (baseContent.take groupEndOffset).drop groupStartOffset
    kept ++ applyReplacements slice group.replacements groupStartOffset ++
      writeGroups originalLines baseContent baseLines group.endLine groups

def sortByMatchIndex (replacements : List MatchedEdit) : List MatchedEdit :=
  replacements.mergeSort fun first second => first.matchIndex ≤ second.matchIndex

/-- Replacements that were matched against the base content, written to the original one. -/
def applyReplacementsPreservingUnchangedLines (originalContent baseContent : List Char)
    (replacements : List MatchedEdit) : Except String (List Char) := do
  let originalLines := splitLinesWithEndings originalContent
  let baseLines := getLineSpans baseContent
  if originalLines.length ≠ baseLines.length then
    .error ("Cannot preserve unchanged lines because the base content has a different " ++
      "line count.")
  else
    let groups ← replacementGroups baseLines (sortByMatchIndex replacements)
    .ok (writeGroups originalLines baseContent baseLines 0 groups)

/-! ## Edits -/

def normalizeEdit (edit : Edit) : Edit := ⟨normalizeToLf edit.oldText, normalizeToLf edit.newText⟩

/-- The ranges of the edits from some index on. -/
def matchEdits (base : List Char) (path : String) (total : Nat) (index : Nat) :
    List Edit → Except String (List MatchedEdit)
  | [] => .ok []
  | edit :: edits =>
    match fuzzyFindText nfkc base edit.oldText with
    | none => .error (notFoundError path index total)
    | some found =>
      let occurrences := countOccurrences nfkc base edit.oldText
      if 1 < occurrences then .error (duplicateError path index total occurrences)
      else do
        let rest ← matchEdits base path total (index + 1) edits
        .ok (⟨index, found.index, found.matchLength, edit.newText⟩ :: rest)

/-- Neighbours among the sorted ranges do not overlap. -/
def checkOverlaps (path : String) : List MatchedEdit → Except String Unit
  | previous :: current :: rest =>
    if current.matchIndex < previous.matchIndex + previous.matchLength then
      .error (overlapError path previous.editIndex current.editIndex)
    else checkOverlaps path (current :: rest)
  | _ => .ok ()

/-- No text to be replaced is empty. -/
def checkOldTexts (path : String) (total index : Nat) : List Edit → Except String Unit
  | [] => .ok ()
  | edit :: edits =>
    if edit.oldText.isEmpty then .error (emptyOldTextError path index total)
    else checkOldTexts path total (index + 1) edits

/-- Whether one of the edits is found by a fuzzy match only. -/
def usesFuzzyMatch (content : List Char) (edits : List Edit) : Bool :=
  edits.any fun edit => (fuzzyFindText nfkc content edit.oldText).any (·.usedFuzzyMatch)

/-- The content that the edits are matched against. -/
def replacementBaseContent (content : List Char) (edits : List Edit) : List Char :=
  if usesFuzzyMatch nfkc content edits then normalizeForFuzzyMatch nfkc content else content

def applyEditsToNormalizedContent (normalizedContent : List Char) (edits : List Edit)
    (path : String) : Except String AppliedEditsResult := do
  let normalizedEdits := edits.map normalizeEdit
  let total := normalizedEdits.length
  checkOldTexts path total 0 normalizedEdits
  let base := replacementBaseContent nfkc normalizedContent normalizedEdits
  let matched ← matchEdits nfkc base path total 0 normalizedEdits
  let sorted := sortByMatchIndex matched
  checkOverlaps path sorted
  let newContent ← if usesFuzzyMatch nfkc normalizedContent normalizedEdits then
      applyReplacementsPreservingUnchangedLines normalizedContent base sorted
    else .ok (applyReplacements base sorted 0)
  if normalizedContent = newContent then .error (noChangeError path total)
  else .ok ⟨normalizedContent, newContent⟩

end PiOxidized.Tools
