/-
# Unified patches

The lines of two contents are aligned along a longest common subsequence, which a table of lengths
and a walk back through it find.  Lines that are removed come before lines that are added in their
place.  The changes are grouped by the number of unchanged lines between them, and each group is
written with its context as one hunk.
-/

import Mathlib.Algebra.GroupWithZero.Nat
import PiOxidized.Math.SplitLines

namespace PiOxidized.Tools

open Math

def splitDisplayLines (content : List Char) : List (List Char) := splitInclusive '\n' content

/-! ## Longest common subsequence -/

section Table

variable {X : Type} [DecidableEq X]

/-- The cells of a row, given the cell on the left and the row above. -/
def fillRow (a : X) (left : Nat) : List X → List Nat → List Nat
  | b :: bs, diagonal :: above :: row =>
    let cell := if a = b then diagonal + 1 else max left above
    cell :: fillRow a cell bs (above :: row)
  | _, _ => []

/-- A row and the rows that follow it, one for each element. -/
def fillTable (bs : List X) (row : List Nat) : List X → List (List Nat)
  | [] => [row]
  | a :: as => row :: fillTable bs (0 :: fillRow a 0 bs row) as

/-- The lengths for all begins of the two lists. -/
def lcsTable (as bs : List X) : List (List Nat) :=
  fillTable bs (List.replicate (bs.length + 1) 0) as

def cellOf (table : List (List Nat)) (row col : Nat) : Nat := (table.getD row []).getD col 0

/-- The pairs of equal elements on the way back through the table, the first ones first. -/
def backtrack (as bs : List X) (table : List (List Nat)) : Nat → Nat → List (Nat × Nat)
  | row + 1, col + 1 =>
    if as[row]? = bs[col]? then backtrack as bs table row col ++ [(row, col)]
    else if cellOf table (row + 1) col ≤ cellOf table row (col + 1) then
      backtrack as bs table row (col + 1)
    else backtrack as bs table (row + 1) col
  | _, _ => []
termination_by row col => row + col

def longestCommonSubsequence (as bs : List X) : List (Nat × Nat) :=
  backtrack as bs (lcsTable as bs) as.length bs.length

end Table

/-! ## Operations -/

inductive Op
  | equal (text : List Char)
  | added (text : List Char)
  | removed (text : List Char)
  deriving DecidableEq

/-- The operations for the lines that are left of both contents, from two line numbers on.  There is
no result where the loop would index a line that does not exist, or go on forever. -/
def alignLines (oldIndex newIndex : Nat) (lcs : List (Nat × Nat)) :
    List (List Char) → List (List Char) → Option (List Op)
  | [], [] => some []
  | [], new :: newLines =>
    if lcs.head? = some (oldIndex, newIndex) then none
    else if lcs.head?.all (newIndex < ·.2) then
      (alignLines oldIndex (newIndex + 1) lcs [] newLines).map (.added new :: ·)
    else none
  | old :: oldLines, [] =>
    if lcs.head? = some (oldIndex, newIndex) then
      (alignLines (oldIndex + 1) (newIndex + 1) lcs.tail oldLines []).map (.equal old :: ·)
    else (alignLines (oldIndex + 1) newIndex lcs oldLines []).map (.removed old :: ·)
  | old :: oldLines, new :: newLines =>
    if lcs.head? = some (oldIndex, newIndex) then
      (alignLines (oldIndex + 1) (newIndex + 1) lcs.tail oldLines newLines).map (.equal old :: ·)
    else if lcs.head?.all (newIndex < ·.2) then
      (alignLines oldIndex (newIndex + 1) lcs (old :: oldLines) newLines).map (.added new :: ·)
    else
      (alignLines (oldIndex + 1) newIndex lcs oldLines (new :: newLines)).map (.removed old :: ·)
termination_by oldLines newLines => oldLines.length + newLines.length

inductive DiffPart
  | equal (lines : List (List Char))
  | change (removed added : List (List Char))
  deriving DecidableEq

/-- An operation in front of the parts that follow it. -/
def pushOp : Op → List DiffPart → List DiffPart
  | .equal text, .equal lines :: parts => .equal (text :: lines) :: parts
  | .equal text, parts => .equal [text] :: parts
  | .removed text, .change removed added :: parts => .change (text :: removed) added :: parts
  | .removed text, parts => .change [text] [] :: parts
  | .added text, .change removed added :: parts => .change removed (text :: added) :: parts
  | .added text, parts => .change [] [text] :: parts

/-- Equal lines in a row, and changes in a row, as one part. -/
def collapseOps (ops : List Op) : List DiffPart := ops.foldr pushOp []

/-! ## Lines of a patch -/

inductive PatchSign
  | context
  | removed
  | added
  deriving DecidableEq

def PatchSign.char : PatchSign → Char
  | .context => ' '
  | .removed => '-'
  | .added => '+'

structure PatchLine where
  sign : PatchSign
  text : List Char
  deriving DecidableEq

namespace PatchLine

def isContext (line : PatchLine) : Bool := line.sign = .context

def oldIncrement (line : PatchLine) : Nat := if line.sign ≠ .added then 1 else 0

def newIncrement (line : PatchLine) : Nat := if line.sign ≠ .removed then 1 else 0

end PatchLine

/-- The lines of a part, the removed ones first. -/
def DiffPart.lines : DiffPart → List PatchLine
  | .equal lines => lines.map (⟨.context, ·⟩)
  | .change removed added => removed.map (⟨.removed, ·⟩) ++ added.map (⟨.added, ·⟩)

def patchLines (oldContent newContent : List Char) : Option (List PatchLine) :=
  let oldLines := splitDisplayLines oldContent
  let newLines := splitDisplayLines newContent
  (alignLines 0 0 (longestCommonSubsequence oldLines newLines) oldLines newLines).map fun ops =>
    (collapseOps ops).flatMap DiffPart.lines

/-! ## Hunks -/

/-- How many lines are walked over until there are more than enough context lines. -/
def walked (contextLines context : Nat) : List PatchLine → Nat
  | [] => 0
  | line :: lines =>
    if line.isContext then
      if context = contextLines then 0 else 1 + walked contextLines (context + 1) lines
    else 1 + walked contextLines context lines

def contextBoundary (lines : List PatchLine) (start contextLines : Nat) (reverse : Bool) : Nat :=
  if reverse then start - walked contextLines 0 (lines.take start).reverse
  else start + walked contextLines 0 (lines.drop start)

/-- The positions of lines that are not context, from a position on. -/
def changesFrom (position : Nat) : List PatchLine → List Nat
  | [] => []
  | line :: lines =>
    if line.isContext then changesFrom (position + 1) lines
    else position :: changesFrom (position + 1) lines

/-- The first and last positions of groups of changes.  Changes with more than twice the context
between them are in different groups; twice the context does not overflow here. -/
def groupChanges (lines : List PatchLine) (contextLines first last : Nat) :
    List Nat → List (Nat × Nat)
  | [] => [(first, last)]
  | change :: changes =>
    let unchangedBetween := ((lines.take change).drop (last + 1)).countP PatchLine.isContext
    if 2 * contextLines < unchangedBetween then
      (first, last) :: groupChanges lines contextLines change change changes
    else groupChanges lines contextLines first change changes

/-- A line of a hunk as it is written: its sign, the text without its newline, and whether the marker
for a missing newline follows. -/
structure HunkLine where
  sign : PatchSign
  body : List Char
  missingNewline : Bool
  deriving DecidableEq

def PatchLine.written (line : PatchLine) : HunkLine :=
  if line.text.getLast? = some '\n' then ⟨line.sign, line.text.dropLast, false⟩
  else ⟨line.sign, line.text, true⟩

structure Hunk where
  oldStart : Nat
  oldCount : Nat
  newStart : Nat
  newCount : Nat
  lines : List HunkLine
  deriving DecidableEq

/-- The hunk of the lines from one position up to another. -/
def hunkOf (lines : List PatchLine) (start stop : Nat) : Hunk :=
  let oldBefore := ((lines.take start).map PatchLine.oldIncrement).sum
  let newBefore := ((lines.take start).map PatchLine.newIncrement).sum
  let oldCount := (((lines.take stop).drop start).map PatchLine.oldIncrement).sum
  let newCount := (((lines.take stop).drop start).map PatchLine.newIncrement).sum
  { oldStart := if oldCount = 0 then oldBefore else oldBefore + 1
    oldCount
    newStart := if newCount = 0 then newBefore else newBefore + 1
    newCount
    lines := ((lines.take stop).drop start).map PatchLine.written }

/-- The positions of the lines of a group with its context. -/
def groupBounds (lines : List PatchLine) (contextLines : Nat) (group : Nat × Nat) : Nat × Nat :=
  (contextBoundary lines group.1 contextLines true,
    contextBoundary lines (group.2 + 1) contextLines false)

/-- The hunks of the patch; there are none without a result of the alignment or without a change. -/
def patchHunks (oldContent newContent : List Char) (contextLines : Nat) : Option (List Hunk) :=
  if oldContent = newContent then some []
  else do
    let lines ← patchLines oldContent newContent
    match changesFrom 0 lines with
    | [] => none
    | first :: changes =>
      some ((groupChanges lines contextLines first first changes).map fun group =>
        let bounds := groupBounds lines contextLines group
        hunkOf lines bounds.1 bounds.2)

def HunkLine.write (line : HunkLine) : List Char := line.sign.char :: line.body ++ ['\n'] ++
    if line.missingNewline then "\\ No newline at end of file\n".toList else []

def Hunk.write (hunk : Hunk) : List Char :=
  "@@ -".toList ++ (toString hunk.oldStart).toList ++ [','] ++ (toString hunk.oldCount).toList ++
    " +".toList ++ (toString hunk.newStart).toList ++ [','] ++ (toString hunk.newCount).toList ++
      " @@\n".toList ++ hunk.lines.flatMap HunkLine.write

def generateUnifiedPatch (path oldContent newContent : List Char) (contextLines : Nat) :
    Option (List Char) :=
  (patchHunks oldContent newContent contextLines).map fun hunks =>
    "--- ".toList ++ path ++ "\n+++ ".toList ++ path ++ ['\n'] ++ hunks.flatMap Hunk.write

end PiOxidized.Tools
