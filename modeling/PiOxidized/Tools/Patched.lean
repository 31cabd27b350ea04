/-
# What a patch makes of the old content

A patch is applied hunk by hunk.  The lines in front of a hunk are kept, its context and its removed
lines have to be the lines of the old content where its header says, with or without the newline
at the end, and its context and added lines are written.  The hunks of a generated patch make the
new content of the old one, and remove and add no more lines than they have to.
-/

import PiOxidized.Tools.Aligned
import PiOxidized.Tools.Hunked

namespace PiOxidized.Tools

open List Function Math

/-! ## Applying a patch -/

/-- The line of text that a line of a hunk stands for. -/
def HunkLine.text (line : HunkLine) : List Char :=
  line.body ++ if line.missingNewline then [] else ['\n']

/-- How many lines lie in front of the hunk in the old content, by its header. -/
def Hunk.oldPosition (hunk : Hunk) : Nat :=
  if hunk.oldCount = 0 then hunk.oldStart else hunk.oldStart - 1

/-- How many lines lie in front of the hunk in the new content, by its header. -/
def Hunk.newPosition (hunk : Hunk) : Nat :=
  if hunk.newCount = 0 then hunk.newStart else hunk.newStart - 1

/-- The lines that a hunk writes, and the old lines behind it. -/
def applyLines : List HunkLine → List (List Char) → Option (List (List Char) × List (List Char))
  | [], old => some ([], old)
  | line :: lines, old =>
    match line.sign, old with
    | .added, old =>
      (applyLines lines old).map fun result => (line.text :: result.1, result.2)
    | .removed, found :: old => if found = line.text then applyLines lines old else none
    | .context, found :: old =>
      if found = line.text then
        (applyLines lines old).map fun result => (found :: result.1, result.2)
      else none
    | _, [] => none

/-- The new lines, given the old lines behind some that have been dealt with. -/
def applyHunks (oldAt newAt : Nat) : List Hunk → List (List Char) → Option (List (List Char))
  | [], old => some old
  | hunk :: hunks, old =>
    let skipped := hunk.oldPosition - oldAt
    if hunk.oldPosition < oldAt ∨ old.length < skipped ∨ hunk.newPosition ≠ newAt + skipped ∨
        (hunk.oldCount ≠ 0 ∧ hunk.oldStart = 0) ∨ (hunk.newCount ≠ 0 ∧ hunk.newStart = 0) then
      none
    else do
      let (new, rest) ← applyLines hunk.lines (old.drop skipped)
      if new.length ≠ hunk.newCount ∨ rest.length + hunk.oldCount + skipped ≠ old.length then none
      else do
        let later ← applyHunks (hunk.oldPosition + hunk.oldCount)
          (hunk.newPosition + hunk.newCount) hunks rest
        some (old.take skipped ++ new ++ later)

/-- What the hunks make of a content. -/
def applyPatch (content : List Char) (hunks : List Hunk) : Option (List Char) :=
  (applyHunks 0 0 hunks (splitDisplayLines content)).map List.flatten

variable {lines : List PatchLine} {hunks : List Hunk} {bounds : List (Nat × Nat)}
  {start stop : Nat} {oldRest : List (List Char)}

/-! ## Lines of a hunk -/

theorem sign_written (line : PatchLine) : line.written.sign = line.sign := by
  rw [PatchLine.written]
  split_ifs <;> rfl

/-- The marker for a missing newline and the body give back the text. -/
theorem text_written (line : PatchLine) : line.written.text = line.text := by
  rw [PatchLine.written]
  by_cases hnewline : line.text.getLast? = some '\n'
  · rw [if_pos hnewline]
    obtain ⟨front, hfront⟩ := getLast?_eq_some_iff.mp hnewline
    show line.text.dropLast ++ ['\n'] = line.text
    rw [hfront, dropLast_concat]
  · rw [if_neg hnewline]
    exact append_nil line.text

theorem applyLines_written (lines : List PatchLine) (rest : List (List Char)) :
    applyLines (lines.map PatchLine.written) (lines.flatMap PatchLine.old ++ rest) =
      some (lines.flatMap PatchLine.new, rest) := by
  induction lines with
  | nil => rfl
  | cons line lines ih =>
    obtain ⟨sign, text⟩ := line
    have hsign := sign_written ⟨sign, text⟩
    have htext := text_written ⟨sign, text⟩
    rw [map_cons, flatMap_cons, flatMap_cons, append_assoc]
    cases sign with
    | context | removed | added => simp [applyLines, hsign, htext, PatchLine.old, PatchLine.new, ih]

/-! ## Counts -/

theorem sum_oldIncrement (lines : List PatchLine) :
    (lines.map PatchLine.oldIncrement).sum = (lines.flatMap PatchLine.old).length := by
  induction lines with
  | nil => rfl
  | cons line lines ih =>
    rw [map_cons, sum_cons, ih, flatMap_cons, length_append, PatchLine.oldIncrement, PatchLine.old]
    split_ifs <;> first | rfl | contradiction

theorem sum_newIncrement (lines : List PatchLine) :
    (lines.map PatchLine.newIncrement).sum = (lines.flatMap PatchLine.new).length := by
  induction lines with
  | nil => rfl
  | cons line lines ih =>
    rw [map_cons, sum_cons, ih, flatMap_cons, length_append, PatchLine.newIncrement, PatchLine.new]
    split_ifs <;> first | rfl | contradiction

theorem oldPosition_hunkOf (lines : List PatchLine) (start stop : Nat) :
    (hunkOf lines start stop).oldPosition = ((lines.take start).flatMap PatchLine.old).length := by
  rw [Hunk.oldPosition, hunkOf]
  dsimp only
  split_ifs
  · exact sum_oldIncrement _
  · rw [Nat.add_sub_cancel, sum_oldIncrement]

theorem newPosition_hunkOf (lines : List PatchLine) (start stop : Nat) :
    (hunkOf lines start stop).newPosition = ((lines.take start).flatMap PatchLine.new).length := by
  rw [Hunk.newPosition, hunkOf]
  dsimp only
  split_ifs
  · exact sum_newIncrement _
  · rw [Nat.add_sub_cancel, sum_newIncrement]

theorem oldCount_hunkOf (lines : List PatchLine) (start stop : Nat) :
    (hunkOf lines start stop).oldCount =
      (((lines.take stop).drop start).flatMap PatchLine.old).length := sum_oldIncrement _

theorem newCount_hunkOf (lines : List PatchLine) (start stop : Nat) :
    (hunkOf lines start stop).newCount =
      (((lines.take stop).drop start).flatMap PatchLine.new).length := sum_newIncrement _

/-- The header of a hunk that has lines of a content counts from one. -/
theorem start_ne_zero_hunkOf (lines : List PatchLine) (start stop : Nat) :
    ¬ ((hunkOf lines start stop).oldCount ≠ 0 ∧ (hunkOf lines start stop).oldStart = 0) ∧
      ¬ ((hunkOf lines start stop).newCount ≠ 0 ∧ (hunkOf lines start stop).newStart = 0) := by
  rw [hunkOf]
  dsimp only
  constructor
  · rintro ⟨hcnt, hsta⟩
    rw [if_neg hcnt] at hsta
    exact Nat.succ_ne_zero _ hsta
  · rintro ⟨hcnt, hsta⟩
    rw [if_neg hcnt] at hsta
    exact Nat.succ_ne_zero _ hsta

/-! ## Hunk by hunk -/

theorem old_eq_new_of_context (h : ∀ line ∈ lines, line.isContext = true) :
    lines.flatMap PatchLine.old = lines.flatMap PatchLine.new := by
  apply flatMap_congr
  intro line hline
  have hsign : line.sign = .context := of_decide_eq_true (h line hline)
  rw [PatchLine.old, PatchLine.new, hsign]
  rfl

theorem take_eq_append (hle : start ≤ stop) (lines : List PatchLine) :
    lines.take stop = lines.take start ++ (lines.take stop).drop start := by
  conv_lhs => rw [← take_append_drop start (lines.take stop)]
  rw [take_take, Nat.min_eq_left hle]

theorem drop_eq_append (hle : start ≤ stop) (hstop : stop ≤ lines.length) :
    lines.drop start = (lines.take stop).drop start ++ lines.drop stop := by
  conv_lhs => rw [← take_append_drop stop lines]
  rw [drop_append_of_le_length]
  rw [length_take]
  omega

/-- A hunk behind lines that are kept. -/
theorem applyHunks_cons {hunk : Hunk} {kept consumed new rest later : List (List Char)}
    {oldAt newAt : Nat} (holdPosition : hunk.oldPosition = oldAt + kept.length)
    (hnewPosition : hunk.newPosition = newAt + kept.length)
    (hhead : ¬ (hunk.oldCount ≠ 0 ∧ hunk.oldStart = 0) ∧ ¬ (hunk.newCount ≠ 0 ∧ hunk.newStart = 0))
    (hlines : applyLines hunk.lines (consumed ++ rest) = some (new, rest))
    (hold : hunk.oldCount = consumed.length) (hnew : hunk.newCount = new.length)
    (hlater : applyHunks (hunk.oldPosition + hunk.oldCount) (hunk.newPosition + hunk.newCount)
      hunks rest = some later) :
    applyHunks oldAt newAt (hunk :: hunks) (kept ++ (consumed ++ rest)) =
      some (kept ++ (new ++ later)) := by
  have hskipped : hunk.oldPosition - oldAt = kept.length := by omega
  have hfits : ¬ (hunk.oldPosition < oldAt ∨ (kept ++ (consumed ++ rest)).length < kept.length ∨
      hunk.newPosition ≠ newAt + kept.length ∨ (hunk.oldCount ≠ 0 ∧ hunk.oldStart = 0) ∨
        (hunk.newCount ≠ 0 ∧ hunk.newStart = 0)) := by
    rintro (hlt | hlt | hne | hzero | hzero)
    · omega
    · rw [length_append] at hlt
      omega
    · exact hne hnewPosition
    · exact hhead.1 hzero
    · exact hhead.2 hzero
  have hcounts : ¬ (new.length ≠ hunk.newCount ∨
      rest.length + hunk.oldCount + kept.length ≠ (kept ++ (consumed ++ rest)).length) := by
    rw [length_append, length_append]
    omega
  rw [applyHunks, hskipped, if_neg hfits, drop_left, hlines, take_left]
  dsimp only [bind, Option.bind]
  rw [if_neg hcounts, hlater]
  dsimp only
  rw [append_assoc]

/-- The hunks make the new lines of the old ones, from the begin of what they cover on. -/
theorem applyHunks_of_covers (h : Covers lines start bounds) :
    applyHunks ((lines.take start).flatMap PatchLine.old).length
        ((lines.take start).flatMap PatchLine.new).length
        (bounds.map fun bound => hunkOf lines bound.1 bound.2)
        ((lines.drop start).flatMap PatchLine.old) =
      some ((lines.drop start).flatMap PatchLine.new) := by
  induction bounds generalizing start with
  | nil =>
    have hcontext := h.2
    rw [ContextBetween, take_length] at hcontext
    exact congrArg some (old_eq_new_of_context hcontext)
  | cons bound bounds ih =>
    obtain ⟨hsta, hlt, hstop, hcontext, hrest⟩ := h
    obtain ⟨first, last⟩ := bound
    dsimp only at hsta hlt hstop hcontext hrest
    -- the lines before the hunk, of the hunk and behind it
    have hsplit : lines.drop start = (lines.take first).drop start ++
        ((lines.take last).drop first ++ lines.drop last) := by
      rw [drop_eq_append hsta (by omega), drop_eq_append (Nat.le_of_lt hlt) hstop]
    have hkept := old_eq_new_of_context hcontext
    have hfst := take_eq_append hsta lines
    have hlast := take_eq_append (Nat.le_of_lt hlt) lines
    rw [hsplit, flatMap_append, flatMap_append, flatMap_append, flatMap_append, ← hkept, map_cons]
    apply applyHunks_cons
    · rw [oldPosition_hunkOf, hfst, flatMap_append, length_append, ← hfst]
    · rw [newPosition_hunkOf, hfst, flatMap_append, length_append, ← hfst, hkept]
    · exact start_ne_zero_hunkOf lines first last
    · exact applyLines_written _ _
    · exact oldCount_hunkOf lines first last
    · exact newCount_hunkOf lines first last
    · have hlater := ih hrest
      rw [hlast, flatMap_append, flatMap_append, length_append, length_append] at hlater
      rw [oldPosition_hunkOf, newPosition_hunkOf, oldCount_hunkOf, newCount_hunkOf]
      exact hlater

/-! ## All hunks together -/

theorem length_old_of_context (h : ∀ line ∈ lines, line.isContext = true) :
    (lines.flatMap PatchLine.old).length = lines.length := by
  induction lines with
  | nil => rfl
  | cons line lines ih =>
    obtain ⟨hline, hrest⟩ := forall_mem_cons.mp h
    have hsign : line.sign = .context := of_decide_eq_true hline
    rw [flatMap_cons, length_append, ih hrest, PatchLine.old, hsign, length_cons, Nat.add_comm]
    rfl

/-- Between two hunks there are lines of both contents. -/
theorem position_lt_of_gap {first last next : Nat} (hlt : first < last) (hgap : last < next)
    (hnext : next ≤ lines.length) (hctx : ContextBetween lines last next) :
    ((lines.take first).flatMap PatchLine.old).length +
          (((lines.take last).drop first).flatMap PatchLine.old).length <
        ((lines.take next).flatMap PatchLine.old).length ∧
      ((lines.take first).flatMap PatchLine.new).length +
          (((lines.take last).drop first).flatMap PatchLine.new).length <
        ((lines.take next).flatMap PatchLine.new).length := by
  have hlen := length_old_of_context hctx
  have hkept := old_eq_new_of_context hctx
  rw [length_drop, length_take, Nat.min_eq_left hnext] at hlen
  have hlast := take_eq_append (Nat.le_of_lt hlt) lines
  have hnextEq := take_eq_append (Nat.le_of_lt hgap) lines
  rw [hnextEq, flatMap_append, flatMap_append, length_append, length_append,
    ← hkept, hlen, ← length_append, ← length_append, ← flatMap_append,
    ← flatMap_append, ← hlast]
  omega

theorem apart_of_covers (h : Covers lines start bounds)
    (hapart : bounds.IsChain fun early later => early.2 < later.1) :
    (bounds.map fun bound => hunkOf lines bound.1 bound.2).IsChain fun early later =>
      early.oldPosition + early.oldCount < later.oldPosition ∧
        early.newPosition + early.newCount < later.newPosition := by
  induction bounds generalizing start with
  | nil => exact List.IsChain.nil
  | cons bound bounds ih =>
    obtain ⟨-, hlt, -, -, hrest⟩ := h
    obtain ⟨hnext, hlater⟩ := isChain_cons.mp hapart
    apply (ih hrest hlater).cons
    cases bounds with
    | nil => exact fun _ h => absurd h nofun
    | cons next bounds =>
      intro hunk hhunk
      rw [← Option.some.inj hhunk]
      obtain ⟨-, hins, hstop, hctx, -⟩ := hrest
      rw [oldPosition_hunkOf, oldCount_hunkOf, oldPosition_hunkOf, newPosition_hunkOf,
        newCount_hunkOf, newPosition_hunkOf]
      exact position_lt_of_gap hlt (hnext next rfl) (by omega) hctx

/-- The hunks have all the lines that are not context. -/
theorem countP_of_covers {sign : PatchSign} (hsign : sign ≠ .context)
    (h : Covers lines start bounds) :
    ((bounds.map fun bound => hunkOf lines bound.1 bound.2).flatMap Hunk.lines).countP
        (fun line => line.sign = sign) =
      (lines.drop start).countP fun line => line.sign = sign := by
  have hnone : ∀ {part : List PatchLine}, (∀ line ∈ part, line.isContext = true) →
      part.countP (fun line => decide (line.sign = sign)) = 0 := by
    intro part hpart
    rw [countP_eq_zero]
    intro line hline heq
    have hcontext : line.sign = .context := of_decide_eq_true (hpart line hline)
    exact hsign ((of_decide_eq_true heq).symm.trans hcontext)
  induction bounds generalizing start with
  | nil =>
    have hcontext := h.2
    rw [ContextBetween, take_length] at hcontext
    exact (hnone hcontext).symm
  | cons bound bounds ih =>
    obtain ⟨hsta, hlt, hstop, hcontext, hrest⟩ := h
    have hlines : (hunkOf lines bound.1 bound.2).lines.countP (fun line => line.sign = sign) =
        ((lines.take bound.2).drop bound.1).countP fun line => line.sign = sign := by
      rw [hunkOf, countP_map]
      apply countP_congr
      intro line _
      rw [comp_apply, sign_written]
    rw [map_cons, flatMap_cons, countP_append, ih hrest, hlines,
      drop_eq_append hsta (by omega), drop_eq_append (Nat.le_of_lt hlt) hstop,
      countP_append, countP_append, hnone hcontext, Nat.zero_add]

/-! ## Generated patches -/

/-- How many lines with a sign the hunks have. -/
def countSign (sign : PatchSign) (hunks : List Hunk) : Nat :=
  (hunks.flatMap Hunk.lines).countP fun line => line.sign = sign

/-- The hunks make the new content of the old one; they follow each other with lines between them in
both contents, their headers count their lines, and the lines that they do not remove or add are
as many as a longest common subsequence of the lines has. -/
structure ExactPatch (oldContent newContent : List Char) (hunks : List Hunk) : Prop where
  applies : applyPatch oldContent hunks = some newContent
  apart : hunks.IsChain fun earlier later =>
    earlier.oldPosition + earlier.oldCount < later.oldPosition ∧
      earlier.newPosition + earlier.newCount < later.newPosition
  counts : ∀ hunk ∈ hunks, hunk.oldCount = hunk.lines.countP (fun line => line.sign ≠ .added) ∧
      hunk.newCount = hunk.lines.countP fun line => line.sign ≠ .removed
  unchanged : ∃ kept,
    IsLcsLength (splitDisplayLines oldContent) (splitDisplayLines newContent) kept ∧
      kept + countSign .removed hunks = (splitDisplayLines oldContent).length ∧
        kept + countSign .added hunks = (splitDisplayLines newContent).length

theorem length_old (lines : List PatchLine) :
    (lines.flatMap PatchLine.old).length = lines.countP fun line => line.sign ≠ .added := by
  induction lines with
  | nil => rfl
  | cons line lines ih =>
    rw [flatMap_cons, length_append, ih, countP_cons, PatchLine.old]
    cases line.sign <;> simp [Nat.add_comm]

theorem length_new (lines : List PatchLine) :
    (lines.flatMap PatchLine.new).length = lines.countP fun line => line.sign ≠ .removed := by
  induction lines with
  | nil => rfl
  | cons line lines ih =>
    rw [flatMap_cons, length_append, ih, countP_cons, PatchLine.new]
    cases line.sign <;> simp [Nat.add_comm]

theorem countP_add (lines : List PatchLine) :
    lines.countP PatchLine.isContext + lines.countP (fun line => line.sign = .removed) =
        (lines.flatMap PatchLine.old).length ∧
      lines.countP PatchLine.isContext + lines.countP (fun line => line.sign = .added) =
        (lines.flatMap PatchLine.new).length := by
  induction lines with
  | nil => exact ⟨rfl, rfl⟩
  | cons line lines ih =>
    rw [flatMap_cons, flatMap_cons, length_append, length_append, ← ih.1,
      ← ih.2, countP_cons, countP_cons, countP_cons, PatchLine.old, PatchLine.new,
      PatchLine.isContext]
    cases line.sign <;> simp <;> omega

theorem counts_hunkOf (lines : List PatchLine) (start stop : Nat) :
    (hunkOf lines start stop).oldCount =
        (hunkOf lines start stop).lines.countP (fun line => line.sign ≠ .added) ∧
      (hunkOf lines start stop).newCount =
        (hunkOf lines start stop).lines.countP fun line => line.sign ≠ .removed := by
  have hsame : ∀ sign : PatchSign, ((lines.take stop).drop start).countP
      (fun line => line.sign ≠ sign) =
        (hunkOf lines start stop).lines.countP fun line => line.sign ≠ sign := by
    intro sign
    rw [hunkOf, countP_map]
    apply countP_congr
    intro line _
    rw [comp_apply, sign_written]
  rw [oldCount_hunkOf, newCount_hunkOf, length_old, length_new, hsame, hsame]
  exact ⟨rfl, rfl⟩

theorem flatten_splitDisplayLines (content : List Char) :
    (splitDisplayLines content).flatten = content := flatten_splitInclusive '\n' content

/-- Hunks that cover the lines of a patch make an exact patch. -/
theorem exactPatch_of_covers {oldContent newContent : List Char} {kept : Nat}
    (hsp : Spells (splitDisplayLines oldContent) (splitDisplayLines newContent) kept lines)
    (hlcs : IsLcsLength (splitDisplayLines oldContent) (splitDisplayLines newContent) kept)
    (hcov : Covers lines 0 bounds)
    (hapart : bounds.IsChain fun early later => early.2 < later.1) :
    ExactPatch oldContent newContent (bounds.map fun bound => hunkOf lines bound.1 bound.2) where
  applies := by
    have happlied := applyHunks_of_covers hcov
    rw [drop_zero, hsp.old, hsp.new] at happlied
    rw [applyPatch, ← flatten_splitDisplayLines newContent]
    exact congrArg (Option.map flatten) happlied
  apart := apart_of_covers hcov hapart
  counts := by
    intro hunk hhunk
    obtain ⟨bound, -, rfl⟩ := mem_map.mp hhunk
    exact counts_hunkOf lines bound.1 bound.2
  unchanged := by
    obtain ⟨hold, hnew⟩ := countP_add lines
    rw [hsp.kept, hsp.old] at hold
    rw [hsp.kept, hsp.new] at hnew
    have hrmvd : PatchSign.removed ≠ PatchSign.context := by decide
    have hadded : PatchSign.added ≠ PatchSign.context := by decide
    refine ⟨kept, hlcs, ?_, ?_⟩
    · rw [countSign, countP_of_covers hrmvd hcov]
      exact hold
    · rw [countSign, countP_of_covers hadded hcov]
      exact hnew

theorem exactPatch_nil (content : List Char) : ExactPatch content content [] where
  applies := congrArg some (flatten_splitDisplayLines content)
  apart := List.IsChain.nil
  counts _ h := absurd h not_mem_nil
  unchanged := ⟨_, isLcsLength_self _, rfl, rfl⟩

/-- Different contents have lines that are changed. -/
theorem changesFrom_ne_nil {oldContent newContent : List Char} {kept : Nat}
    (hsp : Spells (splitDisplayLines oldContent) (splitDisplayLines newContent) kept lines)
    (hne : oldContent ≠ newContent) : changesFrom 0 lines ≠ [] := by
  intro hnone
  have hchanges := changesAt_changesFrom lines 0
  rw [drop_zero, hnone, ChangesAt, ContextBetween, take_length, drop_zero] at hchanges
  apply hne
  rw [← flatten_splitDisplayLines oldContent, ← flatten_splitDisplayLines newContent,
    ← hsp.old, ← hsp.new, old_eq_new_of_context hchanges]

theorem exists_patchHunks (old newContent : List Char) (ctxLines : Nat) :
    ∃ hunks, patchHunks old newContent ctxLines = some hunks ∧ ExactPatch old newContent hunks := by
  rw [patchHunks]
  split_ifs with heq
  · rw [heq]
    exact ⟨[], rfl, exactPatch_nil newContent⟩
  · obtain ⟨lines, kept, hlines, hsp, hlcs⟩ := exists_patchLines old newContent
    have hsome := changesFrom_ne_nil hsp heq
    have hchanges := changesAt_changesFrom lines 0
    rw [drop_zero] at hchanges
    rw [hlines]
    dsimp only [bind, Option.bind]
    cases hcase : changesFrom 0 lines with
    | nil => exact absurd hcase hsome
    | cons first changes =>
      rw [hcase] at hchanges
      obtain ⟨-, hfst, hctx, hrest⟩ := hchanges
      have hgrouped := grouped_groupChanges ctxLines hrest (Nat.le_refl first) hfst
        (Nat.zero_le _) (hctx.mono (Nat.le_refl 0) (boundary_le lines first ctxLines))
      have hexact := exactPatch_of_covers hsp hlcs hgrouped.covers hgrouped.apart
      rw [map_map] at hexact
      exact ⟨_, rfl, hexact⟩

/-- The patch of two contents is generated for every number of context lines, and it is exact. -/
theorem generated_patch_is_exact (path oldContent newContent : List Char) (contextLines : Nat) :
    ∃ hunks, patchHunks oldContent newContent contextLines = some hunks ∧
      generateUnifiedPatch path oldContent newContent contextLines =
          some ("--- ".toList ++ path ++ "\n+++ ".toList ++ path ++ ['\n'] ++
            hunks.flatMap Hunk.write) ∧
        ExactPatch oldContent newContent hunks := by
  obtain ⟨hunks, hhunks, hexact⟩ := exists_patchHunks oldContent newContent contextLines
  refine ⟨hunks, hhunks, ?_, hexact⟩
  rw [generateUnifiedPatch, hhunks]
  rfl

end PiOxidized.Tools
