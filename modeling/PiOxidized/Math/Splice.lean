/-
# Replacing ranges of a text

Ranges that are in order and do not overlap can be replaced from the last one to the first, so that
no replacement moves a range that is still to come.  The outcome is the text with all ranges
replaced at once.
-/

import Mathlib.Data.List.Basic

namespace PiOxidized.Math

open List

universe u

variable {X : Type u}

/-- A range of a text and what stands there afterwards. -/
structure Replacement (X : Type u) where
  start : Nat
  length : Nat
  text : List X
  deriving DecidableEq

namespace Replacement

/-- The position behind the range. -/
def stop (replacement : Replacement X) : Nat := replacement.start + replacement.length

/-- Replace one range of a text that begins at an offset; a range outside of the text is left. -/
def replace (offset : Nat) (replacement : Replacement X) (text : List X) : List X :=
  let start := replacement.start - offset
  if text.length < start ∨ text.length < start + replacement.length then text
  else text.take start ++ replacement.text ++ text.drop (start + replacement.length)

end Replacement

/-- The ranges follow each other between two positions. -/
def Ordered (first last : Nat) : List (Replacement X) → Prop
  | [] => first ≤ last
  | replacement :: replacements =>
    first ≤ replacement.start ∧ Ordered replacement.stop last replacements

def decidableOrdered (first last : Nat) : (replacements : List (Replacement X)) →
    Decidable (Ordered first last replacements)
  | [] => inferInstanceAs (Decidable (first ≤ last))
  | replacement :: replacements =>
    let _ := decidableOrdered replacement.stop last replacements
    inferInstanceAs (Decidable (_ ∧ _))

instance (first last : Nat) (replacements : List (Replacement X)) :
    Decidable (Ordered first last replacements) := decidableOrdered first last replacements

/-- A text that begins at a position, with all ranges replaced. -/
def splice (first : Nat) (text : List X) : List (Replacement X) → List X
  | [] => text
  | replacement :: replacements =>
    text.take (replacement.start - first) ++ replacement.text ++
      splice replacement.stop (text.drop (replacement.stop - first)) replacements

variable {first last middle offset : Nat} {repl : Replacement X}
  {repls pre after : List (Replacement X)} {text front rest : List X}

theorem Ordered.le (h : Ordered first last repls) : first ≤ last := by
  induction repls generalizing first with
  | nil => exact h
  | cons repl repls ih =>
    exact Nat.le_trans (Nat.le_trans h.1 (Nat.le_add_right _ _)) (ih h.2)

theorem Ordered.mono (h : Ordered middle last repls) (hle : first ≤ middle) :
    Ordered first last repls := by
  cases repls with
  | nil => exact Nat.le_trans hle h
  | cons repl repls => exact ⟨Nat.le_trans hle h.1, h.2⟩

/-- All ranges begin behind the first position. -/
theorem le_start_of_ordered (h : Ordered first last repls)
    (hmem : repl ∈ repls) : first ≤ repl.start := by
  induction repls generalizing first with
  | nil => cases hmem
  | cons other repls ih =>
    rcases mem_cons.mp hmem with rfl | hmem
    · exact h.1
    · have hlater := ih h.2 hmem
      exact Nat.le_trans (Nat.le_trans h.1 (Nat.le_add_right _ _)) hlater

/-- A range ends before the later ones begin. -/
theorem Ordered.pairwise (h : Ordered first last repls) :
    repls.Pairwise fun early later => early.stop ≤ later.start := by
  induction repls generalizing first with
  | nil => exact List.Pairwise.nil
  | cons repl repls ih =>
    exact List.Pairwise.cons (fun _ hlater => le_start_of_ordered h.2 hlater) (ih h.2)

/-- All ranges end before the last position. -/
theorem stop_le_of_ordered (h : Ordered first last repls)
    (hmem : repl ∈ repls) : repl.stop ≤ last := by
  induction repls generalizing first with
  | nil => cases hmem
  | cons other repls ih =>
    rcases mem_cons.mp hmem with rfl | hmem
    · exact h.2.le
    · exact ih h.2 hmem

/-- Sorted ranges that begin where ranges without overlap begin are those ranges. -/
theorem Ordered.eq_of_perm (h : Ordered first last pre) (hlen : ∀ repl ∈ pre, 0 < repl.length)
    (hsort : after.Pairwise fun early later => early.start ≤ later.start)
    (hperm : after.Perm pre) : after = pre := by
  have hstrict : pre.Pairwise fun early later => early.start < later.start := by
    refine h.pairwise.imp_of_mem ?_
    intro early later hearl _ hpre
    have hpos := hlen early hearl
    rw [Replacement.stop] at hpre
    omega
  have hinjective : ∀ early ∈ pre, ∀ later ∈ pre, early.start = later.start → early = later := by
    intro early hearl later hlater
    have hforward : pre.Pairwise fun early later =>
        early.start = later.start → early = later :=
      hstrict.imp fun hlt heq => absurd heq (Nat.ne_of_lt hlt)
    have hbackward : pre.Pairwise (flip fun early later =>
        early.start = later.start → early = later) :=
      hstrict.imp fun hlt heq => absurd heq (Nat.ne_of_gt hlt)
    exact hforward.forall_of_forall_of_flip (fun _ _ _ => rfl) hbackward hearl hlater
  refine List.Perm.eq_of_pairwise ?_ hsort (hstrict.imp Nat.le_of_lt) hperm
  intro early later hearl hlater hle hge
  exact hinjective early (hperm.mem_iff.mp hearl) later hlater (Nat.le_antisymm hle hge)

/-- A replacement behind some front leaves the front alone. -/
theorem replace_append (h : offset + front.length ≤ repl.start) :
    repl.replace offset (front ++ rest) = front ++ repl.replace (offset + front.length) rest := by
  have hsta : repl.start - offset =
      front.length + (repl.start - (offset + front.length)) := by omega
  rw [Replacement.replace, Replacement.replace]
  rw [hsta, length_append, Nat.add_assoc, take_length_add_append, drop_length_add_append]
  simp only [Nat.add_lt_add_iff_left]
  split_ifs
  · rfl
  · simp only [append_assoc]

theorem foldr_replace_append (h : Ordered (offset + front.length) last repls) :
    repls.foldr (Replacement.replace offset) (front ++ rest) =
      front ++ repls.foldr (Replacement.replace (offset + front.length)) rest := by
  induction repls with
  | nil => rfl
  | cons repl repls ih =>
    have hrest : Ordered (offset + front.length) last repls :=
      h.2.mono (Nat.le_trans h.1 (Nat.le_add_right _ _))
    rw [foldr_cons, foldr_cons, ih hrest, replace_append h.1]

/-- Replacing the ranges from the last to the first replaces them all at once. -/
theorem foldr_replace (h : Ordered first (first + text.length) replacements) :
    replacements.foldr (Replacement.replace first) text = splice first text replacements := by
  induction replacements generalizing first text with
  | nil => rfl
  | cons repl replacements ih =>
    obtain ⟨hsta, hrest⟩ := h
    have hstop := hrest.le
    have hins : first ≤ repl.stop := Nat.le_trans hsta (Nat.le_add_right _ _)
    have hfront : (text.take (repl.stop - first)).length = repl.stop - first := by
      rw [length_take]
      omega
    have hlater : first + (text.take (repl.stop - first)).length = repl.stop := by
      omega
    have htail : Ordered repl.stop
        (repl.stop + (text.drop (repl.stop - first)).length) replacements := by
      rw [length_drop]
      have hend : repl.stop + (text.length - (repl.stop - first)) = first + text.length := by omega
      rwa [hend]
    have hsplit : replacements.foldr (Replacement.replace first) text =
        text.take (repl.stop - first) ++
          splice repl.stop (text.drop (repl.stop - first)) replacements := by
      conv_lhs => rw [← take_append_drop (repl.stop - first) text]
      rw [foldr_replace_append (hlater ▸ hrest), hlater, ih htail]
    have hlen : repl.start - first + repl.length = repl.stop - first := by
      rw [Replacement.stop]
      omega
    have hpre : repl.start - first ≤ repl.stop - first := by omega
    rw [foldr_cons, hsplit, Replacement.replace, splice]
    rw [hlen, drop_left' hfront, take_append_of_le_length (by omega),
      take_take, Nat.min_eq_left hpre, if_neg]
    rw [length_append, hfront]
    omega

theorem Ordered.append (hpre : Ordered first middle pre)
    (haft : Ordered middle last after) : Ordered first last (pre ++ after) := by
  induction pre generalizing first with
  | nil => exact haft.mono hpre
  | cons repl pre ih => exact ⟨hpre.1, ih hpre.2⟩

/-- A front without ranges is left alone. -/
theorem splice_front (h : Ordered (first + front.length) last repls) :
    splice first (front ++ rest) repls = front ++ splice (first + front.length) rest repls := by
  cases repls with
  | nil => rfl
  | cons repl repls =>
    have hstart := h.1
    have hbegin : repl.start - first =
        front.length + (repl.start - (first + front.length)) := by omega
    have hend : repl.stop - first = front.length + (repl.stop - (first + front.length)) := by
      rw [Replacement.stop]
      omega
    rw [splice, splice, hbegin, hend, take_length_add_append, drop_length_add_append]
    simp only [append_assoc]

/-- Ranges of two texts in a row are replaced in each of them. -/
theorem splice_append (hpre : Ordered first (first + front.length) pre)
    (haft : Ordered (first + front.length) last after) :
    splice first (front ++ rest) (pre ++ after) =
      splice first front pre ++ splice (first + front.length) rest after := by
  induction pre generalizing first front with
  | nil => exact splice_front haft
  | cons repl pre ih =>
    obtain ⟨hsta, hpre⟩ := hpre
    have hstop := hpre.le
    have hins : first ≤ repl.stop := Nat.le_trans hsta (Nat.le_add_right _ _)
    have hle : repl.start ≤ repl.stop := Nat.le_add_right _ _
    have hend : repl.stop + (front.drop (repl.stop - first)).length = first + front.length := by
      rw [length_drop]
      omega
    have htake : (front ++ rest).take (repl.start - first) = front.take (repl.start - first) :=
      take_append_of_le_length (by omega)
    have hdrop : (front ++ rest).drop (repl.stop - first) =
        front.drop (repl.stop - first) ++ rest :=
      drop_append_of_le_length (by omega)
    rw [cons_append, splice, splice, htake, hdrop, ih (hend ▸ hpre) (hend ▸ haft), hend]
    simp only [append_assoc]

/-- A text whose ranges hold known texts consists of gaps, the texts and a tail, and so does what
it becomes. -/
theorem exists_segments {I : Type} {range : I → Replacement X} {old : I → List X}
    {items : List I} (hord : Ordered first (first + text.length) (items.map range))
    (hold : ∀ item ∈ items, (range item).length = (old item).length ∧
      old item <+: text.drop ((range item).start - first)) :
    ∃ (segments : List (List X × I)) (tail : List X), segments.map Prod.snd = items ∧
      text = (segments.flatMap fun segment => segment.1 ++ old segment.2) ++ tail ∧
      splice first text (items.map range) =
        (segments.flatMap fun segment => segment.1 ++ (range segment.2).text) ++ tail ∧
      ∀ pre gap item after, segments = pre ++ (gap, item) :: after → (range item).start =
          first + (pre.flatMap fun segment => segment.1 ++ old segment.2).length + gap.length := by
  induction items generalizing first text with
  | nil => exact ⟨[], text, rfl, rfl, rfl, fun pre _ _ _ h => by simp at h⟩
  | cons item items ih =>
    obtain ⟨hsta, hrest⟩ := hord
    obtain ⟨⟨hlen, hhere⟩, hlater⟩ := forall_mem_cons.mp hold
    have hstop := hrest.le
    have hstopEq : (range item).stop = (range item).start + (old item).length := by
      rw [Replacement.stop, hlen]
    -- the text in front of the range, the range and the rest
    have hsplit : text = text.take ((range item).start - first) ++ old item ++
        text.drop ((range item).stop - first) := by
      obtain ⟨rest, hrest⟩ := hhere
      have hdrop : text.drop ((range item).stop - first) = rest := by
        have hshift : (range item).stop - first =
            (range item).start - first + (old item).length := by omega
        rw [hshift, ← drop_drop, ← hrest, drop_left]
      rw [hdrop, append_assoc, hrest, take_append_drop]
    have hend : (range item).stop + (text.drop ((range item).stop - first)).length =
        first + text.length := by
      rw [length_drop]
      omega
    have hlater' : ∀ other ∈ items, (range other).length = (old other).length ∧
        old other <+: (text.drop ((range item).stop - first)).drop
          ((range other).start - (range item).stop) := by
      intro other hoth
      obtain ⟨hsame, hocc⟩ := hlater other hoth
      refine ⟨hsame, ?_⟩
      have hbeh : (range item).stop ≤ (range other).start :=
        le_start_of_ordered hrest (mem_map_of_mem hoth)
      have hshift : (range item).stop - first + ((range other).start - (range item).stop) =
          (range other).start - first := by omega
      rwa [drop_drop, hshift]
    obtain ⟨segments, tail, hitems, htext, hsplice, hpositions⟩ := ih (hend ▸ hrest) hlater'
    refine ⟨(text.take ((range item).start - first), item) :: segments, tail, ?_, ?_, ?_, ?_⟩
    · rw [map_cons, hitems]
    · rw [flatMap_cons, append_assoc, ← htext]
      exact hsplit
    · rw [map_cons, splice, hsplice, flatMap_cons]
      simp only [append_assoc]
    · intro pre gap other after heq
      cases pre with
      | nil =>
        obtain ⟨hpair, -⟩ := cons.inj heq
        rw [← (Prod.mk.inj hpair).1, ← (Prod.mk.inj hpair).2, length_take]
        simp only [flatMap_nil, length_nil]
        omega
      | cons segment pre =>
        obtain ⟨hpair, heq⟩ := cons.inj heq
        rw [hpositions pre gap other after heq, ← hpair, flatMap_cons,
          length_append, length_append, length_take]
        dsimp only
        omega

end PiOxidized.Math
