/-
# Reading a branch in pages

A page is a scan whose cursor is the sequence of the last entry of the page before.  Sequences
increase along an ancestry, so what lies behind the cursor is what has not been read yet, and the
pages together are what one scan without a limit would find.
-/

import PiOxidized.Session.Branch

namespace PiOxidized.Session.InMemoryStorageState

open List Math

variable {R : Type} {state : InMemoryStorageState R}

variable {query : StorageBranchScan} {path : List (Entry R)}

/-- The page behind an entry. -/
def pageAfter (state : InMemoryStorageState R) (query : StorageBranchScan)
    (last : Option (Entry R)) : Except SessionError (List (Entry R)) :=
  state.scanBranch { query with cursor := last.map fun entry => ⟨entry.seq⟩ }

/-- What a query finds on an ancestry without a cursor. -/
def matching (query : StorageBranchScan) (path : List (Entry R)) : List (Entry R) :=
  found { query with cursor := none } path

/-- Whether an entry lies behind another one in the direction of a scan. -/
def isBehind (order : ScanOrder) (last entry : Entry R) : Bool := match order with
  | .asc => decide (last.seq < entry.seq)
  | .desc => decide (entry.seq < last.seq)

/-- A cursor keeps what lies behind it. -/
theorem scanned_cursor (order : ScanOrder) (last : Option (Entry R)) :
    scanned { query with cursor := last.map fun entry => ⟨entry.seq⟩ } order path =
      (scanned { query with cursor := none } order path).filter fun entry =>
        last.all (isBehind order · entry) := by
  rw [scanned, scanned, filter_filter]
  apply filter_congr
  intro entry _
  cases last with
  | none => rfl
  | some last =>
    rw [keeps, keeps, Option.all_none, Bool.and_true, Bool.and_comm]
    rfl

theorem found_cursor (last : Option (Entry R)) :
    found { query with cursor := last.map fun entry => ⟨entry.seq⟩ } path =
      (matching query path).filter fun entry =>
        last.all (isBehind (query.order.getD .desc) · entry) := by
  rw [matching, found, found]
  dsimp only
  cases query.order.getD .desc with
  | asc => dsimp only; rw [scanned_cursor, filter_reverse]
  | desc => exact scanned_cursor _ _

/-- What a query finds is sorted in its direction. -/
theorem matching_sorted (h : path.Pairwise (·.seq < ·.seq)) :
    (matching query path).Pairwise (isBehind (query.order.getD .desc) · ·) := by
  have hsort (order : ScanOrder) :
      (scanned { query with cursor := none } order path).Pairwise fun x y => y.seq < x.seq :=
    (pairwise_reverse.mpr h).sublist (filter_sublist.trans (upTo_sublist _ _))
  rw [matching, found]
  dsimp only
  cases query.order.getD .desc with
  | asc => exact pairwise_reverse.mpr ((hsort .asc).imp decide_eq_true)
  | desc => exact (hsort .desc).imp decide_eq_true

theorem isBehind_asymm (order : ScanOrder) (x y : Entry R) (h : isBehind order x y = true) :
    isBehind order y x = false := by
  cases order with
  | asc | desc => exact decide_eq_false (of_decide_eq_true h).asymm

/-- The pages of a scan are, one after the other, the entries that match on the ancestry of its
start up to its stop. -/
theorem Run.pages_exact {history : List U64} (h : Run Clear state history)
    (query : StorageBranchScan) (hstart : state.entries.contains query.start = true)
    (hlimit : query.limit ≠ some 0) :
    ∃ path, Ancestry state (some query.start) path ∧
      Reads (state.pageAfter query) none (matching query path) ∧
      (matching query path).Pairwise (isBehind (query.order.getD .desc) · ·) := by
  have hcoherent := h.coherent
  obtain ⟨path, hpath⟩ := hcoherent.exists_ancestry hstart
  have hsorted := @matching_sorted _ query _ (hpath.increasing hcoherent).1
  refine ⟨path, hpath, ?_, hsorted⟩
  have hroom : 0 < min (query.limit.getD listReadDefaultLimit) listReadMaxLimit := by
    cases hread : query.limit with
    | none => decide
    | some limit =>
      have hpos : limit ≠ 0 := by
        rintro rfl
        exact hlimit hread
      exact Nat.lt_min.mpr ⟨Nat.pos_of_ne_zero hpos, by decide⟩
  refine reads_of_sorted hroom hsorted (isBehind_asymm _) fun last => ?_
  have hscan := @Ancestry.scanBranch_eq _ _ _
    { query with cursor := last.map fun entry => ⟨entry.seq⟩ } hcoherent.stopsAt_id hpath
  rw [found_cursor] at hscan
  exact hscan

/-- A root with one reply below it, read in pages of one entry. -/
theorem pages_exact_reply : ∃ state : InMemoryStorageState Unit,
    ∃ path, Ancestry state (some "b") path ∧
      Reads (state.pageAfter { start := "b", order := some .asc, limit := some 1 }) none
        (matching { start := "b", order := some .asc, limit := some 1 } path) := by
  have hrun := Run.step (.apply [note "a" none, note "b" (some "a")] 0)
    (@Run.new Unit Clear) (fun _ htaken => by cases htaken)
  obtain ⟨path, hpath, hreads, -⟩ := hrun.pages_exact
    { start := "b", order := some .asc, limit := some 1 } (by decide +kernel) (by decide)
  exact ⟨_, path, hpath, hreads⟩

end PiOxidized.Session.InMemoryStorageState
