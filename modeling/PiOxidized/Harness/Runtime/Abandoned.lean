/-
# Where the summary of a branch ends up

A navigation that summarizes commits twice: the summary becomes an entry under the tip that is
left, and then the tip moves to the target. The target is older than the summary, so the way from
the new tip to its root does not pass the summary, and no later request has it in its context.
-/

import PiOxidized.Harness.Runtime.Batches

namespace PiOxidized.Harness.Runtime

open Math
open Session (EntryId)

variable {M : Type} {stored stored' later : Stored M} {writes : List (Write M)} {id : EntryId}

/-! ## The tree of entries -/

namespace Stored

/-- The entry that an entry is stored under. -/
def parentOf (stored : Stored M) (id : EntryId) : Option EntryId :=
  (stored.entries.get? id).bind NewEntry.parentId

/-- A way from an entry up to another one, or to itself. -/
abbrev Ancestor (stored : Stored M) : EntryId → EntryId → Prop :=
  Relation.ReflTransGen fun parent child => stored.parentOf child = some parent

/-- The parents of stored entries are stored. -/
def Linked (stored : Stored M) : Prop :=
  ∀ id parent, stored.parentOf id = some parent → stored.entries.contains parent = true

/-- Every stored entry is later still what it is. -/
def Keeps (stored later : Stored M) : Prop :=
  ∀ id, stored.entries.contains id = true → later.entries.get? id = stored.entries.get? id

/-- Entries that come later are no ancestors of a stored one. -/
theorem stored_of_ancestor {tgt : EntryId} (hlinked : stored.Linked)
    (hkps : stored.Keeps later) (htgt : stored.entries.contains tgt = true)
    (h : later.Ancestor id tgt) : stored.entries.contains id = true := by
  induction h using Relation.ReflTransGen.head_induction_on with
  | refl => exact htgt
  | head hpar _ ih =>
    rw [parentOf, hkps _ ih] at hpar
    exact hlinked _ _ hpar

/-- A batch that is committed brings new ids only. -/
theorem fresh_of_validate {ids : List String} {entryIds : List EntryId} {entry : NewEntry M}
    (h : stored.validate ids entryIds writes = .ok ()) (hmem : .entry entry ∈ writes) :
    stored.entries.contains entry.id = false := by
  induction writes generalizing ids entryIds with
  | nil => cases hmem
  | cons write writes ih =>
    cases write with
    | entry other =>
      rw [validate] at h
      split at h
      · cases h
      · next hused =>
          split at h
          · cases h
          · split_ifs at h
            rcases List.mem_cons.mp hmem with heq | hrest
            · cases heq
              simp only [containsId, Bool.or_eq_true, not_or, Bool.not_eq_true] at hused
              exact hused.1.1
            · exact ih h hrest
    | usage row =>
      rw [validate] at h
      split_ifs at h
      exact ih h ((List.mem_cons.mp hmem).resolve_left nofun)
    | _ => exact ih h ((List.mem_cons.mp hmem).resolve_left nofun)

theorem Keeps.commit (h : stored.commit writes = .ok stored') : stored.Keeps stored' := by
  intro id hstored
  rcases commit_eq_ok h with ⟨hval, rfl⟩
  refine apply_frame (fun s => s.entries.get? id) fun write hmem s => ?_
  cases write with
  | entry entry =>
    have hfresh := fresh_of_validate hval hmem
    have hne : (id == entry.id) = false := by
      rw [beq_eq_false_iff_ne]
      rintro rfl
      rw [hstored] at hfresh
      cases hfresh
    simp [applyWrite, Dict.get?_insert, hne]
  | _ => rfl

end Stored

/-! ## The two commits -/

/-- A publication of the driver commits its batch. -/
def Publish.Commits (publication : Publish M) (lane : LaneName) (stored stored' : Stored M) :
    Prop :=
  ∃ data performed writes, publication.perform lane data stored = .ok performed ∧
    performed.writes = some writes ∧ stored.commit writes = .ok stored'

variable {lane : LaneName} {summaryId : EntryId} {oldTip tgt : Option EntryId}
  {pre summarized between after : Stored M}

/-- A navigation that summarizes: the summary is committed, then what others have to commit, and
last the move of the tip. -/
structure Navigates (lane : LaneName) (summaryId : EntryId) (oldTip target : Option EntryId)
    (before summarized between after : Stored M) : Prop where
  summary : ∃ operation fromId generation request result label,
    generation.summaryContext.resultEntryId = summaryId ∧
      (Publish.branchSummary operation oldTip fromId generation request result target
        label).Commits lane before summarized
  others : summarized.Keeps between
  moved : ∃ operation label endedAt,
    (Publish.navigation operation target label endedAt).Commits lane between after

/-- The summary stands on the way to the new tip, under the target, or as a root entry where the
target is the root, and neither commit changes anything else of the tree. -/
structure KeepsInView (lane : LaneName) (summaryId : EntryId) (target : Option EntryId)
    (before summarized between after : Stored M) : Prop where
  inView : ∃ tip, after.branchTips.get? lane = some (some tip) ∧ after.Ancestor summaryId tip
  path : ∀ entry, target = some entry → after.Ancestor entry summaryId
  root : target = none → after.parentOf summaryId = none
  entries : ∀ id ≠ summaryId, summarized.entries.get? id = before.entries.get? id ∧
    after.entries.get? id = between.entries.get? id
  tips : ∀ other ≠ lane, summarized.branchTips.get? other = before.branchTips.get? other ∧
    after.branchTips.get? other = between.branchTips.get? other

/-- The summary is a new entry. -/
theorem Publish.Commits.branchSummary {op : Operation} {fromId : Option EntryId}
    {generation : SummaryGenerationScope} {request : SummaryRequestRef} {result : SummaryResult M}
    {label : Option String} (hid : generation.summaryContext.resultEntryId = summaryId)
    (h : (Publish.branchSummary op oldTip fromId generation request result tgt
      label).Commits lane stored stored') :
    stored.entries.contains summaryId = false ∧ stored.Keeps stored' := by
  rcases h with ⟨data, performed, writes, hperform, hwrites, hcommit⟩
  subst hid
  cases hperform
  cases hwrites
  exact ⟨Stored.fresh_of_validate (Stored.commit_eq_ok hcommit).1 List.mem_cons_self,
    .commit hcommit⟩

/-- The move of the tip leaves the entries alone. -/
theorem Publish.Commits.navigation {op : Operation} {label : Option String} {endedAt : Int}
    (h : (Publish.navigation op tgt label endedAt).Commits lane stored stored') :
    stored'.entries = stored.entries ∧ ∀ other, stored'.branchTips.get? other =
      if other = lane then some tgt else stored.branchTips.get? other := by
  rcases h with ⟨data, perf, writes, hperf, hwr, hcom⟩
  rcases Stored.commit_eq_ok hcom with ⟨-, rfl⟩
  rw [Publish.perform.eq_def] at hperf
  dsimp only at hperf
  split at hperf
  · cases hperf
  · cases hperf
    cases hwr
    cases label with
    | none => simp [Stored.applyWrite, Dict.get?_insert]
    | some text => cases tgt <;> simp [Stored.applyWrite, Dict.get?_insert]

/-- The new tip is the target, which was stored before the summary was. -/
theorem Navigates.not_ancestor {tip : EntryId} (hlinked : pre.Linked)
    (htarget : ∀ entry, tgt = some entry → pre.entries.contains entry = true)
    (h : Navigates lane summaryId oldTip tgt pre summarized between after)
    (htip : after.branchTips.get? lane = some (some tip)) : ¬ after.Ancestor summaryId tip := by
  intro hancestor
  obtain ⟨op, fromId, generation, request, result, label, hid, hsummary⟩ := h.summary
  obtain ⟨_, _, _, hmoved⟩ := h.moved
  obtain ⟨hfresh, hcommitted⟩ := hsummary.branchSummary hid
  obtain ⟨hsame, htips⟩ := hmoved.navigation
  have hkept : pre.Keeps after := by
    intro id hstored
    have hkept := hcommitted id hstored
    rw [hsame, h.others id (by rwa [Dict.contains, hkept]), hkept]
  rw [htips, if_pos rfl] at htip
  rw [Stored.stored_of_ancestor hlinked hkept (htarget tip (Option.some.inj htip))
    hancestor] at hfresh
  cases hfresh

/-- The summary is out of view after every navigation. -/
theorem out_of_view_of_navigates (hlinked : pre.Linked)
    (htarget : ∀ entry, tgt = some entry → pre.entries.contains entry = true)
    (h : Navigates lane summaryId oldTip tgt pre summarized between after) :
    ¬ KeepsInView lane summaryId tgt pre summarized between after := by
  intro hview
  obtain ⟨tip, htip, hancestor⟩ := hview.inView
  exact h.not_ancestor hlinked htarget htip hancestor

/-- A navigation of the lane `main`, with nothing committed between its two batches. -/
theorem exists_navigates {stored stored' : Stored Unit} (h : stored.commit
      [.entry ⟨"summary", oldTip, .branchSummary none ⟨"", (), none⟩⟩,
        .branchTip "main" (some "summary"), .operationState "op"
          (.navigationReadyToCommit (operationScope plainSettings) tgt none)] = .ok stored') :
    ∃ after, Navigates "main" "summary" oldTip tgt stored stored' stored' after := by
  exact ⟨_, ⟨compactionOperation "main" "op" none none plainSettings 0, none,
      ⟨⟨"", none, none, .finish⟩, ⟨"summary", plainConfiguration, ⟨U64.one, U64.one⟩⟩⟩, ⟨0, ""⟩,
      ⟨"", (), none⟩, none, rfl, ⟨none, plainConfiguration, default, none, none⟩, _, _, rfl, rfl, h⟩,
    fun _ _ => rfl,
    ⟨compactionOperation "main" "op" none none plainSettings 0, none, 0,
      ⟨none, plainConfiguration, default, none, none⟩, _, _, rfl, rfl, rfl⟩⟩

/-- A question at the root and its answer. -/
def answered : Stored Unit := { createdStored "main" plainConfiguration with
    entries := ⟨[("answer", ⟨"answer", some "question", .custom "" none⟩),
      ("question", ⟨"question", none, .custom "" none⟩)]⟩ }

theorem linked_answered : answered.Linked := by
  intro id parent h
  simp only [Stored.parentOf, answered, Dict.get?, List.lookup_cons, List.lookup_nil] at h
  split at h
  · cases h
    rfl
  · split at h <;> cases h

/-- Back at the question, the summary of the answer is out of view. -/
theorem out_of_view_question : ∃ summarized after : Stored Unit,
    ¬ KeepsInView "main" "summary" (some "question") answered summarized summarized after := by
  obtain ⟨after, h⟩ := @exists_navigates (some "answer") (some "question") answered _ (by rfl)
  exact ⟨_, after, out_of_view_of_navigates linked_answered (by rintro _ ⟨⟩; rfl) h⟩

theorem not_keepsInView : ¬ ∀ (stored summarized between after : Stored Unit) (tgt : EntryId),
    stored.Linked → stored.entries.contains tgt = true →
      Navigates "main" "summary" (some "answer") (some tgt) stored summarized between after →
      KeepsInView "main" "summary" (some tgt) stored summarized between after := by
  intro h
  obtain ⟨after, hnavigates⟩ := @exists_navigates (some "answer") (some "question") answered _
    (by rfl)
  obtain ⟨tip, htip, hancestor⟩ :=
    (h _ _ _ after "question" linked_answered (by rfl) hnavigates).inView
  exact hnavigates.not_ancestor linked_answered (by rintro _ ⟨⟩; rfl) htip hancestor

end PiOxidized.Harness.Runtime
