/-
# Replaying what was committed

A live commit assigns sequences and checks parents against the batch it is about
to store; a replay checks the sequences it is given.  Both materialize the same
writes one at a time, so a run of commits is described by one flat list of
committed writes, and any way of cutting that list into batches replays to the
state the commits left.
-/

import PiOxidized.Math.Fallible
import PiOxidized.Session.Coherence

namespace PiOxidized.Session

open List Math

namespace InMemoryStorageState

variable {R : Type} {state : InMemoryStorageState R}

/-- Commit batches one after another, each with the writes it was committed as. -/
def applyAll : InMemoryStorageState R → List (List (Write R) × Int) →
    Except SessionError (InMemoryStorageState R × List (List (CommittedWrite R)))
  | state, [] => .ok (state, [])
  | state, (writes, timestamp) :: batches =>
    match state.apply writes timestamp with
    | (.error error, _) => .error error
    | (.ok _, next) => do
      let (committed, _) ← commitWrites writes state.nextSeq timestamp
      let (final, rest) ← applyAll next batches
      .ok (final, committed :: rest)

/-- Replay batches one after another. -/
def replayAll : InMemoryStorageState R → List (List (CommittedWrite R)) →
    Except SessionError (InMemoryStorageState R)
  | state, [] => .ok state
  | state, writes :: batches =>
    match state.replay writes with
    | (.error error, _) => .error error
    | (.ok _, next) => replayAll next batches

/-! ## Lists of writes cut in two -/

variable {writes snd first : List (CommittedWrite R)} {mark : U64}

variable {write : CommittedWrite R}

theorem applyCommitted_append (state : InMemoryStorageState R)
    (first snd : List (CommittedWrite R)) :
    state.applyCommitted (first ++ snd) = (state.applyCommitted first).applyCommitted snd :=
  foldl_append

theorem admitted_append : Admitted state (first ++ snd) ↔
      Admitted state first ∧ Admitted (state.applyCommitted first) snd := by
  induction first generalizing state with
  | nil => exact ⟨fun h => ⟨trivial, h⟩, And.right⟩
  | cons write writes ih =>
    show state.Fresh write ∧ Admitted (state.applyOne write) (writes ++ snd) ↔
      (state.Fresh write ∧ Admitted (state.applyOne write) writes) ∧
        Admitted ((state.applyOne write).applyCommitted writes) snd
    rw [ih, and_assoc]

/-- A write below the largest sequence may stand before writes above it. -/
theorem Ascending.cons (h : Ascending (write.seq.saturatingAdd U64.one) writes)
    (hmark : mark ≤ write.seq) (hmax : write.seq < U64.max) : Ascending mark (write :: writes) := by
  have hlt : ∀ other ∈ writes, write.seq < other.seq := by
    intro other hmem
    have habove : (write.seq.saturatingAdd U64.one).val ≤ other.seq.val := h.above other hmem
    have hbound : write.seq.val < 2 ^ 64 - 1 := hmax
    rw [U64.val_saturatingAdd, U64.val_one] at habove
    show write.seq.val < other.seq.val
    omega
  constructor
  case increasing =>
    refine pairwise_cons.mpr ⟨?_, h.increasing⟩
    intro seq hmem
    obtain ⟨other, hoth, rfl⟩ := mem_map.mp hmem
    exact hlt other hoth
  case above =>
    intro other hmem
    rcases mem_cons.mp hmem with rfl | hmem
    · exact hmark
    · exact hmark.trans (hlt other hmem).le

theorem Ascending.append (hfst : Ascending state.nextSeq first)
    (hmax : ∀ write ∈ first, write.seq < U64.max)
    (hsnd : Ascending (state.applyCommitted first).nextSeq snd) :
    Ascending state.nextSeq (first ++ snd) := by
  induction first generalizing state with
  | nil => exact hsnd
  | cons write writes ih =>
    have htail : Ascending (state.applyOne write).nextSeq (writes ++ snd) :=
      ih hfst.tail (fun other hmem => hmax other (mem_cons_of_mem _ hmem)) hsnd
    exact htail.cons (hfst.above write mem_cons_self) (hmax write mem_cons_self)

theorem Ascending.left (h : Ascending mark (first ++ snd)) : Ascending mark first where
  increasing := by
    have hincr := h.increasing
    rw [map_append] at hincr
    exact (pairwise_append.mp hincr).1
  above := fun write hmem => h.above write (mem_append_left _ hmem)

theorem Ascending.right (h : Ascending state.nextSeq (first ++ snd)) :
    Ascending (state.applyCommitted first).nextSeq snd := by
  induction first generalizing state with
  | nil => exact h
  | cons write writes ih => exact @ih (state.applyOne write) h.tail

/-- The mark stays positive over a batch. -/
theorem one_le_nextSeq_applyCommitted (hpos : 1 ≤ state.nextSeq.val)
    (writes : List (CommittedWrite R)) : 1 ≤ (state.applyCommitted writes).nextSeq.val := by
  induction writes generalizing state with
  | nil => exact hpos
  | cons write writes ih =>
    apply ih
    show 1 ≤ (write.seq.saturatingAdd U64.one).val
    rw [U64.val_saturatingAdd, U64.val_one]
    omega

/-! ## A mark that was advanced -/

variable {time : Int}

variable {batch : List (CommittedWrite R)} {seqs : List U64}

theorem applyOne_advanceNextSeq (state : InMemoryStorageState R) (mark : U64)
    (write : CommittedWrite R) :
    (state.advanceNextSeq mark).applyOne write = state.applyOne write := by
  cases write with
  | entry entry => rfl
  | usage row => rfl
  | value write | list write => cases write <;> rfl

theorem fresh_advanceNextSeq : (state.advanceNextSeq mark).Fresh write ↔ state.Fresh write := by
  cases write <;> exact Iff.rfl

theorem admitted_advanceNextSeq :
    Admitted (state.advanceNextSeq mark) writes ↔ Admitted state writes := by
  cases writes with
  | nil => exact Iff.rfl
  | cons write writes =>
    rw [Admitted, Admitted, applyOne_advanceNextSeq, fresh_advanceNextSeq]

/-- A batch moves the mark itself, so where it stood before is forgotten. -/
theorem applyCommitted_advanceNextSeq (state : InMemoryStorageState R) (mark : U64)
    (h : writes ≠ []) :
    (state.advanceNextSeq mark).applyCommitted writes = state.applyCommitted writes := by
  cases writes with
  | nil => exact absurd rfl h
  | cons write writes =>
    change ((state.advanceNextSeq mark).applyOne write).applyCommitted writes = _
    rw [applyOne_advanceNextSeq]
    rfl

/-- An ascending batch does not move the mark back. -/
theorem le_nextSeq_applyCommitted (hmark : mark ≤ state.nextSeq)
    (hasc : Ascending state.nextSeq writes) :
    mark ≤ (state.applyCommitted writes).nextSeq := by
  induction writes generalizing state with
  | nil => exact hmark
  | cons write writes ih =>
    have hwrt : mark ≤ write.seq := hmark.trans (hasc.above write mem_cons_self)
    exact @ih (state.applyOne write) (le_saturatingAdd_one hwrt) hasc.tail

theorem length_commitWritesFrom {firstSeq : U64} {i : Nat} {writes : List (Write R)}
    (h : commitWritesFrom firstSeq time i writes = .ok (batch, seqs)) :
    batch.length = writes.length := by
  induction writes generalizing i batch seqs with
  | nil =>
    obtain ⟨rfl, -⟩ := Prod.mk.inj (Except.ok.inj h)
    rfl
  | cons write writes ih =>
    rw [commitWritesFrom] at h
    cases hseq : firstSeq.checkedAdd i with
    | none => simp [hseq] at h
    | some seq =>
      rw [hseq] at h
      obtain ⟨⟨batch', seqs'⟩, hrest, h⟩ := bind_ok h
      obtain ⟨rfl, -⟩ := Prod.mk.inj (Except.ok.inj h)
      rw [length_cons, length_cons, ih hrest]

/-- A batch that is committed moves the mark past all of its writes. -/
theorem nextSeq_applyCommitted_commitWritesFrom {firstSeq : U64} {i : Nat} {writes : List (Write R)}
    (h : commitWritesFrom firstSeq time i writes = .ok (batch, seqs))
    (hmark : state.nextSeq.val = min (firstSeq.val + i) (2 ^ 64 - 1)) :
    (state.applyCommitted batch).nextSeq.val =
      min (firstSeq.val + i + batch.length) (2 ^ 64 - 1) := by
  induction writes generalizing state i batch seqs with
  | nil =>
    obtain ⟨rfl, -⟩ := Prod.mk.inj (Except.ok.inj h)
    exact hmark
  | cons write writes ih =>
    rw [commitWritesFrom] at h
    cases hseq : firstSeq.checkedAdd i with
    | none => simp [hseq] at h
    | some seq =>
      cases hrest : commitWritesFrom firstSeq time (i + 1) writes with
      | error error => simp [hseq, hrest, bind, Except.bind] at h
      | ok rest =>
        obtain ⟨batch', seqs'⟩ := rest
        simp only [hseq, hrest, bind, Except.bind, Except.ok.injEq, Prod.mk.injEq] at h
        obtain ⟨rfl, -⟩ := h
        have hval := U64.checkedAdd_eq_some hseq
        have hnext : (state.applyOne (write.commit seq time)).nextSeq.val =
            min (firstSeq.val + (i + 1)) (2 ^ 64 - 1) := by
          change ((write.commit seq time).seq.saturatingAdd U64.one).val = _
          rw [Write.seq_commit, U64.val_saturatingAdd, U64.val_one, hval, Nat.add_assoc]
        have hlater := ih hrest hnext
        rw [length_cons, Nat.add_comm batch'.length, ← Nat.add_assoc, Nat.add_assoc firstSeq.val]
        exact hlater

/-! ## What the replay validator accepts -/

section

variable {existing : CommittedIdView} {batchIds batchEntryIds : List String}

theorem Tracks.parent_filter (h : Tracks state existing batchIds batchEntryIds)
    {parentId : Option EntryId}
    (hpar : ∀ parent, parentId = some parent → state.entries.contains parent = true) :
    parentId.filter (missingParent existing batchEntryIds) = none := by
  rw [Option.filter_eq_none_iff]
  intro parent hsome
  have hstored := hpar parent hsome
  rw [h.entryIds parent] at hstored
  cases hknown : existing.containsEntryId parent with
  | true => simp [missingParent, hknown]
  | false =>
    rw [hknown, Bool.false_or] at hstored
    simp [missingParent, contains_iff_mem.mp hstored]

/-- The replay validator accepts every batch that can be materialized with
sequences strictly above the previous one. -/
theorem validateReplayedFrom_eq_ok {previousSeq : U64}
    (h : Tracks state existing batchIds batchEntryIds) (hadm : Admitted state writes)
    (hincr : (writes.map CommittedWrite.seq).Pairwise (· < ·))
    (habove : ∀ write ∈ writes, previousSeq < write.seq) :
    validateReplayedFrom existing previousSeq batchIds batchEntryIds writes = .ok () := by
  induction writes generalizing state previousSeq batchIds batchEntryIds with
  | nil => rfl
  | cons write writes ih =>
    obtain ⟨hfst, hrest⟩ := pairwise_cons.mp hincr
    obtain ⟨hfrs, hlater⟩ := hadm
    have hnext : ∀ other ∈ writes, write.seq < other.seq :=
      fun other hmem => hfst _ (mem_map_of_mem hmem)
    unfold validateReplayedFrom
    rw [if_neg (not_le.mpr (habove write mem_cons_self))]
    cases write with
    | entry entry =>
      obtain ⟨hid, hpar⟩ := hfrs
      rw [h.ids] at hid
      simp only [hid, h.parent_filter hpar]
      exact ih (h.entry entry) hlater hrest hnext
    | usage row =>
      have hid : state.containsId row.id = false := hfrs
      rw [h.ids] at hid
      simp only [hid]
      exact ih (h.usage row) hlater hrest hnext
    | value write => exact ih (h.value write) hlater hrest hnext
    | list write => exact ih (h.list write) hlater hrest hnext

end

/-- A batch that can be materialized from the mark on is replayed. -/
theorem replay_eq_ok (hpos : 1 ≤ state.nextSeq.val) (hadm : Admitted state writes)
    (hasc : Ascending state.nextSeq writes) :
    state.replay writes =
      (.ok (state.applyCommitted writes).stats, state.applyCommitted writes) := by
  have hval : validateReplayedWrites writes state.idView = .ok () := by
    refine validateReplayedFrom_eq_ok (tracks_start state) hadm hasc.increasing ?_
    intro write hmem
    have habove : state.nextSeq.val ≤ write.seq.val := hasc.above write hmem
    show (state.nextSeq.saturatingSub U64.one).val < write.seq.val
    rw [U64.val_saturatingSub, U64.val_one]
    omega
  rw [replay, hval]

/-- However a list of writes that can be materialized is cut, its pieces replay
one after another to the state that materializes the whole list. -/
theorem replayAll_eq_ok {cuts : List (List (CommittedWrite R))} (hpos : 1 ≤ state.nextSeq.val)
    (hadm : Admitted state cuts.flatten) (hasc : Ascending state.nextSeq cuts.flatten) :
    state.replayAll cuts = .ok (state.applyCommitted cuts.flatten) := by
  induction cuts generalizing state with
  | nil => rfl
  | cons writes cuts ih =>
    rw [flatten_cons] at hadm hasc ⊢
    obtain ⟨hfst, hrest⟩ := admitted_append.mp hadm
    have hrep := replay_eq_ok hpos hfst hasc.left
    rw [replayAll, hrep, applyCommitted_append]
    exact ih (one_le_nextSeq_applyCommitted hpos writes) hrest hasc.right

/-! ## What a run of commits leaves -/

/-- An accepted commit, with the writes it was committed as. -/
theorem apply_eq_ok {writes : List (Write R)} {result : CommitResult}
    {next : InMemoryStorageState R} (h : state.apply writes time = (.ok result, next)) :
    ∃ batch, commitWrites writes state.nextSeq time = .ok (batch, result.seqs) ∧
      next = state.applyCommitted batch ∧ Admitted state batch ∧
      Ascending state.nextSeq batch := by
  rw [apply] at h
  cases hval : validateCommittedWrites writes state.nextSeq state.idView with
  | error error => simp [hval] at h
  | ok _ =>
    cases hcom : commitWrites writes state.nextSeq time with
    | error error => simp [hval, hcom] at h
    | ok outcome =>
      obtain ⟨batch, seqs⟩ := outcome
      simp only [hval, hcom, Prod.mk.injEq, Except.ok.injEq] at h
      obtain ⟨rfl, rfl⟩ := h
      have hchecked : validateCommittedFrom state.nextSeq state.idView 0 [] [] writes = .ok () := by
        rwa [validateCommittedWrites, if_neg (fun h => h rfl)] at hval
      obtain ⟨-, hincr, hbounds, -⟩ := commitWritesFrom_spec hcom
      refine ⟨batch, rfl, rfl, ?_, hincr, fun write hmem => (hbounds write hmem).1⟩
      exact admitted_of_validateCommittedFrom (tracks_start state) hchecked hcom

/-- A run of commits materializes one ascending list of writes. -/
theorem applyAll_eq_ok {batches : List (List (Write R) × Int)} {final : InMemoryStorageState R}
    {done : List (List (CommittedWrite R))}
    (h : state.applyAll batches = .ok (final, done))
    (hmax : ∀ write ∈ done.flatten, write.seq < U64.max) :
    final = state.applyCommitted done.flatten ∧ Admitted state done.flatten ∧
      Ascending state.nextSeq done.flatten := by
  induction batches generalizing state done with
  | nil =>
    cases h
    rw [flatten_nil]
    exact ⟨rfl, trivial, List.Pairwise.nil, by simp⟩
  | cons batch batches ih =>
    obtain ⟨writes, time⟩ := batch
    rw [applyAll] at h
    cases happly : state.apply writes time with
    | mk outcome next =>
      cases outcome with
      | error error => simp [happly] at h
      | ok result =>
        obtain ⟨first, hcom, rfl, hadm, hasc⟩ := apply_eq_ok happly
        cases hrest : applyAll (state.applyCommitted first) batches with
        | error error => simp [happly, hcom, hrest, bind, Except.bind] at h
        | ok rest =>
          obtain ⟨last, later⟩ := rest
          simp only [happly, hcom, hrest, bind, Except.bind, Except.ok.injEq, Prod.mk.injEq] at h
          obtain ⟨rfl, rfl⟩ := h
          rw [flatten_cons] at hmax ⊢
          obtain ⟨rfl, hadm', hasc'⟩ :=
            ih hrest fun write hmem => hmax write (mem_append_right _ hmem)
          refine ⟨(applyCommitted_append _ _ _).symm, admitted_append.mpr ⟨hadm, hadm'⟩,
            hasc.append (fun write hmem => ?_) hasc'⟩
          exact hmax write (mem_append_left _ hmem)

/-- Replaying the writes of a run of commits, cut in any way, reproduces the
state the commits left, as long as no write received the largest sequence. -/
theorem replayAll_committed {batches : List (List (Write R) × Int)}
    {final : InMemoryStorageState R} {batch cuts : List (List (CommittedWrite R))}
    (happlied : new.applyAll batches = .ok (final, batch))
    (hmax : ∀ write ∈ batch.flatten, write.seq < U64.max)
    (hcuts : cuts.flatten = batch.flatten) : new.replayAll cuts = .ok final := by
  obtain ⟨rfl, hadm, hasc⟩ := applyAll_eq_ok happlied hmax
  rw [← hcuts] at hadm hasc ⊢
  exact replayAll_eq_ok coherent_new.positive hadm hasc

/-- Two commits replay to the same state when cut inside each of them. -/
theorem replayAll_committed_recut : ∃ final : InMemoryStorageState Unit,
      new.applyAll [([.entry ⟨"a", none, .custom "note" none⟩, .value (.set "n" "k" ())], 5),
        ([.entry ⟨"b", some "a", .custom "note" none⟩, .list (.append "n" "l" ())], 6)] =
        .ok (final, [ [.entry (.custom ⟨"a", none, ⟨1, by decide⟩, 5, none⟩ "note" none),
            .value (.set ⟨2, by decide⟩ "n" "k" ())],
          [.entry (.custom ⟨"b", some "a", ⟨3, by decide⟩, 6, none⟩ "note" none),
            .list (.append ⟨4, by decide⟩ "n" "l" ())]]) ∧
      new.replayAll [ [.entry (.custom ⟨"a", none, ⟨1, by decide⟩, 5, none⟩ "note" none)],
        [.value (.set ⟨2, by decide⟩ "n" "k" ()),
          .entry (.custom ⟨"b", some "a", ⟨3, by decide⟩, 6, none⟩ "note" none)], [],
        [.list (.append ⟨4, by decide⟩ "n" "l" ())]] = .ok final := by
  refine Exists.imp (fun final happlied => ⟨happlied, ?_⟩) ⟨_, rfl⟩
  refine replayAll_committed happlied ?_ rfl
  decide +kernel

end InMemoryStorageState

end PiOxidized.Session
