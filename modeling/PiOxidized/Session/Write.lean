/-
# Writes and their admission

Proposed and committed writes, and the two validators: a fresh commit is checked
against the sequence numbers it is about to receive, a replay against the ones it
carries.  Both collect the ids of their own batch as they go, so that a parent
may be introduced earlier in the same batch.
-/

import PiOxidized.Session.Entry

namespace PiOxidized.Session

open Math

/-- A committed token and cost measurement. -/
structure UsageRow (R : Type) where
  id : UsageId
  seq : U64
  usage : Usage
  entryId : Option EntryId
  adjustment : Bool
  details : Option R
  deriving DecidableEq

/-- A proposed usage row. -/
structure NewUsageRow (R : Type) where
  id : UsageId
  usage : Usage
  entryId : Option EntryId
  adjustment : Bool
  details : Option R
  deriving DecidableEq

/-- Mutation of a single-value slot. -/
inductive ValueWrite (R : Type)
  | set (ns key : String) (value : R)
  | delete (ns key : String)
  deriving DecidableEq

/-- Mutation of an append-only list slot. -/
inductive ListWrite (R : Type)
  | append (ns key : String) (value : R)
  | delete (ns key : String)
  deriving DecidableEq

/-- One unit of proposed durable change. -/
inductive Write (R : Type)
  | entry (entry : NewEntry R)
  | usage (row : NewUsageRow R)
  | value (write : ValueWrite R)
  | list (write : ListWrite R)
  deriving DecidableEq

/-- A committed scalar value mutation. -/
inductive CommittedValueWrite (R : Type)
  | set (seq : U64) (ns key : String) (value : R)
  | delete (seq : U64) (ns key : String)
  deriving DecidableEq

/-- A committed list mutation. -/
inductive CommittedListWrite (R : Type)
  | append (seq : U64) (ns key : String) (value : R)
  | delete (seq : U64) (ns key : String)
  deriving DecidableEq

/-- One write after storage has assigned its sequence. -/
inductive CommittedWrite (R : Type)
  | entry (entry : Entry R)
  | usage (row : UsageRow R)
  | value (write : CommittedValueWrite R)
  | list (write : CommittedListWrite R)
  deriving DecidableEq

/-- Running session totals. -/
structure SessionStats where
  messageCount : U64 := U64.zero
  usage : Usage := {}
  deriving DecidableEq

/-- What a backend reports after admitting a batch. -/
structure CommitResult where
  firstSeq : U64
  seqs : List U64
  timestamp : Int
  stats : SessionStats
  deriving DecidableEq

/-- Pre-commit view over committed storage identity. -/
structure CommittedIdView where
  containsId : String → Bool
  containsEntryId : EntryId → Bool
  nextSeq : U64

section

variable {R : Type}

/-- The sequence assigned to a committed write. -/
def CommittedWrite.seq : CommittedWrite R → U64
  | .entry e => e.seq
  | .usage row => row.seq
  | .value (.set seq _ _ _) => seq
  | .value (.delete seq _ _) => seq
  | .list (.append seq _ _ _) => seq
  | .list (.delete seq _ _) => seq

/-- Whether a proposed write adds an entry. -/
def Write.isEntry : Write R → Bool
  | .entry _ => true
  | _ => false

/-- Whether a committed write adds an entry. -/
def CommittedWrite.isEntry : CommittedWrite R → Bool
  | .entry _ => true
  | _ => false

/-- Whether a parent is neither stored nor an earlier entry of the batch. -/
def missingParent (existing : CommittedIdView) (batchEntryIds : List String)
    (parent : EntryId) : Bool :=
  !existing.containsEntryId parent && !batchEntryIds.contains parent

/-- The commit validator from an index on, with the ids of the batch so far. -/
def validateCommittedFrom (firstSeq : U64) (existing : CommittedIdView) :
    Nat → List String → List String → List (Write R) → Except SessionError Unit
  | _, _, _, [] => .ok ()
  | index, batchIds, batchEntryIds, write :: writes =>
    match firstSeq.checkedAdd index with
    | none => .error (.invariant "sequence overflow")
    | some _ =>
      match write with
      | .entry entry =>
        if existing.containsId entry.id || batchIds.contains entry.id then
          .error (.invariant ("duplicate entry id " ++ entry.id))
        else
          match entry.parentId.filter (missingParent existing batchEntryIds) with
          | some parent => .error (.invariant ("missing parent id " ++ parent))
          | none =>
            if entry.isPending then .error .pendingAssistantMessage
            else
              validateCommittedFrom firstSeq existing (index + 1) (entry.id :: batchIds)
                (entry.id :: batchEntryIds) writes
      | .usage row =>
        if existing.containsId row.id || batchIds.contains row.id then
          .error (.invariant ("duplicate usage id " ++ row.id))
        else
          validateCommittedFrom firstSeq existing (index + 1) (row.id :: batchIds)
            batchEntryIds writes
      | .value _ =>
        validateCommittedFrom firstSeq existing (index + 1) batchIds batchEntryIds writes
      | .list _ =>
        validateCommittedFrom firstSeq existing (index + 1) batchIds batchEntryIds writes

/-- The batch validator of a fresh commit. -/
def validateCommittedWrites (writes : List (Write R)) (firstSeq : U64)
    (existing : CommittedIdView) : Except SessionError Unit :=
  if firstSeq ≠ existing.nextSeq then
    .error (.invariant ("commit starts at sequence " ++ toString firstSeq.val ++ ", expected " ++
      toString existing.nextSeq.val))
  else validateCommittedFrom firstSeq existing 0 [] [] writes

/-- Materialize one proposed write. -/
def Write.commit (write : Write R) (seq : U64) (timestamp : Int) : CommittedWrite R :=
  match write with
  | .entry e => .entry (e.materialize seq timestamp)
  | .usage row => .usage ⟨row.id, seq, row.usage, row.entryId, row.adjustment, row.details⟩
  | .value (.set ns key v) => .value (.set seq ns key v)
  | .value (.delete ns key) => .value (.delete seq ns key)
  | .list (.append ns key v) => .list (.append seq ns key v)
  | .list (.delete ns key) => .list (.delete seq ns key)

/-- Materialize a batch from an index on. -/
def commitWritesFrom (firstSeq : U64) (timestamp : Int) :
    Nat → List (Write R) → Except SessionError (List (CommittedWrite R) × List U64)
  | _, [] => .ok ([], [])
  | index, write :: writes =>
    match firstSeq.checkedAdd index with
    | none => .error (.invariant "sequence overflow")
    | some seq => do
      let (committed, seqs) ← commitWritesFrom firstSeq timestamp (index + 1) writes
      .ok (write.commit seq timestamp :: committed, seq :: seqs)

/-- Materialize a proposed batch with assigned sequence numbers. -/
def commitWrites (writes : List (Write R)) (firstSeq : U64) (timestamp : Int) :
    Except SessionError (List (CommittedWrite R) × List U64) :=
  commitWritesFrom firstSeq timestamp 0 writes

/-- The replay validator after a sequence, with the ids of the batch so far. -/
def validateReplayedFrom (existing : CommittedIdView) :
    U64 → List String → List String → List (CommittedWrite R) → Except SessionError Unit
  | _, _, _, [] => .ok ()
  | previousSeq, batchIds, batchEntryIds, write :: writes =>
    if write.seq ≤ previousSeq then
      .error (.invariant ("non-monotonic storage sequence " ++ toString write.seq.val))
    else
      match write with
      | .entry entry =>
        if existing.containsId entry.id || batchIds.contains entry.id then
          .error (.invariant ("duplicate entry or usage id " ++ entry.id))
        else
          match entry.parentId.filter (missingParent existing batchEntryIds) with
          | some parent => .error (.invariant ("missing parent entry " ++ parent))
          | none =>
            validateReplayedFrom existing write.seq (entry.id :: batchIds)
              (entry.id :: batchEntryIds) writes
      | .usage row =>
        if existing.containsId row.id || batchIds.contains row.id then
          .error (.invariant ("duplicate entry or usage id " ++ row.id))
        else
          validateReplayedFrom existing write.seq (row.id :: batchIds) batchEntryIds writes
      | .value _ => validateReplayedFrom existing write.seq batchIds batchEntryIds writes
      | .list _ => validateReplayedFrom existing write.seq batchIds batchEntryIds writes

/-- Validate committed writes replayed from durable storage or a fork. -/
def validateReplayedWrites (writes : List (CommittedWrite R)) (existing : CommittedIdView) :
    Except SessionError Unit :=
  validateReplayedFrom existing (existing.nextSeq.saturatingSub U64.one) [] [] writes

@[simp]
theorem Write.seq_commit (write : Write R) (seq : U64) (time : Int) :
    (write.commit seq time).seq = seq := by
  cases write with
  | entry e => exact NewEntry.seq_materialize e seq time
  | usage row => rfl
  | value write | list write => cases write <;> rfl

@[simp]
theorem Write.isEntry_commit (write : Write R) (seq : U64) (time : Int) :
    (write.commit seq time).isEntry = write.isEntry := by
  cases write with
  | entry e => rfl
  | usage row => rfl
  | value write | list write => cases write <;> rfl

end

end PiOxidized.Session
