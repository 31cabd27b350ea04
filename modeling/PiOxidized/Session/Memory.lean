/-
# The in-memory backend

The complete contents of the reference backend and its operations.  An operation
that can fail returns its result together with the state it leaves.
-/

import PiOxidized.Session.Write
import Mathlib.Data.Prod.Lex

namespace PiOxidized.Session

open Math

/-- Whether an address names a single value or a list. -/
inductive AddressKind
  | value
  | list
  deriving DecidableEq

/-- A stored value. -/
structure RawStoredValue (R : Type) where
  ns : String
  key : String
  kind : AddressKind
  value : R
  seq : U64
  deriving DecidableEq

/-- One list element. -/
structure RawListElement (R : Type) where
  seq : U64
  value : R
  deriving DecidableEq

/-- Complete contents of the in-memory backend. -/
structure InMemoryStorageState (R : Type) where
  /-- Stored entries keyed by id. -/
  entries : OrderedMap EntryId (Entry R)
  /-- Reverse index from assigned sequence to entry id. -/
  entriesBySeq : OrderedMap U64 EntryId
  /-- Value slots keyed by namespace and key. -/
  values : OrderedMap (String ×ₗ String) (RawStoredValue R)
  /-- List slots keyed by namespace and key. -/
  lists : OrderedMap (String ×ₗ String) (List (RawListElement R))
  /-- Usage rows keyed by id. -/
  usage : OrderedMap UsageId (UsageRow R)
  /-- Totals accumulated from committed message and usage writes. -/
  stats : SessionStats
  /-- Sequence the next committed write receives. -/
  nextSeq : U64

/-- Sum of two optional counters. -/
def addOptional : Option U64 → Option U64 → Option U64
  | some a, some b => some (a.saturatingAdd b)
  | a, none => a
  | none, b => b

/-- Add a measurement to the totals. -/
def addUsage (total add : Usage) : Usage where
  input := total.input.saturatingAdd add.input
  output := total.output.saturatingAdd add.output
  cacheRead := total.cacheRead.saturatingAdd add.cacheRead
  cacheWrite := total.cacheWrite.saturatingAdd add.cacheWrite
  totalTokens := total.totalTokens.saturatingAdd add.totalTokens
  cacheWrite1h := addOptional total.cacheWrite1h add.cacheWrite1h
  reasoning := addOptional total.reasoning add.reasoning
  cost :=
    { input := total.cost.input.add add.cost.input
      output := total.cost.output.add add.cost.output
      cacheRead := total.cost.cacheRead.add add.cost.cacheRead
      cacheWrite := total.cost.cacheWrite.add add.cost.cacheWrite
      total := total.cost.total.add add.cost.total }

/-- Direction a scan walks its sequence space. -/
inductive ScanOrder
  | asc
  | desc
  deriving DecidableEq

/-- Exclusive sequence boundary of a paginated scan. -/
structure EntryCursor where
  seq : U64
  deriving DecidableEq

/-- A branch-ancestry scan with its start resolved. -/
structure StorageBranchScan where
  start : EntryId
  stopAtType : Option EntryType := none
  stopAtId : Option EntryId := none
  entryType : Option EntryType := none
  customType : Option String := none
  order : Option ScanOrder := none
  limit : Option Nat := none
  cursor : Option EntryCursor := none
  deriving DecidableEq

/-- Default number of elements of a read. -/
def listReadDefaultLimit : Nat := 1000

/-- Largest number of elements of a read. -/
def listReadMaxLimit : Nat := 10000

/-- Materialized state for a destination session. -/
structure ForkDestinationSnapshot (R : Type) where
  entries : List (Entry R)
  values : List (RawStoredValue R)
  usage : List (UsageRow R)
  nextSeq : U64

/-- Convert a destination snapshot into replayable committed writes. -/
def forkSnapshotWrites {R : Type} (snapshot : ForkDestinationSnapshot R) :
    List (CommittedWrite R) :=
  (snapshot.entries.map CommittedWrite.entry ++ snapshot.values.map (fun stored =>
      CommittedWrite.value (.set stored.seq stored.ns stored.key stored.value)) ++
    snapshot.usage.map CommittedWrite.usage).mergeSort fun a b => decide (a.seq ≤ b.seq)

namespace InMemoryStorageState

variable {R : Type}

/-- Empty state whose first write takes sequence one. -/
def new : InMemoryStorageState R where
  entries := ∅
  entriesBySeq := ∅
  values := ∅
  lists := ∅
  usage := ∅
  stats := {}
  nextSeq := U64.one

/-- Whether any stored record owns an id. -/
def containsId (state : InMemoryStorageState R) (id : String) : Bool :=
  state.entries.contains id || state.usage.contains id

/-- The identity view the validators read. -/
def idView (state : InMemoryStorageState R) : CommittedIdView where
  containsId := state.containsId
  containsEntryId := state.entries.contains
  nextSeq := state.nextSeq

/-- Materialize one write, before the sequence mark moves. -/
def store (state : InMemoryStorageState R) : CommittedWrite R → InMemoryStorageState R
  | .entry entry =>
    { state with
      stats := if entry.isMessage then
          { state.stats with messageCount := state.stats.messageCount.saturatingAdd U64.one }
        else state.stats
      entriesBySeq := state.entriesBySeq.insert entry.seq entry.id
      entries := state.entries.insert entry.id entry }
  | .usage row =>
    { state with
      stats := { state.stats with usage := addUsage state.stats.usage row.usage }
      usage := state.usage.insert row.id row }
  | .value (.set seq ns key value) =>
    { state with
      values := state.values.insert (toLex (ns, key)) ⟨ns, key, .value, value, seq⟩ }
  | .value (.delete _ ns key) =>
    { state with values := state.values.erase (toLex (ns, key)) }
  | .list (.append seq ns key value) =>
    { state with
      lists := state.lists.insert (toLex (ns, key))
        ((state.lists.get? (toLex (ns, key))).getD [] ++ [⟨seq, value⟩]) }
  | .list (.delete _ ns key) =>
    { state with lists := state.lists.erase (toLex (ns, key)) }

/-- Materialize one write and move the sequence mark past it. -/
def applyOne (state : InMemoryStorageState R) (write : CommittedWrite R) : InMemoryStorageState R :=
  { state.store write with nextSeq := write.seq.saturatingAdd U64.one }

/-- Apply committed writes that have already passed validation. -/
def applyCommitted (state : InMemoryStorageState R) (writes : List (CommittedWrite R)) :
    InMemoryStorageState R :=
  writes.foldl applyOne state

/-- Validate and apply proposed writes as one batch. -/
def apply (state : InMemoryStorageState R) (writes : List (Write R)) (timestamp : Int) :
    Except SessionError CommitResult × InMemoryStorageState R :=
  match validateCommittedWrites writes state.nextSeq state.idView with
  | .error error => (.error error, state)
  | .ok () =>
    match commitWrites writes state.nextSeq timestamp with
    | .error error => (.error error, state)
    | .ok (committed, seqs) =>
      (.ok ⟨state.nextSeq, seqs, timestamp, (state.applyCommitted committed).stats⟩,
        state.applyCommitted committed)

/-- Validate and apply explicitly sequenced writes. -/
def replay (state : InMemoryStorageState R) (writes : List (CommittedWrite R)) :
    Except SessionError SessionStats × InMemoryStorageState R :=
  match validateReplayedWrites writes state.idView with
  | .error error => (.error error, state)
  | .ok () => (.ok (state.applyCommitted writes).stats, state.applyCommitted writes)

/-- Advance the sequence mark without materializing a write. -/
def advanceNextSeq (state : InMemoryStorageState R) (nextSeq : U64) : InMemoryStorageState R :=
  { state with nextSeq := max state.nextSeq nextSeq }

/-- Reconstruct a fresh state from a fork snapshot. -/
def fromForkSnapshot (snapshot : ForkDestinationSnapshot R) :
    Except SessionError (InMemoryStorageState R) :=
  match new.replay (forkSnapshotWrites snapshot) with
  | (.error error, _) => .error error
  | (.ok _, state) => .ok (state.advanceNextSeq snapshot.nextSeq)

/-- Whether a scan stops after an entry. -/
def stopsAt (query : StorageBranchScan) (id : EntryId) (entry : Entry R) : Bool :=
  query.stopAtId == some id || query.stopAtType == some entry.entryType

/-- Whether a scan keeps an entry. -/
def keeps (query : StorageBranchScan) (order : ScanOrder) (entry : Entry R) : Bool :=
  (query.entryType.all fun value => value == entry.entryType) &&
    (query.customType.all fun value => entry.customType == some value) &&
    query.cursor.all fun value =>
      match order with
      | .asc => decide (value.seq < entry.seq)
      | .desc => decide (entry.seq < value.seq)

/-- Ids of stored entries that a walk has not seen. -/
def unseen (state : InMemoryStorageState R) (seen : List EntryId) : List (EntryId × Entry R) :=
  state.entries.entries.filter fun e => !seen.contains e.1

theorem length_unseen_lt (state : InMemoryStorageState R) {seen : List EntryId} {id : EntryId}
    {entry : Entry R} (hseen : seen.contains id = false) (hget : state.entries.get? id = some entry) :
    (state.unseen (id :: seen)).length < (state.unseen seen).length :=
  OrderedMap.length_without_lt hseen hget

/-- The walk over parent links, with the ids seen and the entries kept so far. -/
def scanLoop (state : InMemoryStorageState R) (query : StorageBranchScan) (order : ScanOrder)
    (limit : Nat) (id : EntryId) (seen : List EntryId) (output : List (Entry R)) :
    Except SessionError (List (Entry R)) :=
  if _hseen : seen.contains id = true then .error (.invariant "cycle in branch ancestry")
  else
    match _hget : state.entries.get? id with
    | none => .error (.unknownTarget id)
    | some entry =>
      let kept := if keeps query order entry then output ++ [entry] else output
      if keeps query order entry && order == .desc && decide (limit ≤ kept.length) then .ok kept
      else
        match entry.parentId with
        | none => .ok kept
        | some parent =>
          if stopsAt query id entry then .ok kept
          else scanLoop state query order limit parent (id :: seen) kept
termination_by (state.unseen seen).length
decreasing_by exact state.length_unseen_lt (Bool.eq_false_of_not_eq_true _hseen) _hget

/-- Walk parent links backwards from a start. -/
def scanBranch (state : InMemoryStorageState R) (query : StorageBranchScan) :
    Except SessionError (List (Entry R)) := do
  let order := query.order.getD .desc
  let limit := min (query.limit.getD listReadDefaultLimit) listReadMaxLimit
  let output ← state.scanLoop query order limit query.start [] []
  let output := if order == .asc then output.reverse else output
  .ok (output.take limit)

end InMemoryStorageState

end PiOxidized.Session
