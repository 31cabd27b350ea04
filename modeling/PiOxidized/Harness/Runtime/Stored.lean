/-
# The stored session of the runtime

The durable values the runtime keeps, each under its own address, and the batches of writes it
commits.  A batch is admitted as a whole: ids of entries and usage rows are new, parents are
stored or earlier in the batch, and no pending response becomes an entry.

Sequence numbers and timestamps are assigned by storage and read by nothing here; recorded tool
arguments, tool memos and response frames are written for other readers and are left out.
-/

import PiOxidized.Harness.Runtime.Operation
import PiOxidized.Math.Dict

namespace PiOxidized.Harness.Runtime

open Math
open Session (EntryId UsageId Usage SessionError StorageErrorCode)

variable {M : Type}

/-! ## Errors -/

/-- How a call on a lane fails. -/
inductive HarnessError
  | closed (message : String)
  | faultSealed (message : String)
  | invalidMessage (lane : LaneName) (reason message : String)
  | invalidNavigation (lane : LaneName) (reason message : String)
  | unknownTarget (targetId : EntryId) (message : String)
  | nothingToCompact (lane : LaneName) (message : String)
  | noActiveOperation (lane : LaneName) (message : String)
  | laneBusy (lane : LaneName) (operationId : OperationId) (kind : OperationKind)
      (message : String)
  | operationMismatch (lane : LaneName) (expected : OperationId)
      (current last : Option OperationId) (message : String)
  | invalidRetryPolicy (message : String)
  deriving DecidableEq

/-- A state the driver holds to be impossible. -/
def invariant (message : String) : HarnessError := .closed ("harness invariant failed: " ++ message)

def storageErrorCodeText : StorageErrorCode → String
  | .notFound => "not_found"
  | .invalidHeader => "invalid_header"
  | .versionMismatch => "version_mismatch"
  | .corrupt => "corrupt"
  | .io => "io"
  | .closed => "closed"
  | .aborted => "aborted"

/-- The text of a session error. -/
def sessionErrorText : SessionError → String
  | .invariant message => "session invariant violated: " ++ message
  | .invalidBranch branch reason => "invalid branch " ++ branch ++ ": " ++ reason
  | .branchExists branch => "branch already exists: " ++ branch
  | .pendingAssistantMessage => "assistant message is still pending and cannot be committed"
  | .unknownTarget id => "unknown target entry: " ++ id
  | .backend code message => storageErrorCodeText code ++ ": " ++ message

def mapSessionError (error : SessionError) : HarnessError :=
  .closed ("session operation failed: " ++ sessionErrorText error)

/-! ## Writes -/

/-- What an entry holds. -/
inductive NewEntryBody (M : Type)
  | message (message : AgentMessage M) (terminate : Bool)
  | compaction (summary : SummaryResult M)
  | branchSummary (fromId : Option EntryId) (summary : SummaryResult M)
  | custom (customType : String) (data : Option M)
  deriving DecidableEq

structure NewEntry (M : Type) where
  id : EntryId
  parentId : Option EntryId
  body : NewEntryBody M
  deriving DecidableEq

structure NewUsageRow where
  id : UsageId
  usage : Usage
  entryId : Option EntryId
  deriving DecidableEq

/-- One durable change. -/
inductive Write (M : Type)
  | entry (entry : NewEntry M)
  | usage (row : NewUsageRow)
  | laneState (lane : LaneName) (value : LaneState)
  | branchTip (lane : LaneName) (value : Option EntryId)
  | operationMeta (id : OperationId) (value : OperationMeta)
  | operationState (id : OperationId) (value : OperationState)
  | operationResult (id : OperationId) (value : OperationResultRecord)
  | operationPreparation (id : OperationId) (task : String)
      (value : DurableStructuralPreparation M)
  | pendingToolOutput (id : OperationId) (entry : EntryId) (value : StagedToolResult M)
  | pendingEntry (id : EntryId) (value : PendingEntry M)
  | entryLabel (id : EntryId) (value : String)
  | deleteOperationMeta (id : OperationId)
  | deleteOperationState (id : OperationId)
  | deleteOperationPreparation (id : OperationId) (task : String)
  | deletePendingToolOutput (id : OperationId) (entry : EntryId)
  | deletePendingEntry (id : EntryId)

/-- The stored values, by address. -/
structure Stored (M : Type) where
  laneConfigs : Dict LaneName LaneConfiguration
  laneStates : Dict LaneName LaneState
  branchTips : Dict LaneName (Option EntryId)
  operationMetas : Dict OperationId OperationMeta
  operationStates : Dict OperationId OperationState
  operationResults : Dict OperationId OperationResultRecord
  preparations : Dict (OperationId × String) (DurableStructuralPreparation M)
  toolOutputs : Dict (OperationId × EntryId) (StagedToolResult M)
  pendingEntries : Dict EntryId (PendingEntry M)
  labels : Dict EntryId String
  entries : Dict EntryId (NewEntry M)
  usage : Dict UsageId NewUsageRow

/-- A response that has not settled. -/
def NewEntry.isPending (entry : NewEntry M) : Bool := match entry.body with
  | .message (.assistant message) _ => message.stopReason == .pending
  | _ => false

namespace Stored

/-- The effect of one write. -/
def applyWrite (stored : Stored M) : Write M → Stored M
  | .entry e => { stored with entries := stored.entries.insert e.id e }
  | .usage row => { stored with usage := stored.usage.insert row.id row }
  | .laneState lane value => { stored with laneStates := stored.laneStates.insert lane value }
  | .branchTip lane value => { stored with branchTips := stored.branchTips.insert lane value }
  | .operationMeta id value =>
    { stored with operationMetas := stored.operationMetas.insert id value }
  | .operationState id value =>
    { stored with operationStates := stored.operationStates.insert id value }
  | .operationResult id value =>
    { stored with operationResults := stored.operationResults.insert id value }
  | .operationPreparation id task value =>
    { stored with preparations := stored.preparations.insert (id, task) value }
  | .pendingToolOutput id e value =>
    { stored with toolOutputs := stored.toolOutputs.insert (id, e) value }
  | .pendingEntry id value =>
    { stored with pendingEntries := stored.pendingEntries.insert id value }
  | .entryLabel id value => { stored with labels := stored.labels.insert id value }
  | .deleteOperationMeta id => { stored with operationMetas := stored.operationMetas.erase id }
  | .deleteOperationState id => { stored with operationStates := stored.operationStates.erase id }
  | .deleteOperationPreparation id task =>
    { stored with preparations := stored.preparations.erase (id, task) }
  | .deletePendingToolOutput id e =>
    { stored with toolOutputs := stored.toolOutputs.erase (id, e) }
  | .deletePendingEntry id => { stored with pendingEntries := stored.pendingEntries.erase id }

/-- The effect of a batch. -/
def apply (stored : Stored M) (writes : List (Write M)) : Stored M := writes.foldl applyWrite stored

/-- Whether an entry or a usage row owns an id. -/
def containsId (stored : Stored M) (id : String) : Bool :=
  stored.entries.contains id || stored.usage.contains id

/-- The check of a batch, with the ids and the entry ids it has brought so far. -/
def validate (stored : Stored M) :
    List String → List EntryId → List (Write M) → Except SessionError Unit
  | _, _, [] => .ok ()
  | ids, entryIds, .entry e :: writes =>
    if stored.containsId e.id || ids.contains e.id then
      .error (.invariant ("duplicate entry id " ++ e.id))
    else
      match e.parentId.filter fun p => !stored.entries.contains p && !entryIds.contains p with
      | some p => .error (.invariant ("missing parent id " ++ p))
      | none =>
        if e.isPending then .error .pendingAssistantMessage
        else stored.validate (e.id :: ids) (e.id :: entryIds) writes
  | ids, entryIds, .usage row :: writes =>
    if stored.containsId row.id || ids.contains row.id then
      .error (.invariant ("duplicate usage id " ++ row.id))
    else stored.validate (row.id :: ids) entryIds writes
  | ids, entryIds, _ :: writes => stored.validate ids entryIds writes

/-- Commit a batch: all of it or nothing. -/
def commit (stored : Stored M) (writes : List (Write M)) : Except SessionError (Stored M) :=
  match stored.validate [] [] writes with
  | .error error => .error error
  | .ok () => .ok (stored.apply writes)

end Stored

/-! ## Queues -/

/-- The payloads of queued entries; an entry without one is an error. -/
def readPending (stored : Stored M) :
    List InboxItem → Except SessionError (List (InboxItem × PendingEntry M))
  | [] => .ok []
  | item :: items =>
    match stored.pendingEntries.get? item.entryId with
    | none => .error (.invariant ("missing pending entry " ++ item.entryId))
    | some value => do
      let rest ← readPending stored items
      .ok ((item, value) :: rest)

/-- The items a drain point releases, with whether a steering and a follow-up item has been. -/
def selectFrom (steeringMode followUpMode : QueueMode) :
    Bool → Bool → List InboxItem → List InboxItem
  | _, _, [] => []
  | steer, follow, item :: items =>
    match item.kind with
    | .write | .nextRun => item :: selectFrom steeringMode followUpMode steer follow items
    | .steer =>
      if steeringMode = .all ∨ ¬ steer then
        item :: selectFrom steeringMode followUpMode true follow items
      else selectFrom steeringMode followUpMode steer follow items
    | .followUp =>
      if followUpMode = .all ∨ ¬ follow then
        item :: selectFrom steeringMode followUpMode steer true items
      else selectFrom steeringMode followUpMode steer follow items

def selectInbox (inbox : List InboxItem) (steeringMode followUpMode : QueueMode) : List InboxItem :=
  selectFrom steeringMode followUpMode false false inbox

/-- The items of an inbox that are not among the chosen ones. -/
def withoutItems (inbox chosen : List InboxItem) : List InboxItem :=
  inbox.filter fun item => !chosen.any fun c => c.entryId == item.entryId

/-- The entry a queued payload becomes. -/
def PendingEntry.entryBody : PendingEntry M → NewEntryBody M
  | .message payload => .message payload false
  | .custom customType payload => .custom customType payload

/-- The writes that move queued entries onto a branch, one after the other. -/
def drainWrites (parent : Option EntryId) : List (InboxItem × PendingEntry M) → List (Write M)
  | [] => []
  | (item, value) :: rest =>
    .entry ⟨item.entryId, parent, value.entryBody⟩ :: .deletePendingEntry item.entryId ::
      drainWrites (some item.entryId) rest

/-- The writes of new messages, one after the other. -/
def messageWrites (parent : Option EntryId) : List (EntryId × AgentMessage M) → List (Write M)
  | [] => []
  | (id, message) :: rest =>
    .entry ⟨id, parent, .message message false⟩ :: messageWrites (some id) rest

/-- The last of the ids, or the tip before them. -/
def lastId (tip : Option EntryId) (ids : List EntryId) : Option EntryId := ids.getLast?.or tip

/-! ## Lane data -/

/-- What the runtime remembers of a lane. -/
structure LaneData where
  tip : Option EntryId
  config : LaneConfiguration
  state : LaneState
  operation : Option Operation
  lastResult : Option OperationResultRecord
  deriving DecidableEq

/-- The id of the remembered operation. -/
def LaneData.operationId (data : LaneData) : Option OperationId :=
  data.operation.map (·.info.operationId)

end PiOxidized.Harness.Runtime
