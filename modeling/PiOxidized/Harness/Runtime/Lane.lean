/-
# A lane among its callers

One lane as the tasks that call it see it.  Two locks order them.  The lane data lock guards
what is remembered of the lane; the mutation guard of the session is held from the reading of
what a batch is built on to its commit.  Queue writers, cancellation and admissions take the
guard without the data lock and bring the lane data up to date afterwards; the driver and
direct appends hold the data lock across their commit.

Every place where a task waits is a phase of its own, so that other tasks may run there.
-/

import PiOxidized.Harness.Runtime.Dispatch
import PiOxidized.Math.Transition

namespace PiOxidized.Harness.Runtime

open Math
open Session (EntryId SessionError)

variable {M : Type}

/-! ## Calls -/

/-- A call on a lane; ids and times are taken when the call begins. -/
inductive CallRequest (M : Type)
  | enqueue (id : EntryId) (kind : InboxItemKind) (message : AgentMessage M)
  | cancelQueued (id : EntryId)
  | append (id : EntryId) (entry : PendingEntry M)
  | acceptRun (operationId : OperationId) (messages : List (EntryId × AgentMessage M))
      (settings : RunSettings) (startedAt : Int)
  | acceptCompaction (operationId : OperationId) (customInstructions : Option String)
      (preparation : Option (DurableStructuralPreparation M)) (settings : RunSettings)
      (startedAt : Int)
  | acceptNavigation (operationId : OperationId) (target : Option EntryId) (summarize : Bool)
      (label customInstructions : Option String) (preparation : DurableStructuralPreparation M)
      (settings : RunSettings) (startedAt : Int)
  | requestAbort (operationId : OperationId) (requestedAt : Int)

/-- What a call returns.  An abort hands messages back; each stands here beside the id it was
queued under. -/
inductive CallAnswer (M : Type)
  | queued (id : EntryId)
  | cancelled
  | alreadyConsumed
  | notFound
  | appended (id : EntryId)
  | accepted (operationId : OperationId) (kind : OperationKind) (startedAt : Int)
  | abortRequested (newlyRequested : Bool) (steer followUp : List (EntryId × AgentMessage M))
  | failed (error : HarnessError)
  deriving DecidableEq

/-- What a committed batch makes of the lane data. -/
inductive Publication
  /-- The next state, if memory still holds the state the commit was based on. -/
  | converge (base next : LaneState)
  /-- The same, and the admitted operation with the tip a run has moved. -/
  | accept (base next : LaneState) (operation : Operation) (tip : Option (Option EntryId))
  /-- The same, and the cancelled operation if it is still the current one. -/
  | abort (base next : LaneState) (operation : Operation)
  /-- The data a task that holds the data lock has made. -/
  | hold (data : LaneData)
  deriving DecidableEq

/-- A batch that is ready, and what follows it. -/
structure Update (M : Type) where
  writes : List (Write M)
  publication : Publication
  answer : CallAnswer M

/-- An admission whose reservation has been published. -/
inductive Admission (M : Type)
  | run (operationId : OperationId) (messages : List (EntryId × AgentMessage M))
      (selected : List InboxItem) (sourceTip : Option EntryId) (settings : RunSettings)
      (startedAt : Int)
  | prepared (operation : Operation) (task : String)
      (preparation : Option (DurableStructuralPreparation M))

/-- Where a call waits. -/
inductive CallPhase (M : Type)
  | waiting (call : CallRequest M)
  /-- With the data lock, for the guard. -/
  | holding (update : Update M)
  | reserved (admission : Admission M)
  /-- With a copy of the operation to cancel, for the guard. -/
  | snapshot (operation : Operation) (requestedAt : Int)
  /-- With the guard. -/
  | guarded (update : Update M)
  | committed (update : Update M)
  | missing (id : EntryId)
  /-- For the payloads of the queue as it is remembered. -/
  | listing (queue : List InboxItem) (answer : CallAnswer M)
  | undoing (operationId : OperationId) (error : HarnessError)
  | returned (answer : CallAnswer M)

/-- The scope an operation begins with. -/
def operationScope (settings : RunSettings) : OperationScope := ⟨.running, settings, none⟩

/-- The stored state of a lane. -/
def Stored.laneState (stored : Stored M) (name : LaneName) : LaneState :=
  (stored.laneStates.get? name).getD default

/-! ### Queue writers -/

def enqueueUpdate (name : LaneName) (stored : Stored M) (id : EntryId) (kind : InboxItemKind)
    (message : AgentMessage M) : Update M :=
  let base := stored.laneState name
  let next : LaneState := { base with inbox := base.inbox ++ [⟨id, kind⟩] }
  { writes := [.pendingEntry id (.message message), .laneState name next]
    publication := .converge base next
    answer := .queued id }

/-- The removal of a queued item. -/
def cancelBatch (name : LaneName) (stored : Stored M) (id : EntryId) : Update M :=
  let base := stored.laneState name
  let next : LaneState := { base with inbox := base.inbox.filter fun item => item.entryId != id }
  { writes := [.deletePendingEntry id, .laneState name next]
    publication := .converge base next
    answer := .cancelled }

/-- The removal of an item, if it is queued. -/
def cancelUpdate (name : LaneName) (stored : Stored M) (id : EntryId) : Option (Update M) :=
  if (stored.laneState name).inbox.any fun item => item.entryId == id then
    some (cancelBatch name stored id)
  else none

/-- An append: queued while the lane is busy, else an entry at the tip. -/
def appendUpdate (name : LaneName) (data : LaneData) (id : EntryId) (entry : PendingEntry M) :
    Update M :=
  match data.operation with
  | some _ =>
    let next : LaneState := { data.state with inbox := data.state.inbox ++ [⟨id, .write⟩] }
    { writes := [.pendingEntry id entry, .laneState name next]
      publication := .hold { data with state := next }
      answer := .appended id }
  | none =>
    { writes := [.entry ⟨id, data.tip, entry.entryBody⟩, .branchTip name (some id)]
      publication := .hold { data with tip := some id }
      answer := .appended id }

/-! ### Admissions -/

def provisionalRun (name : LaneName) (operationId : OperationId) (sourceTip : Option EntryId)
    (settings : RunSettings) (startedAt : Int) (promptEntryIds : List EntryId) : Operation where
  info := ⟨operationId, name, sourceTip, startedAt, .run promptEntryIds⟩
  state := .starting (operationScope settings)

def compactionOperation (name : LaneName) (operationId : OperationId) (tip : Option EntryId)
    (customInstructions : Option String) (settings : RunSettings) (startedAt : Int) :
    Operation where
  info := ⟨operationId, name, tip, startedAt, .compaction customInstructions⟩
  state := .summaryDeciding (operationScope settings)
    ⟨operationId ++ ":summary", some .manual, customInstructions, .finish⟩

def navigationOperation (name : LaneName) (operationId : OperationId) (tip : Option EntryId)
    (target : Option EntryId) (summarize : Bool) (label customInstructions : Option String)
    (settings : RunSettings) (startedAt : Int) : Operation where
  info := ⟨operationId, name, tip, startedAt, .navigation target summarize label customInstructions⟩
  state := if summarize then
      .summaryDeciding (operationScope settings)
        { taskId := operationId ++ ":summary"
          reason := some .manual
          customInstructions := customInstructions
          boundary := match target with
            | some target => .commitNavigation target label
            | none => .finish }
    else .navigationReadyToCommit (operationScope settings) target label

/-- Whether a session-wide slot of an operation id is taken. -/
def Stored.operationIdIsUsed (stored : Stored M) (id : OperationId) : Bool :=
  stored.operationMetas.contains id || stored.operationStates.contains id ||
    stored.operationResults.contains id

def operationIdReuseText (id : OperationId) : String :=
  "operation id " ++ id ++ " is already used by an active, durable, or settled operation"

/-- The error of an admission whose id is taken. -/
def operationIdReuseError (name : LaneName) (id : OperationId) : OperationKind → HarnessError
  | .navigation => .invalidNavigation name "operation_id_reuse" (operationIdReuseText id)
  | _ => .invalidMessage name "operation_id_reuse" (operationIdReuseText id)

/-- The ids of the drained messages of a run's prompt. -/
def drainedMessageIds (pending : List (InboxItem × PendingEntry M)) : List EntryId :=
  pending.filterMap fun value =>
    match value.2 with
    | .message _ => some value.1.entryId
    | .custom _ _ => none

/-- The lane state that an admitted operation owns. -/
def LaneState.owned (state : LaneState) (id : OperationId) (inbox : List InboxItem) : LaneState :=
  ⟨some id, state.lastOperationId, inbox⟩

/-- The batch of an admitted run, given the payloads of what it takes from the queue. -/
def runBatch (name : LaneName) (stored : Stored M) (operationId : OperationId)
    (messages : List (EntryId × AgentMessage M)) (selected : List InboxItem)
    (pending : List (InboxItem × PendingEntry M)) (sourceTip : Option EntryId)
    (settings : RunSettings) (startedAt : Int) : Update M :=
  let base := stored.laneState name
  let drained := lastId sourceTip (selected.map (·.entryId))
  let tip := lastId drained (messages.map Prod.fst)
  let operation := provisionalRun name operationId sourceTip settings startedAt
    (drainedMessageIds pending ++ messages.map Prod.fst)
  let next := base.owned operationId (withoutItems base.inbox selected)
  { writes := drainWrites sourceTip pending ++ (messageWrites drained messages ++
      [.operationMeta operationId operation.info, .operationState operationId operation.state,
        .laneState name next, .branchTip name tip])
    publication := .accept base next operation (some tip)
    answer := .accepted operationId .run startedAt }

/-- The items of a selection that are still queued; a concurrent cancel may have consumed one. -/
def stillQueued (inbox selected : List InboxItem) : List InboxItem :=
  selected.filter fun item => inbox.any fun kept => kept.entryId == item.entryId

def runUpdate (name : LaneName) (stored : Stored M) (operationId : OperationId)
    (messages : List (EntryId × AgentMessage M)) (selected : List InboxItem)
    (sourceTip : Option EntryId) (settings : RunSettings) (startedAt : Int) :
    Except HarnessError (Update M) :=
  if stored.operationIdIsUsed operationId then
    .error (operationIdReuseError name operationId .run)
  else
    let selected := stillQueued (stored.laneState name).inbox selected
    match readPending stored selected with
    | .error error => .error (mapSessionError error)
    | .ok pending =>
      .ok (runBatch name stored operationId messages selected pending sourceTip settings startedAt)

/-- The batch of any other admitted operation. -/
def preparedBatch (name : LaneName) (stored : Stored M) (operation : Operation) (task : String)
    (preparation : Option (DurableStructuralPreparation M)) : Update M :=
  let id := operation.info.operationId
  let base := stored.laneState name
  let next := base.owned id base.inbox
  { writes := [.operationMeta id operation.info, .operationState id operation.state,
        .laneState name next] ++
      (preparation.map fun value => Write.operationPreparation id task value).toList
    publication := .accept base next operation none
    answer := .accepted id (operationKind operation.info.intent) operation.info.startedAt }

def preparedUpdate (name : LaneName) (stored : Stored M) (operation : Operation) (task : String)
    (preparation : Option (DurableStructuralPreparation M)) : Except HarnessError (Update M) :=
  let id := operation.info.operationId
  if stored.operationIdIsUsed id then
    .error (operationIdReuseError name id (operationKind operation.info.intent))
  else .ok (preparedBatch name stored operation task preparation)

def Admission.operationId : Admission M → OperationId
  | run operationId _ _ _ _ _ => operationId
  | prepared operation _ _ => operation.info.operationId

/-- The batch of an admission under the guard. -/
def Admission.update (name : LaneName) (stored : Stored M) :
    Admission M → Except HarnessError (Update M)
  | run operationId messages selected sourceTip settings startedAt =>
    runUpdate name stored operationId messages selected sourceTip settings startedAt
  | prepared operation task preparation => preparedUpdate name stored operation task preparation

/-! ### Cancellation -/

/-- The items a cancellation hands back. -/
def drainedByAbort (inbox : List InboxItem) : List InboxItem :=
  inbox.filter fun item => item.kind == .steer || item.kind == .followUp

/-- The messages among the payloads of one kind of item. -/
def messagesOfKind (kind : InboxItemKind) (pending : List (InboxItem × PendingEntry M)) :
    List (EntryId × AgentMessage M) :=
  (pending.filter fun value => value.1.kind == kind).filterMap fun value =>
    match value.2 with
    | .message payload => some (value.1.entryId, payload)
    | .custom _ _ => none

/-- The operation with cancellation requested. -/
def Operation.cancelled (operation : Operation) (requestedAt : Int) : Operation :=
  { operation with state := operation.state.withControl (.cancelRequested requestedAt) }

/-- The batch of a cancellation, given the payloads of what it takes from the queue. -/
def abortBatch (name : LaneName) (stored : Stored M) (operation : Operation) (requestedAt : Int)
    (pending : List (InboxItem × PendingEntry M)) : Update M :=
  let id := operation.info.operationId
  let base := stored.laneState name
  let next := base.owned id (withoutItems base.inbox (drainedByAbort base.inbox))
  { writes := (pending.map fun value => Write.deletePendingEntry value.1.entryId) ++
      [.operationState id (operation.cancelled requestedAt).state, .laneState name next]
    publication := .abort base next (operation.cancelled requestedAt)
    answer := .abortRequested true (messagesOfKind .steer pending)
      (messagesOfKind .followUp pending) }

/-- The batch of a cancellation under the guard, or the answer that makes one needless. -/
def abortUpdate (name : LaneName) (stored : Stored M) (operation : Operation)
    (requestedAt : Int) : Except (CallAnswer M) (Update M) :=
  if (stored.operationStates.get? operation.info.operationId).all fun state =>
      state.control.isCancelRequested then
    .error (.abortRequested false [] [])
  else
    match readPending stored (drainedByAbort (stored.laneState name).inbox) with
    | .error error => .error (.failed (mapSessionError error))
    | .ok pending => .ok (abortBatch name stored operation requestedAt pending)

/-! ## The lane -/

/-- Who holds a lock. -/
inductive Party
  | drive
  | call (index : Nat)
  deriving DecidableEq

/-- Where a drive waits. -/
inductive DrivePhase (M : Type)
  | running (program : Procedure M (DriveStep M))
  /-- Before a publication; with the data lock if the publication holds it. -/
  | publishing (publication : Publish M)
      (next : publication.Answer → Procedure M (DriveStep M))
  | guarded (publication : Publish M) (performed : Performed M publication.Answer)
      (writes : List (Write M)) (next : publication.Answer → Procedure M (DriveStep M))
  | committed (publication : Publish M) (performed : Performed M publication.Answer)
      (next : publication.Answer → Procedure M (DriveStep M))

structure Drive (M : Type) where
  options : DriveOptions
  phase : DrivePhase M

/-- What has happened to tool calls. -/
inductive ToolEvent (M : Type)
  | started (assistantEntryId : EntryId) (record : ToolCall)
  | finished (resultEntryId : EntryId) (outcome : ToolOutcome M)

/-- What the lanes of a session share. -/
structure Shared (M : Type) where
  stored : Stored M
  guard : Option (LaneName × Party)
  /-- The first fault; it seals the harness. -/
  fault : Option String
  /-- Every id handed out. -/
  issued : List String
  /-- The tool calls started and finished so far. -/
  toolEvents : List (ToolEvent M)

structure Call (M : Type) where
  request : CallRequest M
  phase : CallPhase M

structure Lane (M : Type) where
  data : LaneData
  dataLock : Option Party
  calls : List (Call M)
  drive : Option (Drive M)

/-- What surrounds one step of a drive. -/
structure Surroundings (M : Type) where
  world : World M
  newId : String
  finished : EntryId × ToolOutcome M

inductive LaneEvent (M : Type)
  | call (request : CallRequest M)
  | advance (index : Nat)
  | startDrive (options : DriveOptions)
  | drive (surroundings : Surroundings M)

abbrev LaneSystem (M : Type) := Shared M × Lane M

/-! ### Faults -/

/-- Seal the harness; the first fault stays. -/
def Shared.seal (shared : Shared M) (message : String) : Shared M :=
  { shared with fault := some (shared.fault.getD message) }

/-- The text of a refused commit. -/
def commitFaultText (error : SessionError) : String :=
  "session operation failed: " ++ sessionErrorText error

/-- The rejection of a call after a fault. -/
def Shared.rejection (shared : Shared M) : HarnessError :=
  .faultSealed (shared.fault.getD "harness is closed")

/-! ### Calls take steps -/

/-- The ids a call takes from the generator. -/
def CallRequest.newIds : CallRequest M → List String
  | enqueue id _ _ => [id]
  | append id _ => [id]
  | acceptRun _ messages _ _ => messages.map Prod.fst
  | _ => []

/-- The entry a navigation asks for. -/
def CallRequest.target : CallRequest M → Option EntryId
  | acceptNavigation _ target _ _ _ _ _ _ => target
  | _ => none

def Lane.setCall (lane : Lane M) (index : Nat) (phase : CallPhase M) : Lane M :=
  { lane with calls := lane.calls.modify index fun call => { call with phase := phase } }

def laneBusy (name : LaneName) (operation : Operation) : HarnessError :=
  .laneBusy name operation.info.operationId (operationKind operation.info.intent)
    "lane already owns an operation"

def isControlChar (c : Char) : Bool := c.toNat < 32 || (127 ≤ c.toNat && c.toNat < 160)

/-- A character of a debug text.  Only control characters count as unprintable. -/
def escapeDebug (c : Char) : String :=
  if c = '\t' then "\\t"
  else if c = '\n' then "\\n"
  else if c = '\r' then "\\r"
  else if c.toNat = 0 then "\\0"
  else if c = '"' || c = '\\' then "\\" ++ c.toString
  else if isControlChar c then "\\u\x7b" ++ String.ofList (Nat.toDigits 16 c.toNat) ++ "\x7d"
  else c.toString

/-- The complaint about a caller's operation id. -/
def validateOperationId (id : OperationId) : Option String :=
  if id = "" then some "operation id cannot be empty"
  else
    (id.toList.find? fun c => c == ':' || isControlChar c).map fun c =>
      "operation id \"" ++ String.join (id.toList.map escapeDebug) ++ "\" contains " ++
        if c = ':' then "reserved ':' key separator"
        else "control character '" ++ escapeDebug c ++ "'"

/-- Reserve the lane for an admission, on lane data without an operation. -/
def reserve (data : LaneData) (operation : Operation) (admission : Admission M) :
    LaneData × CallPhase M :=
  (data.withOperation (some operation), .reserved admission)

/-- An admission under the data lock. -/
def beginAdmission (name : LaneName) (data : LaneData) : CallRequest M → LaneData × CallPhase M
  | .acceptRun operationId messages settings startedAt =>
    match data.operation, validateOperationId operationId with
    | some operation, _ => (data, .returned (.failed (laneBusy name operation)))
    | none, some text =>
      (data, .returned (.failed (.invalidMessage name "operation_id" text)))
    | none, none =>
      reserve data (provisionalRun name operationId data.tip settings startedAt [])
        (.run operationId messages
          (selectInbox data.state.inbox settings.steeringMode settings.followUpMode) data.tip
          settings startedAt)
  | .acceptCompaction operationId customInstructions preparation settings startedAt =>
    match data.operation, preparation, validateOperationId operationId with
    | some operation, _, _ => (data, .returned (.failed (laneBusy name operation)))
    | none, none, _ =>
      (data, .returned (.failed (.nothingToCompact name "lane has no eligible entries to compact")))
    | none, some _, some text =>
      (data, .returned (.failed (.invalidMessage name "operation_id" text)))
    | none, some preparation, none =>
      let operation := compactionOperation name operationId data.tip customInstructions
        settings startedAt
      reserve data operation (.prepared operation (operationId ++ ":summary") (some preparation))
  | .acceptNavigation operationId target summarize label customInstructions preparation settings
      startedAt =>
      match data.operation, validateOperationId operationId with
      | some operation, _ => (data, .returned (.failed (laneBusy name operation)))
      | none, some text =>
        (data, .returned (.failed (.invalidNavigation name "operation_id" text)))
      | none, none =>
        let operation := navigationOperation name operationId data.tip target summarize label
          customInstructions settings startedAt
        reserve data operation (.prepared operation (operationId ++ ":summary")
            (if summarize then some preparation else none))
  | call => (data, .waiting call)

/-- The copy a cancellation works on, or its answer. -/
def beginAbort (name : LaneName) (data : LaneData) (operationId : OperationId)
    (requestedAt : Int) : CallPhase M :=
  match data.operation with
  | none => .returned (.failed (.noActiveOperation name "lane has no active operation"))
  | some operation =>
    if operation.info.operationId ≠ operationId then
      .returned (.failed (.operationMismatch name operationId
        (some operation.info.operationId) data.state.lastOperationId
        "abort request does not name the current operation"))
    else if operation.state.control.isCancelRequested then
      .returned (.abortRequested false [] [])
    else .snapshot operation requestedAt

/-- Memory follows a commit only from the state the commit was based on. -/
def LaneData.converge (data : LaneData) (base next : LaneState) : LaneData :=
  { data with state := if data.state = base then next else data.state }

/-- The lane data after a commit, or the error of a task whose operation is gone. -/
def Publication.apply (data : LaneData) : Publication → Except HarnessError LaneData
  | converge base next => .ok (data.converge base next)
  | accept base next operation tip =>
    if data.operationId = some operation.info.operationId then
      .ok { data.converge base next with
          operation := some operation
          tip := tip.getD data.tip
          lastResult := if tip.isSome then none else data.lastResult }
    else .error (.closed "harness is closed")
  | abort base next operation =>
    .ok { data.converge base next with
        operation := if data.operationId = some operation.info.operationId then some operation
          else data.operation }
  | hold next => .ok next

/-- Whether a task that has committed still holds the data lock. -/
def Publication.holdsData : Publication → Bool
  | hold _ => true
  | _ => false

def Publication.isAdmission : Publication → Bool
  | accept _ _ _ _ => true
  | _ => false

/-- Where a call goes once the lane data is up to date: queue writers list the queue. -/
def afterPublication (data : LaneData) (answer : CallAnswer M) : CallPhase M := match answer with
  | .queued _ => .listing data.state.inbox answer
  | .cancelled => .listing data.state.inbox answer
  | .appended _ => if data.operation.isSome then .listing data.state.inbox answer
      else .returned answer
  | _ => .returned answer

/-- The step of a call that waits for its first lock. -/
def advanceWaiting (name : LaneName) (shared : Shared M) (lane : Lane M) (index : Nat) :
    CallRequest M → Option (LaneSystem M)
  | .enqueue id kind message =>
    if shared.guard.isNone then
      some ({ shared with guard := some (name, .call index) },
        lane.setCall index (.guarded (enqueueUpdate name shared.stored id kind message)))
    else none
  | .cancelQueued id =>
    if shared.guard.isNone then
      match cancelUpdate name shared.stored id with
      | some update =>
        some ({ shared with guard := some (name, .call index) },
          lane.setCall index (.guarded update))
      | none => some (shared, lane.setCall index (.missing id))
    else none
  | .append id entry =>
    if lane.dataLock.isNone then
      some (shared, { lane.setCall index (.holding (appendUpdate name lane.data id entry)) with
        dataLock := some (.call index) })
    else none
  | .requestAbort operationId requestedAt =>
    if lane.dataLock.isNone then
      some (shared, lane.setCall index (beginAbort name lane.data operationId requestedAt))
    else none
  | .acceptRun operationId messages settings startedAt =>
    if lane.dataLock.isNone then
      if messages.isEmpty then
        some (shared, lane.setCall index (.returned (.failed
          (.invalidMessage name "empty_prompt" "run prompt cannot be empty"))))
      else if shared.fault.isSome then
        some (shared, lane.setCall index (.returned (.failed shared.rejection)))
      else
        let (data, phase) := beginAdmission name lane.data
          (.acceptRun operationId messages settings startedAt)
        some (shared, { lane.setCall index phase with data := data })
    else none
  | call =>
    if lane.dataLock.isNone then
      match (call.target.filter fun target => !shared.stored.entries.contains target) with
      | some target =>
        some (shared, lane.setCall index (.returned (.failed
          (.unknownTarget target "navigation target does not exist"))))
      | none =>
        let (data, phase) := beginAdmission name lane.data call
        some (shared, { lane.setCall index phase with data := data })
    else none

/-- The commit of a call that holds the guard. -/
def advanceGuarded (shared : Shared M) (lane : Lane M) (index : Nat) (update : Update M) :
    LaneSystem M :=
  match shared.stored.commit update.writes with
  | .ok stored =>
    ({ shared with stored := stored, guard := none }, lane.setCall index (.committed update))
  | .error error =>
    let shared := { shared.seal (commitFaultText error) with guard := none }
    (shared, { lane.setCall index (.returned (.failed shared.rejection)) with
      dataLock := if update.publication.holdsData then none else lane.dataLock })

/-- A call brings the lane data up to date. -/
def advanceCommitted (shared : Shared M) (lane : Lane M) (index : Nat) (update : Update M) :
    LaneSystem M :=
  if update.publication.isAdmission && shared.fault.isSome then
    (shared, lane.setCall index (.returned (.failed shared.rejection)))
  else
    match update.publication.apply lane.data with
    | .error error => (shared, lane.setCall index (.returned (.failed error)))
    | .ok data =>
      (shared, { lane.setCall index (afterPublication data update.answer) with
        data := data
        dataLock := if update.publication.holdsData then none else lane.dataLock })

/-- Clear a reservation whose commit never ran. -/
def undoReservation (data : LaneData) (operationId : OperationId) : LaneData :=
  if data.operationId = some operationId then data.withOperation none else data

/-- One step of a call. -/
def advanceCall (name : LaneName) (shared : Shared M) (lane : Lane M) (index : Nat) :
    CallPhase M → Option (LaneSystem M)
  | .waiting call => advanceWaiting name shared lane index call
  | .holding update =>
    if shared.guard.isNone then
      some ({ shared with guard := some (name, .call index) }, lane.setCall index (.guarded update))
    else none
  | .reserved admission =>
    if shared.guard.isNone then
      match admission.update name shared.stored with
      | .ok update =>
        some ({ shared with guard := some (name, .call index) },
          lane.setCall index (.guarded update))
      | .error error =>
        some (shared, lane.setCall index (.undoing admission.operationId error))
    else none
  | .snapshot operation requestedAt =>
    if shared.guard.isNone then
      match abortUpdate name shared.stored operation requestedAt with
      | .ok update =>
        some ({ shared with guard := some (name, .call index) },
          lane.setCall index (.guarded update))
      | .error answer => some (shared, lane.setCall index (.returned answer))
    else none
  | .guarded update => some (advanceGuarded shared lane index update)
  | .committed update =>
    if update.publication.holdsData || lane.dataLock.isNone then
      some (advanceCommitted shared lane index update)
    else none
  | .missing id =>
    some (shared, lane.setCall index (.returned
      (if shared.stored.entries.contains id then .alreadyConsumed else .notFound)))
  | .listing queue answer =>
    some (shared, lane.setCall index (.returned (match readPending shared.stored queue with
      | .ok _ => answer
      | .error error => .failed (mapSessionError error))))
  | .undoing operationId error =>
    if lane.dataLock.isNone then
      some (shared, { lane.setCall index (.returned (.failed error)) with
        data := undoReservation lane.data operationId })
    else none
  | .returned _ => none

/-! ### The drive takes steps -/

def Lane.setDrive (lane : Lane M) (options : DriveOptions) (phase : DrivePhase M) : Lane M :=
  { lane with drive := some ⟨options, phase⟩ }

/-- The drive has returned. -/
def Lane.endDrive (lane : Lane M) : Lane M := { lane with drive := none }

/-- The data lock after a drive has let go of what it holds. -/
def releaseData (publication : Publish M) (lock : Option Party) : Option Party :=
  if publication.holdsData then none else lock

/-- What a drive reads under the data lock. -/
def readData (data : LaneData) : (question : Request M) → Option question.Answer
  | .operation => some (data.operation, data.state.lastOperationId)
  | .tip => some data.tip
  | .laneConfig => some data.config
  | _ => none

/-- What a drive learns without a lock. -/
def readShared (shared : Shared M) (surroundings : Surroundings M) :
    (question : Request M) → Option (Shared M × question.Answer)
  | .closed => some (shared, shared.fault.map .faultSealed)
  | .entry id => some (shared, shared.stored.entries.get? id)
  | .preparation id task => some (shared, shared.stored.preparations.get? (id, task))
  | .toolOutput id entry => some (shared, shared.stored.toolOutputs.get? (id, entry))
  | .newId =>
    if shared.issued.contains surroundings.newId then none
    else some ({ shared with issued := surroundings.newId :: shared.issued }, surroundings.newId)
  | .fault message =>
    some (shared.seal message, .closed ((shared.seal message).fault.getD message))
  | .startTool assistantEntryId record =>
    some ({ shared with toolEvents := shared.toolEvents ++ [.started assistantEntryId record] }, ())
  | .finishedTool running =>
    if running.contains surroundings.finished.1 then
      some ({ shared with
          toolEvents := shared.toolEvents ++
            [.finished surroundings.finished.1 surroundings.finished.2] },
        surroundings.finished)
    else none
  | .world question => some (shared, surroundings.world question)
  | _ => none

/-- A drive asks. -/
def driveAsk (shared : Shared M) (lane : Lane M) (options : DriveOptions)
    (surroundings : Surroundings M) :
    (question : Request M) → (question.Answer → Procedure M (DriveStep M)) → Option (LaneSystem M)
  | .publish publication, next =>
    if publication.holdsData then
      if lane.dataLock.isNone then
        some (shared, { lane.setDrive options (.publishing publication next) with
          dataLock := some .drive })
      else none
    else some (shared, lane.setDrive options (.publishing publication next))
  | question, next =>
    match readData lane.data question with
    | some answer =>
      if lane.dataLock.isNone then
        some (shared, lane.setDrive options (.running (next answer)))
      else none
    | none =>
      (readShared shared surroundings question).map fun (shared, answer) =>
        (shared, lane.setDrive options (.running (next answer)))

/-- The batch of a publication is built under the guard. -/
def drivePublishing (name : LaneName) (shared : Shared M) (lane : Lane M)
    (options : DriveOptions) (publication : Publish M)
    (next : publication.Answer → Procedure M (DriveStep M)) : Option (LaneSystem M) :=
  match publication.perform name lane.data shared.stored with
  | .error _ =>
    some (shared, { lane.endDrive with dataLock := releaseData publication lane.dataLock })
  | .ok performed =>
    match performed.writes with
    | none =>
      some (shared, { lane.setDrive options (.running (next performed.answer)) with
        dataLock := releaseData publication lane.dataLock })
    | some writes =>
      if shared.guard.isNone then
        some ({ shared with guard := some (name, .drive) },
          lane.setDrive options (.guarded publication performed writes next))
      else none

/-- The commit of a publication. -/
def driveGuarded (shared : Shared M) (lane : Lane M) (options : DriveOptions)
    (publication : Publish M) (performed : Performed M publication.Answer)
    (writes : List (Write M)) (next : publication.Answer → Procedure M (DriveStep M)) :
    LaneSystem M :=
  match shared.stored.commit writes with
  | .ok stored =>
    ({ shared with stored := stored, guard := none },
      lane.setDrive options (.committed publication performed next))
  | .error error =>
    ({ shared.seal (commitFaultText error) with guard := none },
      { lane.endDrive with dataLock := releaseData publication lane.dataLock })

/-- The drive brings the lane data up to date. -/
def driveCommitted (shared : Shared M) (lane : Lane M) (options : DriveOptions)
    (publication : Publish M) (performed : Performed M publication.Answer)
    (next : publication.Answer → Procedure M (DriveStep M)) : LaneSystem M :=
  let lane := { lane with
      data := performed.publish lane.data
      dataLock := releaseData publication lane.dataLock }
  match performed.failure with
  | some _ => (shared, lane.endDrive)
  | none => (shared, lane.setDrive options (.running (next performed.answer)))

/-- One step of a drive. -/
def driveStep [Inhabited M] (name : LaneName) (shared : Shared M) (lane : Lane M)
    (options : DriveOptions) (surroundings : Surroundings M) :
    DrivePhase M → Option (LaneSystem M)
  | .running (.done .proceed) =>
    some (shared, lane.setDrive options (.running (driveRound name options false)))
  | .running (.done _) => some (shared, lane.endDrive)
  | .running (.fail _) => some (shared, lane.endDrive)
  | .running (.ask question next) => driveAsk shared lane options surroundings question next
  | .publishing publication next => drivePublishing name shared lane options publication next
  | .guarded publication performed writes next =>
    some (driveGuarded shared lane options publication performed writes next)
  | .committed publication performed next =>
    if publication.holdsData || !publication.updatesData || lane.dataLock.isNone then
      some (driveCommitted shared lane options publication performed next)
    else none

/-! ### The system -/

/-- One step of a lane. -/
def stepLane [Inhabited M] (name : LaneName) (system : LaneSystem M) :
    LaneEvent M → Option (LaneSystem M)
  | .call request =>
    if request.newIds.all (fun id => !system.1.issued.contains id) && request.newIds.Nodup then
      some ({ system.1 with issued := request.newIds ++ system.1.issued }, { system.2 with
          calls := system.2.calls ++
            [⟨request, if system.1.fault.isSome then .returned (.failed system.1.rejection)
              else .waiting request⟩] })
    else none
  | .advance index =>
    (system.2.calls[index]?).bind fun call =>
      advanceCall name system.1 system.2 index call.phase
  | .startDrive options =>
    if system.2.drive.isNone && system.1.fault.isNone then
      some (system.1, system.2.setDrive options (.running (driveRound name options true)))
    else none
  | .drive surroundings =>
    system.2.drive.bind fun drive =>
      driveStep name system.1 system.2 drive.options surroundings drive.phase

/-- The stored values of a session in which a lane has just been created. -/
def createdStored (name : LaneName) (config : LaneConfiguration) : Stored M where
  laneConfigs := Dict.empty.insert name config
  laneStates := Dict.empty.insert name default
  branchTips := Dict.empty.insert name none
  operationMetas := Dict.empty
  operationStates := Dict.empty
  operationResults := Dict.empty
  preparations := Dict.empty
  toolOutputs := Dict.empty
  pendingEntries := Dict.empty
  labels := Dict.empty
  entries := Dict.empty
  usage := Dict.empty

/-- A lane that nobody calls, with its data. -/
def Lane.idle (data : LaneData) : Lane M := ⟨data, none, [], none⟩

/-- A created lane that nobody has called. -/
def createdLane (name : LaneName) (config : LaneConfiguration) : LaneSystem M :=
  (⟨createdStored name config, none, none, [], []⟩, .idle ⟨none, config, default, none, none⟩)

/-- Surroundings in which every hook agrees and no response comes. -/
def plainWorld (config : LaneConfiguration) : World M
  | .beforeDrive => .ok ()
  | .beforeRun => .ok none
  | .beforeRunEnd => .answered none
  | .beforeRequest => .answered ()
  | .gateCancelled => false
  | .entryProjectors => []
  | .compactionChoice => .skip
  | .retryPolicy => .ok ⟨U64.one, U64.one⟩
  | .model => some ⟨"", 0, 0⟩
  | .requestContext => .ok ()
  | .stream => .closed ""
  | .responseFrames => .ok none
  | .now => 0
  | .retryTimer => false
  | .toolModes => fun _ => none
  | .runtimeConfiguration => config
  | .summary => .error ("", "")
  | .commonAncestor => .ok none
  | .cancelDeferred => ()

def plainConfiguration : LaneConfiguration := ⟨⟨"provider", "model", none⟩, .off, []⟩

def plainSettings : RunSettings := ⟨⟨false, 0, 0⟩, .all, .all, .sequential⟩

/-- Steps of one call. -/
def advances (index steps : Nat) : List (LaneEvent M) := List.replicate steps (.advance index)

/-- Steps of a drive in plain surroundings. -/
def plainDrive (steps : Nat) : List (LaneEvent M) :=
  List.replicate steps (.drive ⟨plainWorld plainConfiguration, "id", ("", .aborted)⟩)

/-- A run with one message, accepted by the first call of a lane. -/
def plainRun (message : M) : List (LaneEvent M) :=
  .call (.acceptRun "op" [("message", .other message)] plainSettings 0) :: advances 0 4

/-- The lane of a name, from its creation on. -/
def laneMachine [Inhabited M] (name : LaneName) : Machine (LaneSystem M) (LaneEvent M) where
  start s := ∃ config, s = createdLane name config
  step := stepLane name

end PiOxidized.Harness.Runtime
