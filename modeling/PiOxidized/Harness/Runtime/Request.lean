/-
# What the driver asks for

The driver of an operation asks its surroundings one thing at a time: it reads lane data and
stored values, takes new ids, consults hooks, models and tools, and publishes.  To publish is to
commit a batch and bring the lane data up to date with it; nearly every kind of publication
holds the lane data lock from the moment its batch is built.
-/

import PiOxidized.Harness.Runtime.Stored
import PiOxidized.Math.Program

namespace PiOxidized.Harness.Runtime

open Math
open Agent (AssistantContent ToolExecutionMode ToolResultContent ToolResultMessage
  AgentToolResult errorToolResult)
open Session (EntryId UsageId StopReason Usage)

variable {M : Type}

/-! ## Publications -/

/-- Inbox entries admitted at an operation boundary. -/
structure InboxDrain (M : Type) where
  messages : List (AgentMessage M)
  /-- The last admitted entry that can trigger a new step. -/
  trigger : Option EntryId
  committed : Bool
  deriving DecidableEq

/-- A response to publish and the reserved leaf it answers. -/
structure AssistantCommit (M : Type) where
  pending : OperationState
  responseId : EntryId
  assistant : AssistantMessage M
  usage : Usage
  usageId : UsageId
  nextState : OperationState
  status : TerminalStatus
  error : Option OperationError
  deriving DecidableEq

/-- What the driver publishes. -/
inductive Publish (M : Type)
  | transition (operation : Operation) (purpose : String) (state : OperationState)
      (writes : List (Write M))
  | injectedMessages (messages : List (EntryId × AgentMessage M))
  | runFollowUp (operation : Operation) (entryId : EntryId) (message : AgentMessage M)
      (state : OperationState)
  | assistant (operation : Operation) (commit : AssistantCommit M)
  | toolResults (operation : Operation) (batch : ToolBatch)
      (results : List (ToolResultMessage M)) (terminate : Bool)
  | drainInbox (operation : Operation) (entryProjectors : List String)
  | settle (operation : Operation) (status : TerminalStatus) (error : Option OperationError)
      (endedAt : Int)
  | navigation (operation : Operation) (target : Option EntryId) (label : Option String)
      (endedAt : Int)
  | compaction (operation : Operation) (generation : SummaryGenerationScope)
      (request : SummaryRequestRef) (result : SummaryResult M)
  | branchSummary (operation : Operation) (oldTip fromId : Option EntryId)
      (generation : SummaryGenerationScope) (request : SummaryRequestRef)
      (result : SummaryResult M) (target : Option EntryId) (label : Option String)
  | stageToolOutput (operationId : OperationId) (entryId : EntryId) (value : StagedToolResult M)

/-- What a publication tells the driver. -/
abbrev Publish.Answer : Publish M → Type
  | .drainInbox _ _ => InboxDrain M
  | .settle _ _ _ _ => OperationResultRecord
  | .navigation _ _ _ _ => OperationResultRecord
  | _ => Unit

/-- A batch to commit, none when there is nothing to do, what becomes of the lane data, and the
failure that is reported once both have happened. -/
structure Performed (M X : Type) where
  writes : Option (List (Write M))
  publish : LaneData → LaneData
  failure : Option HarnessError := none
  answer : X

/-- The operation must still be the current one. -/
def requireCurrent (lane : LaneName) (data : LaneData) (operation : Operation) (purpose : String) :
    Except HarnessError Unit :=
  match data.operation with
  | none => .error (invariant ("operation disappeared during " ++ purpose))
  | some current =>
    if current.info.operationId = operation.info.operationId then .ok ()
    else
      .error (.operationMismatch lane operation.info.operationId
        (some current.info.operationId) data.state.lastOperationId
        ("operation changed during " ++ purpose))

/-- Replace the remembered operation. -/
def LaneData.withOperation (data : LaneData) (operation : Option Operation) : LaneData :=
  { data with operation := operation }

/-- The scope of a batch's operation, with the batch's response as the latest. -/
def batchScope (operation : Operation) (batch : ToolBatch) : OperationScope :=
  { operation.state.scope with latestAssistantEntryId := some batch.assistantEntryId }

/-- The writes that remove what an operation has stored. -/
def operationCleanupWrites (stored : Stored M) (id : OperationId) : List (Write M) :=
  .deleteOperationMeta id :: .deleteOperationState id ::
    ((stored.preparations.entries.filter fun value => value.1.1 == id).map
        (fun value => .deleteOperationPreparation id value.1.2) ++
      (stored.toolOutputs.entries.filter fun value => value.1.1 == id).map
        (fun value => .deletePendingToolOutput id value.1.2))

/-- The leaves a published response is remembered at. -/
def OperationState.followsResponse : OperationState → Bool
  | deferredSuspended _ => true
  | assistantRetryWait _ _ _ => true
  | checkpoint _ _ => true
  | tools _ _ => true
  | _ => false

/-- The record of an operation that ends. -/
def resultRecord (operation : Operation) (status : TerminalStatus)
    (error : Option OperationError) (tip : Option EntryId) (endedAt : Int) :
    OperationResultRecord where
  operationId := operation.info.operationId
  kind := operationKind operation.info.intent
  status := status
  error := error
  fromTipId := operation.info.sourceTipId
  tipId := tip
  startedAt := operation.info.startedAt
  endedAt := endedAt

/-- The lane state once its operation has ended. -/
def LaneState.settled (state : LaneState) (id : OperationId) : LaneState :=
  { state with currentOperationId := none, lastOperationId := some id }

/-- The entries of tool results, one after the other. -/
def toolResultWrites (operationId : OperationId) (batch : ToolBatch) (terminate : Bool) :
    Nat → Option EntryId → List (ToolResultMessage M) →
      Except HarnessError (List (Write M) × Option EntryId)
  | _, parent, [] => .ok ([], parent)
  | index, parent, result :: results =>
    match batch.calls[index]? with
    | none => .error (invariant "tool result order exceeds batch")
    | some call => do
      let (writes, last) ← toolResultWrites operationId batch terminate (index + 1)
        (some call.resultEntryId) results
      .ok (.entry ⟨call.resultEntryId, parent,
          .message (.toolResult result) (result.isError || terminate)⟩ ::
        .deletePendingToolOutput operationId call.resultEntryId :: writes, last)

/-- The checkpoint after tool results. -/
def toolResultsState (operation : Operation) (batch : ToolBatch) (terminate : Bool)
    (trigger : EntryId) : OperationState :=
  .checkpoint (batchScope operation batch)
    { continuation := if terminate then .mayFinish false else .needAssistant false
      triggerEntryId := trigger }

/-- The checkpoint a compaction returns to; after an overflow its summary is the trigger. -/
def compactionCheckpoint (operation : Operation) (generation : SummaryGenerationScope) :
    Option OperationState :=
  match generation.task.boundary with
  | .resumeCheckpoint resumeAfter =>
    some (.checkpoint operation.state.scope (if resumeAfter.continuation = .needAssistant true then
        { resumeAfter with triggerEntryId := generation.summaryContext.resultEntryId }
      else resumeAfter))
  | _ => none

/-- The usage row of a summary. -/
def summaryUsageWrites (generation : SummaryGenerationScope) (request : SummaryRequestRef)
    (usage : Option Usage) : List (Write M) :=
  match usage with
  | none => []
  | some usage =>
    [.usage ⟨request.usageId, usage, some generation.summaryContext.resultEntryId⟩]

/-- The payloads of drained messages. -/
def drainedMessages (pending : List (InboxItem × PendingEntry M)) : List (AgentMessage M) :=
  pending.filterMap fun value =>
    match value.2 with
    | .message payload => some payload
    | .custom _ _ => none

/-- The last drained entry that can trigger a step: a message, or an entry with a projector. -/
def drainTrigger (entryProjectors : List String) (pending : List (InboxItem × PendingEntry M)) :
    Option EntryId :=
  (pending.filter fun value =>
    match value.2 with
    | .message _ => true
    | .custom customType _ => entryProjectors.contains customType).getLast?.map
      fun value => value.1.entryId

/-- Build a publication from the lane data and the stored values it is made on. -/
def Publish.perform (lane : LaneName) (data : LaneData) (stored : Stored M) :
    (p : Publish M) → Except HarnessError (Performed M p.Answer)
  | .transition operation purpose state writes => do
    requireCurrent lane data operation purpose
    .ok
      { writes := some (writes ++ [.operationState operation.info.operationId state])
        publish := fun data => data.withOperation (some ⟨operation.info, state⟩)
        answer := () }
  | .injectedMessages messages =>
    let tip := lastId data.tip (messages.map Prod.fst)
    .ok
      { writes := some (messageWrites data.tip messages ++ [.branchTip lane tip])
        publish := fun data => { data with tip := tip }
        answer := () }
  | .runFollowUp operation entryId message state => do
    requireCurrent lane data operation "follow-up"
    .ok
      { writes := some
          [.entry ⟨entryId, data.tip, .message message false⟩, .branchTip lane (some entryId),
            .operationState operation.info.operationId state]
        publish := fun data =>
          { data with tip := some entryId, operation := some ⟨operation.info, state⟩ }
        answer := () }
  | .assistant operation commit =>
    .ok
      { writes := some
          [.entry ⟨commit.responseId, data.tip, .message (.assistant commit.assistant) false⟩,
            .usage ⟨commit.usageId, commit.usage, some commit.responseId⟩,
            .operationState operation.info.operationId commit.nextState,
            .branchTip lane (some commit.responseId)]
        publish := fun data =>
          { data with
            tip := some commit.responseId
            operation :=
              if commit.nextState.followsResponse then
                data.operation.map fun current => { current with state := commit.nextState }
              else data.operation }
        failure :=
          if commit.nextState.followsResponse && data.operation.isNone then
            some (invariant "assistant operation disappeared")
          else none
        answer := () }
  | .toolResults operation batch results terminate => do
    let (writes, parent) ←
      toolResultWrites operation.info.operationId batch terminate 0 data.tip results
    match parent with
    | none => .error (invariant "tool results have no tip")
    | some trigger =>
      let state := toolResultsState operation batch terminate trigger
      .ok
        { writes := some (writes ++
            [.operationState operation.info.operationId state, .branchTip lane (some trigger)])
          publish := fun data =>
            { data with tip := some trigger, operation := some ⟨operation.info, state⟩ }
          answer := () }
  | .drainInbox operation entryProjectors =>
    let selected := selectInbox data.state.inbox operation.state.scope.settings.steeringMode
      operation.state.scope.settings.followUpMode
    match selected with
    | [] => .ok { writes := none, publish := id, answer := ⟨[], none, false⟩ }
    | _ :: _ =>
      match readPending stored selected with
      | .error error => .error (mapSessionError error)
      | .ok pending =>
        let tip := lastId data.tip (selected.map (·.entryId))
        let state : LaneState :=
          { currentOperationId := some operation.info.operationId
            lastOperationId := data.state.lastOperationId
            inbox := withoutItems data.state.inbox selected }
        .ok
          { writes := some (drainWrites data.tip pending ++
              [.laneState lane state, .branchTip lane tip])
            publish := fun data => { data with tip := tip, state := state }
            answer :=
              { messages := drainedMessages pending
                trigger := drainTrigger entryProjectors pending
                committed := true } }
  | .settle operation status error endedAt =>
    let id := operation.info.operationId
    let record := resultRecord operation status error data.tip endedAt
    let state := data.state.settled id
    .ok
      { writes := some (.laneState lane state :: .operationResult id record ::
          operationCleanupWrites stored id)
        publish := fun data =>
          { data with state := state, operation := none, lastResult := some record }
        answer := record }
  | .navigation operation target label endedAt =>
    let id := operation.info.operationId
    match label, target with
    | some _, none =>
      .error (.invalidNavigation lane "root_label" "a root navigation cannot carry a label")
    | _, _ =>
      let record : OperationResultRecord :=
        { resultRecord operation .completed none target endedAt with
          kind := .navigation, fromTipId := data.tip }
      let state := data.state.settled id
      .ok
        { writes := some (.branchTip lane target ::
            ((label.bind fun text => target.map fun t => Write.entryLabel t text).toList ++
              [.laneState lane state, .operationResult id record, .deleteOperationMeta id,
                .deleteOperationState id]))
          publish := fun data =>
            { data with
              tip := target, state := state, operation := none, lastResult := some record }
          answer := record }
  | .compaction operation generation request result =>
    let summaryId := generation.summaryContext.resultEntryId
    let next := compactionCheckpoint operation generation
    .ok
      { writes := some (.entry ⟨summaryId, data.tip, .compaction result⟩ ::
          .branchTip lane (some summaryId) ::
          (summaryUsageWrites generation request result.usage ++
            (next.map fun state =>
              Write.operationState operation.info.operationId state).toList))
        publish := fun data =>
          { data with
            tip := some summaryId
            operation := (next.map fun state => ⟨operation.info, state⟩).or data.operation }
        answer := () }
  | .branchSummary operation oldTip fromId generation request result target label =>
    let summaryId := generation.summaryContext.resultEntryId
    let state : OperationState :=
      .navigationReadyToCommit operation.state.scope target label
    .ok
      { writes := some (.entry ⟨summaryId, oldTip, .branchSummary fromId result⟩ ::
          .branchTip lane (some summaryId) ::
          .operationState operation.info.operationId state ::
          summaryUsageWrites generation request result.usage)
        publish := fun data =>
          { data with tip := some summaryId, operation := some ⟨operation.info, state⟩ }
        answer := () }
  | .stageToolOutput operationId entryId value =>
    .ok { writes := some [.pendingToolOutput operationId entryId value], publish := id, answer := () }

/-- Whether the lane data lock is held from the building of the batch on. -/
def Publish.holdsData : Publish M → Bool
  | .branchSummary _ _ _ _ _ _ _ _ => false
  | .stageToolOutput _ _ _ => false
  | _ => true

/-- Whether lane data is brought up to date after the commit. -/
def Publish.updatesData : Publish M → Bool
  | .stageToolOutput _ _ _ => false
  | _ => true

/-! ## Questions -/

/-- An answer given under the gate of a drive, which an abort closes. -/
inductive Gated (X : Type)
  | answered (value : X)
  | aborted
  | failed (error : HarnessError)
  deriving DecidableEq

/-- A registered model, as far as the driver records it. -/
structure ModelLimits where
  api : String
  maxTokens : Nat
  contextWindow : Nat
  deriving DecidableEq

/-- How a provider stream ends. -/
inductive StreamAnswer (M : Type)
  | response (message : AssistantMessage M)
  | aborted
  | closed (message : String)
  | fault (message : String)
  | preparation (error : HarnessError) (text : String)
  | provider (message : String)
  deriving DecidableEq

/-- Whether the branch is compacted before the next request. -/
inductive CompactionChoice (M : Type)
  | modelUnavailable
  | skip
  | prepared (preparation : DurableStructuralPreparation M)
  | failed (code message : String)
  | error (error : HarnessError)
  deriving DecidableEq

/-- How the execution of a tool call ends. -/
inductive ToolOutcome (M : Type)
  | finished (result : AgentToolResult M)
  | failed (message : String)
  | aborted
  | unregistered
  | contextFailed (error : HarnessError)
  deriving DecidableEq

/-- What hooks, models, tools, the clock and the configuration are asked. -/
inductive Question
  | beforeDrive
  | beforeRun
  | beforeRunEnd
  | beforeRequest
  | gateCancelled
  | entryProjectors
  | compactionChoice
  | retryPolicy
  | model
  | requestContext
  | stream
  | responseFrames
  | now
  | retryTimer
  | toolModes
  | runtimeConfiguration
  | summary
  | commonAncestor
  | cancelDeferred
  deriving DecidableEq

/-- The type of an answer. -/
abbrev Question.Answer (M : Type) : Question → Type
  | beforeDrive => Except HarnessError Unit
  | beforeRun => Except HarnessError (Option (List (AgentMessage M)))
  | beforeRunEnd => Gated (Option (AgentMessage M))
  | beforeRequest => Gated Unit
  | gateCancelled => Bool
  | entryProjectors => List String
  | compactionChoice => CompactionChoice M
  | retryPolicy => Except HarnessError NormalizedRetryPolicy
  | model => Option ModelLimits
  | requestContext => Except HarnessError Unit
  | stream => StreamAnswer M
  | responseFrames => Except HarnessError (Option (AssistantMessage M))
  | now => Int
  | retryTimer => Bool
  | toolModes => String → Option ToolExecutionMode
  | runtimeConfiguration => LaneConfiguration
  | summary => Except (String × String) (SummaryResult M)
  | commonAncestor => Except HarnessError (Option EntryId)
  | cancelDeferred => Unit

/-- What answers the questions. -/
abbrev World (M : Type) := (question : Question) → question.Answer M

/-- One step of the driver that waits for something. -/
inductive Request (M : Type)
  /-- Whether the harness has been sealed by a fault. -/
  | closed
  /-- The remembered operation and the last one before it. -/
  | operation
  | tip
  | laneConfig
  | entry (id : EntryId)
  | preparation (id : OperationId) (task : String)
  | toolOutput (id : OperationId) (entry : EntryId)
  | newId
  | publish (publication : Publish M)
  /-- Seal the harness. -/
  | fault (message : String)
  /-- Start a tool call. -/
  | startTool (assistantEntryId : EntryId) (record : ToolCall)
  /-- Wait for one of the started calls, given by the ids of their results. -/
  | finishedTool (running : List EntryId)
  | world (question : Question)

abbrev Request.Answer : Request M → Type
  | .closed => Option HarnessError
  | .operation => Option Operation × Option OperationId
  | .tip => Option EntryId
  | .laneConfig => LaneConfiguration
  | .entry _ => Option (NewEntry M)
  | .preparation _ _ => Option (DurableStructuralPreparation M)
  | .toolOutput _ _ => Option (StagedToolResult M)
  | .newId => String
  | .publish publication => publication.Answer
  | .fault _ => HarnessError
  | .startTool _ _ => Unit
  | .finishedTool _ => EntryId × ToolOutcome M
  | .world question => question.Answer M

/-- A procedure of the driver. -/
abbrev Procedure (M R : Type) := Program (Request M) Request.Answer HarnessError R

/-- Make one request. -/
def request (question : Request M) : Procedure M question.Answer := Program.request question

/-- Ask the surroundings. -/
def consult (question : Question) : Procedure M (question.Answer M) := request (.world question)

/-- Publish. -/
def publish (publication : Publish M) : Procedure M publication.Answer :=
  request (.publish publication)

/-- Answer that is an error or a result. -/
def orFail {R : Type} (answer : Except HarnessError R) : Procedure M R := Program.ofExcept answer

end PiOxidized.Harness.Runtime
