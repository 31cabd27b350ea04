/-
# Durable operations

What the runtime stores of a lane and of the operation that owns it: the leaves an operation
moves through, the scope every leaf carries, the inbox of queued entries, and the records a
finished operation leaves behind.

The payload of messages, tool arguments and tool details is an arbitrary type; stream options
are passed along by every leaf and read by none of the code here, so the leaves leave them out.
-/

import PiOxidized.Harness.Compaction

namespace PiOxidized.Harness.Runtime

open Math
open Agent (AssistantContent ToolExecutionMode ToolResultMessage AgentToolResult)
open Session (EntryId UsageId StopReason Usage)

abbrev OperationId := String

abbrev LaneName := String

/-! ## Operation records -/

/-- Whether an operation is to go on. -/
inductive Control
  | running
  | cancelRequested (requestedAt : Int)
  deriving DecidableEq

/-- What an operation is for. -/
inductive OperationIntent
  | run (promptEntryIds : List EntryId)
  | compaction (customInstructions : Option String)
  | navigation (targetId : Option EntryId) (summarize : Bool) (label customInstructions : Option String)
  deriving DecidableEq

inductive OperationKind
  | run
  | compaction
  | navigation
  deriving DecidableEq

structure OperationMeta where
  operationId : OperationId
  lane : LaneName
  sourceTipId : Option EntryId
  startedAt : Int
  intent : OperationIntent
  deriving DecidableEq

inductive TerminalStatus
  | completed
  | declined
  | aborted
  | failed
  deriving DecidableEq

structure OperationError where
  code : String
  message : String
  deriving DecidableEq

structure OperationResultRecord where
  operationId : OperationId
  kind : OperationKind
  status : TerminalStatus
  error : Option OperationError
  fromTipId : Option EntryId
  tipId : Option EntryId
  startedAt : Int
  endedAt : Int
  deriving DecidableEq

/-! ## Scopes and generations -/

/-- How many queued messages a drain point releases. -/
inductive QueueMode
  | all
  | oneAtATime
  deriving DecidableEq

structure RunSettings where
  compaction : CompactionSettings
  steeringMode : QueueMode
  followUpMode : QueueMode
  toolExecution : ToolExecutionMode
  deriving DecidableEq

/-- What every leaf carries. -/
structure OperationScope where
  control : Control
  settings : RunSettings
  latestAssistantEntryId : Option EntryId
  deriving DecidableEq

structure ModelIdentity where
  provider : String
  modelId : String
  api : Option String
  deriving DecidableEq

structure LaneConfiguration where
  model : ModelIdentity
  thinkingLevel : ModelThinkingLevel
  activeToolNames : List String
  deriving DecidableEq

/-- How a run goes on from a checkpoint. -/
inductive Continuation
  | needAssistant (overflowRecoveryUsed : Bool)
  | mayFinish (includeFinalAssistant : Bool)
  deriving DecidableEq

structure CheckpointData where
  continuation : Continuation
  triggerEntryId : EntryId
  deriving DecidableEq

structure NormalizedRetryPolicy where
  maxAttempts : U64
  baseDelayMs : U64
  deriving DecidableEq

structure GenerationContext where
  stepId : String
  triggerEntryId : EntryId
  configuration : LaneConfiguration
  retryPolicy : NormalizedRetryPolicy
  overflowRecoveryUsed : Bool
  deriving DecidableEq

structure RetryWait where
  nextAttempt : U64
  notBefore : Int
  errorMessage : String
  deriving DecidableEq

inductive ReplayPolicy
  | never
  | safe
  deriving DecidableEq

/-- How far one tool call has got. -/
inductive ToolCallStatus
  | planned
  | effectPending (replay : ReplayPolicy)
  | outcomeReady (terminate : Bool)
  | completed (terminate : Bool)
  deriving DecidableEq

/-- A call of a batch and the entry id reserved for its result. -/
structure ToolCall where
  sourceIndex : Nat
  resultEntryId : EntryId
  status : ToolCallStatus
  deriving DecidableEq

structure ToolBatch where
  assistantEntryId : EntryId
  configuration : LaneConfiguration
  turnId : String
  calls : List ToolCall
  deriving DecidableEq

/-- What follows once a summary is committed. -/
inductive ResultBoundary
  | resumeCheckpoint (resumeAfter : CheckpointData)
  | finish
  | commitNavigation (targetId : EntryId) (label : Option String)
  deriving DecidableEq

inductive CompactionReason
  | manual
  | threshold
  | overflow
  deriving DecidableEq

structure SummaryTask where
  taskId : String
  reason : Option CompactionReason
  customInstructions : Option String
  boundary : ResultBoundary
  deriving DecidableEq

structure SummaryContext where
  resultEntryId : EntryId
  configuration : LaneConfiguration
  retryPolicy : NormalizedRetryPolicy
  deriving DecidableEq

structure SummaryGenerationScope where
  task : SummaryTask
  summaryContext : SummaryContext
  deriving DecidableEq

structure SummaryRequestRef where
  index : Nat
  usageId : UsageId
  deriving DecidableEq

structure DeferredScope where
  scope : OperationScope
  stepId : String
  sourceEntryId : EntryId
  poll : Nat
  configuration : LaneConfiguration
  deriving DecidableEq

/-! ## Leaves -/

/-- The leaf an operation is stored at. -/
inductive OperationState
  | starting (scope : OperationScope)
  | checkpoint (scope : OperationScope) (data : CheckpointData)
  | assistantReady (scope : OperationScope) (context : GenerationContext) (nextAttempt : U64)
  | assistantEffectPending (scope : OperationScope) (context : GenerationContext) (attempt : U64)
      (responseEntryId : EntryId) (usageId : UsageId) (intendedOutputLimit contextWindow : Nat)
  | assistantRetryWait (scope : OperationScope) (context : GenerationContext) (retry : RetryWait)
  | tools (scope : OperationScope) (batch : ToolBatch)
  | deferredSuspended (deferred : DeferredScope)
  | deferredEffectPending (deferred : DeferredScope) (responseEntryId : EntryId)
      (usageId : UsageId)
  | summaryDeciding (scope : OperationScope) (task : SummaryTask)
  | summaryReady (scope : OperationScope) (generation : SummaryGenerationScope)
      (nextAttempt : U64)
  | summaryEffectPending (scope : OperationScope) (generation : SummaryGenerationScope)
      (attempt : U64) (request : Option SummaryRequestRef) (usageIds : List UsageId)
  | summaryRetryWait (scope : OperationScope) (generation : SummaryGenerationScope)
      (retry : RetryWait)
  | navigationReadyToCommit (scope : OperationScope) (targetId : Option EntryId)
      (label : Option String)
  deriving DecidableEq

/-- An operation as the runtime holds it. -/
structure Operation where
  info : OperationMeta
  state : OperationState
  deriving DecidableEq

namespace OperationState

/-- The scope of a leaf. -/
def scope : OperationState → OperationScope
  | starting scope => scope
  | checkpoint scope _ => scope
  | assistantReady scope _ _ => scope
  | assistantEffectPending scope _ _ _ _ _ _ => scope
  | assistantRetryWait scope _ _ => scope
  | tools scope _ => scope
  | summaryDeciding scope _ => scope
  | summaryReady scope _ _ => scope
  | summaryEffectPending scope _ _ _ _ => scope
  | summaryRetryWait scope _ _ => scope
  | navigationReadyToCommit scope _ _ => scope
  | deferredSuspended deferred => deferred.scope
  | deferredEffectPending deferred _ _ => deferred.scope

/-- The same leaf with another scope. -/
def withScope (next : OperationScope) : OperationState → OperationState
  | starting _ => starting next
  | checkpoint _ data => checkpoint next data
  | assistantReady _ context nextAttempt => assistantReady next context nextAttempt
  | assistantEffectPending _ context attempt response usage limit window =>
    assistantEffectPending next context attempt response usage limit window
  | assistantRetryWait _ context retry => assistantRetryWait next context retry
  | tools _ batch => tools next batch
  | summaryDeciding _ task => summaryDeciding next task
  | summaryReady _ generation nextAttempt => summaryReady next generation nextAttempt
  | summaryEffectPending _ generation attempt request usageIds =>
    summaryEffectPending next generation attempt request usageIds
  | summaryRetryWait _ generation retry => summaryRetryWait next generation retry
  | navigationReadyToCommit _ targetId label => navigationReadyToCommit next targetId label
  | deferredSuspended deferred => deferredSuspended { deferred with scope := next }
  | deferredEffectPending deferred response usage =>
    deferredEffectPending { deferred with scope := next } response usage

/-- The control flag of a leaf. -/
def control (state : OperationState) : Control := state.scope.control

/-- The same leaf with another control flag. -/
def withControl (control : Control) (state : OperationState) : OperationState :=
  state.withScope { state.scope with control := control }

@[simp]
theorem scope_withScope (next : OperationScope) (state : OperationState) :
    (state.withScope next).scope = next := by
  cases state <;> rfl

@[simp]
theorem control_withControl (control : Control) (state : OperationState) :
    (state.withControl control).control = control := by
  rw [OperationState.control, withControl, scope_withScope]

end OperationState

/-- The kind an intent asks for. -/
def operationKind : OperationIntent → OperationKind
  | .run _ => .run
  | .compaction _ => .compaction
  | .navigation _ _ _ _ => .navigation

/-! ## Lanes -/

/-- How a queued entry may enter the conversation. -/
inductive InboxItemKind
  | steer
  | followUp
  | nextRun
  | write
  deriving DecidableEq

structure InboxItem where
  entryId : EntryId
  kind : InboxItemKind
  deriving DecidableEq

structure LaneState where
  currentOperationId : Option OperationId
  lastOperationId : Option OperationId
  inbox : List InboxItem
  deriving DecidableEq

instance : Inhabited LaneState := ⟨⟨none, none, []⟩⟩

/-- A message of the provider, as far as the driver reads it. -/
structure AssistantMessage (M : Type) where
  content : List (AssistantContent M)
  usage : Usage
  stopReason : StopReason
  errorMessage : Option String
  deferred : Option M
  timestamp : Int
  deriving DecidableEq

/-- A transcript message; all but responses and tool results are payload. -/
inductive AgentMessage (M : Type)
  | assistant (message : AssistantMessage M)
  | toolResult (message : ToolResultMessage M)
  | other (payload : M)
  deriving DecidableEq

/-- A payload staged under its reserved id. -/
inductive PendingEntry (M : Type)
  | message (payload : AgentMessage M)
  | custom (customType : String) (payload : Option M)
  deriving DecidableEq

/-- A tool's outcome, staged until its entry is committed. -/
structure StagedToolResult (M : Type) where
  result : AgentToolResult M
  isError : Bool
  deriving DecidableEq

/-- What a summary is made of; prepared for a whole conversation or for a left branch. -/
inductive DurableStructuralPreparation (M : Type)
  | compaction (payload : M)
  | branchSummary (payload : M)
  deriving DecidableEq

/-- A generated summary; its tail, details and counts are payload. -/
structure SummaryResult (M : Type) where
  summary : String
  details : M
  usage : Option Usage
  deriving DecidableEq

end PiOxidized.Harness.Runtime
