/-
# Summaries, navigations, and the dispatch of a drive

A summary is generated from a prepared span: a compaction puts it at the tip, a navigation at
the end of the branch it leaves.  A drive reads the current operation, runs the procedure of its
leaf, and goes on as long as the leaf moves.
-/

import PiOxidized.Harness.Runtime.Tools

namespace PiOxidized.Harness.Runtime

open Math
open Session (EntryId UsageId)

variable {M : Type}

/-! ## Navigation -/

def navigation (operation : Operation) : Procedure M (DriveStep M) :=
  let finish (target : Option EntryId) (label : Option String) : Procedure M (DriveStep M) := do
    let now ← consult .now
    let record ← publish (.navigation operation target label now)
    pure (.settled record)
  match operation.state with
  | .navigationReadyToCommit _ none label => finish none label
  | .navigationReadyToCommit _ (some target) label => do
    match ← request (.entry target) with
    | none => .fail (.unknownTarget target "navigation target disappeared")
    | some _ => finish (some target) label
  | _ => .fail (invariant "navigation dispatcher received another state")

/-! ## Summaries -/

def loadStructuralPreparation (operation : Operation) (task : String) :
    Procedure M (DurableStructuralPreparation M) := do
  match ← request (.preparation operation.info.operationId task) with
  | none => .fail (invariant "summary preparation is missing")
  | some preparation => pure preparation

/-- Whether an intent summarizes the branch a navigation leaves. -/
def OperationIntent.summarizesBranch : OperationIntent → Bool
  | navigation _ summarize _ _ => summarize
  | _ => false

def DurableStructuralPreparation.isBranchSummary : DurableStructuralPreparation M → Bool
  | branchSummary _ => true
  | compaction _ => false

def startSummaryGeneration (operation : Operation) (task : SummaryTask) :
    Procedure M (DriveStep M) := do
  let preparation ← loadStructuralPreparation operation task.taskId
  if preparation.isBranchSummary = operation.info.intent.summarizesBranch then do
    let configuration ← consult .runtimeConfiguration
    match ← consult .model with
    | none =>
      settleFailure operation "model_unavailable" (modelUnavailableText configuration.model)
    | some _ => do
      let resultEntryId ← request .newId
      let policy ← orFail (← consult .retryPolicy)
      transition operation
        (.summaryReady operation.state.scope ⟨task, resultEntryId, configuration, policy⟩ U64.one)
      pure .proceed
  else .fail (invariant "summary preparation does not match operation intent")

/-- The usage ids a pending summary has recorded. -/
def OperationState.summaryUsageIds : OperationState → List UsageId
  | summaryEffectPending _ _ _ _ usageIds => usageIds
  | _ => []

/-- The request a pending summary has reserved. -/
def OperationState.summaryRequest : OperationState → Option SummaryRequestRef
  | summaryEffectPending _ _ _ request _ => request
  | _ => none

def ensureSummaryRequest (operation : Operation) (generation : SummaryGenerationScope)
    (attempt : U64) : Procedure M SummaryRequestRef :=
  match operation.state.summaryRequest with
  | some reserved => pure reserved
  | none => do
    let usageId ← request .newId
    if attempt.val - 1 < 2 ^ 32 then do
      let reserved : SummaryRequestRef := ⟨attempt.val - 1, usageId⟩
      transition operation
        (.summaryEffectPending operation.state.scope generation attempt (some reserved)
          operation.state.summaryUsageIds)
      pure reserved
    else .fail (.closed "summary request index overflow")

def summaryFailure (operation : Operation) (generation : SummaryGenerationScope) (attempt : U64)
    (code message : String) : Procedure M (DriveStep M) := do
  if ← boundaryCancelled then reconcileAbort operation
  else if attempt < generation.summaryContext.retryPolicy.maxAttempts then do
    let now ← consult .now
    let retry ← orFail
      (scheduleRetry "summary " generation.summaryContext.retryPolicy attempt now message)
    transition operation (.summaryRetryWait operation.state.scope generation retry)
    pure (.waitingRetry retry.notBefore)
  else settleFailure operation code message

/-- Put a compaction at the tip; one that was asked for by itself settles in a commit of its
own. -/
def commitCompaction (operation : Operation) (generation : SummaryGenerationScope)
    (reserved : SummaryRequestRef) (result : SummaryResult M) : Procedure M (DriveStep M) := do
  publish (.compaction operation generation reserved result)
  requireEntry generation.summaryContext.resultEntryId "compaction entry was not committed"
  match generation.task.boundary with
  | .resumeCheckpoint _ => pure .proceed
  | _ => do
    let record ← settle operation .completed none
    pure (.settled record)

def commitBranchSummary (operation : Operation) (generation : SummaryGenerationScope)
    (reserved : SummaryRequestRef) (result : SummaryResult M) : Procedure M (DriveStep M) :=
  match operation.info.intent with
  | .navigation target true label _ => do
    let oldTip ← request .tip
    let fromId ← match oldTip, target with
      | some _, some _ => do orFail (← consult .commonAncestor)
      | _, _ => pure none
    publish (.branchSummary operation oldTip fromId generation reserved result target label)
    requireEntry generation.summaryContext.resultEntryId "branch summary entry was not committed"
    pure .proceed
  | _ => .fail (invariant "branch summary belongs to navigation")

/-- Generate the summary of a span and commit it. -/
def summarize (operation : Operation) (generation : SummaryGenerationScope) (attempt : U64) :
    Procedure M (DriveStep M) := do
  let preparation ← loadStructuralPreparation operation generation.task.taskId
  let reserved ← ensureSummaryRequest operation generation attempt
  match ← consult .model with
  | none =>
    .fail (.closed ("summary model " ++ generation.summaryContext.configuration.model.provider ++
      "/" ++ generation.summaryContext.configuration.model.modelId ++ " is unavailable"))
  | some _ => do
    match ← consult .summary with
    | .error (code, message) => summaryFailure operation generation attempt code message
    | .ok result =>
      match preparation with
      | .compaction _ => commitCompaction operation generation reserved result
      | .branchSummary _ => commitBranchSummary operation generation reserved result

def structural (operation : Operation) : Procedure M (DriveStep M) := match operation.state with
  | .summaryDeciding _ task => startSummaryGeneration operation task
  | .summaryReady _ generation attempt => summarize operation generation attempt
  | .summaryEffectPending _ generation attempt _ _ => summarize operation generation attempt
  | _ => .fail (invariant "structural dispatcher received another state")

/-! ## Dispatch -/

/-- The procedure of a leaf. -/
def dispatchState [Inhabited M] (operation : Operation) (options : DriveOptions) :
    Procedure M (DriveStep M) :=
  match operation.state with
  | .starting _ => startRun operation
  | .checkpoint _ _ => checkpoint operation
  | .assistantReady _ _ _ => generation operation
  | .assistantEffectPending _ _ _ _ _ _ _ => recoverAssistantEffect operation
  | .assistantRetryWait _ _ _ => retryWait operation options.waitForRetry
  | .summaryRetryWait _ _ _ => retryWait operation options.waitForRetry
  | .tools _ _ => tools operation
  | .deferredSuspended _ => deferredSuspended operation options.pollDeferred
  | .deferredEffectPending _ _ _ => recoverDeferredEffect operation options.pollDeferred
  | .summaryDeciding _ _ => structural operation
  | .summaryReady _ _ _ => structural operation
  | .summaryEffectPending _ _ _ _ _ => structural operation
  | .navigationReadyToCommit _ _ _ => navigation operation

/-- The operation a drive is for, if it is still the current one. -/
def currentDriveOperation (lane : LaneName) (options : DriveOptions) : Procedure M Operation := do
  let (current, last) ← request .operation
  match current with
  | none =>
    .fail (.operationMismatch lane options.operationId none last "operation is no longer current")
  | some operation =>
    if operation.info.operationId = options.operationId then pure operation
    else
      .fail (.operationMismatch lane options.operationId (some operation.info.operationId) last
        "drive operation id does not match current operation")

/-- The hook in front of a drive, for an operation that is to go on. -/
def runBeforeDrive (operation : Operation) : Procedure M Unit :=
  if operation.state.control.isCancelRequested then pure ()
  else do orFail (← consult .beforeDrive)

/-- A drive that goes on must have moved its leaf. -/
def requireProgress (before : OperationState) : Procedure M Unit := do
  match ← currentOperation with
  | none => .fail (invariant "drive continued after operation disappeared")
  | some current =>
    if current.state = before ∧ ¬ current.state.control.isCancelRequested then
      .fail (invariant "drive procedure made no progress")
    else pure ()

/-- Run the procedure of the current leaf. -/
def driveOperation [Inhabited M] (operation : Operation) (options : DriveOptions) :
    Procedure M (DriveStep M) := do
  if operation.state.control.isCancelRequested then reconcileAbort operation
  else do
    match ← dispatchState operation options with
    | .proceed => do
      requireProgress operation.state
      pure .proceed
    | step => pure step

/-- One round of a drive; the hook in front of the drive runs in its first. -/
def driveRound [Inhabited M] (lane : LaneName) (options : DriveOptions) (first : Bool) :
    Procedure M (DriveStep M) := do
  match ← request .closed with
  | some error => .fail error
  | none => do
    let operation ← currentDriveOperation lane options
    if first then runBeforeDrive operation else pure ()
    driveOperation operation options

end PiOxidized.Harness.Runtime
