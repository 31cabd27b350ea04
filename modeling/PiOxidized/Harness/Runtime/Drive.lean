/-
# The driver

One procedure for each leaf an operation can be stored at.  A procedure works on the operation
as it was read when the procedure began; what it stores next is built from that copy, except
where it says otherwise.

Events are sent to observers only and are left out, and so are the contents of requests.
-/

import PiOxidized.Harness.Runtime.Request

namespace PiOxidized.Harness.Runtime

open Math
open Agent (AssistantContent ToolExecutionMode ToolResultContent ToolResultMessage
  AgentToolResult errorToolResult)
open Session (EntryId UsageId StopReason Usage)

variable {M : Type}

structure DriveOptions where
  operationId : OperationId
  waitForRetry : Bool
  pollDeferred : Bool
  deriving DecidableEq

/-- How one step of a drive ends. -/
inductive DriveStep (M : Type)
  | proceed
  | waitingRetry (notBefore : Int)
  | waitingDeferred (deferred : M)
  | settled (record : OperationResultRecord)
  deriving DecidableEq

def Control.isCancelRequested : Control → Bool
  | .running => false
  | .cancelRequested _ => true

/-! ## Common parts -/

def currentOperation : Procedure M (Option Operation) := do
  let (current, _) ← request .operation
  pure current

/-- The next leaf, stored and remembered. -/
def transition (operation : Operation) (state : OperationState) : Procedure M Unit :=
  publish (.transition operation "transition" state [])

def transitionWithWrites (operation : Operation) (state : OperationState)
    (writes : List (Write M)) : Procedure M Unit :=
  publish (.transition operation "transition" state writes)

def transitionWithPreparation (operation : Operation) (task : String)
    (preparation : DurableStructuralPreparation M) (state : OperationState) : Procedure M Unit :=
  publish (.transition operation "preparation" state
    [.operationPreparation operation.info.operationId task preparation])

def settle (operation : Operation) (status : TerminalStatus) (error : Option OperationError) :
    Procedure M OperationResultRecord := do
  let now ← consult .now
  publish (.settle operation status error now)

/-- Settle as failed. -/
def settleFailure (operation : Operation) (code message : String) : Procedure M (DriveStep M) := do
  let record ← settle operation .failed (some ⟨code, message⟩)
  pure (.settled record)

def modelUnavailableText (model : ModelIdentity) : String :=
  "configured model " ++ model.provider ++ "/" ++ model.modelId ++ " is unavailable"

/-- A committed entry is read back. -/
def requireEntry (id : EntryId) (message : String) : Procedure M Unit := do
  match ← request (.entry id) with
  | none => .fail (invariant message)
  | some _ => pure ()

def requireEntries (message : String) : List EntryId → Procedure M Unit
  | [] => pure ()
  | id :: ids => do
    requireEntry id message
    requireEntries message ids

/-- Take an id for each item. -/
def withNewIds {X : Type} : List X → Procedure M (List (String × X))
  | [] => pure []
  | item :: items => do
    let id ← request .newId
    let rest ← withNewIds items
    pure ((id, item) :: rest)

/-- Whether cancellation reached the operation or the gate of its drive. -/
def boundaryCancelled : Procedure M Bool := do
  let cancelled ← consult .gateCancelled
  if cancelled then pure true
  else do
    let current ← currentOperation
    pure (current.any fun operation => operation.state.control.isCancelRequested)

/-- A doubled delay for each attempt; bits shifted out are lost. -/
def retryDelay (base attempt : U64) : U64 :=
  ⟨(base.val <<< min (attempt.val - 1) 63) % 2 ^ 64, Nat.mod_lt _ (by decide)⟩

/-- The retry after an attempt; the texts of its errors carry the kind of request. -/
def scheduleRetry (kind : String) (policy : NormalizedRetryPolicy) (attempt : U64) (now : Int)
    (errorMessage : String) : Except HarnessError RetryWait :=
  let delay := retryDelay policy.baseDelayMs attempt
  if 2 ^ 63 ≤ delay.val then
    .error (.closed (kind ++ "retry delay exceeds timestamp range"))
  else if 2 ^ 63 ≤ now + delay.val then
    .error (.closed (kind ++ "retry timestamp overflow"))
  else
    match attempt.checkedAdd 1 with
    | none => .error (.closed (kind ++ "retry attempt overflow"))
    | some next => .ok ⟨next, now + delay.val, errorMessage⟩

/-! ## Responses -/

/-- The calls of a response with their places in its content. -/
def assistantToolCalls (message : AssistantMessage M) : List (Nat × Agent.ToolCall M) :=
  (message.content.zipIdx).filterMap fun
    | (.toolCall call, index) => if index < 2 ^ 32 then some (index, call) else none
    | _ => none

/-- The response an entry holds. -/
def assistantMessage (entry : NewEntry M) : Option (AssistantMessage M) := match entry.body with
  | .message (.assistant message) _ => some message
  | _ => none

def pendingResponseId : OperationState → Except HarnessError EntryId
  | .assistantEffectPending _ _ _ responseEntryId _ _ _ => .ok responseEntryId
  | .deferredEffectPending _ responseEntryId _ => .ok responseEntryId
  | _ => .error (invariant "response publication without response reservation")

def pendingUsageId : OperationState → Except HarnessError UsageId
  | .assistantEffectPending _ _ _ _ usageId _ _ => .ok usageId
  | .deferredEffectPending _ _ usageId => .ok usageId
  | _ => .error (invariant "response publication without pending state")

/-- The leaf after a response, and what the response says about the run. -/
structure ResponseTransition where
  nextState : OperationState
  status : TerminalStatus
  error : Option OperationError
  deriving DecidableEq

/-- The checkpoint at which a run may finish with a response. -/
def finalCheckpoint (scope : OperationScope) (responseId : EntryId) : OperationState :=
  .checkpoint scope ⟨.mayFinish true, responseId⟩

def errorResponseContext (pending : OperationState) : Procedure M GenerationContext :=
  match pending with
  | .assistantEffectPending _ context _ _ _ _ _ => pure context
  | .deferredEffectPending deferred _ _ => do
    let policy ← orFail (← consult .retryPolicy)
    pure
      { stepId := deferred.stepId
        triggerEntryId := deferred.sourceEntryId
        configuration := deferred.configuration
        retryPolicy := policy
        overflowRecoveryUsed := false }
  | _ => .fail (invariant "error response without generation context")

/-- The attempt a response answers. -/
def pendingAttempt : OperationState → U64
  | .assistantEffectPending _ _ attempt _ _ _ _ => attempt
  | _ => U64.one

def errorResponseState (pending : OperationState) (message : AssistantMessage M)
    (responseId : EntryId) : Procedure M ResponseTransition := do
  let context ← errorResponseContext pending
  let errorMessage := message.errorMessage.getD "provider returned an error"
  if pendingAttempt pending < context.retryPolicy.maxAttempts then do
    let now ← consult .now
    let retry ← orFail
      (scheduleRetry "" context.retryPolicy (pendingAttempt pending) now errorMessage)
    pure ⟨.assistantRetryWait pending.scope context retry, .failed, none⟩
  else
    pure ⟨finalCheckpoint pending.scope responseId, .failed, some ⟨"provider_error", errorMessage⟩⟩

def lengthResponseState (pending : OperationState) (responseId : EntryId) :
    Except HarnessError ResponseTransition :=
  let after (overflowRecoveryUsed : Bool) : ResponseTransition := if overflowRecoveryUsed then
      ⟨finalCheckpoint pending.scope responseId, .failed, some ⟨"context_overflow",
          "assistant response exceeded the context window after compaction"⟩⟩
    else
      ⟨.checkpoint pending.scope ⟨.needAssistant true, responseId⟩, .completed, none⟩
  match pending with
  | .assistantEffectPending _ context _ _ _ _ _ => .ok (after context.overflowRecoveryUsed)
  | .deferredEffectPending _ _ _ => .ok (after true)
  | _ => .error (invariant "length response without generation context")

def deferredResponseState (pending : OperationState) (message : AssistantMessage M)
    (responseId : EntryId) : Except HarnessError ResponseTransition :=
  match message.deferred with
  | none => .error (.closed "deferred response omitted its handle")
  | some _ =>
    match pending with
    | .assistantEffectPending scope context _ _ _ _ _ =>
      .ok ⟨.deferredSuspended ⟨scope, context.stepId, responseId, 0, context.configuration⟩,
        .completed, none⟩
    | .deferredEffectPending deferred _ _ =>
      .ok ⟨.deferredSuspended
          ⟨deferred.scope, deferred.stepId, responseId, 0, deferred.configuration⟩,
        .completed, none⟩
    | _ => .error (invariant "deferred response without scope")

/-- The configuration and the step a response was requested under. -/
def responseTurn : OperationState → Except HarnessError (LaneConfiguration × String)
  | .assistantEffectPending _ context _ _ _ _ _ => .ok (context.configuration, context.stepId)
  | .deferredEffectPending deferred _ _ => .ok (deferred.configuration, deferred.stepId)
  | _ => .error (invariant "tool response without scope")

/-- A batch whose calls are all still to be run. -/
def plannedCalls (calls : List (EntryId × Nat × Agent.ToolCall M)) : List ToolCall :=
  calls.map fun call => ⟨call.2.1, call.1, .planned⟩

def toolUseResponseState (pending : OperationState) (calls : List (Nat × Agent.ToolCall M))
    (responseId : EntryId) : Procedure M ResponseTransition := do
  let (configuration, stepId) ← orFail (responseTurn pending)
  let calls ← withNewIds calls
  pure ⟨.tools { pending.scope with latestAssistantEntryId := some responseId }
        ⟨responseId, configuration, stepId, plannedCalls calls⟩,
      .completed, none⟩

def finishResponseState (pending : OperationState) (responseId : EntryId) : ResponseTransition :=
  ⟨finalCheckpoint { pending.scope with latestAssistantEntryId := some responseId } responseId,
    .completed, none⟩

def assistantResponseState (pending : OperationState) (message : AssistantMessage M)
    (calls : List (Nat × Agent.ToolCall M)) (responseId : EntryId) :
    Procedure M ResponseTransition :=
  match message.stopReason with
  | .error => errorResponseState pending message responseId
  | .length => orFail (lengthResponseState pending responseId)
  | .deferred => orFail (deferredResponseState pending message responseId)
  | .toolUse =>
    if calls.isEmpty then pure (finishResponseState pending responseId)
    else toolUseResponseState pending calls responseId
  | _ => pure (finishResponseState pending responseId)

/-- Whether a leaf is a checkpoint. -/
def OperationState.isCheckpoint : OperationState → Bool
  | checkpoint _ _ => true
  | _ => false

/-- Publish a response; a run that fails with it settles in a commit of its own. -/
def commitAssistant (operation : Operation) (commit : AssistantCommit M) :
    Procedure M OperationResultRecord := do
  publish (.assistant operation commit)
  requireEntry commit.responseId "assistant entry was not committed"
  if commit.status = .failed ∧ commit.error.isSome ∧ commit.nextState.isCheckpoint then
    settle operation commit.status commit.error
  else do
    let now ← consult .now
    pure { resultRecord operation commit.status commit.error (some commit.responseId) now with
        kind := .run }

/-- Whether a leaf waits for a first response. -/
def OperationState.isAssistantEffectPending : OperationState → Bool
  | assistantEffectPending _ _ _ _ _ _ _ => true
  | _ => false

def publishResponse (operation : Operation) (pending : OperationState)
    (message : AssistantMessage M) : Procedure M (DriveStep M) := do
  let responseId ← orFail (pendingResponseId pending)
  let usageId ← orFail (pendingUsageId pending)
  let next ← assistantResponseState pending message (assistantToolCalls message) responseId
  let record ← commitAssistant operation
    { pending := pending
      responseId := responseId
      assistant := message
      usage := message.usage
      usageId := usageId
      nextState := next.nextState
      status := next.status
      error := next.error }
  if record.status = .failed ∧ record.error.isSome then pure (.settled record)
  else if operation.state.isAssistantEffectPending ∧ message.stopReason = .deferred then
    match message.deferred with
    | none => .fail (.closed "deferred response omitted its handle")
    | some handle => pure (.waitingDeferred handle)
  else if message.stopReason = .error ∧ record.status = .failed then do
    match ← currentOperation with
    | none => .fail (invariant "retry state disappeared")
    | some current =>
      match current.state with
      | .assistantRetryWait _ _ retry => pure (.waitingRetry retry.notBefore)
      | _ => pure .proceed
  else pure .proceed

/-! ## Aborts and interruptions -/

def interruptedError : OperationError := ⟨"interrupted", "assistant response was interrupted"⟩

/-- The aborted response that stands for one that was never received, unless its model is no
longer known. -/
def interruptedAssistant (context : GenerationContext) :
    Procedure M (Option (AssistantMessage M)) := do
  let now ← consult .now
  let message : AssistantMessage M :=
    { content := []
      usage := {}
      stopReason := .aborted
      errorMessage := some "assistant response interrupted before completion"
      deferred := none
      timestamp := now }
  match context.configuration.model.api with
  | some _ => pure (some message)
  | none => do
    let model ← consult .model
    pure (model.map fun _ => message)

/-- The part of a response that has been received, ended as aborted. -/
def partialAssistant (frames : AssistantMessage M) (now : Int) : AssistantMessage M := { frames with
    stopReason := .aborted
    errorMessage := some "assistant response interrupted during recovery"
    timestamp := now }

/-- The response to commit for an interrupted request. -/
def recoveredAssistant (context : GenerationContext) :
    Procedure M (Option (AssistantMessage M)) := do
  match ← orFail (← consult .responseFrames) with
  | none => interruptedAssistant context
  | some frames => do
    let now ← consult .now
    pure (some (partialAssistant frames now))

def recoverAssistantEffect (operation : Operation) : Procedure M (DriveStep M) :=
  match operation.state with
  | .assistantEffectPending _ context _ responseId usageId _ _ => do
    match ← recoveredAssistant context with
    | none =>
      settleFailure operation "model_unavailable" (modelUnavailableText context.configuration.model)
    | some assistant => do
      let _ ← commitAssistant operation
        { pending := operation.state
          responseId := responseId
          assistant := assistant
          usage := {}
          usageId := usageId
          nextState := finalCheckpoint operation.state.scope responseId
          status := .aborted
          error := some interruptedError }
      let record ← settle operation .aborted (some interruptedError)
      pure (.settled record)
  | _ => .fail (invariant "assistant recovery received another state")

/-- Whether a leaf waits for a deferred response. -/
def OperationState.isDeferred : OperationState → Bool
  | deferredSuspended _ => true
  | deferredEffectPending _ _ _ => true
  | _ => false

def reconcileAbort (operation : Operation) : Procedure M (DriveStep M) := do
  if operation.state.isDeferred then consult .cancelDeferred else pure ()
  if operation.state.isAssistantEffectPending then recoverAssistantEffect operation
  else do
    let record ← settle operation .aborted (some ⟨"aborted", "operation aborted"⟩)
    pure (.settled record)

def publishInterrupted (operation : Operation) : Procedure M (DriveStep M) := do
  let record ← settle operation .aborted (some ⟨"aborted", "assistant request aborted"⟩)
  pure (.settled record)

/-- Publish a response to the leaf that is current now, unless it has been cancelled. -/
def publishToCurrent (operation : Operation) (what : String) (message : AssistantMessage M) :
    Procedure M (DriveStep M) := do
  match ← currentOperation with
  | none => .fail (invariant (what ++ " operation disappeared before publication"))
  | some pending =>
    if pending.state.control.isCancelRequested then do
      let _ ← orFail (pendingResponseId pending.state)
      publishInterrupted pending
    else publishResponse operation pending.state message

/-! ## Runs -/

/-- Messages a hook adds in front of a run. -/
def injectMessages (operation : Operation) : Procedure M Unit := match operation.info.intent with
  | .run (_ :: _) => do
    match ← orFail (← consult .beforeRun) with
    | none => pure ()
    | some messages => do
      let messages ← withNewIds messages
      publish (.injectedMessages messages)
  | _ => pure ()

def startRun (operation : Operation) : Procedure M (DriveStep M) := do
  injectMessages operation
  match ← request .tip with
  | none => .fail (.invalidMessage operation.info.lane "missing_prompt" "run has no prompt entry")
  | some trigger => do
    transition operation (.checkpoint operation.state.scope ⟨.needAssistant false, trigger⟩)
    pure .proceed

def generationContext (operation : Operation) (trigger : EntryId) (overflowRecoveryUsed : Bool) :
    Procedure M GenerationContext := do
  let configuration ← request .laneConfig
  let policy ← orFail (← consult .retryPolicy)
  pure
    { stepId := operation.info.operationId ++ ":" ++ trigger
      triggerEntryId := trigger
      configuration := configuration
      retryPolicy := policy
      overflowRecoveryUsed := overflowRecoveryUsed }

/-- The run asks for a response to a trigger. -/
def renewAssistantReady (operation : Operation) (trigger : EntryId)
    (overflowRecoveryUsed : Bool) : Procedure M (DriveStep M) := do
  let context ← generationContext operation trigger overflowRecoveryUsed
  transition operation (.assistantReady operation.state.scope context U64.one)
  pure .proceed

def isLengthResponse (id : EntryId) : Procedure M Bool := do
  match ← request (.entry id) with
  | none => .fail (invariant "overflow checkpoint trigger entry is missing")
  | some entry => pure ((assistantMessage entry).any fun message => message.stopReason == .length)

/-- The leaf a compaction in the middle of a run begins at. -/
def automaticCompaction (operation : Operation) (trigger : EntryId) (force : Bool) :
    SummaryTask where
  taskId := operation.info.operationId ++ ":compaction:" ++ trigger
  reason := some (if force then .overflow else .threshold)
  customInstructions := none
  boundary := .resumeCheckpoint ⟨.needAssistant force, trigger⟩

def maybeStartCompaction (operation : Operation) (trigger : EntryId) (force : Bool) :
    Procedure M (Option (DriveStep M)) := do
  if operation.state.scope.settings.compaction.enabled then do
    match ← consult .compactionChoice with
    | .modelUnavailable => do
      let configuration ← request .laneConfig
      let step ← settleFailure operation "model_unavailable"
        (modelUnavailableText configuration.model)
      pure (some step)
    | .skip => pure none
    | .failed code message => do
      let step ← settleFailure operation code message
      pure (some step)
    | .error error => .fail error
    | .prepared preparation => do
      let task := automaticCompaction operation trigger force
      transitionWithPreparation operation task.taskId preparation
        (.summaryDeciding operation.state.scope task)
      pure (some .proceed)
  else pure none

def appendRunFollowUp (operation : Operation) (followUp : AgentMessage M) :
    Procedure M (DriveStep M) := do
  let id ← request .newId
  let context ← generationContext operation id false
  publish (.runFollowUp operation id followUp
    (.assistantReady operation.state.scope context U64.one))
  requireEntry id "follow-up entry was not committed"
  pure .proceed

/-- Settle a run that has nothing left to do. -/
def completeRun (operation : Operation) (includeFinalAssistant : Bool) :
    Procedure M (DriveStep M) := do
  match ← request .tip with
  | none => .fail (invariant "completed run has no tip")
  | some _ =>
    if includeFinalAssistant ∧ operation.state.scope.latestAssistantEntryId = none then
      .fail (invariant "completed run is missing its final assistant")
    else do
      let record ← settle operation .completed none
      pure (.settled record)

/-- The end of a run after the hook: work that came meanwhile goes before a follow-up. -/
def finishAfterHook (operation : Operation) (includeFinalAssistant : Bool)
    (followUp : Option (AgentMessage M)) : Procedure M (DriveStep M) := do
  if ← boundaryCancelled then pure .proceed
  else do
    let projectors ← consult .entryProjectors
    let redrain ← publish (.drainInbox operation projectors)
    match redrain.trigger with
    | some trigger => renewAssistantReady operation trigger false
    | none =>
      match redrain.committed, followUp with
      | false, some message => appendRunFollowUp operation message
      | _, _ => completeRun operation includeFinalAssistant

def finishRunBoundary (operation : Operation) (includeFinalAssistant : Bool) :
    Procedure M (DriveStep M) := do
  if ← boundaryCancelled then pure .proceed
  else do
    match ← consult .beforeRunEnd with
    | .answered followUp => finishAfterHook operation includeFinalAssistant followUp
    | .aborted => reconcileAbort operation
    | .failed error => .fail error

/-- The trigger after a drain: the new tip if messages came in. -/
def drainedTrigger (drained : InboxDrain M) (trigger : EntryId) : Procedure M EntryId :=
  match drained.messages with
  | [] => pure trigger
  | _ :: _ => do
    match ← request .tip with
    | none => .fail (invariant "drained queue has no branch tip")
    | some tip => pure tip

/-- A checkpoint that needs a response: compact first if the context asks for it. -/
def continueRun (operation : Operation) (trigger : EntryId) (overflowRecoveryUsed : Bool) :
    Procedure M (DriveStep M) := do
  let force ← if overflowRecoveryUsed then isLengthResponse trigger else pure false
  match ← maybeStartCompaction operation trigger force with
  | some step => pure step
  | none => renewAssistantReady operation trigger overflowRecoveryUsed

def checkpoint (operation : Operation) : Procedure M (DriveStep M) := match operation.state with
  | .checkpoint _ data => do
    let projectors ← consult .entryProjectors
    let drained ← publish (.drainInbox operation projectors)
    let trigger ← drainedTrigger drained data.triggerEntryId
    match data.continuation with
    | .needAssistant overflowRecoveryUsed => continueRun operation trigger overflowRecoveryUsed
    | .mayFinish includeFinalAssistant =>
      match drained.trigger with
      | some trigger => renewAssistantReady operation trigger false
      | none => finishRunBoundary operation includeFinalAssistant
  | _ => .fail (invariant "checkpoint dispatcher received another state")

/-! ## Generation -/

/-- What fits in 32 bits. -/
def clampU32 (n : Nat) : Nat := min n (2 ^ 32 - 1)

def GenerationContext.withApi (context : GenerationContext) (api : String) : GenerationContext :=
  { context with
    configuration := { context.configuration with
        model := { context.configuration.model with api := some api } } }

/-- A stream that failed at its provider is tried again as long as the policy allows. -/
def providerFailure (operation : Operation) (context : GenerationContext) (attempt : U64)
    (message : String) : Procedure M (DriveStep M) := do
  if ← boundaryCancelled then reconcileAbort operation
  else if attempt < context.retryPolicy.maxAttempts then do
    let now ← consult .now
    let retry ← orFail (scheduleRetry "" context.retryPolicy attempt now message)
    transition operation (.assistantRetryWait operation.state.scope context retry)
    pure (.waitingRetry retry.notBefore)
  else settleFailure operation "provider_error" message

/-- Start the request reserved under new ids and publish what comes of it. -/
def requestResponse (operation : Operation) (context : GenerationContext) (attempt : U64)
    (model : ModelLimits) : Procedure M (DriveStep M) := do
  let responseId ← request .newId
  let usageId ← request .newId
  transition operation
    (.assistantEffectPending operation.state.scope context attempt responseId usageId
      (clampU32 model.maxTokens) (clampU32 model.contextWindow))
  match ← consult .stream with
  | .response message => publishToCurrent operation "assistant" message
  | .aborted => reconcileAbort operation
  | .closed message => .fail (.closed message)
  | .fault message => do
    let error ← request (.fault message)
    .fail error
  | .preparation _ text => settleFailure operation "request_preparation" text
  | .provider message => providerFailure operation context attempt message

def generation (operation : Operation) : Procedure M (DriveStep M) := match operation.state with
  | .assistantReady _ context attempt => do
    match ← consult .model with
    | none =>
      settleFailure operation "model_unavailable" (modelUnavailableText context.configuration.model)
    | some model => do
      orFail (← consult .requestContext)
      match ← consult .beforeRequest with
      | .aborted => reconcileAbort operation
      | .failed error => .fail error
      | .answered _ => requestResponse operation (context.withApi model.api) attempt model
  | _ => .fail (invariant "generation dispatcher received another state")

def retryWait (operation : Operation) (wait : Bool) : Procedure M (DriveStep M) :=
  let resume (retry : RetryWait) (next : OperationState) : Procedure M (DriveStep M) := do
    if wait then do
      let cancelled ← consult .retryTimer
      if cancelled then reconcileAbort operation
      else do
        transition operation next
        pure .proceed
    else pure (.waitingRetry retry.notBefore)
  match operation.state with
  | .assistantRetryWait scope context retry =>
    resume retry (.assistantReady scope context retry.nextAttempt)
  | .summaryRetryWait scope generation retry =>
    resume retry (.summaryReady scope generation retry.nextAttempt)
  | _ => .fail (invariant "retry wait dispatcher received another state")

/-! ## Deferred responses -/

/-- The handle of the response a deferred scope polls. -/
def deferredHandle (deferred : DeferredScope) : Procedure M M := do
  match ← request (.entry deferred.sourceEntryId) with
  | none => .fail (invariant "deferred source entry is missing")
  | some entry =>
    match assistantMessage entry with
    | none => .fail (invariant "deferred source entry is not assistant")
    | some message =>
      match message.deferred with
      | none => .fail (invariant "deferred source entry has no handle")
      | some handle => pure handle

/-- Poll under new ids; `transition` stores them. -/
def pollDeferred (operation : Operation) (deferred : DeferredScope) :
    Procedure M (DriveStep M) := do
  match ← consult .beforeRequest with
  | .aborted => reconcileAbort operation
  | .failed error => .fail error
  | .answered _ => do
    let responseId ← request .newId
    let usageId ← request .newId
    transition operation (.deferredEffectPending deferred responseId usageId)
    match ← consult .stream with
    | .response message => publishToCurrent operation "deferred" message
    | .aborted => reconcileAbort operation
    | .closed message => .fail (.closed message)
    | .preparation error _ => .fail error
    | .fault message => do
      let error ← request (.fault message)
      .fail error
    | .provider message => do
      let error ← request (.fault ("deferred provider poll failed: " ++ message))
      .fail error

/-- The model of a deferred response must still be registered. -/
def requireDeferredModel (deferred : DeferredScope) : Procedure M Unit := do
  match ← consult .model with
  | none =>
    .fail (.closed ("deferred model " ++ deferred.configuration.model.provider ++ "/" ++
      deferred.configuration.model.modelId ++ " is unavailable"))
  | some _ => pure ()

def deferredSuspended (operation : Operation) (poll : Bool) : Procedure M (DriveStep M) :=
  match operation.state with
  | .deferredSuspended deferred => do
    let handle ← deferredHandle deferred
    if poll then do
      requireDeferredModel deferred
      if deferred.poll + 1 < 2 ^ 32 then
        pollDeferred operation { deferred with poll := deferred.poll + 1 }
      else .fail (.closed "deferred poll count overflow")
    else pure (.waitingDeferred handle)
  | _ => .fail (invariant "deferred dispatcher received another state")

def recoverDeferredEffect (operation : Operation) (poll : Bool) : Procedure M (DriveStep M) :=
  match operation.state with
  | .deferredEffectPending deferred _ _ => do
    let handle ← deferredHandle deferred
    if poll then do
      requireDeferredModel deferred
      pollDeferred operation deferred
    else pure (.waitingDeferred handle)
  | _ => .fail (invariant "deferred effect recovery received another state")

end PiOxidized.Harness.Runtime
