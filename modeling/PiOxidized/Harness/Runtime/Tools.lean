/-
# Tool batches

The calls of a response run one after the other, or all at once when every tool allows it.  A
call is stored as started before it starts, and its outcome is staged before its status moves
on, so that a batch taken up again never starts a call a second time: it reads the staged
outcome, or gives the operation up.
-/

import PiOxidized.Harness.Runtime.Drive

namespace PiOxidized.Harness.Runtime

open Math
open Agent (ToolExecutionMode ToolResultMessage AgentToolResult errorToolResult)
open Session (EntryId)

variable {M : Type}

/-- Whether a call may be started. -/
def ToolCallStatus.startable : ToolCallStatus → Bool
  | .planned => true
  | .effectPending .safe => true
  | _ => false

/-- A batch with one call at another status. -/
def ToolBatch.setStatus (batch : ToolBatch) (index : Nat) (status : ToolCallStatus) : ToolBatch :=
  { batch with calls := batch.calls.modify index fun call => { call with status := status } }

/-- The leaf of an operation at a batch. -/
def toolsState (operation : Operation) (batch : ToolBatch) : OperationState :=
  .tools (batchScope operation batch) batch

/-! ## Outcomes -/

/-- An executed call: its message, whether it ends the run, and what is staged of it. -/
structure ExecutedTool (M : Type) where
  message : ToolResultMessage M
  terminate : Bool
  staged : StagedToolResult M
  deriving DecidableEq

/-- The result of a call and whether it is an error. -/
def toolResult [Inhabited M] (call : Agent.ToolCall M) :
    ToolOutcome M → Except HarnessError (AgentToolResult M × Bool)
  | .finished result => .ok (result, false)
  | .failed message => .ok (errorToolResult message, true)
  | .aborted => .ok (errorToolResult "tool execution aborted", true)
  | .unregistered => .ok (errorToolResult ("tool " ++ call.name ++ " is not registered"), true)
  | .contextFailed error => .error error

/-- The message of a result; its details are not in it. -/
def toolResultMessage (call : Agent.ToolCall M) (result : AgentToolResult M) (isError : Bool)
    (now : Int) : ToolResultMessage M where
  toolCallId := call.id
  toolName := call.name
  content := result.content
  details := none
  addedToolNames := none
  isError := isError
  timestamp := now

def executedTool (call : Agent.ToolCall M) (result : AgentToolResult M) (isError : Bool)
    (now : Int) : ExecutedTool M where
  message := toolResultMessage call result isError now
  terminate := result.terminate.getD false
  staged := ⟨{ result with terminate := some (result.terminate.getD false) }, isError⟩

/-- The message of a staged result. -/
def nativeToolResult (call : Agent.ToolCall M) (staged : StagedToolResult M) (now : Int) :
    ToolResultMessage M :=
  { toolResultMessage call staged.result staged.isError now with
    details := some staged.result.details
    addedToolNames := staged.result.addedToolNames }

/-- Turn the outcome of a started call into what is kept of it. -/
def finishTool [Inhabited M] (call : Agent.ToolCall M) (outcome : ToolOutcome M) :
    Procedure M (ExecutedTool M) := do
  let (result, isError) ← orFail (toolResult call outcome)
  let now ← consult .now
  pure (executedTool call result isError now)

/-! ## One after the other -/

inductive SequentialToolOutcome (M : Type)
  | ready (result : ToolResultMessage M) (terminate : Bool)
  | settled (record : OperationResultRecord)

def recoverSequentialTool (operation : Operation) (record : ToolCall)
    (call : Agent.ToolCall M) : Procedure M (SequentialToolOutcome M) := do
  match ← request (.toolOutput operation.info.operationId record.resultEntryId) with
  | none => do
    let record ← settle operation .failed (some ⟨"tool_effect_unknown",
        "tool result " ++ record.resultEntryId ++ " is unavailable during recovery"⟩)
    pure (.settled record)
  | some staged => do
    let now ← consult .now
    pure (.ready (nativeToolResult call staged now) (staged.result.terminate.getD false))

/-- Start a call, stage its outcome, and record that it is ready. -/
def executeSequentialTool [Inhabited M] (operation : Operation) (batch : ToolBatch)
    (index : Nat) (record : ToolCall) (call : Agent.ToolCall M) :
    Procedure M (SequentialToolOutcome M × ToolBatch) := do
  let pendingBatch := batch.setStatus index (.effectPending .never)
  transitionWithWrites operation (toolsState operation pendingBatch) []
  request (.startTool pendingBatch.assistantEntryId record)
  let (_, outcome) ← request (.finishedTool [record.resultEntryId])
  let executed ← finishTool call outcome
  publish (.stageToolOutput operation.info.operationId record.resultEntryId executed.staged)
  let readyBatch := pendingBatch.setStatus index (.outcomeReady executed.terminate)
  transition operation (toolsState operation readyBatch)
  pure (.ready executed.message executed.terminate, readyBatch)

def runSequentialTool [Inhabited M] (operation : Operation) (batch : ToolBatch) (index : Nat)
    (record : ToolCall) (call : Agent.ToolCall M) :
    Procedure M (SequentialToolOutcome M × ToolBatch) :=
  if record.status.startable then executeSequentialTool operation batch index record call
  else do
    let outcome ← recoverSequentialTool operation record call
    pure (outcome, batch)

/-- Commit the results of a batch. -/
def commitToolResults (operation : Operation) (batch : ToolBatch)
    (results : List (ToolResultMessage M)) (terminate : Bool) : Procedure M (DriveStep M) := do
  publish (.toolResults operation batch results terminate)
  requireEntries "tool result entry was not committed"
    ((batch.calls.take results.length).map (·.resultEntryId))
  pure .proceed

/-- The place of a call in its batch. -/
def ToolBatch.indexOf (batch : ToolBatch) (source : Nat) : Option Nat :=
  batch.calls.findIdx? fun record => record.sourceIndex == source

def sequentialTools [Inhabited M] (operation : Operation) :
    List (Nat × Agent.ToolCall M) → ToolBatch → List (ToolResultMessage M) → Bool →
      Procedure M (DriveStep M)
  | [], batch, results, terminate => commitToolResults operation batch results terminate
  | (source, call) :: calls, batch, results, terminate =>
    match batch.indexOf source with
    | none => .fail (invariant "tool batch call index is missing")
    | some index =>
      match batch.calls[index]? with
      | none => .fail (invariant "tool batch call disappeared")
      | some record => do
        match ← runSequentialTool operation batch index record call with
        | (.ready result callTerminate, batch) =>
          sequentialTools operation calls batch (results ++ [result]) (terminate || callTerminate)
        | (.settled record, _) => pure (.settled record)

/-! ## All at once -/

/-- Mark every call as started. -/
def markStarted : List Nat → ToolBatch → Except HarnessError ToolBatch
  | [], batch => .ok batch
  | source :: sources, batch =>
    match batch.indexOf source with
    | none => .error (invariant "parallel tool batch call index is missing")
    | some index =>
      match batch.calls[index]? with
      | none => .error (invariant "parallel tool batch call disappeared")
      | some record =>
        if record.status.startable then
          markStarted sources (batch.setStatus index (.effectPending .never))
        else .error (invariant "parallel tool batch contains an ineligible call")

/-- A call that runs: its place in the batch, its record, and the call. -/
structure RunningTool (M : Type) where
  index : Nat
  record : ToolCall
  call : Agent.ToolCall M

/-- Start the calls of a batch, in order. -/
def startTools (batch : ToolBatch) :
    List (Nat × Agent.ToolCall M) → Procedure M (List (RunningTool M))
  | [] => pure []
  | (source, call) :: calls =>
    match batch.indexOf source with
    | none => .fail (invariant "parallel tool call index is missing")
    | some index =>
      match batch.calls[index]? with
      | none => .fail (invariant "parallel tool call disappeared")
      | some record => do
        request (.startTool batch.assistantEntryId record)
        let rest ← startTools batch calls
        pure (⟨index, record, call⟩ :: rest)

/-- What a completed call leads to. -/
inductive ParallelToolResult (M : Type)
  | ready (batch : ToolBatch) (message : ToolResultMessage M) (terminate : Bool)
  | step (step : DriveStep M)

/-- Stage the outcome of a call, and record that it is ready in the leaf that is current now. -/
def commitParallelToolResult (operation : Operation) (batch : ToolBatch) (running : RunningTool M)
    (executed : ExecutedTool M) : Procedure M (ParallelToolResult M) := do
  if ← boundaryCancelled then do
    let step ← reconcileAbort operation
    pure (.step step)
  else do
    publish
      (.stageToolOutput operation.info.operationId running.record.resultEntryId executed.staged)
    match ← currentOperation with
    | none => .fail (invariant "parallel tool operation disappeared")
    | some current =>
      if current.state.control.isCancelRequested then do
        let step ← reconcileAbort current
        pure (.step step)
      else do
        let batch := batch.setStatus running.index (.outcomeReady executed.terminate)
        transition current (toolsState current batch)
        pure (.ready batch executed.message executed.terminate)

/-- Commit the results once every call has completed. -/
def finishParallelTools (_operation : Operation) (batch : ToolBatch)
    (results : List (Option (ToolResultMessage M))) (terminate : Bool) :
    Procedure M (DriveStep M) :=
  match results.mapM id with
  | none => .fail (invariant "parallel tool result is missing")
  | some results => do
    match ← currentOperation with
    | none => .fail (invariant "parallel tool operation disappeared before commit")
    | some current => do
      if ← boundaryCancelled then reconcileAbort current
      else commitToolResults current batch results terminate

/-- Take the calls as they complete, in whatever order that is. -/
def collectTools [Inhabited M] (operation : Operation) :
    Nat → List (RunningTool M) → ToolBatch → List (Option (ToolResultMessage M)) → Bool →
      Procedure M (DriveStep M)
  | 0, _, batch, results, terminate => finishParallelTools operation batch results terminate
  | outstanding + 1, running, batch, results, terminate => do
    let (id, outcome) ← request (.finishedTool (running.map (·.record.resultEntryId)))
    match running.find? fun tool => tool.record.resultEntryId == id with
    | none => .fail (invariant "parallel tool result call disappeared")
    | some tool => do
      let executed ← finishTool tool.call outcome
      match ← commitParallelToolResult operation batch tool executed with
      | .step step => pure step
      | .ready batch message callTerminate =>
        collectTools operation outstanding
          (running.filter fun tool => tool.record.resultEntryId != id) batch
          (results.set tool.index (some message)) (terminate || callTerminate)

def parallelTools [Inhabited M] (operation : Operation) (batch : ToolBatch)
    (calls : List (Nat × Agent.ToolCall M)) : Procedure M (DriveStep M) := do
  let batch ← orFail (markStarted (calls.map Prod.fst) batch)
  transitionWithWrites operation (toolsState operation batch) []
  let running ← startTools batch calls
  collectTools operation running.length running batch (List.replicate batch.calls.length none) false

/-! ## The leaf -/

/-- Whether every call can be started and every tool allows to run beside others. -/
def allCallsAreParallel (operation : Operation) (batch : ToolBatch)
    (calls : List (Nat × Agent.ToolCall M)) (modes : String → Option ToolExecutionMode) : Bool :=
  operation.state.scope.settings.toolExecution == .parallel && (calls.all fun call =>
      (batch.calls.find? fun record => record.sourceIndex == call.1).any fun record =>
        record.status.startable) &&
    calls.all fun call => (modes call.2.name).all fun mode => mode == .parallel

def tools [Inhabited M] (operation : Operation) : Procedure M (DriveStep M) :=
  match operation.state with
  | .tools _ batch => do
    match ← request (.entry batch.assistantEntryId) with
    | none => .fail (invariant "tool batch assistant entry is missing")
    | some entry =>
      match assistantMessage entry with
      | none => .fail (invariant "tool batch assistant entry is not assistant")
      | some assistant => do
        let calls := assistantToolCalls assistant
        let modes ← consult .toolModes
        if allCallsAreParallel operation batch calls modes && decide (1 < calls.length) then
          parallelTools operation batch calls
        else sequentialTools operation calls batch [] false
  | _ => .fail (invariant "tools dispatcher received another state")

end PiOxidized.Harness.Runtime
