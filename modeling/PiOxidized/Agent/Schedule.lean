/-
# Scheduling the tool calls of one assistant message

A batch runs its calls one after another, or checks them in source order and then
runs up to eight of them at once.  Tools and hooks are code of their own: a step that
waits for one takes its answer, or its panic, from outside.  The cancellation token
may fire between any two steps.

Every emitted event is logged with the position of the call it is emitted for.
-/

import PiOxidized.Agent.Tool
import PiOxidized.Math.Transition

namespace PiOxidized.Agent

open Math

/-- At most so many calls of a parallel batch execute at once. -/
def maxParallelToolCalls : Nat := 8

/-- At most so many progress updates of a parallel batch are queued. -/
def parallelToolUpdateCapacity : Nat := 64

/-- What code outside the scheduler does when it is waited for. -/
inductive Answer (X : Type)
  | returns (value : X)
  | panics
  deriving DecidableEq

structure PreparedToolCall (R : Type) where
  toolCall : ToolCall R
  args : R
  deriving DecidableEq

structure ImmediateOutcome (R : Type) where
  result : AgentToolResult R
  isError : Bool
  deriving DecidableEq

structure ExecutedOutcome (R : Type) where
  result : AgentToolResult R
  isError : Bool
  deriving DecidableEq

structure FinalizedOutcome (R : Type) where
  toolCall : ToolCall R
  result : AgentToolResult R
  isError : Bool
  deriving DecidableEq

inductive Preparation (R : Type)
  | prepared (call : PreparedToolCall R)
  | immediate (outcome : ImmediateOutcome R)
  deriving DecidableEq

structure ExecutedToolCallBatch (R : Type) where
  messages : List (ToolResultMessage R)
  terminate : Bool
  deriving DecidableEq

/-- How far the preparation of a call has got. -/
inductive Preparing (R : Type)
  /-- Waiting for the tool to check the arguments. -/
  | validating
  /-- Waiting for the hook before the call. -/
  | hooking (args : R)
  | decided (preparation : Preparation R)
  deriving DecidableEq

/-- A spawned task that executes a tool. -/
inductive Worker (R B : Type)
  /-- Before its first look at the token. -/
  | spawned
  /-- Waiting for the tool. -/
  | running
  /-- Waiting for the hook after the call. -/
  | finalizing (executed : ExecutedOutcome R)
  /-- Ready to be joined, with a caught panic as an error. -/
  | finished (result : Except Unit B)
  deriving DecidableEq

/-- The call a sequential batch is at. -/
inductive Stage (R : Type)
  | preparing (stage : Preparing R)
  | executing (prepared : PreparedToolCall R) (worker : Worker R (ExecutedOutcome R))
      (updates : List (AgentToolResult R))
  | finalizing (prepared : PreparedToolCall R) (executed : ExecutedOutcome R)
  | settled (finalized : FinalizedOutcome R)
  deriving DecidableEq

/-- The outcome of a call of a parallel batch, or the call while it is open. -/
inductive ParallelSlot (R : Type)
  | ready (finalized : FinalizedOutcome R)
  | pending (toolCall : ToolCall R)
  deriving DecidableEq

structure ParallelJob (R : Type) where
  index : Nat
  prepared : PreparedToolCall R
  deriving DecidableEq

structure ParallelWorker (R : Type) where
  job : ParallelJob R
  state : Worker R (FinalizedOutcome R)
  deriving DecidableEq

/-- A worker that was joined, until what it came to is recorded. -/
structure ParallelJoined (R : Type) where
  job : ParallelJob R
  /-- Nothing, when the task was lost. -/
  result : Option (Except Unit (FinalizedOutcome R))
  /-- Whether the channel was found empty since the worker was joined. -/
  drained : Bool
  deriving DecidableEq

/-- The workers of a parallel batch and the jobs still to be spawned. -/
structure ParallelBatch (R : Type) where
  slots : List (ParallelSlot R)
  jobs : List (ParallelJob R)
  workers : List (ParallelWorker R)
  joined : Option (ParallelJoined R)
  updates : List (Nat × AgentToolResult R)
  /-- Whether the cancellation branch was taken. -/
  stopping : Bool
  deriving DecidableEq

inductive Phase (R : Type)
  | sequential (finalizedCalls : List (FinalizedOutcome R)) (messages : List (ToolResultMessage R))
      (stage : Stage R)
  | preflight (slots : List (ParallelSlot R)) (jobs : List (ParallelJob R)) (stage : Preparing R)
  | collecting (batch : ParallelBatch R)
  | returned (batch : ExecutedToolCallBatch R)
  /-- A panic outside of a worker. -/
  | unwound
  deriving DecidableEq

/-- A batch in flight. -/
structure Schedule (R : Type) where
  /-- When the token fired: the number of calls a sequential batch had settled. -/
  cancelledAt : Option Nat
  /-- The emitted events, each with the position of its call, oldest first. -/
  log : List (Nat × AgentEvent R)
  phase : Phase R
  deriving DecidableEq

/-- One step of the batch, of a worker or of the token. -/
inductive ScheduleEvent (R : Type)
  | cancel
  | validate (answer : Answer (Except String R))
  | before (answer : Answer (Except String (Option BeforeToolCallResult)))
  | place
  | admission (index : Nat)
  | progress (index : Nat) (update : AgentToolResult R)
  | execute (index : Nat) (answer : Answer (Except String (AgentToolResult R)))
  | after (index : Nat) (answer : Answer (Except String (Option (AfterToolCallResult R))))
  | abort (index : Nat)
  | forward
  | join (index : Nat)
  | lose (index : Nat)
  | drained
  | settleWorker
  | settle (now : Int)
  | stop
  | finish (clock : Nat → Int)

section

variable {R : Type} [Inhabited R]

/-! ## Outcomes -/

/-- An outcome that reports an error message. -/
def ImmediateOutcome.error (message : String) : ImmediateOutcome R :=
  { result := errorToolResult message, isError := true }

def ExecutedOutcome.error (message : String) : ExecutedOutcome R :=
  { result := errorToolResult message, isError := true }

def FinalizedOutcome.error (call : ToolCall R) (message : String) : FinalizedOutcome R :=
  { toolCall := call, result := errorToolResult message, isError := true }

/-- The outcome of a tool that answered. -/
def ExecutedOutcome.ofAnswer : Except String (AgentToolResult R) → ExecutedOutcome R
  | .ok result => { result := result, isError := false }
  | .error message => .error message

/-- Apply what the hook after the call replaces. -/
def finalizeExecutedToolCall (prepared : PreparedToolCall R) (executed : ExecutedOutcome R) :
    Except String (Option (AfterToolCallResult R)) → FinalizedOutcome R
  | .ok none =>
    { toolCall := prepared.toolCall, result := executed.result, isError := executed.isError }
  | .ok (some after) =>
    { toolCall := prepared.toolCall
      result := { executed.result with
          content := after.content.getD executed.result.content
          details := after.details.getD executed.result.details
          terminate := after.terminate.or executed.result.terminate }
      isError := after.isError.getD executed.isError }
  | .error message => .error prepared.toolCall message

/-- The message that hands an outcome to the model. -/
def toolResultMessage (finalized : FinalizedOutcome R) (now : Int) : ToolResultMessage R :=
  { toolCallId := finalized.toolCall.id
    toolName := finalized.toolCall.name
    content := finalized.result.content
    details := some finalized.result.details
    addedToolNames := finalized.result.addedToolNames.filter fun names => !names.isEmpty
    isError := finalized.isError
    timestamp := now }

/-- Whether a batch that is not empty asks the loop to stop. -/
def shouldTerminateFinalized (finalized : List (FinalizedOutcome R)) : Bool :=
  !finalized.isEmpty && finalized.all fun entry => entry.result.terminate == some true

/-! ## Events -/

def toolExecutionStart (call : ToolCall R) : AgentEvent R :=
  .toolExecutionStart call.id call.name call.arguments

def toolExecutionUpdate (call : ToolCall R) (update : AgentToolResult R) : AgentEvent R :=
  .toolExecutionUpdate call.id call.name call.arguments update

def toolExecutionEnd (finalized : FinalizedOutcome R) : AgentEvent R :=
  .toolExecutionEnd finalized.toolCall.id finalized.toolCall.name finalized.result finalized.isError

/-- A result message starts and ends at once. -/
def toolResultEvents (message : ToolResultMessage R) : List (AgentEvent R) :=
  [.messageStart message, .messageEnd message]

/-! ## Preparation -/

/-- Begin a call: a tool that does not exist is answered at once. -/
def prepareToolCall (tools : List AgentTool) (call : ToolCall R) : Preparing R :=
  match findTool tools call with
  | none => .decided (.immediate (.error s!"Tool {call.name} not found"))
  | some _ => .validating

/-- The last check of a preparation. -/
def admitPrepared (cancelled : Bool) (call : ToolCall R) (args : R) : Preparing R :=
  if cancelled then .decided (.immediate (.error "Operation aborted"))
  else .decided (.prepared { toolCall := call, args := args })

/-- The tool has checked the arguments. -/
def validateArguments (config : AgentLoopConfig) (cancelled : Bool) (call : ToolCall R) :
    Except String R → Preparing R
  | .error message => .decided (.immediate (.error message))
  | .ok args => if config.beforeToolCall then .hooking args else admitPrepared cancelled call args

/-- The hook before the call has decided. -/
def beforeToolCall (cancelled : Bool) (call : ToolCall R) (args : R) :
    Except String (Option BeforeToolCallResult) → Preparing R
  | .error message => .decided (.immediate (.error message))
  | .ok none => admitPrepared cancelled call args
  | .ok (some result) =>
    if result.block then
      let blocked := errorToolResult (result.reason.getD "Tool execution was blocked")
      .decided (.immediate
        { result := { blocked with terminate := result.terminate }, isError := true })
    else admitPrepared cancelled call args

/-! ## Parallel slots -/

/-- A queued update is emitted for the call of its slot. -/
def emitParallelUpdate (slots : List (ParallelSlot R)) (update : Nat × AgentToolResult R) :
    List (Nat × AgentEvent R) :=
  match slots[update.1]? with
  | none => []
  | some (.ready finalized) => [(update.1, toolExecutionUpdate finalized.toolCall update.2)]
  | some (.pending call) => [(update.1, toolExecutionUpdate call update.2)]

/-- Answer an open slot with an error. -/
def settlePending (slots : List (ParallelSlot R)) (index : Nat) (message : String) :
    List (ParallelSlot R) × List (Nat × AgentEvent R) :=
  match slots[index]? with
  | some (.pending call) =>
    let finalized := FinalizedOutcome.error call message
    (slots.set index (.ready finalized), [(index, toolExecutionEnd finalized)])
  | _ => (slots, [])

/-- Answer one more slot, after what was emitted before. -/
def settleNext (message : String)
    (state : List (ParallelSlot R) × List (Nat × AgentEvent R)) (index : Nat) :
    List (ParallelSlot R) × List (Nat × AgentEvent R) :=
  let (slots, ended) := settlePending state.1 index message
  (slots, state.2 ++ ended)

/-- Answer one open slot after another with an error. -/
def settleAllPending (slots : List (ParallelSlot R)) (message : String) :
    List (ParallelSlot R) × List (Nat × AgentEvent R) :=
  (List.range slots.length).foldl (settleNext message) (slots, [])

/-- Record what a joined worker came to. -/
def settleWorker (slots : List (ParallelSlot R)) (index : Nat) :
    Except Unit (FinalizedOutcome R) → List (ParallelSlot R) × List (Nat × AgentEvent R)
  | .ok finalized =>
    (slots.set index (.ready finalized), [(index, toolExecutionEnd finalized)])
  | .error () => settlePending slots index "Tool execution panicked"

/-- A lost worker leaves its slot as it is. -/
def ParallelJoined.settle (joined : ParallelJoined R) (slots : List (ParallelSlot R)) :
    List (ParallelSlot R) × List (Nat × AgentEvent R) :=
  match joined.result with
  | some result => settleWorker slots joined.job.index result
  | none => (slots, [])

/-- The outcome of a slot, and the end of one that is still open. -/
def ParallelSlot.close (position : Nat) :
    ParallelSlot R → FinalizedOutcome R × List (Nat × AgentEvent R)
  | ready finalized => (finalized, [])
  | pending call =>
    let finalized := FinalizedOutcome.error call "Tool execution ended without a result"
    (finalized, [(position, toolExecutionEnd finalized)])

/-- Emit the results in source order, from a position on. -/
def emitResultsFrom (clock : Nat → Int) (position : Nat) : List (ParallelSlot R) →
      List (FinalizedOutcome R) × List (ToolResultMessage R) × List (Nat × AgentEvent R)
  | [] => ([], [], [])
  | slot :: slots =>
    let (finalized, ended) := slot.close position
    let message := toolResultMessage finalized (clock position)
    let (finalizedCalls, messages, emitted) := emitResultsFrom clock (position + 1) slots
    (finalized :: finalizedCalls, message :: messages,
      ended ++ (toolResultEvents message).map (position, ·) ++ emitted)

def emitSourceOrderedResults (clock : Nat → Int) (slots : List (ParallelSlot R)) :
    ExecutedToolCallBatch R × List (Nat × AgentEvent R) :=
  let (finalizedCalls, messages, emitted) := emitResultsFrom clock 0 slots
  ({ messages := messages, terminate := shouldTerminateFinalized finalizedCalls }, emitted)

/-- Whether the channel is read: while the batch waits, or is drained behind a joined worker or
behind the last one. -/
def ParallelBatch.receives (batch : ParallelBatch R) : Bool :=
  match batch.joined with
  | some joined => !joined.drained
  | none => !batch.stopping || batch.workers.isEmpty

/-! ## Steps -/

namespace Schedule

variable (tools : List AgentTool) (config : AgentLoopConfig) (calls : List (ToolCall R))

/-- Whether the token has fired. -/
def isCancelled (s : Schedule R) : Bool := s.cancelledAt.isSome

def emit (s : Schedule R) (events : List (Nat × AgentEvent R)) : Schedule R :=
  { s with log := s.log ++ events }

def goto (s : Schedule R) (phase : Phase R) : Schedule R := { s with phase := phase }

/-- Go on with the next call of a sequential batch, or return. -/
def nextSequential (s : Schedule R) (finalizedCalls : List (FinalizedOutcome R))
    (messages : List (ToolResultMessage R)) : Schedule R :=
  match calls[finalizedCalls.length]? with
  | some call =>
    (s.emit [(finalizedCalls.length, toolExecutionStart call)]).goto
      (.sequential finalizedCalls messages (.preparing (prepareToolCall tools call)))
  | none =>
    s.goto (.returned
      { messages := messages, terminate := shouldTerminateFinalized finalizedCalls })

/-- Take over the first jobs, up to the limit. -/
def spawnWorkers (slots : List (ParallelSlot R)) (jobs : List (ParallelJob R)) : ParallelBatch R :=
  { slots := slots
    jobs := jobs.drop maxParallelToolCalls
    workers := (jobs.take maxParallelToolCalls).map fun job => { job := job, state := .spawned }
    joined := none
    updates := []
    stopping := false }

/-- Go on with the next call of the preflight, or start the workers. -/
def nextPreflight (s : Schedule R) (slots : List (ParallelSlot R)) (jobs : List (ParallelJob R)) :
    Schedule R :=
  match calls[slots.length]? with
  | some call =>
    (s.emit [(slots.length, toolExecutionStart call)]).goto
      (.preflight slots jobs (prepareToolCall tools call))
  | none => s.goto (.collecting (spawnWorkers slots jobs))

/-- A batch of the calls of a message, whose token may have fired before. -/
def executeToolCalls (cancelled : Bool) : Schedule R := let s : Schedule R :=
    { cancelledAt := if cancelled then some 0 else none, log := [], phase := .unwound }
  match batchMode tools config calls with
  | .sequential => s.nextSequential tools calls [] []
  | .parallel => s.nextPreflight tools calls [] []

/-- A call whose preparation is decided starts, or is answered at once. -/
def place (s : Schedule R) : Option (Schedule R) := match s.phase with
  | .sequential finalizedCalls messages (.preparing (.decided preparation)) =>
    match preparation with
    | .immediate outcome =>
      calls[finalizedCalls.length]?.map fun call =>
        s.goto (.sequential finalizedCalls messages (.settled
          { toolCall := call, result := outcome.result, isError := outcome.isError }))
    | .prepared prepared =>
      some (s.goto (.sequential finalizedCalls messages (.executing prepared .spawned [])))
  | .preflight slots jobs (.decided preparation) =>
    match preparation with
    | .immediate outcome =>
      calls[slots.length]?.map fun call =>
        let finalized : FinalizedOutcome R :=
          { toolCall := call, result := outcome.result, isError := outcome.isError }
        (s.emit [(slots.length, toolExecutionEnd finalized)]).nextPreflight tools calls
          (slots ++ [.ready finalized]) jobs
    | .prepared prepared =>
      some (s.nextPreflight tools calls (slots ++ [.pending prepared.toolCall])
        (jobs ++ [{ index := slots.length, prepared := prepared }]))
  | _ => none

/-- The preparation that is under way goes on with an answer. -/
def prepareWith (s : Schedule R) (answer : ToolCall R → Preparing R → Option (Preparing R)) :
    Option (Schedule R) :=
  match s.phase with
  | .sequential finalizedCalls messages (.preparing stage) =>
    calls[finalizedCalls.length]?.bind fun call =>
      (answer call stage).map fun next =>
        s.goto (.sequential finalizedCalls messages (.preparing next))
  | .preflight slots jobs stage =>
    calls[slots.length]?.bind fun call =>
      (answer call stage).map fun next => s.goto (.preflight slots jobs next)
  | _ => none

/-- A step of the executing worker of a sequential batch. -/
def executeSequential (s : Schedule R)
    (step : Worker R (ExecutedOutcome R) → Option (Worker R (ExecutedOutcome R))) :
    Option (Schedule R) :=
  match s.phase with
  | .sequential finalizedCalls messages (.executing prepared worker updates) =>
    (step worker).map fun next =>
      s.goto (.sequential finalizedCalls messages (.executing prepared next updates))
  | _ => none

/-- A step of a worker of a parallel batch. -/
def executeParallel (s : Schedule R) (index : Nat)
    (step : PreparedToolCall R → Worker R (FinalizedOutcome R) →
      Option (Worker R (FinalizedOutcome R))) : Option (Schedule R) :=
  match s.phase with
  | .collecting batch =>
    batch.workers[index]?.bind fun worker =>
      (step worker.job.prepared worker.state).map fun next =>
        s.goto (.collecting
          { batch with workers := batch.workers.set index { worker with state := next } })
  | _ => none

/-- The executed call of a sequential batch is joined: its updates are emitted, and the hook
after the call is asked when there is one. -/
def joinSequential (s : Schedule R) (finalizedCalls : List (FinalizedOutcome R))
    (messages : List (ToolResultMessage R)) (prepared : PreparedToolCall R)
    (updates : List (AgentToolResult R)) (joined : Except Unit (ExecutedOutcome R)) :
    Schedule R :=
  let executed := match joined with
    | .ok outcome => outcome
    | .error () => .error "Tool execution panicked"
  let stage := if config.afterToolCall then Stage.finalizing prepared executed
    else .settled (finalizeExecutedToolCall prepared executed (.ok none))
  (s.emit (updates.map fun update =>
    (finalizedCalls.length, toolExecutionUpdate prepared.toolCall update))).goto
      (.sequential finalizedCalls messages stage)

/-- A worker of a parallel batch is joined; the channel is drained next. -/
def joinParallel (s : Schedule R) (batch : ParallelBatch R) (index : Nat)
    (job : ParallelJob R) (result : Option (Except Unit (FinalizedOutcome R))) :
    Option (Schedule R) :=
  if batch.joined.isNone then
    some (s.goto (.collecting { batch with
        workers := batch.workers.eraseIdx index
        joined := some { job := job, result := result, drained := false } }))
  else none

/-- The worker that was joined is recorded, and the next job takes its place. -/
def settleJoined (s : Schedule R) (batch : ParallelBatch R)
    (settled : List (ParallelSlot R) × List (Nat × AgentEvent R)) : Schedule R :=
  let recorded : ParallelBatch R := { batch with slots := settled.1, joined := none }
  let next := match batch.jobs with
    | [] => recorded
    | job :: jobs =>
      if batch.stopping || s.isCancelled then recorded
      else { recorded with
        jobs := jobs, workers := batch.workers ++ [{ job := job, state := .spawned }] }
  (s.emit settled.2).goto (.collecting next)

/-- All workers are joined: what is still open is answered and the results are emitted. -/
def finishParallel (s : Schedule R) (batch : ParallelBatch R) (clock : Nat → Int) : Schedule R :=
  let message := if batch.stopping || s.isCancelled then "Operation aborted"
    else "Tool execution ended without a result"
  let (slots, ended) := settleAllPending batch.slots message
  let (result, emitted) := emitSourceOrderedResults clock slots
  (s.emit (ended ++ emitted)).goto (.returned result)

/-- A settled call of a sequential batch ends; a batch whose token has fired goes no further. -/
def settleSequential (s : Schedule R) (finalizedCalls : List (FinalizedOutcome R))
    (messages : List (ToolResultMessage R)) (finalized : FinalizedOutcome R) (now : Int) :
    Schedule R :=
  let message := toolResultMessage finalized now
  let finalizedAll := finalizedCalls ++ [finalized]
  let messagesAll := messages ++ [message]
  let s := s.emit ((toolExecutionEnd finalized :: toolResultEvents message).map
    (finalizedCalls.length, ·))
  if s.isCancelled then
    s.goto (.returned
      { messages := messagesAll, terminate := shouldTerminateFinalized finalizedAll })
  else s.nextSequential tools calls finalizedAll messagesAll

end Schedule

/-! ## Workers -/

namespace Worker

variable {B : Type}

/-- The first look at the token. -/
def look (cancelled : Bool) (aborted : B) : Worker R B → Option (Worker R B)
  | spawned => some (if cancelled then finished (.ok aborted) else running)
  | _ => none

/-- A task that is still at work when the token fires is aborted. -/
def giveUp (cancelled : Bool) (aborted : B) : Worker R B → Option (Worker R B)
  | finished _ => none
  | _ => if cancelled then some (finished (.ok aborted)) else none

/-- The tool of a sequential batch is through. -/
def executed (answer : Answer (Except String (AgentToolResult R))) :
    Worker R (ExecutedOutcome R) → Option (Worker R (ExecutedOutcome R))
  | running =>
    match answer with
    | .returns result => some (finished (.ok (.ofAnswer result)))
    | .panics => some (finished (.error ()))
  | _ => none

/-- The tool of a parallel batch is through; the hook after the call is asked next. -/
def executedParallel (config : AgentLoopConfig) (prepared : PreparedToolCall R)
    (answer : Answer (Except String (AgentToolResult R))) :
    Worker R (FinalizedOutcome R) → Option (Worker R (FinalizedOutcome R))
  | running =>
    match answer with
    | .returns result =>
      let outcome := ExecutedOutcome.ofAnswer result
      if config.afterToolCall then some (finalizing outcome)
      else some (finished (.ok (finalizeExecutedToolCall prepared outcome (.ok none))))
    | .panics => some (finished (.error ()))
  | _ => none

/-- The hook after the call of a parallel batch is through. -/
def hooked (prepared : PreparedToolCall R)
    (answer : Answer (Except String (Option (AfterToolCallResult R)))) :
    Worker R (FinalizedOutcome R) → Option (Worker R (FinalizedOutcome R))
  | finalizing outcome =>
    match answer with
    | .returns after => some (finished (.ok (finalizeExecutedToolCall prepared outcome after)))
    | .panics => some (finished (.error ()))
  | _ => none

end Worker

namespace Schedule

variable (tools : List AgentTool) (config : AgentLoopConfig) (calls : List (ToolCall R))

/-- The token fires. -/
def cancel (s : Schedule R) : Option (Schedule R) := match s.phase with
  | .sequential finalizedCalls _ _ =>
    some { s with cancelledAt := some (s.cancelledAt.getD finalizedCalls.length) }
  | .preflight _ _ _ => some { s with cancelledAt := some (s.cancelledAt.getD 0) }
  | .collecting _ => some { s with cancelledAt := some (s.cancelledAt.getD 0) }
  | _ => none

/-- One step. -/
@[simp]
def step (s : Schedule R) : ScheduleEvent R → Option (Schedule R)
  | .cancel => s.cancel
  | .validate (.returns answer) =>
    s.prepareWith calls fun call stage =>
      if stage matches .validating then
        some (validateArguments config s.isCancelled call answer)
      else none
  | .validate .panics =>
    (s.prepareWith calls fun _ stage =>
      if stage matches .validating then some stage else none).map (·.goto .unwound)
  | .before (.returns answer) =>
    s.prepareWith calls fun call stage =>
      match stage with
      | .hooking args => some (beforeToolCall s.isCancelled call args answer)
      | _ => none
  | .before .panics =>
    (s.prepareWith calls fun _ stage =>
      if stage matches .hooking _ then some stage else none).map (·.goto .unwound)
  | .place => s.place tools calls
  | .admission index =>
    s.executeSequential (Worker.look s.isCancelled (.error "Operation aborted")) <|>
      s.executeParallel index fun prepared =>
        Worker.look s.isCancelled (.error prepared.toolCall "Operation aborted")
  | .progress index update =>
    match s.phase with
    | .sequential finalizedCalls messages (.executing prepared worker updates) =>
      some (s.goto (.sequential finalizedCalls messages
        (.executing prepared worker (updates ++ [update]))))
    | .collecting batch =>
      some (s.goto (.collecting { batch with updates :=
            if batch.updates.length < parallelToolUpdateCapacity then
              batch.updates ++ [(index, update)]
            else batch.updates }))
    | _ => none
  | .execute index answer =>
    s.executeSequential (Worker.executed answer) <|>
      s.executeParallel index fun prepared => Worker.executedParallel config prepared answer
  | .after index answer =>
    match s.phase with
    | .sequential finalizedCalls messages (.finalizing prepared executed) =>
      match answer with
      | .returns after =>
        some (s.goto (.sequential finalizedCalls messages
          (.settled (finalizeExecutedToolCall prepared executed after))))
      | .panics => some (s.goto .unwound)
    | _ => s.executeParallel index fun prepared => Worker.hooked prepared answer
  | .abort index =>
    match s.phase with
    | .sequential finalizedCalls messages (.finalizing prepared _) =>
      if s.isCancelled then
        some (s.goto (.sequential finalizedCalls messages
          (.settled (.error prepared.toolCall "Operation aborted"))))
      else none
    | _ =>
      s.executeSequential (Worker.giveUp s.isCancelled (.error "Operation aborted")) <|>
        s.executeParallel index fun prepared =>
          Worker.giveUp s.isCancelled (.error prepared.toolCall "Operation aborted")
  | .forward =>
    match s.phase with
    | .sequential finalizedCalls messages (.executing prepared worker (update :: updates)) =>
      some ((s.emit [(finalizedCalls.length, toolExecutionUpdate prepared.toolCall update)]).goto
          (.sequential finalizedCalls messages (.executing prepared worker updates)))
    | .collecting batch =>
      match batch.updates with
      | update :: updates =>
        if batch.receives then
          some ((s.emit (emitParallelUpdate batch.slots update)).goto
            (.collecting { batch with updates := updates }))
        else none
      | [] => none
    | _ => none
  | .join index =>
    match s.phase with
    | .sequential finalizedCalls messages (.executing prepared (.finished result) updates) =>
      some (s.joinSequential config finalizedCalls messages prepared updates result)
    | .collecting batch =>
      match batch.workers[index]? with
      | some { job, state := .finished result } => s.joinParallel batch index job (some result)
      | _ => none
    | _ => none
  | .lose index =>
    match s.phase with
    | .sequential finalizedCalls messages (.executing prepared _ updates) =>
      some (s.joinSequential config finalizedCalls messages prepared updates (.error ()))
    | .collecting batch =>
      batch.workers[index]?.bind fun worker => s.joinParallel batch index worker.job none
    | _ => none
  | .drained =>
    match s.phase with
    | .collecting batch =>
      match batch.joined, batch.updates with
      | some joined, [] =>
        some (s.goto (.collecting
          { batch with joined := some { joined with drained := true } }))
      | _, _ => none
    | _ => none
  | .settleWorker =>
    match s.phase with
    | .collecting batch =>
      match batch.joined with
      | some joined =>
        if joined.drained then some (s.settleJoined batch (joined.settle batch.slots)) else none
      | none => none
    | _ => none
  | .settle now =>
    match s.phase with
    | .sequential finalizedCalls messages (.settled finalized) =>
      some (s.settleSequential tools calls finalizedCalls messages finalized now)
    | _ => none
  | .stop =>
    match s.phase with
    | .collecting batch =>
      if s.isCancelled ∧ batch.joined = none ∧ batch.workers ≠ [] then
        some (s.goto (.collecting { batch with stopping := true }))
      else none
    | _ => none
  | .finish clock =>
    match s.phase with
    | .collecting batch =>
      if batch.joined.isNone && batch.workers.isEmpty && batch.updates.isEmpty then
        some (s.finishParallel batch clock)
      else none
    | _ => none

/-- The runs of a batch for the calls of one message. -/
def machine : Machine (Schedule R) (ScheduleEvent R) where
  start s := ∃ cancelled : Bool, s = executeToolCalls tools config calls cancelled
  step := step tools config calls

end Schedule

end

end PiOxidized.Agent
