/-
# The agent loop

One run of the loop: turns that each stream an assistant message and execute its tool
calls, until nothing is left to ask for.  Hooks, polls and the provider are code of their
own: a step that waits for one takes its answer from outside.  The cancellation token may
fire between any two steps, and every look at it is a step of its own.

While a batch of tool calls runs, its events are in the log of the batch.
-/

import PiOxidized.Agent.Schedule

namespace PiOxidized.Agent

open Math

/-- Why an assistant message ends. -/
inductive StopReason
  | stop
  | length
  | toolUse
  | pending
  | deferred
  | error
  | aborted
  deriving DecidableEq

/-- The model a request goes to. -/
structure Model where
  api : String
  provider : String
  id : String
  deriving DecidableEq

structure AssistantMessage (R : Type) where
  content : List (AssistantContent R)
  model : Model
  stopReason : StopReason
  errorMessage : Option String
  timestamp : Int
  deriving DecidableEq

/-- A message of the transcript.  User, system and custom messages are not looked into. -/
inductive AgentMessage (R M : Type)
  | assistant (message : AssistantMessage R)
  | toolResult (message : ToolResultMessage R)
  | other (role : String) (content : M)
  deriving DecidableEq

/-- Which block of a message an update is about, and whether it opens or closes it. -/
inductive UpdateKind
  | textStart
  | textDelta
  | textEnd
  | thinkingStart
  | thinkingDelta
  | thinkingEnd
  | toolCallStart
  | toolCallDelta
  | toolCallEnd
  deriving DecidableEq

/-- What a provider streams. -/
inductive AssistantMessageEvent (R : Type)
  | start (partialMessage : AssistantMessage R)
  | update (kind : UpdateKind) (partialMessage : AssistantMessage R)
  | done (message : AssistantMessage R)
  | error (message : AssistantMessage R)
  deriving DecidableEq

/-- What the drain hands to the loop. -/
inductive DrainItem (R : Type)
  | event (event : AssistantMessageEvent R)
  | infra (message : String)
  deriving DecidableEq

/-- The events of a run. -/
inductive LoopEvent (R M : Type)
  | agentStart
  | agentEnd (messages : List (AgentMessage R M))
  | turnStart
  | turnEnd (message : AgentMessage R M) (toolResults : List (ToolResultMessage R))
  | messageStart (message : AgentMessage R M)
  | messageUpdate (message : AgentMessage R M) (event : AssistantMessageEvent R)
  | messageEnd (message : AgentMessage R M)
  | toolExecutionStart (toolCallId toolName : String) (args : R)
  | toolExecutionUpdate (toolCallId toolName : String) (args : R) (partialResult : AgentToolResult R)
  | toolExecutionEnd (toolCallId toolName : String) (result : AgentToolResult R) (isError : Bool)
  deriving DecidableEq

/-- The transcript and the tools a request is made with. -/
structure AgentContext (R M : Type) where
  messages : List (AgentMessage R M)
  tools : List AgentTool
  deriving DecidableEq

/-- What the hooks after a turn are told. -/
structure AgentTurnContext (R M : Type) where
  message : AssistantMessage R
  toolResults : List (ToolResultMessage R)
  context : AgentContext R M
  newMessages : List (AgentMessage R M)
  deriving DecidableEq

inductive AgentTurnDecision
  | continue
  | end
  deriving DecidableEq

structure AgentLoopTurnUpdate (R M : Type) where
  context : Option (AgentContext R M)
  messages : Option (List (AgentMessage R M))
  model : Option Model

structure AgentRequestUpdate (R M : Type) where
  context : Option (AgentContext R M)
  model : Option Model

/-- At most so many items are between the drain and the loop. -/
def drainEventCapacity : Nat := 64

/-- A stream under way: whether the transcript shows a partial message, the items between the
drain and the loop, and whether the drain is at work.  What the provider sent is only
remembered. -/
structure Streaming (R : Type) where
  addedPartial : Bool
  channel : List (DrainItem R)
  draining : Bool
  sent : List (DrainItem R)
  deriving DecidableEq

/-- Where a run is. -/
inductive RunPhase (R M : Type)
  /-- Waiting for the first steering messages. -/
  | steering
  /-- At the head of the outer loop. -/
  | outer
  /-- At the head of the inner loop. -/
  | inner
  /-- About to look at the token before the next turn is prepared. -/
  | continuing (turn : AgentTurnContext R M)
  /-- Waiting for the hook that prepares the next turn. -/
  | preparing
  | prepared (messages : List (AgentMessage R M))
  /-- Waiting for steering messages that were queued during the preparation. -/
  | repolling (messages : List (AgentMessage R M))
  | repolled (messages : List (AgentMessage R M))
  /-- About to start the next turn. -/
  | opening (messages : List (AgentMessage R M))
  /-- About to append the messages of the turn. -/
  | appending (messages : List (AgentMessage R M))
  /-- Waiting for the hook before the request. -/
  | requesting
  /-- Waiting for the hooks that convert the transcript and name the key. -/
  | converting
  | streaming (stream : Streaming R)
  /-- The assistant message has ended and is about to be completed. -/
  | completing (message : AssistantMessage R)
  /-- The tool calls of the message are executed. -/
  | executing (message : AssistantMessage R) (batch : Schedule R)
  /-- Waiting for the hook after the turn; whether more tool calls are due, or none when the
  message was an error or aborted. -/
  | finishing (turn : AgentTurnContext R M) (hasMoreToolCalls : Option Bool)
  | decided (turn : AgentTurnContext R M) (hasMoreToolCalls : Bool)
      (decision : Option AgentTurnDecision)
  /-- Waiting for steering messages after the turn. -/
  | polling (turn : AgentTurnContext R M)
  | polled (turn : AgentTurnContext R M)
  /-- Waiting for follow-up messages. -/
  | followingUp
  | returned (messages : List (AgentMessage R M))
  | failed

/-- A run in flight.  The messages that polls handed over, and the positions that they got among
the new messages, are only remembered. -/
structure AgentRun (R M : Type) where
  cancelled : Bool
  config : AgentLoopConfig
  model : Model
  context : AgentContext R M
  newMessages : List (AgentMessage R M)
  pendingMessages : List (AgentMessage R M)
  lastCompletedTurn : Option (AgentTurnContext R M)
  explicitContinuation : Bool
  hasMoreToolCalls : Bool
  emitted : List (LoopEvent R M)
  phase : RunPhase R M
  handed : List (AgentMessage R M)
  positions : List Nat

/-- A step of the run, of the drain or of the token. -/
inductive RunEvent (R M : Type)
  | cancel
  /-- The run goes on to where it next waits or looks at the token. -/
  | advance (clock : Nat → Int)
  /-- A poll answers. -/
  | poll (answer : Except Unit (List (AgentMessage R M)))
  | prepareNextTurn (answer : Except Unit (Option (AgentLoopTurnUpdate R M)))
  | prepareRequest (answer : Except Unit (Option (AgentRequestUpdate R M)))
  | convert (answer : Except Unit Unit)
  /-- The drain passes an item of the provider on. -/
  | provide (item : DrainItem R)
  /-- The provider's stream ends, or the drain notices that the token fired. -/
  | drainEnds
  /-- The loop takes the next item, or finds the channel closed. -/
  | receive (now : Int)
  /-- The loop notices that the token fired. -/
  | abort (now : Int)
  | batch (event : ScheduleEvent R)
  | finishTurn (answer : Except Unit (Option AgentTurnDecision))

section

variable {R M : Type}

def AgentMessage.role : AgentMessage R M → String
  | assistant _ => "assistant"
  | toolResult _ => "toolResult"
  | other role _ => role

def DrainItem.isFinal : DrainItem R → Bool
  | event (.done _) => true
  | event (.error _) => true
  | event _ => false
  | infra _ => true

def DrainItem.isStart : DrainItem R → Bool
  | event (.start _) => true
  | _ => false

/-- An event of a batch as an event of the run. -/
def AgentEvent.lift : AgentEvent R → LoopEvent R M
  | .toolExecutionStart id name args => .toolExecutionStart id name args
  | .toolExecutionUpdate id name args update => .toolExecutionUpdate id name args update
  | .toolExecutionEnd id name result isError => .toolExecutionEnd id name result isError
  | .messageStart message => .messageStart (.toolResult message)
  | .messageEnd message => .messageEnd (.toolResult message)

/-- The events of a batch as events of the run. -/
def liftLog (log : List (Nat × AgentEvent R)) : List (LoopEvent R M) :=
  log.map fun entry => entry.2.lift

def messagePair (message : AgentMessage R M) : List (LoopEvent R M) :=
  [.messageStart message, .messageEnd message]

def messageHasToolCalls (message : AssistantMessage R) : Bool := message.content.any fun
    | .toolCall _ => true
    | .text _ => false
    | .thinking _ => false

/-- Replace the last message of the transcript. -/
def replaceLastAssistant (context : AgentContext R M) (message : AssistantMessage R) :
    AgentContext R M :=
  { context with messages :=
      if context.messages.isEmpty then [] else context.messages.dropLast ++ [.assistant message] }

/-- Answer every tool call of a truncated message with an error, without executing it. -/
def failToolCallsFromTruncatedMessage [Inhabited R] (clock : Nat → Int)
    (calls : List (ToolCall R)) : List (ToolResultMessage R) × List (AgentEvent R) :=
  let outcomes := calls.mapIdx fun i call =>
    let finalized := FinalizedOutcome.error call
      ("Tool call \"" ++ call.name ++ "\" was not executed: the response hit the output token " ++
        "limit, so its arguments may be truncated. Re-issue the tool call with complete arguments.")
    (call, finalized, toolResultMessage finalized (clock i))
  (outcomes.map fun outcome => outcome.2.2, outcomes.flatMap fun outcome =>
      toolExecutionStart outcome.1 :: toolExecutionEnd outcome.2.1 :: toolResultEvents outcome.2.2)

namespace AgentRun

def goto (r : AgentRun R M) (phase : RunPhase R M) : AgentRun R M := { r with phase := phase }

def emit (r : AgentRun R M) (events : List (LoopEvent R M)) : AgentRun R M :=
  { r with emitted := r.emitted ++ events }

/-- The run is over. -/
def emitAgentEnd (r : AgentRun R M) : AgentRun R M :=
  (r.emit [.agentEnd r.newMessages]).goto (.returned r.newMessages)

/-- Emit each message's pair and append it to the transcript and to the new messages. -/
def appendMessages (r : AgentRun R M) (messages : List (AgentMessage R M)) : AgentRun R M :=
  { r with
    context := { r.context with messages := r.context.messages ++ messages }
    newMessages := r.newMessages ++ messages
    emitted := r.emitted ++ messages.flatMap messagePair }

/-- Append the prepared messages of a turn and the pending ones behind them. -/
def appendTurn (r : AgentRun R M) (messages : List (AgentMessage R M)) : AgentRun R M :=
  { r.appendMessages (messages ++ r.pendingMessages) with
    pendingMessages := []
    positions := r.positions ++
      List.range' (r.newMessages.length + messages.length) r.pendingMessages.length }

/-- A poll handed messages over. -/
def receivePending (r : AgentRun R M) (messages : List (AgentMessage R M)) : AgentRun R M :=
  { r with pendingMessages := messages, handed := r.handed ++ messages }

/-- Append tool results, whose events were emitted by the scheduler. -/
def appendToolResults (r : AgentRun R M) (results : List (ToolResultMessage R)) : AgentRun R M :=
  { r with
    context := { r.context with messages := r.context.messages ++ results.map .toolResult }
    newMessages := r.newMessages ++ results.map .toolResult }

def synthesizeStreamFailure (r : AgentRun R M) (message : String) (now : Int) :
    AssistantMessage R :=
  { content := []
    model := r.model
    stopReason := if r.cancelled then .aborted else .error
    errorMessage := some message
    timestamp := now }

/-- The assistant message ends, and starts first if nothing of it was shown. -/
def finalizeAssistant (r : AgentRun R M) (message : AssistantMessage R) (addedPartial : Bool) :
    AgentRun R M :=
  let shown : AgentRun R M :=
    if addedPartial then { r with context := replaceLastAssistant r.context message }
    else
      { r with
        context := { r.context with messages := r.context.messages ++ [.assistant message] }
        emitted := r.emitted ++ [.messageStart (.assistant message)] }
  (shown.emit [.messageEnd (.assistant message)]).goto (.completing message)

/-- What the hooks after a turn are told of it. -/
def completedTurn (r : AgentRun R M) (message : AssistantMessage R)
    (toolResults : List (ToolResultMessage R)) : AgentTurnContext R M :=
  ⟨message, toolResults, r.context, r.newMessages⟩

/-- The tool results are appended, and the hook after the turn is asked. -/
def finishBatch (r : AgentRun R M) (message : AssistantMessage R)
    (results : List (ToolResultMessage R)) (hasMoreToolCalls : Bool) : AgentRun R M :=
  let appended := r.appendToolResults results
  appended.goto (.finishing (appended.completedTurn message results) (some hasMoreToolCalls))

/-- Append an assistant message that has ended, and begin with its tool calls. -/
def completeTurn [Inhabited R] (r : AgentRun R M) (message : AssistantMessage R)
    (clock : Nat → Int) : AgentRun R M :=
  let r : AgentRun R M := { r with newMessages := r.newMessages ++ [.assistant message] }
  if message.stopReason = .error ∨ message.stopReason = .aborted then
    r.goto (.finishing (r.completedTurn message []) none)
  else if messageHasToolCalls message then
    let calls := toolCallsFromMessage message.content
    if message.stopReason = .length then
      let (results, events) := failToolCallsFromTruncatedMessage clock calls
      (r.emit (events.map AgentEvent.lift)).finishBatch message results true
    else
      r.goto (.executing message (.executeToolCalls r.context.tools r.config calls r.cancelled))
  else r.finishBatch message [] false

/-- The loop takes an item of the stream. -/
def receiveItem (r : AgentRun R M) (stream : Streaming R) (now : Int) : DrainItem R → AgentRun R M
  | .event (.start partialMessage) =>
    { r with
      context := { r.context with messages := r.context.messages ++ [.assistant partialMessage] }
      emitted := r.emitted ++ [.messageStart (.assistant partialMessage)]
      phase := .streaming { stream with addedPartial := true } }
  | .event (.done message) => r.finalizeAssistant message stream.addedPartial
  | .event (.error message) => r.finalizeAssistant message stream.addedPartial
  | .event (.update kind partialMessage) =>
    (if stream.addedPartial then
      r.emit [.messageUpdate (.assistant partialMessage) (.update kind partialMessage)]
    else r).goto (.streaming stream)
  | .infra message => r.finalizeAssistant (r.synthesizeStreamFailure message now) stream.addedPartial

/-- The section from where the run is to where it next waits or looks at the token. -/
def advance [Inhabited R] (r : AgentRun R M) (clock : Nat → Int) : Option (AgentRun R M) :=
  match r.phase with
  | .outer => some { r with hasMoreToolCalls := true, phase := .inner }
  | .inner =>
    if r.hasMoreToolCalls || !r.pendingMessages.isEmpty then
      match r.lastCompletedTurn with
      | some turn => some { r with lastCompletedTurn := none, phase := .continuing turn }
      | none => some (r.goto (.appending []))
    else some (r.goto .followingUp)
  | .continuing _ => some (if r.cancelled then r.emitAgentEnd else r.goto .preparing)
  | .prepared messages =>
    some (if r.cancelled then r.emitAgentEnd
      else if r.pendingMessages.isEmpty then r.goto (.repolling messages)
      else r.goto (.opening messages))
  | .repolled messages => some (if r.cancelled then r.emitAgentEnd else r.goto (.opening messages))
  | .opening messages => some ((r.emit [.turnStart]).goto (.appending messages))
  | .appending messages => some ((r.appendTurn messages).goto .requesting)
  | .completing message => some (r.completeTurn message clock)
  | .executing message batch =>
    match batch.phase with
    | .returned result =>
      some ((r.emit (liftLog batch.log)).finishBatch message result.messages !result.terminate)
    | _ => none
  | .decided turn hasMoreToolCalls decision =>
    let r : AgentRun R M := { r with hasMoreToolCalls := hasMoreToolCalls }
    some (if decision = some .end then r.emitAgentEnd else if r.cancelled then r.emitAgentEnd
      else { r with explicitContinuation := decision = some .continue, phase := .polling turn })
  | .polled turn =>
    some (if r.cancelled then r.emitAgentEnd else
        { r with
          explicitContinuation := r.explicitContinuation &&
            !(r.hasMoreToolCalls || !r.pendingMessages.isEmpty)
          lastCompletedTurn := some turn
          phase := .inner })
  | _ => none

/-- A poll answers. -/
def answerPoll (r : AgentRun R M) (answer : Except Unit (List (AgentMessage R M))) :
    Option (AgentRun R M) :=
  match r.phase, answer with
  | .steering, .ok messages => some ((r.receivePending messages).goto .outer)
  | .repolling prepared, .ok messages =>
    some ((r.receivePending messages).goto (.repolled prepared))
  | .polling turn, .ok messages => some ((r.receivePending messages).goto (.polled turn))
  | .followingUp, .ok messages =>
    if messages.isEmpty then
      if r.explicitContinuation then
        some { r with explicitContinuation := false, phase := .outer }
      else some r.emitAgentEnd
    else
      some { r.receivePending messages with explicitContinuation := false, phase := .outer }
  | .steering, .error () => some (r.goto .failed)
  | .repolling _, .error () => some (r.goto .failed)
  | .polling _, .error () => some (r.goto .failed)
  | .followingUp, .error () => some (r.goto .failed)
  | _, _ => none

/-- The hook that prepares the next turn answers. -/
def prepareNextTurn (r : AgentRun R M) :
    Except Unit (Option (AgentLoopTurnUpdate R M)) → AgentRun R M
  | .error () => r.goto .failed
  | .ok none => r.goto (.prepared [])
  | .ok (some update) =>
    { r with
      context := update.context.getD r.context
      model := update.model.getD r.model
      phase := .prepared (update.messages.getD []) }

/-- The hook before the request answers. -/
def prepareRequest (r : AgentRun R M) : Except Unit (Option (AgentRequestUpdate R M)) → AgentRun R M
  | .error () => r.goto .failed
  | .ok none => r.goto .converting
  | .ok (some update) =>
    { r with
      context := update.context.getD r.context
      model := update.model.getD r.model
      phase := .converting }

/-- The hook after the turn answers, and the turn ends. -/
def finishTurn (r : AgentRun R M) (turn : AgentTurnContext R M) (hasMoreToolCalls : Option Bool) :
    Except Unit (Option AgentTurnDecision) → AgentRun R M
  | .error () => r.goto .failed
  | .ok decision =>
    let ended := r.emit [.turnEnd (.assistant turn.message) turn.toolResults]
    match hasMoreToolCalls with
    | none => ended.emitAgentEnd
    | some hasMore => ended.goto (.decided turn hasMore decision)

/-- The token fires. -/
def cancel (r : AgentRun R M) : AgentRun R M := let r := { r with cancelled := true }
  match r.phase with
  | .executing message batch => r.goto (.executing message (batch.cancel.getD batch))
  | _ => r

/-- One step. -/
def step [Inhabited R] (r : AgentRun R M) : RunEvent R M → Option (AgentRun R M)
  | .cancel => some r.cancel
  | .advance clock => r.advance clock
  | .poll answer => r.answerPoll answer
  | .prepareNextTurn answer =>
    match r.phase with
    | .preparing => some (r.prepareNextTurn answer)
    | _ => none
  | .prepareRequest answer =>
    match r.phase with
    | .requesting => some (r.prepareRequest answer)
    | _ => none
  | .convert answer =>
    match r.phase, answer with
    | .converting, .ok () => some (r.goto (.streaming ⟨false, [], true, []⟩))
    | .converting, .error () => some (r.goto .failed)
    | _, _ => none
  | .provide item =>
    match r.phase with
    | .streaming stream =>
      if stream.draining ∧ stream.channel.length < drainEventCapacity then
        some (r.goto (.streaming { stream with
            channel := stream.channel ++ [item]
            -- The drain ends with the first final item.
            draining := !item.isFinal
            sent := stream.sent ++ [item] }))
      else none
    | _ => none
  | .drainEnds =>
    match r.phase with
    | .streaming stream => some (r.goto (.streaming { stream with draining := false }))
    | _ => none
  | .receive now =>
    match r.phase with
    | .streaming stream =>
      match stream.channel with
      | item :: rest =>
        -- A token that fired owns the outcome even when an item is there.
        some (if r.cancelled then
          r.finalizeAssistant (r.synthesizeStreamFailure "stream cancelled" now) stream.addedPartial
        else r.receiveItem { stream with channel := rest } now item)
      | [] =>
        if stream.draining then none
        else
          let message := if r.cancelled then "stream cancelled"
            else "provider stream closed without a final message"
          some (r.finalizeAssistant (r.synthesizeStreamFailure message now) stream.addedPartial)
    | _ => none
  | .abort now =>
    match r.phase with
    | .streaming stream =>
      if r.cancelled then
        some (r.finalizeAssistant (r.synthesizeStreamFailure "stream cancelled" now)
          stream.addedPartial)
      else none
    | _ => none
  | .batch event =>
    match r.phase with
    | .executing message batch =>
      -- The token of a batch is the token of the run.
      if event matches .cancel then none
      else
        (Schedule.step r.context.tools r.config (toolCallsFromMessage message.content) batch
          event).map fun next => r.goto (.executing message next)
    | _ => none
  | .finishTurn answer =>
    match r.phase with
    | .finishing turn hasMoreToolCalls => some (r.finishTurn turn hasMoreToolCalls answer)
    | _ => none

/-- The events that were emitted, those of a batch in flight included. -/
def trace (r : AgentRun R M) : List (LoopEvent R M) := match r.phase with
  | .executing _ batch => r.emitted ++ liftLog batch.log
  | _ => r.emitted

/-- A run that starts from prompts. -/
def runAgentLoop (prompts : List (AgentMessage R M)) (context : AgentContext R M)
    (config : AgentLoopConfig) (model : Model) (cancelled : Bool) : AgentRun R M where
  cancelled := cancelled
  config := config
  model := model
  context := { context with messages := context.messages ++ prompts }
  newMessages := prompts
  pendingMessages := []
  lastCompletedTurn := none
  explicitContinuation := false
  hasMoreToolCalls := false
  emitted := [.agentStart, .turnStart] ++ prompts.flatMap messagePair
  phase := .steering
  handed := []
  positions := []

/-- A run that continues a transcript, which must not end with an assistant message. -/
def runAgentLoopContinue (context : AgentContext R M) (config : AgentLoopConfig) (model : Model)
    (cancelled : Bool) : Except String (AgentRun R M) :=
  match context.messages.getLast? with
  | none => .error "Cannot continue: no messages in context"
  | some last =>
    if last.role = "assistant" then .error "Cannot continue from message role: assistant"
    else .ok (runAgentLoop [] context config model cancelled)

/-- Both ways to start a run. -/
def Starts (r : AgentRun R M) : Prop := (∃ prompts context config model cancelled,
    r = runAgentLoop prompts context config model cancelled) ∨
  ∃ context config model cancelled, runAgentLoopContinue context config model cancelled = .ok r

def machine [Inhabited R] : Machine (AgentRun R M) (RunEvent R M) where
  start := Starts
  step := step

end AgentRun

end

end PiOxidized.Agent
