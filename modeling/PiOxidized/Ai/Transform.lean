/-
# A history for another model

The messages of a conversation are rewritten for the model they are sent to: what it cannot read
is replaced, ids of tool calls are normalized, and every tool call gets a result.  The first pass
rewrites one message after the other with a map of the ids that changed; the second one drops
messages that failed, holds system messages back and makes up the results that are missing.
-/

import PiOxidized.Ai.Message
import PiOxidized.Math.Dict
import PiOxidized.Math.Text

namespace PiOxidized.Ai

open Math

inductive ModelInput
  | text
  | image
  deriving DecidableEq

/-- What of a model a history depends on. -/
structure Model where
  id : String
  api : String
  provider : String
  input : List ModelInput
  deriving DecidableEq

/-- The id that a model wants for a tool call of a message. -/
abbrev NormalizeToolCallId := String → Model → AssistantMessage → String

/-! ## One message -/

/-- Replace each run of images by a placeholder; `previous` says whether one has just been
written. -/
def replaceImages {B : Type} (placeholder : String) (text : B → Option String) (write : String → B)
    (previous : Bool) : List B → List B
  | [] => []
  | block :: blocks =>
    match text block with
    | none =>
      if previous then replaceImages placeholder text write true blocks
      else write placeholder :: replaceImages placeholder text write true blocks
    | some found => block :: replaceImages placeholder text write (found == placeholder) blocks

def replaceUserImages (content : List UserContent) : List UserContent :=
  replaceImages "(image omitted: model does not support images)" (fun
      | .text text => some text.text
      | .image _ => none)
    (fun text => .text (.new text)) false content

def replaceToolImages (content : List ToolResultContent) : List ToolResultContent :=
  replaceImages "(tool image omitted: model does not support images)" (fun
      | .text text => some text.text
      | .image _ => none)
    (fun text => .text (.new text)) false content

def transformUser (model : Model) (user : UserMessage) : UserMessage :=
  if model.input.contains .image then user
  else
    match user.content with
    | .blocks content => { user with content := .blocks (replaceUserImages content) }
    | .text _ => user

def sameModel (model : Model) (assistant : AssistantMessage) : Bool :=
  assistant.provider == model.provider && assistant.api == model.api && assistant.model == model.id

/-- Rewrite one block, with the ids that have changed so far. -/
def transformBlock (model : Model) (normalize : NormalizeToolCallId) (assistant : AssistantMessage)
    (idMap : Dict String String) : AssistantContent → List AssistantContent × Dict String String
  | .text text =>
    if sameModel model assistant then ([.text text], idMap)
    else ([.text (.new text.text)], idMap)
  | .thinking thinking =>
    if thinking.redacted == some true then
      (if sameModel model assistant then [.thinking thinking] else [], idMap)
    else if sameModel model assistant && thinking.thinkingSignature.isSome then
      ([.thinking thinking], idMap)
    else if (trim thinking.thinking.toList).isEmpty then ([], idMap)
    else if sameModel model assistant then ([.thinking thinking], idMap)
    else ([.text (.new thinking.thinking)], idMap)
  | .toolCall toolCall =>
    if sameModel model assistant then ([.toolCall toolCall], idMap)
    else
      let normalized := normalize toolCall.id model assistant
      let toolCall := { toolCall with thoughtSignature := none }
      if normalized ≠ toolCall.id then
        ([.toolCall { toolCall with id := normalized }], idMap.insert toolCall.id normalized)
      else ([.toolCall toolCall], idMap)

def transformBlocks (model : Model) (normalize : NormalizeToolCallId)
    (assistant : AssistantMessage) (idMap : Dict String String) :
    List AssistantContent → List AssistantContent × Dict String String
  | [] => ([], idMap)
  | block :: blocks =>
    let (content, idMap) := transformBlock model normalize assistant idMap block
    let (rest, idMap) := transformBlocks model normalize assistant idMap blocks
    (content ++ rest, idMap)

def transformAssistant (model : Model) (normalize : NormalizeToolCallId)
    (assistant : AssistantMessage) (idMap : Dict String String) :
    AssistantMessage × Dict String String :=
  let (content, idMap) := transformBlocks model normalize assistant idMap assistant.content
  ({ assistant with content := content }, idMap)

def transformToolResult (model : Model) (idMap : Dict String String) (result : ToolResultMessage) :
    ToolResultMessage :=
  { result with
    toolCallId := (idMap.get? result.toolCallId).getD result.toolCallId
    content :=
      if model.input.contains .image then result.content else replaceToolImages result.content }

/-- The first pass. -/
def transformAll (model : Model) (normalize : NormalizeToolCallId) (idMap : Dict String String) :
    List Message → List Message
  | [] => []
  | .system system :: messages => .system system :: transformAll model normalize idMap messages
  | .user user :: messages =>
    .user (transformUser model user) :: transformAll model normalize idMap messages
  | .assistant assistant :: messages =>
    let (assistant, idMap) := transformAssistant model normalize assistant idMap
    .assistant assistant :: transformAll model normalize idMap messages
  | .toolResult result :: messages =>
    .toolResult (transformToolResult model idMap result) ::
      transformAll model normalize idMap messages

/-! ## The sequence of results -/

def AssistantMessage.toolCalls (assistant : AssistantMessage) : List ToolCall :=
  assistant.content.filterMap fun
    | .toolCall toolCall => some toolCall
    | .text _ => none
    | .thinking _ => none

/-- A message that failed or was cut off is not sent again. -/
def AssistantMessage.failed (assistant : AssistantMessage) : Bool :=
  assistant.stopReason == .error || assistant.stopReason == .aborted

/-- Where the second pass is. -/
structure RepairState where
  result : List Message
  pending : List ToolCall
  resultIds : List String
  heldSystemMessages : List SystemMessage

/-- The result of a call that has none; `clock` says when it is made up. -/
def missingToolResult (clock : ToolCall → Int) (toolCall : ToolCall) : Message :=
  .toolResult (.new toolCall.id toolCall.name [.text (.new "No result provided")] true
    (clock toolCall))

def missingToolResults (clock : ToolCall → Int) (pending : List ToolCall)
    (resultIds : List String) : List Message :=
  (pending.filter fun toolCall => !resultIds.contains toolCall.id).map (missingToolResult clock)

namespace RepairState

/-- The missing results and then the messages that were held back. -/
def flush (clock : ToolCall → Int) (state : RepairState) : List Message :=
  state.result ++ missingToolResults clock state.pending state.resultIds ++
    state.heldSystemMessages.map .system

def step (clock : ToolCall → Int) (state : RepairState) : Message → RepairState
  | .assistant assistant =>
    if assistant.failed then ⟨state.flush clock, [], [], []⟩
    else ⟨state.flush clock ++ [.assistant assistant], assistant.toolCalls, [], []⟩
  | .toolResult toolResult =>
    { state with
      result := state.result ++ [.toolResult toolResult]
      resultIds := toolResult.toolCallId :: state.resultIds }
  | .user user => ⟨state.flush clock ++ [.user user], [], [], []⟩
  | .system system =>
    if state.pending.isEmpty then { state with result := state.result ++ [.system system] }
    else { state with heldSystemMessages := state.heldSystemMessages ++ [system] }

end RepairState

/-- The second pass. -/
def repairToolResultSequence (clock : ToolCall → Int) (messages : List Message) : List Message :=
  (messages.foldl (RepairState.step clock) ⟨[], [], [], []⟩).flush clock

/-- The history for a model. -/
def transformMessages (model : Model) (normalize : NormalizeToolCallId) (clock : ToolCall → Int)
    (messages : List Message) : List Message :=
  repairToolResultSequence clock (transformAll model normalize .empty messages)

end PiOxidized.Ai
