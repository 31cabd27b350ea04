/-
# Compact frames of an assistant message

An encoder turns the events of one response into frames that are stored; a reducer rebuilds the
message from the frames.  Both keep the states of the blocks by their index, each with its own
rules on which transitions are allowed.
-/

import PiOxidized.Ai.Message
import PiOxidized.Ai.StreamingJson
import PiOxidized.Math.Dict

namespace PiOxidized.Ai

open Math

/-- The largest content index. -/
def maxSafeInteger : Nat := 9007199254740991

/-- The kinds of blocks. -/
inductive BlockKind
  | text
  | thinking
  | toolCall
  deriving DecidableEq

def BlockKind.asStr : BlockKind → String
  | text => "text"
  | thinking => "thinking"
  | toolCall => "toolCall"

/-- The kind of a block of content. -/
def contentKind : AssistantContent → BlockKind
  | .text _ => .text
  | .thinking _ => .thinking
  | .toolCall _ => .toolCall

/-! ## Events and frames -/

/-- What a provider reports, with the message so far. -/
inductive AssistantMessageEvent
  | start (partialMessage : AssistantMessage)
  | textStart (contentIndex : Nat) (partialMessage : AssistantMessage)
  | textDelta (contentIndex : Nat) (delta : String)
  | textEnd (contentIndex : Nat) (content : String) (partialMessage : AssistantMessage)
  | thinkingStart (contentIndex : Nat) (partialMessage : AssistantMessage)
  | thinkingDelta (contentIndex : Nat) (delta : String)
  | thinkingEnd (contentIndex : Nat) (content : String) (partialMessage : AssistantMessage)
  | toolCallStart (contentIndex : Nat) (partialMessage : AssistantMessage)
  | toolCallDelta (contentIndex : Nat) (delta : String)
  | toolCallEnd (contentIndex : Nat) (toolCall : ToolCall) (partialMessage : AssistantMessage)
  | done
  | error

inductive AssistantMessageFrame
  | start (partialMessage : AssistantMessage)
  | textStart (contentIndex : Nat) (content : TextContent)
  | textDelta (contentIndex : Nat) (delta : String)
  | textEnd (contentIndex : Nat) (content : String) (textSignature : Option String)
  | thinkingStart (contentIndex : Nat) (content : ThinkingContent)
  | thinkingDelta (contentIndex : Nat) (delta : String)
  | thinkingEnd (contentIndex : Nat) (content : String) (thinkingSignature : Option String)
      (redacted : Option Bool)
  | toolCallStart (contentIndex : Nat) (toolCall : ToolCall)
  | toolCallCheckpoint (contentIndex : Nat) (json : String)
  | toolCallDelta (contentIndex : Nat) (delta : String)
  | toolCallEnd (contentIndex : Nat) (id name : String) (arguments : JsonMap)
      (thoughtSignature namespaceName : Option String)

def eventType : AssistantMessageEvent → String
  | .start _ => "start"
  | .textStart _ _ => "text_start"
  | .textDelta _ _ => "text_delta"
  | .textEnd _ _ _ => "text_end"
  | .thinkingStart _ _ => "thinking_start"
  | .thinkingDelta _ _ => "thinking_delta"
  | .thinkingEnd _ _ _ => "thinking_end"
  | .toolCallStart _ _ => "toolcall_start"
  | .toolCallDelta _ _ => "toolcall_delta"
  | .toolCallEnd _ _ _ => "toolcall_end"
  | .done => "done"
  | .error => "error"

/-- Whether an event may be the first one. -/
def AssistantMessageEvent.mayComeFirst : AssistantMessageEvent → Bool
  | .start _ => true
  | .done => true
  | .error => true
  | _ => false

def frameType : AssistantMessageFrame → String
  | .start _ => "start"
  | .textStart _ _ => "text_start"
  | .textDelta _ _ => "text_delta"
  | .textEnd _ _ _ => "text_end"
  | .thinkingStart _ _ => "thinking_start"
  | .thinkingDelta _ _ => "thinking_delta"
  | .thinkingEnd _ _ _ _ => "thinking_end"
  | .toolCallStart _ _ => "toolcall_start"
  | .toolCallCheckpoint _ _ => "toolcall_checkpoint"
  | .toolCallDelta _ _ => "toolcall_delta"
  | .toolCallEnd _ _ _ _ _ _ => "toolcall_end"

/-! ## Indices -/

def checkedIndex (contentIndex : Nat) : Except FrameError Unit :=
  if maxSafeInteger < contentIndex then
    .error ⟨s!"Invalid assistant message frame contentIndex: {contentIndex}"⟩
  else .ok ()

/-- The block of the message so far that an event points to. -/
def eventBlock (partialMessage : AssistantMessage) (contentIndex : Nat) (type : String) :
    Except FrameError AssistantContent := do
  checkedIndex contentIndex
  match partialMessage.content[contentIndex]? with
  | some block => .ok block
  | none => .error ⟨s!"{type} event has no content block at index {contentIndex}"⟩

def pointsTo (type : String) (block : AssistantContent) (contentIndex : Nat) : FrameError :=
  ⟨s!"{type} event points to {(contentKind block).asStr} block at index {contentIndex}"⟩

/-- The header of a message that has just begun, never a settled one. -/
def cloneStartMessage (message : AssistantMessage) : AssistantMessage :=
  { AssistantMessage.new message.api message.provider message.model message.timestamp with
    responseModel := message.responseModel
    responseId := message.responseId
    providerThinkingLevel := message.providerThinkingLevel
    diagnostics := message.diagnostics
    usage := message.usage
    stopReason := .pending }

/-! ## The encoder -/

inductive EncoderBlockState
  | text
  | thinking
  | toolCall (caughtUp : Bool) (catchupJson snapshotArguments : String)
  deriving DecidableEq

def EncoderBlockState.encoderKind : EncoderBlockState → BlockKind
  | text => .text
  | thinking => .thinking
  | toolCall _ _ _ => .toolCall

structure AssistantMessageFrameEncoder where
  started : Bool
  terminal : Bool
  blocks : Dict Nat EncoderBlockState
  nextContentIndex : Nat
  deriving DecidableEq

/-- What the encoder is after an event, and what it answers. -/
abbrev Encoded (A : Type) := AssistantMessageFrameEncoder × Except FrameError A

namespace AssistantMessageFrameEncoder

def new : AssistantMessageFrameEncoder := ⟨false, false, .empty, 0⟩

def startBlock (encoder : AssistantMessageFrameEncoder) (contentIndex : Nat)
    (state : EncoderBlockState) : Except FrameError AssistantMessageFrameEncoder := do
  checkedIndex contentIndex
  if encoder.blocks.contains contentIndex then
    .error ⟨s!"Assistant message block {contentIndex} starts more than once"⟩
  else if contentIndex ≠ encoder.nextContentIndex then
    .error ⟨s!"Cannot start assistant message block at index {contentIndex}: " ++
      s!"expected {encoder.nextContentIndex}"⟩
  else
    .ok { encoder with
        blocks := encoder.blocks.insert contentIndex state
        nextContentIndex := encoder.nextContentIndex + 1 }

def block (encoder : AssistantMessageFrameEncoder) (contentIndex : Nat) (kind : BlockKind) :
    Except FrameError EncoderBlockState := do
  checkedIndex contentIndex
  match encoder.blocks.get? contentIndex with
  | none =>
    .error ⟨s!"Assistant message {kind.asStr} block {contentIndex} has not started"⟩
  | some state =>
    if state.encoderKind ≠ kind then
      .error ⟨s!"Assistant message block {contentIndex} is {state.encoderKind.asStr}, " ++
        s!"not {kind.asStr}"⟩
    else .ok state

def endBlock (encoder : AssistantMessageFrameEncoder) (contentIndex : Nat) (kind : BlockKind) :
    Except FrameError AssistantMessageFrameEncoder := do
  let _ ← encoder.block contentIndex kind
  .ok { encoder with blocks := encoder.blocks.erase contentIndex }

/-- The answer of a step that changes nothing when it fails. -/
def settle {A : Type} (encoder : AssistantMessageFrameEncoder) :
    Except FrameError (AssistantMessageFrameEncoder × A) → Encoded A
  | .ok (encoder', answer) => (encoder', .ok answer)
  | .error error => (encoder, .error error)

def encodeStart (encoder : AssistantMessageFrameEncoder) (partialMessage : AssistantMessage) :
    Except FrameError (AssistantMessageFrameEncoder × Option AssistantMessageFrame) :=
  if encoder.started then
    .error ⟨"Assistant message stream contains more than one start event"⟩
  else
    .ok ({ encoder with started := true }, some (.start (cloneStartMessage partialMessage)))

def encodeDone (encoder : AssistantMessageFrameEncoder) :
    Except FrameError (AssistantMessageFrameEncoder × Option AssistantMessageFrame) :=
  if !encoder.started then .error ⟨"Assistant message done event appears before start"⟩
  else .ok ({ encoder with terminal := true }, none)

def encodeTextStart (encoder : AssistantMessageFrameEncoder) (contentIndex : Nat)
    (partialMessage : AssistantMessage) :
    Except FrameError (AssistantMessageFrameEncoder × Option AssistantMessageFrame) := do
  match ← eventBlock partialMessage contentIndex "text_start" with
  | .text content =>
    let encoder ← encoder.startBlock contentIndex .text
    .ok (encoder, some (.textStart contentIndex content))
  | block => .error (pointsTo "text_start" block contentIndex)

def encodeTextEnd (encoder : AssistantMessageFrameEncoder) (contentIndex : Nat) (content : String)
    (partialMessage : AssistantMessage) :
    Except FrameError (AssistantMessageFrameEncoder × Option AssistantMessageFrame) := do
  match ← eventBlock partialMessage contentIndex "text_end" with
  | .text text =>
    let encoder ← encoder.endBlock contentIndex .text
    .ok (encoder, some (.textEnd contentIndex content text.textSignature))
  | block => .error (pointsTo "text_end" block contentIndex)

def encodeThinkingStart (encoder : AssistantMessageFrameEncoder) (contentIndex : Nat)
    (partialMessage : AssistantMessage) :
    Except FrameError (AssistantMessageFrameEncoder × Option AssistantMessageFrame) := do
  match ← eventBlock partialMessage contentIndex "thinking_start" with
  | .thinking content =>
    let encoder ← encoder.startBlock contentIndex .thinking
    .ok (encoder, some (.thinkingStart contentIndex content))
  | block => .error (pointsTo "thinking_start" block contentIndex)

def encodeThinkingEnd (encoder : AssistantMessageFrameEncoder) (contentIndex : Nat)
    (content : String) (partialMessage : AssistantMessage) :
    Except FrameError (AssistantMessageFrameEncoder × Option AssistantMessageFrame) := do
  match ← eventBlock partialMessage contentIndex "thinking_end" with
  | .thinking thinking =>
    let encoder ← encoder.endBlock contentIndex .thinking
    .ok (encoder,
      some (.thinkingEnd contentIndex content thinking.thinkingSignature thinking.redacted))
  | block => .error (pointsTo "thinking_end" block contentIndex)

variable (library : JsonLibrary)

def encodeToolCallStart (encoder : AssistantMessageFrameEncoder) (contentIndex : Nat)
    (partialMessage : AssistantMessage) :
    Except FrameError (AssistantMessageFrameEncoder × Option AssistantMessageFrame) := do
  match ← eventBlock partialMessage contentIndex "toolcall_start" with
  | .toolCall toolCall =>
    let snapshotArguments ← serializedArguments library toolCall.arguments
    let emptyArguments ← serializedArguments library (parseStreamingJson library [])
    let caughtUp := snapshotArguments == emptyArguments
    let encoder ← encoder.startBlock contentIndex
      (.toolCall caughtUp "" (if caughtUp then "" else snapshotArguments))
    .ok (encoder, some (.toolCallStart contentIndex toolCall))
  | block => .error (pointsTo "toolcall_start" block contentIndex)

def encodeToolCallEnd (encoder : AssistantMessageFrameEncoder) (contentIndex : Nat)
    (toolCall : ToolCall) (partialMessage : AssistantMessage) :
    Except FrameError (AssistantMessageFrameEncoder × Option AssistantMessageFrame) := do
  match ← eventBlock partialMessage contentIndex "toolcall_end" with
  | .toolCall _ =>
    let encoder ← encoder.endBlock contentIndex .toolCall
    .ok (encoder, some (.toolCallEnd contentIndex toolCall.id toolCall.name toolCall.arguments
        toolCall.thoughtSignature toolCall.namespaceName))
  | block => .error (pointsTo "toolcall_end" block contentIndex)

/-- Deltas of text and of thinking differ in the kind of their block only. -/
def encodeTextDelta (encoder : AssistantMessageFrameEncoder) (contentIndex : Nat) (delta : String)
    (kind : BlockKind) (frame : Nat → String → AssistantMessageFrame) :
    Except FrameError (AssistantMessageFrameEncoder × Option AssistantMessageFrame) := do
  let _ ← encoder.block contentIndex kind
  .ok (encoder, if delta.isEmpty then none else some (frame contentIndex delta))

/-- The text so far is stored before it is compared with the snapshot, so that a comparison that
failed would leave it there. -/
def encodeToolCallDelta (encoder : AssistantMessageFrameEncoder) (contentIndex : Nat)
    (delta : String) : Encoded (Option AssistantMessageFrame) :=
  match encoder.block contentIndex .toolCall with
  | .error error => (encoder, .error error)
  | .ok (.toolCall true _ _) =>
    (encoder, .ok (if delta.isEmpty then none else some (.toolCallDelta contentIndex delta)))
  | .ok (.toolCall false catchupJson snapshotArguments) =>
    let json := catchupJson ++ delta
    let store state := { encoder with blocks := encoder.blocks.insert contentIndex state }
    let behind := store (.toolCall false json snapshotArguments)
    let argumentsValue := parseStreamingJson library json.toList
    match serializedArguments library argumentsValue with
    | .error error => (behind, .error error)
    | .ok serialized =>
      let snapshotValue := parseStreamingJson library snapshotArguments.toList
      if serialized = snapshotArguments ∨
          isJsonPrefix (.object snapshotValue) (.object argumentsValue) then
        (store (.toolCall true "" ""),
          .ok (if json.isEmpty then none else some (.toolCallCheckpoint contentIndex json)))
      else (behind, .ok none)
  | .ok _ => (encoder, .error ⟨"Unreachable tool-call encoder state"⟩)

/-- One event.  Nothing follows a terminal event, and nothing but a terminal event may come in
front of the start. -/
def encode (encoder : AssistantMessageFrameEncoder) (event : AssistantMessageEvent) :
    Encoded (Option AssistantMessageFrame) :=
  if encoder.terminal then
    (encoder, .error ⟨s!"Assistant message event {eventType event} follows a terminal event"⟩)
  else if !encoder.started && !event.mayComeFirst then
    (encoder, .error ⟨s!"Assistant message {eventType event} event appears before start"⟩)
  else
    match event with
    | .start partialMessage => encoder.settle (encoder.encodeStart partialMessage)
    | .done => encoder.settle encoder.encodeDone
    | .error => ({ encoder with terminal := true }, .ok none)
    | .textStart contentIndex partialMessage =>
      encoder.settle (encoder.encodeTextStart contentIndex partialMessage)
    | .textDelta contentIndex delta =>
      encoder.settle (encoder.encodeTextDelta contentIndex delta .text .textDelta)
    | .textEnd contentIndex content partialMessage =>
      encoder.settle (encoder.encodeTextEnd contentIndex content partialMessage)
    | .thinkingStart contentIndex partialMessage =>
      encoder.settle (encoder.encodeThinkingStart contentIndex partialMessage)
    | .thinkingDelta contentIndex delta =>
      encoder.settle (encoder.encodeTextDelta contentIndex delta .thinking .thinkingDelta)
    | .thinkingEnd contentIndex content partialMessage =>
      encoder.settle (encoder.encodeThinkingEnd contentIndex content partialMessage)
    | .toolCallStart contentIndex partialMessage =>
      encoder.settle (encoder.encodeToolCallStart library contentIndex partialMessage)
    | .toolCallDelta contentIndex delta =>
      encoder.encodeToolCallDelta library contentIndex delta
    | .toolCallEnd contentIndex toolCall partialMessage =>
      encoder.settle (encoder.encodeToolCallEnd contentIndex toolCall partialMessage)

/-- What the encoder is after some events, and the frames it has emitted. -/
def run (encoder : AssistantMessageFrameEncoder) :
    List AssistantMessageEvent → AssistantMessageFrameEncoder × List AssistantMessageFrame
  | [] => (encoder, [])
  | event :: events =>
    match encoder.encode library event with
    | (encoder', .ok (some frame)) =>
      let (last, frames) := encoder'.run events
      (last, frame :: frames)
    | (encoder', _) => encoder'.run events

end AssistantMessageFrameEncoder

/-! ## The reducer -/

inductive ReducerBlockState
  | text (ended : Bool)
  | thinking (ended : Bool)
  | toolCall (ended : Bool) (json : String)
  deriving DecidableEq

namespace ReducerBlockState

def kind : ReducerBlockState → BlockKind
  | text _ => .text
  | thinking _ => .thinking
  | toolCall _ _ => .toolCall

def ended : ReducerBlockState → Bool
  | text ended => ended
  | thinking ended => ended
  | toolCall ended _ => ended

end ReducerBlockState

/-- The message that is rebuilt and the states of its blocks. -/
structure Reduction where
  message : AssistantMessage
  states : Dict Nat ReducerBlockState

namespace Reduction

def appendBlock (current : Reduction) (contentIndex : Nat) (block : AssistantContent)
    (state : ReducerBlockState) : Except FrameError Reduction := do
  checkedIndex contentIndex
  if contentIndex ≠ current.message.content.length then
    let reason := if contentIndex < current.message.content.length then "already exists"
      else "would leave a gap"
    .error ⟨s!"Cannot start assistant message block at index {contentIndex}: {reason}"⟩
  else
    .ok
      { message := { current.message with content := current.message.content ++ [block] }
        states := current.states.insert contentIndex state }

/-- The block of a kind that has started and not ended. -/
def activeBlock (current : Reduction) (contentIndex : Nat) (expectedKind : BlockKind)
    (type : String) : Except FrameError (AssistantContent × ReducerBlockState) := do
  checkedIndex contentIndex
  match current.states.get? contentIndex, current.message.content[contentIndex]? with
  | some state, some block =>
    if state.kind ≠ expectedKind ∨ contentKind block ≠ expectedKind then
      .error ⟨s!"{type} frame expected {expectedKind.asStr} block at index {contentIndex}, " ++
        s!"found {(contentKind block).asStr}"⟩
    else if state.ended then
      .error ⟨s!"{type} frame follows the end of block at index {contentIndex}"⟩
    else .ok (block, state)
  | _, _ => .error ⟨s!"{type} frame has no started block at index {contentIndex}"⟩

/-- Store a block and its state. -/
def store (current : Reduction) (contentIndex : Nat) (block : AssistantContent)
    (state : ReducerBlockState) : Reduction where
  message := { current.message with content := current.message.content.set contentIndex block }
  states := current.states.insert contentIndex state

variable (library : JsonLibrary)

def reduceTextDelta (current : Reduction) (contentIndex : Nat) (delta : String) :
    Except FrameError Reduction := do
  match ← current.activeBlock contentIndex .text "text_delta" with
  | (.text text, state) =>
    .ok (current.store contentIndex (.text { text with text := text.text ++ delta }) state)
  | _ => .error ⟨"Unreachable text frame state"⟩

def reduceTextEnd (current : Reduction) (contentIndex : Nat) (content : String)
    (textSignature : Option String) : Except FrameError Reduction := do
  match ← current.activeBlock contentIndex .text "text_end" with
  | (.text _, .text _) =>
    .ok (current.store contentIndex (.text ⟨content, textSignature⟩) (.text true))
  | (.text _, _) => .error ⟨"Unreachable text reducer state"⟩
  | _ => .error ⟨"Unreachable text frame state"⟩

def reduceThinkingDelta (current : Reduction) (contentIndex : Nat) (delta : String) :
    Except FrameError Reduction := do
  match ← current.activeBlock contentIndex .thinking "thinking_delta" with
  | (.thinking thinking, state) =>
    .ok (current.store contentIndex
      (.thinking { thinking with thinking := thinking.thinking ++ delta }) state)
  | _ => .error ⟨"Unreachable thinking frame state"⟩

def reduceThinkingEnd (current : Reduction) (contentIndex : Nat) (content : String)
    (thinkingSignature : Option String) (redacted : Option Bool) :
    Except FrameError Reduction := do
  match ← current.activeBlock contentIndex .thinking "thinking_end" with
  | (.thinking _, .thinking _) =>
    .ok (current.store contentIndex (.thinking ⟨content, thinkingSignature, redacted⟩)
      (.thinking true))
  | (.thinking _, _) => .error ⟨"Unreachable thinking reducer state"⟩
  | _ => .error ⟨"Unreachable thinking frame state"⟩

def reduceToolCallCheckpoint (current : Reduction) (contentIndex : Nat) (json : String) :
    Except FrameError Reduction := do
  match ← current.activeBlock contentIndex .toolCall "toolcall_checkpoint" with
  | (.toolCall toolCall, .toolCall ended _) =>
    .ok (current.store contentIndex
      (.toolCall { toolCall with arguments := parseStreamingJson library json.toList })
      (.toolCall ended json))
  | _ => .error ⟨"Unreachable tool-call checkpoint state"⟩

def reduceToolCallDelta (current : Reduction) (contentIndex : Nat) (delta : String) :
    Except FrameError Reduction := do
  match ← current.activeBlock contentIndex .toolCall "toolcall_delta" with
  | (block, .toolCall ended json) =>
    .ok (current.store contentIndex block (.toolCall ended (json ++ delta)))
  | _ => .error ⟨"Unreachable tool-call frame state"⟩

def reduceToolCallEnd (current : Reduction) (contentIndex : Nat) (id name : String)
    (arguments : JsonMap) (thoughtSignature namespaceName : Option String) :
    Except FrameError Reduction := do
  match ← current.activeBlock contentIndex .toolCall "toolcall_end" with
  | (.toolCall _, .toolCall _ json) =>
    .ok (current.store contentIndex
      (.toolCall ⟨id, name, arguments, thoughtSignature, namespaceName⟩) (.toolCall true json))
  | (.toolCall _, _) => .error ⟨"Unreachable tool-call reducer state"⟩
  | _ => .error ⟨"Unreachable tool-call frame state"⟩

/-- One frame behind the start. -/
def reduceFrame (current : Reduction) : AssistantMessageFrame → Except FrameError Reduction
  | .start _ => .error ⟨"Assistant message frame sequence contains more than one start frame"⟩
  | .textStart contentIndex content =>
    current.appendBlock contentIndex (.text content) (.text false)
  | .textDelta contentIndex delta => current.reduceTextDelta contentIndex delta
  | .textEnd contentIndex content textSignature =>
    current.reduceTextEnd contentIndex content textSignature
  | .thinkingStart contentIndex content =>
    current.appendBlock contentIndex (.thinking content) (.thinking false)
  | .thinkingDelta contentIndex delta => current.reduceThinkingDelta contentIndex delta
  | .thinkingEnd contentIndex content thinkingSignature redacted =>
    current.reduceThinkingEnd contentIndex content thinkingSignature redacted
  | .toolCallStart contentIndex toolCall =>
    current.appendBlock contentIndex (.toolCall toolCall) (.toolCall false "")
  | .toolCallCheckpoint contentIndex json =>
    current.reduceToolCallCheckpoint library contentIndex json
  | .toolCallDelta contentIndex delta => current.reduceToolCallDelta contentIndex delta
  | .toolCallEnd contentIndex id name arguments thoughtSignature namespaceName =>
    current.reduceToolCallEnd contentIndex id name arguments thoughtSignature namespaceName

/-- The text of the arguments of a call that is not finished. -/
def unfinished : ReducerBlockState → Option String
  | .toolCall false json => if json.isEmpty then none else some json
  | _ => none

/-- The arguments of the calls that are not finished are read from their texts. -/
def finishCalls (message : AssistantMessage) :
    List (Nat × ReducerBlockState) → Except FrameError AssistantMessage
  | [] => .ok message
  | (contentIndex, state) :: states =>
    match unfinished state with
    | none => finishCalls message states
    | some json => do
      checkedIndex contentIndex
      match message.content[contentIndex]? with
      | some (.toolCall toolCall) =>
        let block := AssistantContent.toolCall
          { toolCall with arguments := parseStreamingJson library json.toList }
        finishCalls { message with content := message.content.set contentIndex block } states
      | _ => .error ⟨"Unreachable tool-call frame state"⟩

end Reduction

/-- Where the reducer is: the first frame in front of the start, or the reduction. -/
inductive Reducing
  | waiting (frameBeforeStart : Option String)
  | reducing (current : Reduction)

namespace Reducing

variable (library : JsonLibrary)

def step : Reducing → AssistantMessageFrame → Except FrameError Reducing
  | .waiting none, .start partialMessage => .ok (.reducing ⟨partialMessage, .empty⟩)
  | .waiting (some type), .start _ =>
    .error ⟨s!"{type} frame appears before the start frame"⟩
  | .waiting none, frame => .ok (.waiting (some (frameType frame)))
  | .waiting (some type), _ => .ok (.waiting (some type))
  | .reducing current, frame => do
    let current ← current.reduceFrame library frame
    .ok (.reducing current)

def finish : Reducing → Except FrameError (Option AssistantMessage)
  | .waiting _ => .ok none
  | .reducing current => do
    let message ← Reduction.finishCalls library current.message current.states.entries
    .ok (some message)

end Reducing

/-- Replay the frames of a response; without a start there is no message. -/
def reduceAssistantMessageFrames (library : JsonLibrary) (frames : List AssistantMessageFrame) :
    Except FrameError (Option AssistantMessage) := do
  let last ← frames.foldlM (Reducing.step library) (.waiting none)
  last.finish library

end PiOxidized.Ai
