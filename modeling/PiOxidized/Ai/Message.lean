/-
# Messages exchanged with a provider

The messages of a conversation with all the data that is carried from one message to another.
-/

import PiOxidized.Ai.Json
import PiOxidized.Session.Entry

namespace PiOxidized.Ai

open Math
open Session (StopReason Usage)

/-! ## Content -/

structure TextContent where
  text : String
  textSignature : Option String
  deriving DecidableEq

/-- A block without a signature. -/
def TextContent.new (text : String) : TextContent := ⟨text, none⟩

structure ThinkingContent where
  thinking : String
  thinkingSignature : Option String
  redacted : Option Bool
  deriving DecidableEq

structure ImageContent where
  data : String
  mimeType : String
  deriving DecidableEq

structure ToolCall where
  id : String
  name : String
  arguments : JsonMap
  thoughtSignature : Option String
  namespaceName : Option String

inductive UserContent
  | text (content : TextContent)
  | image (content : ImageContent)
  deriving DecidableEq

inductive UserMessageContent
  | text (text : String)
  | blocks (blocks : List UserContent)
  deriving DecidableEq

inductive AssistantContent
  | text (content : TextContent)
  | thinking (content : ThinkingContent)
  | toolCall (call : ToolCall)

inductive ToolResultContent
  | text (content : TextContent)
  | image (content : ImageContent)
  deriving DecidableEq

inductive SystemMessageContent
  | text (text : String)
  | blocks (blocks : List TextContent)
  deriving DecidableEq

/-! ## Messages -/

structure SystemMessage where
  content : SystemMessageContent
  sections : Option (List (String × Option String))
  timestamp : Int
  deriving DecidableEq

structure UserMessage where
  content : UserMessageContent
  timestamp : Int
  deriving DecidableEq

inductive DiagnosticCode
  | string (text : String)
  | number (value : Number)

structure DiagnosticErrorInfo where
  name : Option String
  message : String
  stack : Option String
  code : Option DiagnosticCode

structure AssistantMessageDiagnostic where
  kind : String
  timestamp : Int
  error : Option DiagnosticErrorInfo
  details : Option JsonMap

structure DeferredHandle where
  provider : String
  modelId : String
  api : String
  id : String
  expiresAt : Option Binary64
  pollAfterMs : Option Binary64
  deriving DecidableEq

structure AssistantMessage where
  content : List AssistantContent
  api : String
  provider : String
  model : String
  responseModel : Option String
  responseId : Option String
  providerThinkingLevel : Option String
  diagnostics : Option (List AssistantMessageDiagnostic)
  usage : Usage
  stopReason : StopReason
  deferred : Option DeferredHandle
  errorMessage : Option String
  rawStopReason : Option String
  endTurn : Option Bool
  timestamp : Int

/-- A message without content that stopped normally. -/
def AssistantMessage.new (api provider model : String) (timestamp : Int) : AssistantMessage where
  content := []
  api := api
  provider := provider
  model := model
  responseModel := none
  responseId := none
  providerThinkingLevel := none
  diagnostics := none
  usage := {}
  stopReason := .stop
  deferred := none
  errorMessage := none
  rawStopReason := none
  endTurn := none
  timestamp := timestamp

structure ToolResultMessage where
  toolCallId : String
  toolName : String
  content : List ToolResultContent
  details : Option Value
  addedToolNames : Option (List String)
  isError : Bool
  timestamp : Int

def ToolResultMessage.new (toolCallId toolName : String) (content : List ToolResultContent)
    (isError : Bool) (timestamp : Int) : ToolResultMessage where
  toolCallId := toolCallId
  toolName := toolName
  content := content
  details := none
  addedToolNames := none
  isError := isError
  timestamp := timestamp

inductive Message
  | system (message : SystemMessage)
  | user (message : UserMessage)
  | assistant (message : AssistantMessage)
  | toolResult (message : ToolResultMessage)

end PiOxidized.Ai
