/-
# Tools and tool results

What the agent loop exchanges with a tool: the calls of an assistant message, the
result of a call, and the message a result is handed to the model in.  Payloads are
JSON values of an arbitrary type whose default value is the empty object.
-/

import Mathlib.Data.Option.Basic
import Mathlib.Data.List.Basic

namespace PiOxidized.Agent

/-- How the tool calls of one assistant message are scheduled. -/
inductive ToolExecutionMode
  | sequential
  | parallel
  deriving DecidableEq

/-- A block of a tool's output. -/
inductive ToolResultContent
  | text (text : String)
  | image (data mimeType : String)
  deriving DecidableEq

/-- A tool invocation the assistant asked for. -/
structure ToolCall (R : Type) where
  id : String
  name : String
  arguments : R
  deriving DecidableEq

/-- A block of an assistant message. -/
inductive AssistantContent (R : Type)
  | text (text : String)
  | thinking (thinking : String)
  | toolCall (call : ToolCall R)
  deriving DecidableEq

/-- Final or partial result of a tool. -/
structure AgentToolResult (R : Type) where
  content : List ToolResultContent
  details : R
  addedToolNames : Option (List String)
  terminate : Option Bool
  deriving DecidableEq

/-- What the model is told about a call. -/
structure ToolResultMessage (R : Type) where
  toolCallId : String
  toolName : String
  content : List ToolResultContent
  details : Option R
  addedToolNames : Option (List String)
  isError : Bool
  timestamp : Int
  deriving DecidableEq

/-- The events of a batch of tool calls. -/
inductive AgentEvent (R : Type)
  | toolExecutionStart (toolCallId toolName : String) (args : R)
  | toolExecutionUpdate (toolCallId toolName : String) (args : R) (partialResult : AgentToolResult R)
  | toolExecutionEnd (toolCallId toolName : String) (result : AgentToolResult R) (isError : Bool)
  | messageStart (message : ToolResultMessage R)
  | messageEnd (message : ToolResultMessage R)
  deriving DecidableEq

/-- A registered tool, as far as the scheduler looks at it. -/
structure AgentTool where
  name : String
  executionMode : Option ToolExecutionMode
  deriving DecidableEq

/-- What a hook before a call decides. -/
structure BeforeToolCallResult where
  block : Bool
  reason : Option String
  terminate : Option Bool
  deriving DecidableEq

/-- What a hook after a call replaces. -/
structure AfterToolCallResult (R : Type) where
  content : Option (List ToolResultContent)
  details : Option R
  isError : Option Bool
  terminate : Option Bool
  deriving DecidableEq

/-- The scheduling mode and which hooks are installed. -/
structure AgentLoopConfig where
  toolExecution : ToolExecutionMode
  beforeToolCall : Bool
  afterToolCall : Bool
  deriving DecidableEq

section

variable {R : Type}

/-- An error whose content is the given message. -/
def errorToolResult [Inhabited R] (message : String) : AgentToolResult R :=
  { content := [.text message], details := default, addedToolNames := none, terminate := none }

/-- The tool calls of a message, in source order. -/
def toolCallsFromMessage (content : List (AssistantContent R)) : List (ToolCall R) :=
  content.filterMap fun
    | .toolCall call => some call
    | .text _ => none
    | .thinking _ => none

/-- The tool a call names. -/
def findTool (tools : List AgentTool) (call : ToolCall R) : Option AgentTool :=
  tools.find? fun tool => tool.name == call.name

/-- The mode of a batch: one sequential tool forces the whole batch. -/
def batchMode (tools : List AgentTool) (config : AgentLoopConfig) (calls : List (ToolCall R)) :
    ToolExecutionMode :=
  let hasSequential := calls.any fun call =>
    (findTool tools call).bind AgentTool.executionMode == some .sequential
  if config.toolExecution = .sequential ∨ hasSequential then .sequential else .parallel

end

end PiOxidized.Agent
