/-
# Messages of a conversation and their texts

The content of messages, as far as compaction looks into it: what a message weighs, what it
says when a conversation is written out for a summary, and which files its tool calls touched.

The texts of JSON values and of floating-point numbers, and the reading of a content block
from JSON, are code of libraries and come as parameters.
-/

import PiOxidized.Agent.Tool
import PiOxidized.Session.Entry
import PiOxidized.Session.Jsonl.Json

namespace PiOxidized.Harness

open Math
open Agent (AssistantContent ToolResultContent ToolResultMessage)
open Session (EntryId EntryBase StopReason Usage)
open Session.Jsonl (Json)

/-- A JSON object. -/
abbrev JsonMap := List (String × Json)

/-- A block of a user message. -/
inductive UserContent
  | text (text : String)
  | image (data mimeType : String)
  deriving DecidableEq

inductive UserMessageContent
  | text (text : String)
  | blocks (blocks : List UserContent)
  deriving DecidableEq

inductive SystemMessageContent
  | text (text : String)
  | blocks (texts : List String)
  deriving DecidableEq

/-- An update of the prompt; a section without a text is removed. -/
structure SystemMessage where
  content : SystemMessageContent
  sections : Option (List (String × Option String))
  timestamp : Int
  deriving DecidableEq

structure UserMessage where
  content : UserMessageContent
  timestamp : Int
  deriving DecidableEq

structure AssistantMessage where
  content : List (AssistantContent JsonMap)
  usage : Usage
  stopReason : StopReason
  errorMessage : Option String
  timestamp : Int

inductive Message
  | system (message : SystemMessage)
  | user (message : UserMessage)
  | assistant (message : AssistantMessage)
  | toolResult (message : ToolResultMessage Json)

/-- A message of an application's own role. -/
structure CustomAgentMessage where
  role : String
  payload : JsonMap

inductive AgentMessage
  | llm (message : Message)
  | custom (message : CustomAgentMessage)

/-- An entry of a branch path. -/
inductive Entry
  | message (base : EntryBase) (message : AgentMessage)
  | compaction (base : EntryBase) (summary : String) (retainedTail : List AgentMessage)
      (tokensBefore : U64) (details : Option Json)
  | branchSummary (base : EntryBase) (fromId : Option EntryId) (summary : String)
  | custom (base : EntryBase)

/-- What libraries do with JSON and numbers. -/
structure TextFormats where
  json : Json → String
  float : Binary64 → String
  userContent : Json → Option UserContent

/-! ## Payloads -/

namespace CustomAgentMessage

/-- The reserved key is not stored. -/
def new (role : String) (payload : JsonMap) : CustomAgentMessage :=
  ⟨role, payload.filter fun member => member.1 != "role"⟩

def get? (message : CustomAgentMessage) (key : String) : Option Json := message.payload.lookup key

def payloadStr (message : CustomAgentMessage) (key : String) : String :=
  ((message.get? key).bind Json.readString).getD ""

def payloadBool (message : CustomAgentMessage) (key : String) : Bool :=
  ((message.get? key).bind Json.readBool).getD false

end CustomAgentMessage

def AgentMessage.role : AgentMessage → String
  | llm (.system _) => "system"
  | llm (.user _) => "user"
  | llm (.assistant _) => "assistant"
  | llm (.toolResult _) => "toolResult"
  | custom message => message.role

/-- The timestamp of a message, zero when a payload has none. -/
def messageTimestamp : AgentMessage → Int
  | .llm (.system message) => message.timestamp
  | .llm (.user message) => message.timestamp
  | .llm (.assistant message) => message.timestamp
  | .llm (.toolResult message) => message.timestamp
  | .custom message => ((message.get? "timestamp").bind Json.readI64).getD 0

/-- An assistant message that failed, was aborted or deferred never entered the context. -/
def isContextMessage : AgentMessage → Bool
  | .llm (.assistant message) =>
    !(message.stopReason = .error ∨ message.stopReason = .aborted ∨ message.stopReason = .deferred)
  | _ => true

def createBranchSummaryMessage (summary : String) (fromId : Option EntryId) (timestamp : Int) :
    AgentMessage :=
  .custom (.new "branchSummary"
    [("summary", .string summary), ("fromId", Json.ofOption .string fromId),
      ("timestamp", .int timestamp)])

def createCompactionSummaryMessage (summary : String) (tokensBefore : U64) (timestamp : Int) :
    AgentMessage :=
  .custom (.new "compactionSummary"
    [("summary", .string summary), ("tokensBefore", Json.ofU64 tokensBefore),
      ("timestamp", .int timestamp)])

/-! ## Texts of contents -/

def userContentText (separator : String) : UserMessageContent → String
  | .text text => text
  | .blocks blocks => separator.intercalate <| blocks.filterMap fun
      | .text text => some text
      | .image _ _ => none

def assistantContentText (content : List (AssistantContent JsonMap)) (separator : String) :
    String :=
  separator.intercalate <| content.filterMap fun
    | .text text => some text
    | .thinking _ => none
    | .toolCall _ => none

def toolResultContentText (content : List ToolResultContent) (separator : String) : String :=
  separator.intercalate <| content.filterMap fun
    | .text text => some text
    | .image _ _ => none

def systemContentText : SystemMessageContent → String
  | .text text => text
  | .blocks texts => "\n".intercalate texts

def getSystemMessageText (message : SystemMessage) : String :=
  let sections := (message.sections.getD []).filterMap Prod.snd
  "\n\n".intercalate ((systemContentText message.content :: sections).filter (· != ""))

/-! ## Weights -/

/-- A character takes two units beyond the basic plane. -/
def utf16Width (c : Char) : Nat := if c.toNat < 0x10000 then 1 else 2

def jsStringLen (text : String) : Nat := (text.toList.map utf16Width).sum

/-- What an image counts. -/
def imageChars : Nat := 4800

/-- A fourth, rounded up. -/
def quarter (chars : Nat) : Nat := (chars + 3) / 4

def estimateTextAndImageContentChars : UserMessageContent → Nat
  | .text text => jsStringLen text
  | .blocks blocks => (blocks.map fun
      | .text text => jsStringLen text
      | .image _ _ => imageChars).sum

def estimateToolResultContentChars (content : List ToolResultContent) : Nat := (content.map fun
    | .text text => jsStringLen text
    | .image _ _ => imageChars).sum

def estimateCustomContentChars : Json → Nat
  | .string text => jsStringLen text
  | .array blocks => (blocks.map fun block =>
    match (block.get? "type").bind Json.readString with
    | some "text" => (((block.get? "text").bind Json.readString).map jsStringLen).getD 0
    | some "image" => imageChars
    | _ => 0).sum
  | _ => 0

def estimateLlmMessageTokens (formats : TextFormats) : Message → Nat
  | .system message => quarter (jsStringLen (getSystemMessageText message))
  | .user message => quarter (estimateTextAndImageContentChars message.content)
  | .toolResult message => quarter (estimateToolResultContentChars message.content)
  | .assistant message => quarter (message.content.map fun
      | .text text => jsStringLen text
      | .thinking thinking => jsStringLen thinking
      | .toolCall call =>
        jsStringLen call.name + jsStringLen (formats.json (.object call.arguments))).sum

/-- What a message weighs. -/
def estimateTokens (formats : TextFormats) : AgentMessage → Nat
  | .llm message => estimateLlmMessageTokens formats message
  | .custom message =>
    match message.role with
    | "bashExecution" =>
      quarter (jsStringLen (message.payloadStr "command") +
        jsStringLen (message.payloadStr "output"))
    | "branchSummary" => quarter (jsStringLen (message.payloadStr "summary"))
    | "compactionSummary" => quarter (jsStringLen (message.payloadStr "summary"))
    | "custom" =>
      quarter (((message.get? "content").map estimateCustomContentChars).getD 0)
    | _ => 0

/-- The tokens a provider counted. -/
def calculateContextTokens (usage : Usage) : U64 :=
  if usage.totalTokens ≠ U64.zero then usage.totalTokens
  else ((usage.input.saturatingAdd usage.output).saturatingAdd usage.cacheRead).saturatingAdd
    usage.cacheWrite

def getAssistantUsage (message : AgentMessage) : Option Usage := if isContextMessage message then
    match message with
    | .llm (.assistant message) =>
      if U64.zero < calculateContextTokens message.usage then some message.usage else none
    | _ => none
  else none

/-- The largest 64-bit number bounds a count. -/
def saturate (n : Nat) : U64 := if h : n < 2 ^ 64 then ⟨n, h⟩ else U64.max

/-- The tokens of a context: what the last answer was charged, and what came behind it. -/
def estimateContextTokens (formats : TextFormats) (messages : List AgentMessage) : U64 :=
  let weigh (messages : List AgentMessage) : U64 :=
    saturate (messages.map (estimateTokens formats)).sum
  match messages.reverse.findIdx? fun message => (getAssistantUsage message).isSome with
  | none => weigh messages
  | some behind =>
    let trailing := messages.drop (messages.length - behind)
    match (messages[messages.length - behind - 1]?).bind getAssistantUsage with
    | some usage => (calculateContextTokens usage).saturatingAdd (weigh trailing)
    | none => weigh messages

/-! ## The context of a path -/

/-- The entries from the latest compaction on, or all. -/
def buildContextEntries (path : List Entry) : List Entry := match path.reverse.findIdx? fun
      | .compaction _ _ _ _ _ => true
      | _ => false with
  | some behind => path.drop (path.length - behind - 1)
  | none => path

/-- The messages an entry contributes to the context. -/
def sessionEntryToContextMessages : Entry → List AgentMessage
  | .message _ message => if isContextMessage message then [message] else []
  | .compaction base summary retainedTail tokensBefore _ =>
    createCompactionSummaryMessage summary tokensBefore base.timestamp ::
      retainedTail.filter isContextMessage
  | .branchSummary base fromId summary =>
    if summary = "" then [] else [createBranchSummaryMessage summary fromId base.timestamp]
  | .custom _ => []

/-! ## A conversation written out -/

def compactionSummaryPrefix : String :=
  "The conversation history before this point was compacted into the following summary:\n\n" ++
    "<summary>\n"

def compactionSummarySuffix : String := "\n</summary>"

def branchSummaryPrefix : String :=
  "The following is a summary of a branch that this conversation came back from:\n\n<summary>\n"

def branchSummarySuffix : String := "</summary>"

/-- The text of a command that was run. -/
def bashExecutionToText (formats : TextFormats) (message : CustomAgentMessage) : String :=
  let output := message.payloadStr "output"
  let fullOutputPath := message.payloadStr "fullOutputPath"
  "Ran `" ++ message.payloadStr "command" ++ "`\n" ++
    (if output = "" then "(no output)" else "```\n" ++ output ++ "\n```") ++
    (if message.payloadBool "cancelled" then "\n\n(command cancelled)"
    else
      match (message.get? "exitCode").bind Json.readF64 with
      | some code =>
        if code.isZero then "" else "\n\nCommand exited with code " ++ formats.float code
      | none => "") ++
    (if message.payloadBool "truncated" ∧ fullOutputPath ≠ "" then
      "\n\n[Output truncated. Full output: " ++ fullOutputPath ++ "]"
    else "")

def userTextMessage (text : String) (timestamp : Int) : Message :=
  .user ⟨.blocks [.text text], timestamp⟩

def convertCustomToLlm (formats : TextFormats) (message : CustomAgentMessage) : Option Message :=
  let timestamp := messageTimestamp (.custom message)
  match message.role with
  | "bashExecution" =>
    if message.payloadBool "excludeFromContext" then none
    else some (userTextMessage (bashExecutionToText formats message) timestamp)
  | "custom" =>
    let blocks := match message.get? "content" with
      | some (.string text) => [.text text]
      | some (.array blocks) => blocks.filterMap formats.userContent
      | _ => []
    some (.user ⟨.blocks blocks, timestamp⟩)
  | "branchSummary" =>
    some (userTextMessage
      (branchSummaryPrefix ++ message.payloadStr "summary" ++ branchSummarySuffix) timestamp)
  | "compactionSummary" =>
    some (userTextMessage
      (compactionSummaryPrefix ++ message.payloadStr "summary" ++ compactionSummarySuffix)
      timestamp)
  | _ => none

/-- What a provider is shown of the messages. -/
def convertToLlm (formats : TextFormats) (messages : List AgentMessage) : List Message :=
  messages.filterMap fun
    | .llm message => some message
    | .custom message => convertCustomToLlm formats message

def toolResultMaxChars : Nat := 2000

/-- The first characters whose units fit. -/
def takeUnits (budget : Nat) : List Char → List Char
  | [] => []
  | c :: rest => if utf16Width c ≤ budget then c :: takeUnits (budget - utf16Width c) rest else []

def truncateForSummary (text : String) (maxChars : Nat) : String := let length := jsStringLen text
  if length ≤ maxChars then text
  else
    let retained := String.ofList (takeUnits maxChars text.toList)
    retained ++ "\n\n[... " ++ toString (length - jsStringLen retained) ++
      " more characters truncated]"

/-- The parts that a message contributes. -/
def serializeMessage (formats : TextFormats) : Message → List String
  | .user message =>
    let content := userContentText "" message.content
    if content = "" then [] else ["[User]: " ++ content]
  | .assistant message =>
    let thinking := message.content.filterMap fun
      | .thinking thinking => some thinking
      | _ => none
    let toolCalls := message.content.filterMap fun
      | .toolCall call =>
        some (call.name ++ "(" ++ ", ".intercalate (call.arguments.map fun member =>
          member.1 ++ "=" ++ formats.json member.2) ++ ")")
      | _ => none
    let content := assistantContentText message.content "\n"
    (if thinking = [] then [] else ["[Assistant thinking]: " ++ "\n".intercalate thinking]) ++
      (if content = "" then [] else ["[Assistant]: " ++ content]) ++
      (if toolCalls = [] then [] else ["[Assistant tool calls]: " ++ "; ".intercalate toolCalls])
  | .toolResult message =>
    let content := toolResultContentText message.content ""
    if content = "" then []
    else ["[Tool result]: " ++ truncateForSummary content toolResultMaxChars]
  | .system _ => []

def serializeConversation (formats : TextFormats) (messages : List Message) : String :=
  "\n\n".intercalate (messages.flatMap (serializeMessage formats))

/-! ## Files -/

/-- Insert a path into a sorted list of paths. -/
def insertPath (path : String) : List String → List String
  | [] => [path]
  | other :: rest =>
    if path < other then path :: other :: rest
    else if path = other then other :: rest
    else other :: insertPath path rest

structure FileOperations where
  read : List String
  written : List String
  edited : List String
  deriving DecidableEq

namespace FileOperations

def empty : FileOperations := ⟨[], [], []⟩

/-- A call with a path that is not empty. -/
def addCall (fileOps : FileOperations) (name path : String) : FileOperations := match name with
  | "read" => { fileOps with read := insertPath path fileOps.read }
  | "write" => { fileOps with written := insertPath path fileOps.written }
  | "edit" => { fileOps with edited := insertPath path fileOps.edited }
  | _ => fileOps

end FileOperations

def extractFileOpsFromMessage (fileOps : FileOperations) : AgentMessage → FileOperations
  | .llm (.assistant message) =>
    message.content.foldl (fun fileOps block =>
      match block with
      | .toolCall call =>
        match (call.arguments.lookup "path").bind Json.readString with
        | some path => if path = "" then fileOps else fileOps.addCall call.name path
        | none => fileOps
      | _ => fileOps) fileOps
  | _ => fileOps

structure FileLists where
  readFiles : List String
  modifiedFiles : List String
  deriving DecidableEq

def computeFileLists (fileOps : FileOperations) : FileLists :=
  let modified := (fileOps.edited ++ fileOps.written).foldl (fun set path => insertPath path set) []
  ⟨fileOps.read.filter (!modified.contains ·), modified⟩

def formatFileOperations (lists : FileLists) : String := let sections :=
    (if lists.readFiles = [] then []
      else ["<read-files>\n" ++ "\n".intercalate lists.readFiles ++ "\n</read-files>"]) ++
    (if lists.modifiedFiles = [] then []
      else ["<modified-files>\n" ++ "\n".intercalate lists.modifiedFiles ++ "\n</modified-files>"])
  if sections = [] then "" else "\n\n" ++ "\n\n".intercalate sections

end PiOxidized.Harness
