/-
# Context compaction

Preparing a compaction is pure: a cut keeps the recent part of a path, what stands before it
is to be summarized, and a cut inside a turn summarizes the first part of the turn by itself.
Summaries come from a provider, which answers each request as it likes.
-/

import Mathlib.Data.List.Infix
import PiOxidized.Harness.Message

namespace PiOxidized.Harness

open Math
open Session (EntryId EntryBase StopReason Usage UsageCost)
open Session.Jsonl (Json)

structure CompactionSettings where
  enabled : Bool
  reserveTokens : U64
  keepRecentTokens : U64
  deriving DecidableEq

inductive ModelThinkingLevel
  | off
  | minimal
  | low
  | medium
  | high
  | xhigh
  | max
  deriving DecidableEq

/-- What a summary request needs of a model; no output limit is zero. -/
structure SummaryModel where
  maxTokens : U64
  reasoning : Bool
  deriving DecidableEq

inductive CompactionError
  | aborted (message : String)
  | summarizationFailed (message : String)
  | transport (message : String)
  deriving DecidableEq

structure GeneratedSummary where
  text : String
  usage : Usage
  deriving DecidableEq

structure CompactGenerationOptions where
  model : SummaryModel
  customInstructions : Option String
  thinkingLevel : Option ModelThinkingLevel

structure SummaryGenerationOptions where
  model : SummaryModel
  reserveTokens : U64
  customInstructions : Option String
  previousSummary : Option String
  thinkingLevel : Option ModelThinkingLevel

/-- A request for a summary, as a provider gets it. -/
structure SummaryRequest where
  systemPrompt : String
  prompt : String
  maxTokens : U64
  reasoning : Option ModelThinkingLevel
  deriving DecidableEq

structure CompactionPreparation where
  messagesToSummarize : List AgentMessage
  turnPrefixMessages : List AgentMessage
  retainedTail : List AgentMessage
  isSplitTurn : Bool
  tokensBefore : U64
  previousSummary : Option String
  fileOps : FileOperations
  settings : CompactionSettings

structure CompactResult where
  summary : String
  tokensBefore : U64
  usage : Usage
  retainedTail : List AgentMessage
  details : FileLists

structure CutPointResult where
  firstKeptEntryIndex : Nat
  turnStartIndex : Option Nat
  isSplitTurn : Bool
  deriving DecidableEq

/-! ## The cut -/

/-- Whether the context that is kept may start at an entry. -/
def Entry.isCutPoint : Entry → Bool
  | .message _ content =>
    content.role ∈ ["bashExecution", "custom", "branchSummary", "compactionSummary", "user",
      "assistant"]
  | .branchSummary _ _ _ => true
  | _ => false

def findValidCutPoints (entries : List Entry) (start stop : Nat) : List Nat :=
  let stop := min stop entries.length
  let start := min start stop
  (List.range' start (stop - start)).filter fun index =>
    (entries[index]?.map Entry.isCutPoint).getD false

/-- Whether a turn that the user sees starts at an entry. -/
def Entry.startsTurn : Entry → Bool
  | .message _ content => content.role = "user" ∨ content.role = "bashExecution"
  | .branchSummary _ _ _ => true
  | _ => false

/-- The last start of a turn that is not behind an entry. -/
def findTurnStartIndex (entries : List Entry) (entryIndex start : Nat) : Option Nat :=
  if entries = [] ∨ entries.length ≤ entryIndex then none
  else
    let start := min start entryIndex
    (List.range' start (entryIndex + 1 - start)).reverse.find? fun index =>
      (entries[index]?.map Entry.startsTurn).getD false

/-- What an entry weighs in the search for the cut. -/
def Entry.weight (formats : TextFormats) : Entry → Nat
  | .message _ content => estimateTokens formats content
  | .branchSummary _ _ summary =>
    estimateTokens formats (createBranchSummaryMessage summary none 0)
  | _ => 0

/-- Go back until the recent entries weigh enough, and cut at the next point behind. -/
def searchCut (formats : TextFormats) (entries : List Entry) (cutPoints : List Nat) (keep : Nat) :
    List Nat → Nat → Nat → Nat
  | [], _, cut => cut
  | index :: earlier, accumulated, cut =>
    let accumulated := accumulated + (entries[index]?.map (Entry.weight formats)).getD 0
    if keep ≤ accumulated then (cutPoints.find? (index ≤ ·)).getD cut
    else searchCut formats entries cutPoints keep earlier accumulated cut

/-- Entries that are neither messages nor compactions stay with what follows them. -/
def stepBack (entries : List Entry) (start : Nat) : Nat → Nat
  | 0 => 0
  | cut + 1 =>
    if start < cut + 1 then
      match entries[cut]? with
      | some (.compaction _ _ _ _ _) => cut + 1
      | some (.message _ _) => cut + 1
      | _ => stepBack entries start cut
    else cut + 1

def Entry.isUserMessage : Entry → Bool
  | .message _ content => content.role = "user"
  | _ => false

def findCutPoint (formats : TextFormats) (entries : List Entry) (start stop : Nat) (keep : U64) :
    CutPointResult :=
  let stop := min stop entries.length
  let start := min start stop
  let cutPoints := findValidCutPoints entries start stop
  if keep = U64.zero then ⟨stop, none, false⟩
  else
    match cutPoints with
    | [] => ⟨start, none, false⟩
    | first :: _ =>
      let found := searchCut formats entries cutPoints keep.val
        (List.range' start (stop - start)).reverse 0 first
      let cut := stepBack entries start found
      let isUserMessage := (entries[cut]?.map Entry.isUserMessage).getD false
      let turnStart := if isUserMessage then none else findTurnStartIndex entries cut start
      ⟨cut, turnStart, !isUserMessage && turnStart.isSome⟩

/-! ## The preparation -/

/-- The message of an entry that is not a compaction. -/
def getMessageFromEntryForCompaction : Entry → Option AgentMessage
  | .message _ message => if isContextMessage message then some message else none
  | .branchSummary base fromId summary =>
    some (createBranchSummaryMessage summary fromId base.timestamp)
  | .compaction _ _ _ _ _ => none
  | .custom _ => none

/-- The messages that a compaction kept, as entries behind it. -/
def retainedEntries (base : EntryBase) (retainedTail : List AgentMessage) : List Entry :=
  retainedTail.mapIdx fun i message =>
    .message
      { id := base.id ++ ":retained:" ++ toString i
        parentId := some (if i = 0 then base.id else base.id ++ ":retained:" ++ toString (i - 1))
        seq := base.seq
        timestamp := messageTimestamp message
        customType := none }
      message

/-- The latest compaction of a path: what it holds, and the entries behind it. -/
structure PreviousCompaction where
  base : EntryBase
  summary : String
  retainedTail : List AgentMessage
  details : Option Json
  after : List Entry

def previousCompaction : List Entry → Option PreviousCompaction
  | [] => none
  | entry :: rest =>
    match previousCompaction rest with
    | some later => some later
    | none =>
      match entry with
      | .compaction base summary retainedTail _ details =>
        some ⟨base, summary, retainedTail, details, rest⟩
      | _ => none

/-- The entries that may be compacted: behind the latest compaction, what it kept first. -/
def compactableEntries (path : List Entry) : List Entry := match previousCompaction path with
  | some previous => retainedEntries previous.base previous.retainedTail ++ previous.after
  | none => path

/-- The texts of an array that is a member of an object. -/
def textsOf (value : Json) (key : String) : List String := match value.get? key with
  | some (.array items) => items.filterMap Json.readString
  | _ => []

/-- The files an earlier compaction recorded, and those the messages touched. -/
def extractFileOperations (details : Option Json) (messages : List AgentMessage) : FileOperations :=
  let recorded : FileOperations := match details with
    | some value =>
      { FileOperations.empty with
        read := (textsOf value "readFiles").foldl (fun set path => insertPath path set) []
        edited := (textsOf value "modifiedFiles").foldl (fun set path => insertPath path set) [] }
    | none => .empty
  messages.foldl extractFileOpsFromMessage recorded

/-- Where the history that is summarized ends. -/
def CutPointResult.historyEnd (cut : CutPointResult) : Nat :=
  if cut.isSplitTurn then cut.turnStartIndex.getD cut.firstKeptEntryIndex
  else cut.firstKeptEntryIndex

/-- The messages of the history. -/
def historyMessages (entries : List Entry) (cut : CutPointResult) : List AgentMessage :=
  (entries.take cut.historyEnd).filterMap getMessageFromEntryForCompaction

/-- The messages of the first part of a turn that is split. -/
def turnPrefixMessages (entries : List Entry) (cut : CutPointResult) : List AgentMessage :=
  if cut.isSplitTurn then
    let turnStart := cut.turnStartIndex.getD cut.firstKeptEntryIndex
    ((entries.take cut.firstKeptEntryIndex).drop turnStart).filterMap
      getMessageFromEntryForCompaction
  else []

/-- The cut of a path. -/
def pathCut (formats : TextFormats) (path : List Entry) (settings : CompactionSettings) :
    CutPointResult :=
  let entries := compactableEntries path
  findCutPoint formats entries 0 entries.length settings.keepRecentTokens

def Entry.isCompaction : Entry → Bool
  | .compaction _ _ _ _ _ => true
  | _ => false

def prepareCompaction (formats : TextFormats) (path : List Entry) (settings : CompactionSettings) :
    Option CompactionPreparation :=
  if path = [] ∨ (path.getLast?.map Entry.isCompaction).getD false then none
  else
    let entries := compactableEntries path
    let cut := pathCut formats path settings
    let messagesToSummarize := historyMessages entries cut
    let turnPrefix := turnPrefixMessages entries cut
    let fileOps := extractFileOperations ((previousCompaction path).bind (·.details))
      messagesToSummarize
    let contextMessages := (buildContextEntries path).flatMap sessionEntryToContextMessages
    some
      { messagesToSummarize := messagesToSummarize
        turnPrefixMessages := turnPrefix
        retainedTail :=
          (entries.drop cut.firstKeptEntryIndex).filterMap getMessageFromEntryForCompaction
        isSplitTurn := cut.isSplitTurn
        tokensBefore := estimateContextTokens formats contextMessages
        previousSummary := (previousCompaction path).map (·.summary)
        fileOps := turnPrefix.foldl extractFileOpsFromMessage fileOps
        settings := settings }

/-! ## Summaries -/

def summarizationSystemPrompt : String :=
  "You are a context summarization assistant. Your task is to read a conversation between a " ++
    "user and an AI assistant, then produce a structured summary following the exact format " ++
    "specified.\n\nDo NOT continue the conversation. Do NOT respond to any questions in the " ++
    "conversation. ONLY output the structured summary."

def summarizationPrompt : String :=
  "The messages above are a conversation to summarize. Create a structured context checkpoint " ++
    "summary that another LLM will use to continue the work.\n\nUse this EXACT format:\n\n" ++
    "## Goal\n[What is the user trying to accomplish? Can be multiple items if the session " ++
    "covers different tasks.]\n\n## Constraints & Preferences\n- [Any constraints, preferences, " ++
    "or requirements mentioned by user]\n- [Or \"(none)\" if none were mentioned]\n\n## Progress" ++
    "\n### Done\n- [x] [Completed tasks/changes]\n\n### In Progress\n- [ ] [Current work]\n\n" ++
    "### Blocked\n- [Issues preventing progress, if any]\n\n## Key Decisions\n- **[Decision]**: " ++
    "[Brief rationale]\n\n## Next Steps\n1. [Ordered list of what should happen next]\n\n" ++
    "## Critical Context\n- [Any data, examples, or references needed to continue]\n- [Or " ++
    "\"(none)\" if not applicable]\n\nKeep each section concise. Preserve exact file paths, " ++
    "function names, and error messages."

def updateSummarizationPrompt : String :=
  "The messages above are NEW conversation messages to incorporate into the existing summary " ++
    "provided in <previous-summary> tags.\n\nUpdate the existing structured summary with new " ++
    "information. RULES:\n- PRESERVE all existing information from the previous summary\n- ADD " ++
    "new progress, decisions, and context from the new messages\n- UPDATE the Progress section: " ++
    "move items from \"In Progress\" to \"Done\" when completed\n- UPDATE \"Next Steps\" based on " ++
    "what was accomplished\n- PRESERVE exact file paths, function names, and error messages\n- If " ++
    "something is no longer relevant, you may remove it\n\nUse this EXACT format:\n## Goal\n" ++
    "[Preserve existing goals, add new ones if the task expanded]\n## Constraints & Preferences" ++
    "\n- [Preserve existing, add new ones discovered]\n## Progress\n### Done\n- [x] [Include " ++
    "previously done items AND newly completed items]\n### In Progress\n- [ ] [Current work - " ++
    "update based on progress]\n### Blocked\n- [Current blockers - remove if resolved]\n## Key " ++
    "Decisions\n- **[Decision]**: [Brief rationale] (preserve all previous, add new)\n## Next " ++
    "Steps\n1. [Update based on current state]\n## Critical Context\n- [Preserve important " ++
    "context, add new if needed]\n- [Or \"(none)\" if not applicable]\nKeep each section concise. " ++
    "Preserve exact file paths, function names, and error messages."

def turnPrefixSummarizationPrompt : String :=
  "This is the PREFIX of a turn that was too large to keep. The SUFFIX (recent work) is " ++
    "retained.\n\nSummarize the prefix to provide context for the retained suffix:\n\n" ++
    "## Original Request\n[What did the user ask for in this turn?]\n\n## Early Progress\n- [Key " ++
    "decisions and work done in the prefix]\n\n## Context for Suffix\n- [Information needed to " ++
    "understand the retained recent work]\n\nBe concise. Focus on what's needed to understand " ++
    "the kept suffix."

/-- No limit of the model is none at all. -/
def capTokens (tokens : Nat) (model : SummaryModel) : U64 :=
  min (saturate tokens) (if U64.zero < model.maxTokens then model.maxTokens else U64.max)

/-- The reasoning that is asked for. -/
def requestReasoning (model : SummaryModel) (level : Option ModelThinkingLevel) :
    Option ModelThinkingLevel :=
  if model.reasoning then level.filter (· ≠ .off) else none

def conversationBlock (formats : TextFormats) (messages : List AgentMessage) : String :=
  "<conversation>\n" ++ serializeConversation formats (convertToLlm formats messages) ++
    "\n</conversation>\n\n"

def previousSummaryBlock (previousSummary : Option String) : String := match previousSummary with
  | some previous => "<previous-summary>\n" ++ previous ++ "\n</previous-summary>\n\n"
  | none => ""

/-- The request that `generate_summary_with_request` makes. -/
def generateSummaryRequest (formats : TextFormats) (messages : List AgentMessage)
    (options : SummaryGenerationOptions) : SummaryRequest :=
  let basePrompt := if options.previousSummary.isSome then updateSummarizationPrompt
    else summarizationPrompt
  let focus := match options.customInstructions with
    | some custom => if custom = "" then "" else "\n\nAdditional focus: " ++ custom
    | none => ""
  { systemPrompt := summarizationSystemPrompt
    prompt := conversationBlock formats messages ++
      (previousSummaryBlock options.previousSummary ++ (basePrompt ++ focus))
    maxTokens := capTokens (min (options.reserveTokens.val * 4) (2 ^ 64 - 1) / 5) options.model
    reasoning := requestReasoning options.model options.thinkingLevel }

/-- The request that `generate_turn_prefix_summary` makes. -/
def turnPrefixRequest (formats : TextFormats) (messages : List AgentMessage) (model : SummaryModel)
    (reserveTokens : U64) (thinkingLevel : Option ModelThinkingLevel) : SummaryRequest where
  systemPrompt := summarizationSystemPrompt
  prompt := conversationBlock formats messages ++ turnPrefixSummarizationPrompt
  maxTokens := capTokens (reserveTokens.val / 2) model
  reasoning := requestReasoning model thinkingLevel

/-- A provider error that tells of a cancellation. -/
def providerErrorIsCancellation (message : String) : Bool :=
  let text := message.toList.map Char.toLower
  "cancel".toList <:+: text ∨ "abort".toList <:+: text

/-- What a provider's answer is worth as a summary. -/
def classifySummaryResponse (label : String) :
    Except String AssistantMessage → Except CompactionError GeneratedSummary
  | .error message =>
    .error (if providerErrorIsCancellation message then .aborted message else .transport message)
  | .ok response =>
    match response.stopReason with
    | .aborted => .error (.aborted (response.errorMessage.getD (label ++ " aborted")))
    | .error => .error (.summarizationFailed
        (label ++ " failed: " ++ response.errorMessage.getD "Unknown error"))
    | .length => .error (.summarizationFailed
        (label ++ " failed: response truncated by the output limit"))
    | _ => .ok ⟨assistantContentText response.content "\n", response.usage⟩

def addOptionalU64 : Option U64 → Option U64 → Option U64
  | none, none => none
  | left, right => some ((left.getD U64.zero).saturatingAdd (right.getD U64.zero))

def addUsage (left right : Usage) : Usage where
  input := left.input.saturatingAdd right.input
  output := left.output.saturatingAdd right.output
  cacheRead := left.cacheRead.saturatingAdd right.cacheRead
  cacheWrite := left.cacheWrite.saturatingAdd right.cacheWrite
  cacheWrite1h := addOptionalU64 left.cacheWrite1h right.cacheWrite1h
  reasoning := addOptionalU64 left.reasoning right.reasoning
  totalTokens := left.totalTokens.saturatingAdd right.totalTokens
  cost :=
    { input := left.cost.input.add right.cost.input
      output := left.cost.output.add right.cost.output
      cacheRead := left.cost.cacheRead.add right.cost.cacheRead
      cacheWrite := left.cost.cacheWrite.add right.cost.cacheWrite
      total := left.cost.total.add right.cost.total }

/-! ## A compaction -/

/-- A provider answers each request by what was asked before. -/
abbrev Provider := List SummaryRequest → SummaryRequest → Except String AssistantMessage

/-- A computation that makes requests and may fail. -/
abbrev Requesting (X : Type) := ExceptT CompactionError (StateM (List SummaryRequest)) X

/-- Make a request and classify the answer. -/
def requestSummary (provider : Provider) (label : String) (request : SummaryRequest) :
    Requesting GeneratedSummary := do
  let asked ← get
  set (asked ++ [request])
  ExceptT.mk (pure (classifySummaryResponse label (provider asked request)))

section

variable (formats : TextFormats) (provider : Provider) (preparation : CompactionPreparation)
  (options : CompactGenerationOptions)

/-- The request for the history of a preparation. -/
def historyRequest : SummaryRequest :=
  generateSummaryRequest formats preparation.messagesToSummarize
    { model := options.model
      reserveTokens := preparation.settings.reserveTokens
      customInstructions := options.customInstructions
      previousSummary := preparation.previousSummary
      thinkingLevel := options.thinkingLevel }

/-- The request for the first part of a split turn. -/
def prefixRequest : SummaryRequest :=
  turnPrefixRequest formats preparation.turnPrefixMessages options.model
    preparation.settings.reserveTokens options.thinkingLevel

def noPriorHistory : String := "No prior history."

def turnContextHeader : String := "\n\n---\n\n**Turn Context (split turn):**\n\n"

/-- The texts of the summaries a preparation needs. -/
def generateSummaries : Requesting GeneratedSummary := do
  if preparation.isSplitTurn ∧ !preparation.turnPrefixMessages.isEmpty then
    if preparation.messagesToSummarize.isEmpty then
      let turnPrefix ← requestSummary provider "Turn prefix summarization"
        (prefixRequest formats preparation options)
      pure ⟨noPriorHistory ++ turnContextHeader ++ turnPrefix.text, turnPrefix.usage⟩
    else
      let history ← requestSummary provider "Summarization"
        (historyRequest formats preparation options)
      let turnPrefix ← requestSummary provider "Turn prefix summarization"
        (prefixRequest formats preparation options)
      pure ⟨history.text ++ turnContextHeader ++ turnPrefix.text,
        addUsage history.usage turnPrefix.usage⟩
  else
    requestSummary provider "Summarization" (historyRequest formats preparation options)

def compactWithRequest : Requesting CompactResult := do
  let generated ← generateSummaries formats provider preparation options
  let lists := computeFileLists preparation.fileOps
  pure
    { summary := generated.text ++ formatFileOperations lists
      tokensBefore := preparation.tokensBefore
      usage := generated.usage
      retainedTail := preparation.retainedTail
      details := lists }

/-- The outcome of a compaction, and the requests it made. -/
def runCompaction : Except CompactionError CompactResult × List SummaryRequest :=
  Id.run ((compactWithRequest formats provider preparation options).run.run [])

end

end PiOxidized.Harness
