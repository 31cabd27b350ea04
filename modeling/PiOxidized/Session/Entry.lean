/-
# Durable entries

The nodes of a session's ancestry, as committed and as proposed.  Content that
storage never interprets (message bodies, JSON details) is one opaque type.
-/

import PiOxidized.Math.Binary64
import PiOxidized.Math.OrderedMap
import PiOxidized.Math.U64
import Mathlib.Data.String.Basic

namespace PiOxidized.Session

open Math

/-- Session-unique entry identifier. -/
abbrev EntryId := String

/-- Identifier of a usage row. -/
abbrev UsageId := String

/-- Backend failure classes. -/
inductive StorageErrorCode
  | notFound
  | invalidHeader
  | versionMismatch
  | corrupt
  | io
  | closed
  | aborted
  deriving DecidableEq

/-- Domain failures of the durable session that storage state reports. -/
inductive SessionError
  | invariant (message : String)
  | invalidBranch (branch reason : String)
  | branchExists (branch : String)
  | pendingAssistantMessage
  | unknownTarget (id : EntryId)
  | backend (code : StorageErrorCode) (message : String)
  deriving DecidableEq

/-- Why a provider response ended. -/
inductive StopReason
  | stop
  | length
  | toolUse
  | pending
  | deferred
  | error
  | aborted
  deriving DecidableEq

/-- A provider-facing message; only an assistant's stop reason is interpreted. -/
inductive Message (R : Type)
  | system (content : R)
  | user (content : R)
  | assistant (stopReason : StopReason) (content : R)
  | toolResult (content : R)
  deriving DecidableEq

/-- A transcript message. -/
inductive AgentMessage (R : Type)
  | llm (message : Message R)
  | custom (role : String) (payload : R)
  deriving DecidableEq

/-- Monetary cost of a request. -/
structure UsageCost where
  input : Binary64 := Binary64.zero
  output : Binary64 := Binary64.zero
  cacheRead : Binary64 := Binary64.zero
  cacheWrite : Binary64 := Binary64.zero
  total : Binary64 := Binary64.zero
  deriving DecidableEq

/-- Token usage of a request. -/
structure Usage where
  input : U64 := U64.zero
  output : U64 := U64.zero
  cacheRead : U64 := U64.zero
  cacheWrite : U64 := U64.zero
  cacheWrite1h : Option U64 := none
  reasoning : Option U64 := none
  totalTokens : U64 := U64.zero
  cost : UsageCost := {}
  deriving DecidableEq

/-- Identity and ordering header shared by every durable entry kind. -/
structure EntryBase where
  id : EntryId
  parentId : Option EntryId
  seq : U64
  timestamp : Int
  customType : Option String
  deriving DecidableEq

/-- Committed durable entry. -/
inductive Entry (R : Type)
  | message (base : EntryBase) (message : AgentMessage R) (terminate : Bool)
  | compaction (base : EntryBase) (summary : String) (retainedTail : List (AgentMessage R))
      (tokensBefore : U64) (details : Option R) (usage : Option Usage) (fromHook : Bool)
  | branchSummary (base : EntryBase) (fromId : Option EntryId) (summary : String)
      (details : Option R) (usage : Option Usage) (fromHook : Bool)
  | custom (base : EntryBase) (customType : String) (data : Option R)
  deriving DecidableEq

/-- Serialized discriminator of an entry. -/
inductive EntryType
  | message
  | compaction
  | branchSummary
  | custom
  deriving DecidableEq

namespace Entry

variable {R : Type}

/-- The shared header. -/
def base : Entry R → EntryBase
  | message base _ _ => base
  | compaction base _ _ _ _ _ _ => base
  | branchSummary base _ _ _ _ _ => base
  | custom base _ _ => base

/-- The session-unique id. -/
def id (entry : Entry R) : EntryId := entry.base.id

/-- The predecessor id. -/
def parentId (entry : Entry R) : Option EntryId := entry.base.parentId

/-- The storage-assigned sequence number. -/
def seq (entry : Entry R) : U64 := entry.base.seq

/-- The variant discriminator. -/
def entryType : Entry R → EntryType
  | message _ _ _ => .message
  | compaction _ _ _ _ _ _ _ => .compaction
  | branchSummary _ _ _ _ _ _ => .branchSummary
  | custom _ _ _ => .custom

/-- The effective application discriminator. -/
def customType : Entry R → Option String
  | custom _ customType _ => some customType
  | entry => entry.base.customType

/-- Whether this is a conversational message. -/
def isMessage : Entry R → Bool
  | message _ _ _ => true
  | _ => false

end Entry

/-- Payload of a proposed entry. -/
inductive NewEntryBody (R : Type)
  | message (message : AgentMessage R) (terminate : Bool)
  | compaction (summary : String) (retainedTail : List (AgentMessage R)) (tokensBefore : U64)
      (details : Option R) (usage : Option Usage) (fromHook : Bool)
  | branchSummary (fromId : Option EntryId) (summary : String) (details : Option R)
      (usage : Option Usage) (fromHook : Bool)
  | custom (customType : String) (data : Option R)
  deriving DecidableEq

/-- An entry before storage assigns its sequence and timestamp. -/
structure NewEntry (R : Type) where
  id : EntryId
  parentId : Option EntryId
  body : NewEntryBody R
  deriving DecidableEq

namespace NewEntry

variable {R : Type}

/-- Fill in the assigned sequence and commit timestamp. -/
def materialize (entry : NewEntry R) (seq : U64) (timestamp : Int) : Entry R :=
  let base : EntryBase := ⟨entry.id, entry.parentId, seq, timestamp, none⟩
  match entry.body with
  | .message message terminate => .message base message terminate
  | .compaction summary retainedTail tokensBefore details usage fromHook =>
    .compaction base summary retainedTail tokensBefore details usage fromHook
  | .branchSummary fromId summary details usage fromHook =>
    .branchSummary base fromId summary details usage fromHook
  | .custom customType data => .custom base customType data

theorem base_materialize (entry : NewEntry R) (seq : U64) (time : Int) :
    (entry.materialize seq time).base = ⟨entry.id, entry.parentId, seq, time, none⟩ := by
  unfold materialize
  cases entry.body <;> rfl

@[simp]
theorem id_materialize (entry : NewEntry R) (seq : U64) (time : Int) :
    (entry.materialize seq time).id = entry.id := by
  rw [Entry.id, base_materialize]

@[simp]
theorem parentId_materialize (entry : NewEntry R) (seq : U64) (time : Int) :
    (entry.materialize seq time).parentId = entry.parentId := by
  rw [Entry.parentId, base_materialize]

@[simp]
theorem seq_materialize (entry : NewEntry R) (seq : U64) (time : Int) :
    (entry.materialize seq time).seq = seq := by
  rw [Entry.seq, base_materialize]

/-- Whether the entry holds an assistant message that is still pending. -/
def isPending (entry : NewEntry R) : Bool := match entry.body with
  | .message (.llm (.assistant stopReason _)) _ => stopReason == .pending
  | _ => false

end NewEntry

end PiOxidized.Session
