/-
# The form of a write in a file

Each write is one JSON object: the family of the write, the fields of its record, and
for an entry its tag and the fields of its base beside those of its kind, in the order of
their keys, since the library keeps members in a sorted map.  Fields that are empty are left
out or written as null, and a missing or null field reads as empty.
-/

import PiOxidized.Session.Jsonl.Json
import PiOxidized.Session.Write

namespace PiOxidized.Session.Jsonl

open Option Math

/-- Largest integer the format admits. -/
def maxSafeInteger : Nat := 9007199254740991

/-- How transcript messages are written as JSON and read from it. -/
structure MessageCodec where
  toJson : AgentMessage Json → Json
  ofJson : Json → Option (AgentMessage Json)

/-- A message that reads back. -/
def MessageCodec.Reads (codec : MessageCodec) (message : AgentMessage Json) : Prop :=
  codec.ofJson (codec.toJson message) = some message

/-! ## Usage -/

def usageCostJson (cost : UsageCost) : Json :=
  .object [("cacheRead", .ofF64 cost.cacheRead), ("cacheWrite", .ofF64 cost.cacheWrite),
    ("input", .ofF64 cost.input), ("output", .ofF64 cost.output), ("total", .ofF64 cost.total)]

def readUsageCost (value : Json) : Option UsageCost := do
  let input ← value.defaulted Json.readF64 "input" Binary64.zero
  let output ← value.defaulted Json.readF64 "output" Binary64.zero
  let cacheRead ← value.defaulted Json.readF64 "cacheRead" Binary64.zero
  let cacheWrite ← value.defaulted Json.readF64 "cacheWrite" Binary64.zero
  let total ← value.defaulted Json.readF64 "total" Binary64.zero
  some { input, output, cacheRead, cacheWrite, total }

/-- An optional counter is left out when it is empty. -/
def counterField (key : String) : Option U64 → List (String × Json)
  | none => []
  | some n => [(key, .ofU64 n)]

def usageJson (usage : Usage) : Json :=
  .object ([("cacheRead", .ofU64 usage.cacheRead), ("cacheWrite", .ofU64 usage.cacheWrite)] ++
    counterField "cacheWrite1h" usage.cacheWrite1h ++
    [("cost", usageCostJson usage.cost), ("input", .ofU64 usage.input),
      ("output", .ofU64 usage.output)] ++
    counterField "reasoning" usage.reasoning ++ [("totalTokens", .ofU64 usage.totalTokens)])

def readUsage (value : Json) : Option Usage := do
  let input ← value.defaulted Json.readU64 "input" U64.zero
  let output ← value.defaulted Json.readU64 "output" U64.zero
  let cacheRead ← value.defaulted Json.readU64 "cacheRead" U64.zero
  let cacheWrite ← value.defaulted Json.readU64 "cacheWrite" U64.zero
  let cacheWrite1h ← value.optional Json.readU64 "cacheWrite1h"
  let reasoning ← value.optional Json.readU64 "reasoning"
  let totalTokens ← value.defaulted Json.readU64 "totalTokens" U64.zero
  let cost ← value.defaulted readUsageCost "cost" {}
  some { input, output, cacheRead, cacheWrite, cacheWrite1h, reasoning, totalTokens, cost }

/-! ## Entries -/

/-- An application type is left out when there is none. -/
def customTypeField : Option String → List (String × Json)
  | none => []
  | some customType => [("customType", .string customType)]

def readBase (value : Json) (customType : Option String) : Option EntryBase := do
  let id ← value.required Json.readString "id"
  let parentId ← value.optional Json.readString "parentId"
  let seq ← value.required Json.readU64 "seq"
  let timestamp ← value.required Json.readI64 "timestamp"
  some { id, parentId, seq, timestamp, customType }

/-- A termination signal is left out when it is not set. -/
def terminateField (terminate : Bool) : List (String × Json) :=
  if terminate then [("terminate", .bool true)] else []

/-- The members of a written entry: its family and its tag, the fields of its base and those of its
kind.  The required type of a custom entry replaces one its base may hold. -/
def entryFields (codec : MessageCodec) : Entry Json → List (String × Json)
  | .message base message terminate =>
    customTypeField base.customType ++
      [("id", .string base.id), ("kind", .string "entry"), ("message", codec.toJson message),
        ("parentId", .ofOption Json.string base.parentId), ("seq", .ofU64 base.seq)] ++
      terminateField terminate ++
      [("timestamp", .int base.timestamp), ("type", .string "message")]
  | .compaction base summary retainedTail tokensBefore details usage fromHook =>
    customTypeField base.customType ++
      [("details", .ofOption id details), ("fromHook", .bool fromHook), ("id", .string base.id),
        ("kind", .string "entry"), ("parentId", .ofOption Json.string base.parentId),
        ("retainedTail", .array (retainedTail.map codec.toJson)), ("seq", .ofU64 base.seq),
        ("summary", .string summary), ("timestamp", .int base.timestamp),
        ("tokensBefore", .ofU64 tokensBefore), ("type", .string "compaction"),
        ("usage", .ofOption usageJson usage)]
  | .branchSummary base fromId summary details usage fromHook =>
    customTypeField base.customType ++
      [("details", .ofOption id details), ("fromHook", .bool fromHook),
        ("fromId", .ofOption Json.string fromId), ("id", .string base.id),
        ("kind", .string "entry"), ("parentId", .ofOption Json.string base.parentId),
        ("seq", .ofU64 base.seq), ("summary", .string summary), ("timestamp", .int base.timestamp),
        ("type", .string "branch_summary"), ("usage", .ofOption usageJson usage)]
  | .custom base customType data =>
    [("customType", .string customType), ("data", .ofOption id data), ("id", .string base.id),
      ("kind", .string "entry"), ("parentId", .ofOption Json.string base.parentId),
      ("seq", .ofU64 base.seq), ("timestamp", .int base.timestamp), ("type", .string "custom")]

def readMessageEntry (codec : MessageCodec) (value : Json) : Option (Entry Json) := do
  let customType ← value.optional Json.readString "customType"
  let base ← readBase value customType
  let message ← value.required codec.ofJson "message"
  let terminate ← value.defaulted Json.readBool "terminate" false
  some (.message base message terminate)

def readCompaction (codec : MessageCodec) (value : Json) : Option (Entry Json) := do
  let customType ← value.optional Json.readString "customType"
  let base ← readBase value customType
  let summary ← value.required Json.readString "summary"
  let retainedTail ← value.required (Json.readArray codec.ofJson) "retainedTail"
  let tokensBefore ← value.required Json.readU64 "tokensBefore"
  let details ← value.optional Json.readAny "details"
  let usage ← value.optional readUsage "usage"
  let fromHook ← value.required Json.readBool "fromHook"
  some (.compaction base summary retainedTail tokensBefore details usage fromHook)

def readBranchSummary (value : Json) : Option (Entry Json) := do
  let customType ← value.optional Json.readString "customType"
  let base ← readBase value customType
  let fromId ← value.optional Json.readString "fromId"
  let summary ← value.required Json.readString "summary"
  let details ← value.optional Json.readAny "details"
  let usage ← value.optional readUsage "usage"
  let fromHook ← value.required Json.readBool "fromHook"
  some (.branchSummary base fromId summary details usage fromHook)

/-- The type of a custom entry is its own field, so its base reads without one. -/
def readCustom (value : Json) : Option (Entry Json) := do
  let base ← readBase value none
  let customType ← value.required Json.readString "customType"
  let data ← value.optional Json.readAny "data"
  some (.custom base customType data)

/-- The reader of an entry, by its tag. -/
def readEntry (codec : MessageCodec) (value : Json) : Option (Entry Json) := do
  match ← value.required Json.readString "type" with
  | "message" => readMessageEntry codec value
  | "compaction" => readCompaction codec value
  | "branch_summary" => readBranchSummary value
  | "custom" => readCustom value
  | _ => none

/-! ## Writes -/

def usageRowFields (row : UsageRow Json) : List (String × Json) :=
  [("adjustment", .bool row.adjustment), ("details", .ofOption id row.details),
    ("entryId", .ofOption Json.string row.entryId), ("id", .string row.id),
    ("kind", .string "usage"), ("seq", .ofU64 row.seq), ("usage", usageJson row.usage)]

def readUsageRow (value : Json) : Option (UsageRow Json) := do
  let id ← value.required Json.readString "id"
  let seq ← value.required Json.readU64 "seq"
  let usage ← value.required readUsage "usage"
  let entryId ← value.optional Json.readString "entryId"
  let adjustment ← value.required Json.readBool "adjustment"
  let details ← value.optional Json.readAny "details"
  some { id, seq, usage, entryId, adjustment, details }

/-- The fields of a mutation of one slot. -/
def slotFields (kind op : String) (seq : U64) (ns key : String) : List (String × Json) :=
  [("key", .string key), ("kind", .string kind), ("namespace", .string ns), ("op", .string op),
    ("seq", .ofU64 seq)]

def valueFields : CommittedValueWrite Json → List (String × Json)
  | .set seq ns key value => slotFields "value" "set" seq ns key ++ [("value", value)]
  | .delete seq ns key => slotFields "value" "delete" seq ns key

def listFields : CommittedListWrite Json → List (String × Json)
  | .append seq ns key value => slotFields "list" "append" seq ns key ++ [("value", value)]
  | .delete seq ns key => slotFields "list" "delete" seq ns key

def readValueWrite (value : Json) : Option (CommittedValueWrite Json) := do
  let op ← value.required Json.readString "op"
  let seq ← value.required Json.readU64 "seq"
  let ns ← value.required Json.readString "namespace"
  let key ← value.required Json.readString "key"
  match op with
  | "set" => (value.required Json.readAny "value").map (.set seq ns key)
  | "delete" => some (.delete seq ns key)
  | _ => none

def readListWrite (value : Json) : Option (CommittedListWrite Json) := do
  let op ← value.required Json.readString "op"
  let seq ← value.required Json.readU64 "seq"
  let ns ← value.required Json.readString "namespace"
  let key ← value.required Json.readString "key"
  match op with
  | "append" => (value.required Json.readAny "value").map (.append seq ns key)
  | "delete" => some (.delete seq ns key)
  | _ => none

/-- A write with the family it belongs to. -/
def writeJson (codec : MessageCodec) : CommittedWrite Json → Json
  | .entry entry => .object (entryFields codec entry)
  | .usage row => .object (usageRowFields row)
  | .value write => .object (valueFields write)
  | .list write => .object (listFields write)

def readWrite (codec : MessageCodec) (value : Json) : Option (CommittedWrite Json) := do
  match ← value.required Json.readString "kind" with
  | "entry" => (readEntry codec value).map .entry
  | "usage" => (readUsageRow value).map .usage
  | "value" => (readValueWrite value).map .value
  | "list" => (readListWrite value).map .list
  | _ => none

/-! ## What reads back -/

/-- An optional payload that does not hold an explicit null. -/
def Explicit (payload : Option Json) : Prop := payload ≠ some .null

def Usage.Finite (usage : Usage) : Prop :=
  usage.cost.input.isFinite = true ∧ usage.cost.output.isFinite = true ∧
    usage.cost.cacheRead.isFinite = true ∧ usage.cost.cacheWrite.isFinite = true ∧
      usage.cost.total.isFinite = true

/-- The payload of an entry reads back. -/
def PayloadReads (codec : MessageCodec) : Entry Json → Prop
  | .message _ message _ => codec.Reads message
  | .compaction _ _ retainedTail _ details usage _ =>
    (∀ message ∈ retainedTail, codec.Reads message) ∧ Explicit details ∧
      ∀ u : Usage, usage = some u → Usage.Finite u
  | .branchSummary _ _ _ details usage _ =>
    Explicit details ∧ ∀ u : Usage, usage = some u → Usage.Finite u
  | .custom base _ data => base.customType = none ∧ Explicit data

/-- A write that reads back as it is: its numbers are in range, its costs finite, its messages
read back and no optional payload is an explicit null. -/
structure Legible (codec : MessageCodec) (write : CommittedWrite Json) : Prop where
  seq : 1 ≤ write.seq.val ∧ write.seq.val ≤ maxSafeInteger
  entry : ∀ entry : Entry Json, write = .entry entry →
    (0 ≤ entry.base.timestamp ∧ entry.base.timestamp ≤ maxSafeInteger) ∧ PayloadReads codec entry
  usage : ∀ row : UsageRow Json, write = .usage row → Usage.Finite row.usage ∧ Explicit row.details

/-! ## Round trips -/

variable {key : String} {value : Json}

attribute [local simp] List.lookup_cons List.lookup_append Json.required

theorem readUsageCost_usageCostJson {cost : UsageCost}
    (h : cost.input.isFinite = true ∧ cost.output.isFinite = true ∧
      cost.cacheRead.isFinite = true ∧ cost.cacheWrite.isFinite = true ∧
        cost.total.isFinite = true) :
    readUsageCost (usageCostJson cost) = some cost := by
  obtain ⟨hinput, houtput, hcacheRead, hcacheWrite, htotal⟩ := h
  simp [readUsageCost, usageCostJson, Json.defaulted, Json.get?, Json.readF64_ofF64, hinput,
    houtput, hcacheRead, hcacheWrite, htotal]

@[simp]
theorem lookup_counterField {other : String} (n : Option U64) (h : other ≠ key) :
    (counterField key n).lookup other = none := by
  cases n with
  | none => rfl
  | some n =>
    rw [counterField, List.lookup_cons, beq_false_of_ne h]
    rfl

/-- A counter that was left out reads as empty. -/
theorem optional_counterField {n : Option U64}
    (h : value.get? key = (counterField key n).lookup key) :
    value.optional Json.readU64 key = some n := by
  rw [Json.optional, h]
  cases n with
  | none => rfl
  | some n =>
    rw [counterField, List.lookup_cons, beq_self_eq_true]
    simp only [Json.ofU64]
    exact congrArg (Option.map some) (Json.readU64_ofU64 n)

theorem readUsage_usageJson {usage : Usage} (h : Usage.Finite usage) :
    readUsage (usageJson usage) = some usage := by
  have hcacheWrite1h : (usageJson usage).optional Json.readU64 "cacheWrite1h" =
      some usage.cacheWrite1h := by
    apply optional_counterField
    simp [usageJson, Json.get?]
  have hreasoning : (usageJson usage).optional Json.readU64 "reasoning" = some usage.reasoning := by
    apply optional_counterField
    simp [usageJson, Json.get?]
  simp only [readUsage, hcacheWrite1h, hreasoning]
  simp [usageJson, Json.defaulted, Json.get?, readUsageCost_usageCostJson h]

theorem usageJson_ne_null (usage : Usage) : usageJson usage ≠ .null := nofun

/-- The members of a written entry. -/
def entryJson (codec : MessageCodec) (entry : Entry Json) : Json :=
  .object (entryFields codec entry)

variable {customType : Option String}

/-- An optional payload without an explicit null reads back. -/
theorem optional_payload {payload : Option Json} (h : value.get? key = some (.ofOption id payload))
    (hexplicit : Explicit payload) :
    value.optional Json.readAny key = some payload := by
  apply Json.optional_ofOption _ _ _ h
  · intro x _
    rfl
  · rintro x rfl hnull
    exact hexplicit (congrArg some hnull)

theorem optional_string {field : Option String}
    (h : value.get? key = some (.ofOption Json.string field)) :
    value.optional Json.readString key = some field := by
  apply Json.optional_ofOption _ _ _ h
  · intro x _
    rfl
  · intro x _
    nofun

theorem optional_usage {usage : Option Usage}
    (h : value.get? key = some (.ofOption usageJson usage))
    (hfin : ∀ u : Usage, usage = some u → Usage.Finite u) :
    value.optional readUsage key = some usage := by
  apply Json.optional_ofOption _ _ _ h
  · intro u hu
    exact readUsage_usageJson (hfin u hu)
  · intro u _
    exact usageJson_ne_null u

/-- A base reads back, with whatever type its entry reads for it. -/
theorem readBase_eq {base : EntryBase} (customType : Option String)
    (hid : value.get? "id" = some (.string base.id))
    (hparentId : value.get? "parentId" = some (.ofOption Json.string base.parentId))
    (hseq : value.get? "seq" = some (.ofU64 base.seq))
    (htimestamp : value.get? "timestamp" = some (.int base.timestamp))
    (hrange : 0 ≤ base.timestamp ∧ base.timestamp ≤ maxSafeInteger) :
    readBase value customType = some { base with customType := customType } := by
  have hbound : -2 ^ 63 ≤ base.timestamp ∧ base.timestamp < 2 ^ 63 := by
    rw [maxSafeInteger] at hrange
    omega
  simp [readBase, hid, hseq, htimestamp, optional_string hparentId, Json.readI64_int hbound]

@[simp]
theorem lookup_customTypeField (h : key ≠ "customType") :
    (customTypeField customType).lookup key = none := by
  cases customType with
  | none => rfl
  | some customType =>
    rw [customTypeField, List.lookup_cons, beq_false_of_ne h]
    rfl

/-- A type that was left out reads as none. -/
theorem optional_customTypeField
    (h : value.get? "customType" = (customTypeField customType).lookup "customType") :
    value.optional Json.readString "customType" = some customType := by
  rw [Json.optional, h]
  cases customType with
  | none | some => rfl

@[simp]
theorem lookup_terminateField {terminate : Bool} (h : key ≠ "terminate") :
    (terminateField terminate).lookup key = none := by
  cases terminate with
  | false => rfl
  | true =>
    rw [terminateField, if_pos rfl, List.lookup_cons, beq_false_of_ne h]
    rfl

section

variable {codec : MessageCodec} {base : EntryBase} {details : Option Json} {usage : Option Usage}
  {fromHook : Bool}

variable {summary : String}

section

variable (hrange : 0 ≤ base.timestamp ∧ base.timestamp ≤ maxSafeInteger)

include hrange

theorem readEntry_message {message : AgentMessage Json} {terminate : Bool}
    (hmsg : codec.Reads message) :
    readEntry codec (entryJson codec (.message base message terminate)) =
      some (.message base message terminate) := by
  generalize hvalue : entryJson codec (.message base message terminate) = value
  have hget : ∀ key : String, value.get? key =
      (entryFields codec (.message base message terminate)).lookup key := by
    intro key
    rw [← hvalue]
    rfl
  simp only [entryFields] at hget
  have htype : value.required Json.readString "type" = some "message" := by
    simp [hget]
  have hcust : value.optional Json.readString "customType" = some base.customType := by
    apply optional_customTypeField
    cases terminate <;> simp [hget, terminateField]
  have hbase : readBase value base.customType = some base := by
    apply readBase_eq base.customType _ _ _ _ hrange <;> simp [hget]
  have hmsg : value.required codec.ofJson "message" = some message := by
    have hread : codec.ofJson (codec.toJson message) = some message := hmsg
    simp [hget, hread]
  have hterminate : value.defaulted Json.readBool "terminate" false = some terminate := by
    cases terminate <;> simp [Json.defaulted, hget, terminateField]
  rw [readEntry, htype]
  change readMessageEntry codec value = _
  rw [readMessageEntry, hcust]
  simp only [bind_eq_bind, bind_some, hbase, hmsg, hterminate]

theorem readEntry_compaction {retainedTail : List (AgentMessage Json)} {tokensBefore : U64}
    (htail : ∀ msg ∈ retainedTail, codec.Reads msg) (hdet : Explicit details)
    (husage : ∀ u : Usage, usage = some u → Usage.Finite u) :
    readEntry codec
        (entryJson codec (.compaction base summary retainedTail tokensBefore details usage fromHook)) =
      some (.compaction base summary retainedTail tokensBefore details usage fromHook) := by
  generalize hvalue : entryJson codec
    (.compaction base summary retainedTail tokensBefore details usage fromHook) = value
  have hget : ∀ key : String, value.get? key = (entryFields codec
      (.compaction base summary retainedTail tokensBefore details usage fromHook)).lookup key := by
    intro key
    rw [← hvalue]
    rfl
  simp only [entryFields] at hget
  have htype : value.required Json.readString "type" = some "compaction" := by
    simp [hget]
  have hcust : value.optional Json.readString "customType" = some base.customType := by
    apply optional_customTypeField
    simp [hget]
  have hbase : readBase value base.customType = some base := by
    apply readBase_eq base.customType _ _ _ _ hrange <;> simp [hget]
  have hsum : value.required Json.readString "summary" = some summary := by
    simp [hget]
  have htail : value.required (Json.readArray codec.ofJson) "retainedTail" = some retainedTail := by
    simp [hget, Json.readArray_array codec.ofJson htail]
  have htokensBefore : value.required Json.readU64 "tokensBefore" = some tokensBefore := by
    simp [hget]
  have hdet : value.optional Json.readAny "details" = some details := by
    refine optional_payload ?_ hdet
    simp [hget]
  have husage : value.optional readUsage "usage" = some usage := by
    refine optional_usage ?_ husage
    simp [hget]
  have hfromHook : value.required Json.readBool "fromHook" = some fromHook := by
    simp [hget]
  rw [readEntry, htype]
  change readCompaction codec value = _
  rw [readCompaction, hcust]
  simp only [bind_eq_bind, bind_some, hbase, hsum, htail, htokensBefore, hdet, husage, hfromHook]

theorem readEntry_branchSummary {fromId : Option EntryId} (hdet : Explicit details)
    (husage : ∀ u : Usage, usage = some u → Usage.Finite u) :
    readEntry codec (entryJson codec (.branchSummary base fromId summary details usage fromHook)) =
      some (.branchSummary base fromId summary details usage fromHook) := by
  generalize hvalue : entryJson codec
    (.branchSummary base fromId summary details usage fromHook) = value
  have hget : ∀ key : String, value.get? key = (entryFields codec
      (.branchSummary base fromId summary details usage fromHook)).lookup key := by
    intro key
    rw [← hvalue]
    rfl
  simp only [entryFields] at hget
  have htype : value.required Json.readString "type" = some "branch_summary" := by
    simp [hget]
  have hcust : value.optional Json.readString "customType" = some base.customType := by
    apply optional_customTypeField
    simp [hget]
  have hbase : readBase value base.customType = some base := by
    apply readBase_eq base.customType _ _ _ _ hrange <;> simp [hget]
  have hfromId : value.optional Json.readString "fromId" = some fromId := by
    apply optional_string
    simp [hget]
  have hsum : value.required Json.readString "summary" = some summary := by
    simp [hget]
  have hdet : value.optional Json.readAny "details" = some details := by
    refine optional_payload ?_ hdet
    simp [hget]
  have husage : value.optional readUsage "usage" = some usage := by
    refine optional_usage ?_ husage
    simp [hget]
  have hfromHook : value.required Json.readBool "fromHook" = some fromHook := by
    simp [hget]
  rw [readEntry, htype]
  change readBranchSummary value = _
  rw [readBranchSummary, hcust]
  simp only [bind_eq_bind, bind_some, hbase, hfromId, hsum, hdet, husage, hfromHook]

theorem readEntry_custom {customType : String} {data : Option Json}
    (hcust : base.customType = none) (hdata : Explicit data) :
    readEntry codec (entryJson codec (.custom base customType data)) =
      some (.custom base customType data) := by
  generalize hvalue : entryJson codec (.custom base customType data) = value
  have hget : ∀ key : String, value.get? key =
      (entryFields codec (.custom base customType data)).lookup key := by
    intro key
    rw [← hvalue]
    rfl
  simp only [entryFields] at hget
  have htype : value.required Json.readString "type" = some "custom" := by
    simp [hget]
  have hbase : readBase value none = some { base with customType := none } := by
    apply readBase_eq none _ _ _ _ hrange <;> simp [hget]
  have htype' : value.required Json.readString "customType" = some customType := by
    simp [hget]
  have hdata : value.optional Json.readAny "data" = some data := by
    refine optional_payload ?_ hdata
    simp [hget]
  rw [readEntry, htype]
  change readCustom value = _
  rw [readCustom, hbase]
  simp only [bind_eq_bind, bind_some, htype', hdata]
  rw [← hcust]

end

end

variable {codec : MessageCodec}

/-- An entry whose payload reads back and whose time is in range reads back. -/
theorem readEntry_entryJson {entry : Entry Json}
    (hrange : 0 ≤ entry.base.timestamp ∧ entry.base.timestamp ≤ maxSafeInteger)
    (hpay : PayloadReads codec entry) :
    readEntry codec (entryJson codec entry) = some entry := by
  cases entry with
  | message base message terminate => exact readEntry_message hrange hpay
  | compaction base summary retainedTail tokensBefore details usage fromHook =>
    exact readEntry_compaction hrange hpay.1 hpay.2.1 hpay.2.2
  | branchSummary base fromId summary details usage fromHook =>
    exact readEntry_branchSummary hrange hpay.1 hpay.2
  | custom base customType data => exact readEntry_custom hrange hpay.1 hpay.2

theorem readUsageRow_eq {row : UsageRow Json} (hfin : Usage.Finite row.usage)
    (hdet : Explicit row.details) :
    readUsageRow (writeJson codec (.usage row)) = some row := by
  generalize hvalue : writeJson codec (.usage row) = value
  have hget : ∀ key : String, value.get? key = (usageRowFields row).lookup key := by
    intro key
    rw [← hvalue]
    rfl
  simp only [usageRowFields] at hget
  have husage : value.required readUsage "usage" = some row.usage := by
    simp [hget, readUsage_usageJson hfin]
  have hentryId : value.optional Json.readString "entryId" = some row.entryId := by
    apply optional_string
    simp [hget]
  have hdet : value.optional Json.readAny "details" = some row.details := by
    refine optional_payload ?_ hdet
    simp [hget]
  have hid : value.required Json.readString "id" = some row.id := by
    simp [hget]
  have hseq : value.required Json.readU64 "seq" = some row.seq := by
    simp [hget]
  have hadjustment : value.required Json.readBool "adjustment" = some row.adjustment := by
    simp [hget]
  simp only [readUsageRow, hid, hseq, husage, hentryId, hadjustment, hdet, bind_eq_bind, bind_some]

theorem readValueWrite_eq (codec : MessageCodec) (write : CommittedValueWrite Json) :
    readValueWrite (writeJson codec (.value write)) = some write := by
  cases write <;> simp [writeJson, valueFields, slotFields, readValueWrite, Json.get?, Json.readAny]

theorem readListWrite_eq (codec : MessageCodec) (write : CommittedListWrite Json) :
    readListWrite (writeJson codec (.list write)) = some write := by
  cases write <;> simp [writeJson, listFields, slotFields, readListWrite, Json.get?, Json.readAny]

/-- A legible write reads back. -/
theorem readWrite_writeJson {write : CommittedWrite Json} (h : Legible codec write) :
    readWrite codec (writeJson codec write) = some write := by
  cases write with
  | entry entry =>
    obtain ⟨hrange, hpay⟩ := h.entry entry rfl
    have hread := readEntry_entryJson hrange hpay
    have hkind : (writeJson codec (.entry entry)).required Json.readString "kind" =
        some "entry" := by
      cases entry <;> simp [writeJson, entryFields, Json.get?]
    rw [readWrite, hkind]
    change (readEntry codec (entryJson codec entry)).map CommittedWrite.entry = _
    rw [hread]
    rfl
  | usage row =>
    obtain ⟨hfin, hdet⟩ := h.usage row rfl
    change (readUsageRow (writeJson codec (.usage row))).map CommittedWrite.usage = _
    rw [readUsageRow_eq hfin hdet]
    rfl
  | value write =>
    have hkind : (writeJson codec (.value write)).required Json.readString "kind" =
        some "value" := by
      cases write <;> simp [writeJson, valueFields, slotFields, Json.get?]
    rw [readWrite, hkind]
    change (readValueWrite (writeJson codec (.value write))).map CommittedWrite.value = _
    rw [readValueWrite_eq]
    rfl
  | list write =>
    have hkind : (writeJson codec (.list write)).required Json.readString "kind" =
        some "list" := by
      cases write <;> simp [writeJson, listFields, slotFields, Json.get?]
    rw [readWrite, hkind]
    change (readListWrite (writeJson codec (.list write))).map CommittedWrite.list = _
    rw [readListWrite_eq]
    rfl

/-- A legible write is recovered from its object, and no other one has the same. -/
theorem legible_write_recovered {write : CommittedWrite Json} (h : Legible codec write) :
    readWrite codec (writeJson codec write) = some write ∧
      ∀ other, Legible codec other → writeJson codec other = writeJson codec write →
        other = write := by
  refine ⟨readWrite_writeJson h, fun other hother heq => ?_⟩
  have hread := readWrite_writeJson hother
  rw [heq, readWrite_writeJson h] at hread
  exact (some.inj hread).symm

/-- A compaction that keeps no messages, with details and a counter that is often left out. -/
def compacted : CommittedWrite Json :=
  .entry (.compaction ⟨"c", some "p", U64.one, 7, some "app"⟩ "so far" [] U64.one
    (some (.object [("readFiles", .array [.string "a", .null])]))
    (some { input := U64.one, reasoning := some U64.one }) true)

theorem legible_write_recovered_compacted :
    readWrite ⟨fun _ => .null, fun _ => none⟩
      (writeJson ⟨fun _ => .null, fun _ => none⟩ compacted) = some compacted := by
  refine (legible_write_recovered ⟨?_, ?_, by rintro _ ⟨⟩⟩).1
  · change 1 ≤ U64.one.val ∧ U64.one.val ≤ maxSafeInteger
    decide
  · rintro entry ⟨⟩
    refine ⟨?_, by simp, nofun, ?_⟩
    · change (0 : Int) ≤ 7 ∧ (7 : Int) ≤ maxSafeInteger
      decide
    · rintro usage ⟨⟩
      exact ⟨by decide, by decide, by decide, by decide, by decide⟩

end PiOxidized.Session.Jsonl
