/-
# JSONL storage

A session file is a header line and one line for each committed batch.  The index in
memory answers every query; the file is read when it is opened and written by
creation, by appends, by the repair of a torn last line and by the upgrade of a legacy
file, which replace it as a whole.

The text of JSON values, the form of messages and the normalization of legacy files
are functions the storage is given.
-/

import PiOxidized.Math.Transition
import PiOxidized.Math.Utf8
import PiOxidized.Session.Jsonl.Wire
import PiOxidized.Session.Memory

namespace PiOxidized.Session.Jsonl

open Math

def formatVersion : Nat := 4

def storageVersion : Nat := 1

/-- First record of a file. -/
structure JsonlStorageHeader where
  v : Nat
  kind : String
  id : String
  storageVersion : Nat
  createdAt : Int
  cwd : String
  parentSessionId : Option String
  legacyParentSessionPath : Option String
  nextSeq : Option U64
  deriving DecidableEq

/-- First record of a legacy file. -/
structure LegacyV3Header where
  kind : String
  version : Nat
  id : String
  timestamp : String
  cwd : String
  parentSession : Option String
  deriving DecidableEq

inductive ParsedHeader
  | v4 (header : JsonlStorageHeader)
  | legacyV3 (header : LegacyV3Header)
  deriving DecidableEq

/-- What normalizing the records of a legacy file comes to. -/
structure NormalizedLegacyV3Records where
  writes : List (CommittedWrite Json)
  importedUsage : Usage
  nextSeq : U64

/-- What the storage is given: the text of values, the form of messages, and the legacy
normalization, which mints an id for each record it keeps. -/
structure Codecs where
  text : JsonText
  messages : MessageCodec
  isTimestamp : String → Bool
  normalizeRecords : (Nat → String) → List (List Char) → Except SessionError NormalizedLegacyV3Records
  normalizeHeader : LegacyV3Header → Except SessionError JsonlStorageHeader

def invalidHeader : SessionError := .backend .invalidHeader "invalid JSONL session header"

def wireCorrupt (message : String) : SessionError := .backend .corrupt message

/-! ## Header -/

/-- A 32-bit number. -/
def readU32 : Json → Option Nat
  | .int n => if 0 ≤ n ∧ n < 2 ^ 32 then some n.toNat else none
  | _ => none

def stringField (key : String) : Option String → List (String × Json)
  | none => []
  | some text => [(key, .string text)]

/-- A header as it is written: a record of its own, its members as they are declared. -/
def headerJson (header : JsonlStorageHeader) : Json :=
  .object ([("v", .int header.v), ("kind", .string header.kind), ("id", .string header.id),
    ("storageVersion", .int header.storageVersion), ("createdAt", .int header.createdAt),
    ("cwd", .string header.cwd)] ++
    stringField "parentSessionId" header.parentSessionId ++
    stringField "legacyParentSessionPath" header.legacyParentSessionPath ++
    counterField "nextSeq" header.nextSeq)

/-- A header that was read: its members in the order of their keys. -/
def headerValue (header : JsonlStorageHeader) : Json :=
  .object ([("createdAt", .int header.createdAt), ("cwd", .string header.cwd),
    ("id", .string header.id), ("kind", .string header.kind)] ++
    stringField "legacyParentSessionPath" header.legacyParentSessionPath ++
    counterField "nextSeq" header.nextSeq ++
    stringField "parentSessionId" header.parentSessionId ++
    [("storageVersion", .int header.storageVersion), ("v", .int header.v)])

def readHeader (value : Json) : Option JsonlStorageHeader := do
  let v ← value.required readU32 "v"
  let kind ← value.required Json.readString "kind"
  let id ← value.required Json.readString "id"
  let storageVersion ← value.required readU32 "storageVersion"
  let createdAt ← value.required Json.readI64 "createdAt"
  let cwd ← value.required Json.readString "cwd"
  let parentSessionId ← value.optional Json.readString "parentSessionId"
  let legacyParentSessionPath ← value.optional Json.readString "legacyParentSessionPath"
  let nextSeq ← value.optional Json.readU64 "nextSeq"
  some ⟨v, kind, id, storageVersion, createdAt, cwd, parentSessionId, legacyParentSessionPath,
    nextSeq⟩

/-- The checks of a header that was read. -/
def JsonlStorageHeader.admissible (header : JsonlStorageHeader) : Bool :=
  header.v == formatVersion && header.kind == "header" && header.storageVersion != 0 &&
    decide (0 ≤ header.createdAt ∧ header.createdAt ≤ maxSafeInteger) &&
    header.nextSeq.all fun nextSeq => nextSeq != U64.zero && decide (nextSeq.val ≤ maxSafeInteger)

def readLegacyHeader (value : Json) : Option LegacyV3Header := do
  let kind ← value.required Json.readString "type"
  let version ← value.required readU32 "version"
  let id ← value.required Json.readString "id"
  let timestamp ← value.required Json.readString "timestamp"
  let cwd ← value.required Json.readString "cwd"
  let parentSession ← value.optional Json.readString "parentSession"
  some { kind, version, id, timestamp, cwd, parentSession }

def isString : Json → Bool
  | .string _ => true
  | _ => false

/-- Whether a value has the shape of a legacy header. -/
def isLegacyHeader (value : Json) : Bool :=
  (value.get? "type").bind Json.readString == some "session" &&
    (value.get? "version").bind Json.readU64 == some ⟨3, by decide⟩ &&
    (value.get? "id").any isString && (value.get? "cwd").any isString &&
    (value.get? "timestamp").any isString && (value.get? "parentSession").all isString

def parseHeader (codecs : Codecs) (line : List Char) : Except SessionError ParsedHeader :=
  match codecs.text.read line with
  | none => .error (.backend .invalidHeader "invalid JSONL session header: not valid JSON")
  | some value =>
    if (value.get? "kind").bind Json.readString = some "header" ∧
        (value.get? "v").bind Json.readU64 = some ⟨formatVersion, by decide⟩ then
      match readHeader value with
      | none => .error invalidHeader
      | some header => if header.admissible then .ok (.v4 header) else .error invalidHeader
    else if isLegacyHeader value then
      match readLegacyHeader value with
      | none => .error (.backend .invalidHeader "invalid legacy v3 JSONL session header")
      | some header =>
        if codecs.isTimestamp header.timestamp then .ok (.legacyV3 header)
        else .error (.backend .invalidHeader "invalid legacy v3 JSONL session header")
    else .error invalidHeader

/-! ## Transactions -/

def validateCommittedWire (write : CommittedWrite Json) : Except SessionError Unit :=
  if write.seq = U64.zero ∨ maxSafeInteger < write.seq.val then
    .error (wireCorrupt "invalid JSONL write seq")
  else
    match write with
    | .entry entry =>
      if 0 ≤ entry.base.timestamp ∧ entry.base.timestamp ≤ maxSafeInteger then .ok ()
      else .error (wireCorrupt "invalid JSONL entry timestamp")
    | _ => .ok ()

/-- One write is an object, any other number of them an array. -/
def transactionJson (messages : MessageCodec) : List (CommittedWrite Json) → Json
  | [write] => writeJson messages write
  | writes => .array (writes.map (writeJson messages))

def serializeTransaction (codecs : Codecs) (writes : List (CommittedWrite Json)) : List Char :=
  codecs.text.write (transactionJson codecs.messages writes)

/-- The values of a line: the items of an array, or the one value it is. -/
def transactionValues : Json → List Json
  | .array values => values
  | value => [value]

/-- One write of a line. -/
def parseWrite (messages : MessageCodec) (value : Json) : Except SessionError (CommittedWrite Json) :=
  match readWrite messages value with
  | none => .error (wireCorrupt "invalid JSONL transaction write")
  | some write =>
    match validateCommittedWire write with
    | .error error => .error error
    | .ok () => .ok write

def parseTransaction (codecs : Codecs) (line : List Char) :
    Except SessionError (List (CommittedWrite Json)) :=
  match codecs.text.read line with
  | none => .error (wireCorrupt "invalid JSONL transaction: not valid JSON")
  | some value => (transactionValues value).mapM (parseWrite codecs.messages)

/-! ## Files -/

/-- The complete lines of a file, and whether something follows the last of them. -/
def splitCompleteLines (content : List Char) : List (List Char) × Bool :=
  if content.getLast? = some '\n' then (content.dropLast.splitOn '\n', false)
  else
    match content.reverse.dropWhile (fun c => c != '\n') with
    | [] => ([], true)
    | _ :: before => (before.reverse.splitOn '\n', true)

/-- A file of lines, each closed. -/
def completeFile (lines : List (List Char)) : List UInt8 :=
  Utf8.encode (List.intercalate ['\n'] lines ++ ['\n'])

/-- What the file still is. -/
inductive Backing
  | v4
  | v3 (importedUsage : Usage) (baseline : List (CommittedWrite Json))

/-- A storage handle, with the file it stands on. -/
structure JsonlStorage where
  state : InMemoryStorageState Json
  backing : Backing
  header : JsonlStorageHeader
  file : List UInt8

/-- The totals a handle reports: those of a legacy file include its imported usage. -/
def JsonlStorage.getStats (s : JsonlStorage) : SessionStats := match s.backing with
  | .v4 => s.state.stats
  | .v3 importedUsage _ => { s.state.stats with usage := addUsage s.state.stats.usage importedUsage }

/-- A new file with nothing but a header. -/
def createSync (codecs : Codecs) (header : JsonlStorageHeader) : Except SessionError JsonlStorage :=
  if header.v ≠ formatVersion ∨ header.kind ≠ "header" then
    .error (.backend .invalidHeader "invalid JSONL storage header")
  else
    .ok
      { state := InMemoryStorageState.new
        backing := .v4
        header := header
        file := completeFile [codecs.text.write (headerJson header)] }

/-- Replay the lines of a file, one batch each. -/
def replayLines (codecs : Codecs) :
    InMemoryStorageState Json → List (List Char) → Except SessionError (InMemoryStorageState Json)
  | state, [] => .ok state
  | state, line :: lines =>
    match parseTransaction codecs line with
    | .error _ => .error (wireCorrupt "invalid JSONL storage")
    | .ok writes =>
      match state.replay writes with
      | (.error _, _) => .error (wireCorrupt "invalid JSONL storage")
      | (.ok _, next) => replayLines codecs next lines

/-- The sequence mark of a header that keeps one. -/
def advanceTo (state : InMemoryStorageState Json) : Option U64 → InMemoryStorageState Json
  | none => state
  | some nextSeq => state.advanceNextSeq nextSeq

/-- A file of the current format; a torn one is replaced by its complete lines. -/
def openV4 (codecs : Codecs) (header : JsonlStorageHeader) (file : List UInt8)
    (lines : List (List Char)) (torn : Bool) : Except SessionError JsonlStorage :=
  if header.storageVersion ≠ storageVersion then
    .error (.backend .versionMismatch "unsupported storage version")
  else
    match replayLines codecs .new lines.tail with
    | .error error => .error error
    | .ok state =>
      .ok
        { state := advanceTo state header.nextSeq
          backing := .v4
          header := header
          file := if torn then completeFile lines else file }

/-- A legacy file, which is left as it is. -/
def openV3 (codecs : Codecs) (mint : Nat → String) (header : LegacyV3Header) (file : List UInt8)
    (records : List (List Char)) : Except SessionError JsonlStorage := do
  let normalized ← codecs.normalizeRecords mint records
  let target ← codecs.normalizeHeader header
  match InMemoryStorageState.new.replay normalized.writes with
  | (.error _, _) => .error (wireCorrupt "invalid legacy JSONL storage")
  | (.ok _, state) =>
    .ok
      { state := state
        backing := .v3 normalized.importedUsage normalized.writes
        header := { target with nextSeq := some normalized.nextSeq }
        file := file }

/-- Open a file, minting ids when it is a legacy one. -/
def openSync (codecs : Codecs) (mint : Nat → String) (file : List UInt8) :
    Except SessionError JsonlStorage :=
  match Utf8.decode file with
  | none => .error (.backend .io "failed to read JSONL storage")
  | some content =>
    let (lines, torn) := splitCompleteLines content
    match lines with
    | [] => .error (.backend .invalidHeader "missing header")
    | first :: records =>
      if first.isEmpty then .error (.backend .invalidHeader "missing header")
      else
        match parseHeader codecs first with
        | .error _ => .error (.backend .invalidHeader "invalid header")
        | .ok (.v4 header) => openV4 codecs header file lines torn
        | .ok (.legacyV3 header) => openV3 codecs mint header file records

/-! ## Commits -/

/-- How writing to the disk goes: it completes, or fails when so many bytes of an append have
reached the file.  Replacing a file happens as a whole or not at all. -/
inductive Disk
  | completes
  | failsAfter (count : Nat)
  deriving DecidableEq

def ioFailure : SessionError := .backend .io "failed to append JSONL storage"

/-- The batch a commit proposes to a file: a legacy file is told its imported usage first. -/
def JsonlStorage.batch (s : JsonlStorage) (writes : List (Write Json)) (usageId : String) :
    List (Write Json) :=
  match s.backing with
  | .v4 => writes
  | .v3 importedUsage _ =>
    .usage
      { id := usageId
        usage := importedUsage
        entryId := none
        adjustment := true
        details := some (.object [("source", .string "v3-import")]) } :: writes

/-- Check a batch and assign its sequences. -/
def JsonlStorage.prepare (s : JsonlStorage) (writes : List (Write Json)) (now : Int)
    (usageId : String) : Except SessionError (List (CommittedWrite Json) × List U64) :=
  match validateCommittedWrites (s.batch writes usageId) s.state.nextSeq s.state.idView with
  | .error error => .error error
  | .ok () => commitWrites (s.batch writes usageId) s.state.nextSeq now

/-- The bytes of the line that appends a batch. -/
def appended (codecs : Codecs) (committed : List (CommittedWrite Json)) : List UInt8 :=
  Utf8.encode (serializeTransaction codecs committed ++ ['\n'])

/-- Append a batch to the file, then to the index. -/
def JsonlStorage.append (codecs : Codecs) (s : JsonlStorage) (committed : List (CommittedWrite Json))
    (seqs : List U64) (now : Int) (disk : Disk) : Except SessionError CommitResult × JsonlStorage :=
  let next := s.state.applyCommitted committed
  let result : CommitResult := ⟨s.state.nextSeq, seqs, now, next.stats⟩
  if committed.isEmpty then (.ok result, { s with state := next })
  else
    match disk with
    | .completes =>
      (.ok result, { s with state := next, file := s.file ++ appended codecs committed })
    | .failsAfter count =>
      (.error ioFailure, { s with file := s.file ++ (appended codecs committed).take count })

/-- Replace a legacy file by its baseline, one line a write, and the first batch. -/
def JsonlStorage.upgrade (codecs : Codecs) (s : JsonlStorage) (baseline : List (CommittedWrite Json))
    (committed : List (CommittedWrite Json)) (seqs : List U64) (now : Int) (disk : Disk) :
    Except SessionError CommitResult × JsonlStorage :=
  match s.state.nextSeq.checkedAdd committed.length with
  | none => (.error (.invariant "sequence overflow"), s)
  | some nextSeq =>
    let header := { s.header with nextSeq := some nextSeq }
    let lines := codecs.text.write (headerJson header) ::
      (baseline.map (fun write => serializeTransaction codecs [write]) ++
        [serializeTransaction codecs committed])
    match disk with
    | .failsAfter _ => (.error (.backend .io "failed to publish JSONL storage"), s)
    | .completes =>
      let next := s.state.applyCommitted committed
      (.ok ⟨s.state.nextSeq.saturatingAdd U64.one, seqs.tail, now, next.stats⟩,
        { state := next, backing := .v4, header := header, file := completeFile lines })

/-- Commit a batch. -/
def JsonlStorage.commitSync (codecs : Codecs) (s : JsonlStorage) (writes : List (Write Json))
    (now : Int) (usageId : String) (disk : Disk) : Except SessionError CommitResult × JsonlStorage :=
  match s.backing, writes.isEmpty with
  | .v3 _ _, true => (.ok ⟨s.state.nextSeq, [], now, s.getStats⟩, s)
  | .v3 _ baseline, false =>
    match s.prepare writes now usageId with
    | .error error => (.error error, s)
    | .ok (committed, seqs) => s.upgrade codecs baseline committed seqs now disk
  | .v4, _ =>
    match s.prepare writes now usageId with
    | .error error => (.error error, s)
    | .ok (committed, seqs) => s.append codecs committed seqs now disk

end PiOxidized.Session.Jsonl
