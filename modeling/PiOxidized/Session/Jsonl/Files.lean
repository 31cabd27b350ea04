/-
# What a file holds

The complete lines of a file, and when opening it gives back a handle: the header reads
back, and the other lines replay to the index in memory.
-/

import PiOxidized.Math.Lines
import PiOxidized.Session.Jsonl.Storage
import PiOxidized.Session.Replay
import Mathlib.Data.List.TakeWhile

namespace PiOxidized.Session.Jsonl

open List Option Math InMemoryStorageState

variable {codecs : Codecs} {lines : List (List Char)} {rest : List Char}

/-! ## Lines -/

theorem completeFile_eq (hlines : lines ≠ []) :
    completeFile lines = Utf8.encode (terminated '\n' lines) := by
  rw [completeFile, terminated_eq_intercalate '\n' hlines]

/-- Closed lines are complete, and what follows them is torn. -/
theorem splitCompleteLines_terminated (hlines : lines ≠ []) (hline : ∀ line ∈ lines, '\n' ∉ line)
    (hrest : '\n' ∉ rest) :
    splitCompleteLines (terminated '\n' lines ++ rest) = (lines, !rest.isEmpty) := by
  rcases eq_nil_or_concat rest with rfl | ⟨before, last, rfl⟩
  · rw [append_nil, splitCompleteLines, if_pos (getLast?_terminated '\n' hlines),
      splitOn_terminated hlines hline]
    rfl
  · have hlast : last ≠ '\n' := by
      rintro rfl
      exact hrest (by simp)
    have hget : (terminated '\n' lines ++ (before ++ [last])).getLast? = some last := by
      rw [← append_assoc, getLast?_concat]
    rw [concat_eq_append] at hrest ⊢
    rw [splitCompleteLines, if_neg (by rw [hget]; exact fun h => hlast (some.inj h)),
      dropWhile_reverse_terminated hlines hrest, terminated_eq_intercalate '\n' hlines,
      reverse_append, reverse_singleton, singleton_append]
    simp only [reverse_reverse]
    rw [splitOn_intercalate '\n' hline hlines]
    simp

/-- The complete lines of any file hold no newline, and with what is torn they are the file. -/
theorem splitCompleteLines_spec {content : List Char} {torn : Bool} (hlines : lines ≠ [])
    (h : splitCompleteLines content = (lines, torn)) :
    (∀ line ∈ lines, '\n' ∉ line) ∧
      ∃ rest, '\n' ∉ rest ∧ content = terminated '\n' lines ++ rest ∧ torn = !rest.isEmpty := by
  rw [splitCompleteLines] at h
  split_ifs at h with hlast
  · obtain ⟨rfl, rfl⟩ := Prod.mk.inj h
    refine ⟨fun line hline => not_mem_of_mem_splitOn hline, [], not_mem_nil, ?_, rfl⟩
    rw [terminated_splitOn, append_nil]
    exact (dropLast_append_getLast? '\n' hlast).symm
  · split at h
    · exact absurd (Prod.mk.inj h).1.symm hlines
    · rename_i c before hdrop
      obtain ⟨rfl, rfl⟩ := Prod.mk.inj h
      have hc : c = '\n' := by
        have hhead := head_dropWhile_not (fun c => c != '\n') (l := content.reverse)
          (by rw [hdrop]; exact cons_ne_nil _ _)
        simpa [hdrop] using hhead
      -- What stands before the last newline of the reversed text is the torn rest.
      have hreverse := takeWhile_append_dropWhile (p := fun c => c != '\n') (l := content.reverse)
      generalize hrest : content.reverse.takeWhile (fun c => c != '\n') = rest at hreverse
      have hcont : content = before.reverse ++ ['\n'] ++ rest.reverse := by
        rw [← reverse_reverse content, ← hreverse, hdrop, hc]
        simp
      refine ⟨fun line hline => not_mem_of_mem_splitOn hline, rest.reverse, ?_, ?_, ?_⟩
      · intro hmem
        rw [mem_reverse, ← hrest] at hmem
        have hne := mem_takeWhile_imp hmem
        simp at hne
      · rw [terminated_splitOn]
        exact hcont
      · cases rest with
        | cons other rest => simp
        | nil =>
          rw [reverse_nil, append_nil] at hcont
          rw [hcont, getLast?_concat] at hlast
          exact absurd rfl hlast

/-! ## Headers -/

/-- A header this version writes: its numbers are in range, and its text reads back. -/
structure JsonlStorageHeader.Reads (codecs : Codecs) (header : JsonlStorageHeader) : Prop where
  version : header.storageVersion = Jsonl.storageVersion
  admissible : header.admissible = true
  text : codecs.text.Faithful (headerJson header) (headerValue header)

variable {header : JsonlStorageHeader}

theorem lookup_stringField {key other : String} (field : Option String) (h : other ≠ key) :
    (stringField key field).lookup other = none := by
  cases field with
  | none => rfl
  | some text =>
    rw [stringField, lookup_cons, beq_false_of_ne h]
    rfl

/-- A field that was left out reads as empty. -/
theorem optional_stringField {value : Json} {key : String} {field : Option String}
    (h : value.get? key = (stringField key field).lookup key) :
    value.optional Json.readString key = some field := by
  rw [Json.optional, h]
  cases field with
  | none => rfl
  | some text =>
    rw [stringField, lookup_cons, beq_self_eq_true]
    rfl

theorem readU32_int {n : Nat} (h : n < 2 ^ 32) : readU32 (.int n) = some n := by
  have hbound : (n : Int) < 2 ^ 32 := by omega
  rw [readU32, if_pos ⟨Int.natCast_nonneg n, hbound⟩, Int.toNat_natCast]

attribute [local simp] List.lookup_cons Json.required lookup_stringField lookup_append

/-- A header that was written reads back. -/
theorem readHeader_headerValue (hv : header.v = formatVersion)
    (hver : header.storageVersion = storageVersion)
    (hcreatedAt : 0 ≤ header.createdAt ∧ header.createdAt ≤ maxSafeInteger) :
    readHeader (headerValue header) = some header := by
  have hv' : readU32 (.int header.v) = some header.v := readU32_int (by simp [hv, formatVersion])
  have hver' : readU32 (.int header.storageVersion) = some header.storageVersion :=
    readU32_int (by simp [hver, storageVersion])
  have hbound : -2 ^ 63 ≤ header.createdAt ∧ header.createdAt < 2 ^ 63 := by
    rw [maxSafeInteger] at hcreatedAt
    omega
  have hpar : (headerValue header).optional Json.readString "parentSessionId" =
      some header.parentSessionId := by
    apply optional_stringField
    simp [headerValue, Json.get?, lookup_counterField]
  have hlegacy : (headerValue header).optional Json.readString "legacyParentSessionPath" =
      some header.legacyParentSessionPath := by
    apply optional_stringField
    simp [headerValue, Json.get?, lookup_counterField]
  have hnseq : (headerValue header).optional Json.readU64 "nextSeq" = some header.nextSeq := by
    apply optional_counterField
    simp [headerValue, Json.get?]
  have hv : (headerValue header).required readU32 "v" = some header.v := by
    have hfield : (headerValue header).get? "v" = some (.int header.v) := by
      simp [headerValue, Json.get?, lookup_counterField]
    rw [Json.required, hfield, bind_some, hv']
  have hkind : (headerValue header).required Json.readString "kind" = some header.kind := by
    simp [headerValue, Json.get?]
  have hid : (headerValue header).required Json.readString "id" = some header.id := by
    simp [headerValue, Json.get?]
  have hver : (headerValue header).required readU32 "storageVersion" =
      some header.storageVersion := by
    have hfield : (headerValue header).get? "storageVersion" =
        some (.int header.storageVersion) := by simp [headerValue, Json.get?, lookup_counterField]
    rw [Json.required, hfield, bind_some, hver']
  have hcreatedAt : (headerValue header).required Json.readI64 "createdAt" =
      some header.createdAt := by
    simp [headerValue, Json.get?, Json.readI64_int hbound]
  have hcwd : (headerValue header).required Json.readString "cwd" = some header.cwd := by
    simp [headerValue, Json.get?]
  simp only [readHeader, hv, hkind, hid, hver, hcreatedAt, hcwd, hpar, hlegacy, hnseq,
    bind_eq_bind, bind_some]

/-- The first line of a file gives back its header. -/
theorem JsonlStorageHeader.Reads.parseHeader (h : header.Reads codecs) :
    parseHeader codecs (codecs.text.write (headerJson header)) = .ok (.v4 header) := by
  have hadmissible := h.admissible
  simp only [JsonlStorageHeader.admissible, Bool.and_eq_true, beq_iff_eq, decide_eq_true_eq]
    at hadmissible
  obtain ⟨⟨⟨⟨hv, hkind⟩, -⟩, hcreatedAt⟩, -⟩ := hadmissible
  have hfamily : ((headerValue header).get? "kind").bind Json.readString = some "header" ∧
      ((headerValue header).get? "v").bind Json.readU64 = some ⟨formatVersion, by decide⟩ := by
    constructor
    · simp [headerValue, Json.get?, hkind]
    · simp only [headerValue, Json.get?]
      simp [lookup_counterField, hv]
      rfl
  rw [Jsonl.parseHeader, h.text.read]
  simp only [if_pos hfamily, readHeader_headerValue hv h.version hcreatedAt, h.admissible, if_true]

/-! ## Batches -/

/-- A batch whose text is faithful and whose writes read back. -/
structure Recorded (codecs : Codecs) (writes : List (CommittedWrite Json)) : Prop where
  text : codecs.text.Faithful (transactionJson codecs.messages writes)
    (transactionJson codecs.messages writes)
  legible : ∀ write ∈ writes, Legible codecs.messages write

variable {state : InMemoryStorageState Json} {writes : List (CommittedWrite Json)}
  {messages : MessageCodec}

variable {final : InMemoryStorageState Json} {write : CommittedWrite Json} {line : List Char}

theorem validateCommittedWire_eq_ok (h : Legible messages write) :
    validateCommittedWire write = .ok () := by
  have hseq : ¬(write.seq = U64.zero ∨ maxSafeInteger < write.seq.val) := by
    obtain ⟨hpos, hmax⟩ := h.seq
    rintro (hzero | hlarge)
    · rw [hzero] at hpos
      exact absurd hpos (by decide)
    · omega
  unfold validateCommittedWire
  rw [if_neg hseq]
  cases write with
  | entry entry => exact if_pos (h.entry entry rfl).1
  | usage | value | list => rfl

theorem parseWrite_writeJson (h : Legible messages write) :
    parseWrite messages (writeJson messages write) = .ok write := by
  rw [parseWrite, readWrite_writeJson h]
  simp only [validateCommittedWire_eq_ok h]

theorem mapM_parseWrite (h : ∀ write ∈ writes, Legible messages write) :
    (writes.map (writeJson messages)).mapM (parseWrite messages) = .ok writes := by
  induction writes with
  | nil => rfl
  | cons write writes ih =>
    rw [map_cons, mapM_cons, parseWrite_writeJson (h write mem_cons_self),
      ih fun other hoth => h other (mem_cons_of_mem _ hoth)]
    rfl

theorem transactionValues_transactionJson (messages : MessageCodec)
    (writes : List (CommittedWrite Json)) :
    transactionValues (transactionJson messages writes) = writes.map (writeJson messages) := by
  match writes with
  | [] => rfl
  | [write] => cases write <;> rfl
  | _ :: _ :: _ => rfl

/-- A recorded batch is read from its line. -/
theorem Recorded.parseTransaction (h : Recorded codecs writes) :
    parseTransaction codecs (serializeTransaction codecs writes) = .ok writes := by
  rw [Jsonl.parseTransaction, serializeTransaction, h.text.read]
  simp only [transactionValues_transactionJson, mapM_parseWrite h.legible]

theorem replayLines_cons {next : InMemoryStorageState Json} {stats : SessionStats}
    (hparse : Jsonl.parseTransaction codecs line = .ok writes)
    (hrep : state.replay writes = (.ok stats, next)) :
    replayLines codecs state (line :: lines) = replayLines codecs next lines := by
  simp only [replayLines, hparse, hrep]

/-- A line that was replayed holds a batch that replays. -/
theorem replayLines_cons_eq_ok (h : replayLines codecs state (line :: lines) = .ok final) :
    ∃ writes stats next, Jsonl.parseTransaction codecs line = .ok writes ∧
      state.replay writes = (.ok stats, next) ∧ replayLines codecs next lines = .ok final := by
  rw [replayLines] at h
  split at h
  · cases h
  · rename_i writes hparse
    split at h
    · cases h
    · rename_i stats next hrep
      exact ⟨writes, stats, next, hparse, hrep, h⟩

/-- The lines of recorded batches replay as the batches do. -/
theorem replayLines_serialized {batches : List (List (CommittedWrite Json))}
    (hrecd : ∀ batch ∈ batches, Recorded codecs batch)
    (hrep : state.replayAll batches = .ok final) :
    replayLines codecs state (batches.map (serializeTransaction codecs)) = .ok final := by
  induction batches generalizing state with
  | nil => exact hrep
  | cons batch batches ih =>
    rw [replayAll] at hrep
    cases hbat : state.replay batch with
    | mk outcome next =>
      rw [hbat] at hrep
      cases outcome with
      | error error => cases hrep
      | ok stats =>
        rw [map_cons, replayLines_cons (hrecd batch mem_cons_self).parseTransaction hbat]
        exact ih (fun other hoth => hrecd other (mem_cons_of_mem _ hoth)) hrep

theorem replayLines_append {middle : InMemoryStorageState Json} {more : List (List Char)}
    (h : replayLines codecs state lines = .ok middle) :
    replayLines codecs state (lines ++ more) = replayLines codecs middle more := by
  induction lines generalizing state with
  | nil =>
    cases h
    rfl
  | cons line lines ih =>
    obtain ⟨writes, stats, next, hparse, hrep, hrest⟩ := replayLines_cons_eq_ok h
    rw [cons_append, replayLines_cons hparse hrep]
    exact ih hrest

end PiOxidized.Session.Jsonl
