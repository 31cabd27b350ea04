/-
# Accumulating output

The output of a tool arrives in chunks of bytes.  What they decode to is counted as it would be at
once, however it was cut; and as long as no write is lost half-way, and nothing is appended behind a
file that was closed, the file that is reported holds what was accepted.
-/

import Mathlib.Data.List.DropRight
import PiOxidized.Math.Lossy
import PiOxidized.Math.Transition

namespace PiOxidized.Tools

open List Math

def sanitizeBinaryOutput (text : List Char) : List Char := text.filter fun ch =>
    ch.toNat = 0x09 || ch.toNat = 0x0a || ch.toNat = 0x0d ||
      (0x1f < ch.toNat && !(0xfff9 ≤ ch.toNat && ch.toNat ≤ 0xfffb))

def byteLength (text : List Char) : Nat := (Utf8.encode text).length

/-- The lines of a content; a final newline opens none. -/
def splitLinesForCounting (content : List Char) : List (List Char) := if content = [] then []
  else if content.getLast? = some '\n' then (content.splitOn '\n').dropLast
  else content.splitOn '\n'

/-! ## Decoding -/

structure StreamingUtf8Decoder where
  pending : List UInt8

namespace StreamingUtf8Decoder

/-- Decode up to every error, and give back what is incomplete. -/
def decodeRest (stream : Bool) : Nat → List UInt8 → List Char × List UInt8
  | 0, _ => ([], [])
  | fuel + 1, rest =>
    match Utf8.fromUtf8 rest with
    | (valid, none) => (valid, [])
    | (valid, some ⟨rest, some len⟩) =>
      (valid ++ Utf8.replacement :: (decodeRest stream fuel (rest.drop len)).1,
        (decodeRest stream fuel (rest.drop len)).2)
    | (valid, some ⟨rest, none⟩) =>
      if stream then (valid, rest) else (valid ++ [Utf8.replacement], [])

/-- An error costs a byte at least, so that there are fewer of them than bytes. -/
def decode (decoder : StreamingUtf8Decoder) (data : List UInt8) (stream : Bool) :
    List Char × StreamingUtf8Decoder :=
  let (text, pending) :=
    decodeRest stream (decoder.pending ++ data).length (decoder.pending ++ data)
  (text, ⟨pending⟩)

def finish (decoder : StreamingUtf8Decoder) : List Char × StreamingUtf8Decoder :=
  decoder.decode [] false

end StreamingUtf8Decoder

/-! ## Accumulating -/

inductive OutputAccumulatorError
  | finished
  | spillCreate (path : String)
  | spillWrite (path : String)
  deriving DecidableEq

/-- What the file system does: the path that is drawn, whether the file is created, and the bytes
after which a write of the buffered chunks or of the new one fails. -/
structure Spill where
  path : String
  creates : Bool
  flushFails : Option Nat
  writeFails : Option Nat
  deriving DecidableEq

/-- The bytes that are written, and whether they are all. -/
def writeAll (fails : Option Nat) (data : List UInt8) : List UInt8 × Bool := match fails with
  | none => (data, true)
  | some count => if count < data.length then (data.take count, false) else (data, true)

/-- The accumulator, with the text it has decoded and the file at its path. -/
structure OutputAccumulator where
  maxLines : Nat
  maxBytes : Nat
  decoder : StreamingUtf8Decoder := ⟨[]⟩
  rawChunks : List (List UInt8) := []
  decoded : List Char := []
  totalRawBytes : Nat := 0
  totalDecodedBytes : Nat := 0
  completedLines : Nat := 0
  totalLines : Nat := 0
  currentLineBytes : Nat := 0
  hasOpenLine : Bool := false
  finished : Bool := false
  tempFilePath : Option String := none
  tempFile : Bool := false
  file : List UInt8 := []

namespace OutputAccumulator

def lastLineBytes (acc : OutputAccumulator) : Nat := acc.currentLineBytes

def appendDecodedText (acc : OutputAccumulator) (text : List Char) : OutputAccumulator :=
  if text = [] then acc
  else
    let newlines := text.count '\n'
    let tail := text.rtakeWhile (· != '\n')
    let completedLines := acc.completedLines + newlines
    let hasOpenLine := newlines = 0 || tail ≠ []
    { acc with
      decoded := acc.decoded ++ text
      totalDecodedBytes := acc.totalDecodedBytes + byteLength text
      completedLines := completedLines
      currentLineBytes :=
        if newlines = 0 then acc.currentLineBytes + byteLength text else byteLength tail
      hasOpenLine := hasOpenLine
      totalLines := completedLines + if hasOpenLine then 1 else 0 }

def shouldUseTempFile (acc : OutputAccumulator) : Bool :=
  acc.maxBytes < acc.totalRawBytes || acc.maxBytes < acc.totalDecodedBytes ||
    acc.maxLines < acc.totalLines

/-- The path is kept before the buffered chunks are written. -/
def ensureTempFile (acc : OutputAccumulator) (spill : Spill) :
    OutputAccumulator × Except OutputAccumulatorError Unit :=
  if acc.tempFilePath.isSome then (acc, .ok ())
  else if !spill.creates then (acc, .error (.spillCreate spill.path))
  else
    let (written, whole) := writeAll spill.flushFails acc.rawChunks.flatten
    ({ acc with
        rawChunks := []
        tempFilePath := some spill.path
        file := written
        tempFile := whole },
      if whole then .ok () else .error (.spillWrite spill.path))

/-- Write a chunk through, if the file is open. -/
def writeThrough (acc : OutputAccumulator) (data : List UInt8) (spill : Spill) :
    OutputAccumulator × Except OutputAccumulatorError Unit :=
  match acc.tempFile, acc.tempFilePath with
  | true, some path =>
    let (written, whole) := writeAll spill.writeFails data
    ({ acc with file := acc.file ++ written }, if whole then .ok () else .error (.spillWrite path))
  | _, _ => (acc, .ok ())

/-- A chunk, decoded and counted. -/
def count (acc : OutputAccumulator) (data : List UInt8) : OutputAccumulator :=
  let decoded := acc.decoder.decode data true
  { acc with totalRawBytes := acc.totalRawBytes + data.length, decoder := decoded.2
    }.appendDecodedText (sanitizeBinaryOutput decoded.1)

def append (acc : OutputAccumulator) (data : List UInt8) (spill : Spill) :
    OutputAccumulator × Except OutputAccumulatorError Unit :=
  if acc.finished then (acc, .error .finished)
  else
    let acc := acc.count data
    if acc.tempFile || acc.shouldUseTempFile then
      match acc.ensureTempFile spill with
      | (acc, .error error) => (acc, .error error)
      | (acc, .ok ()) => acc.writeThrough data spill
    else if data = [] then (acc, .ok ())
    else ({ acc with rawChunks := acc.rawChunks ++ [data] }, .ok ())

/-- What is incomplete at the end, decoded and counted. -/
def countRest (acc : OutputAccumulator) : OutputAccumulator := let decoded := acc.decoder.finish
  { acc with finished := true, decoder := decoded.2 }.appendDecodedText
    (sanitizeBinaryOutput decoded.1)

def finish (acc : OutputAccumulator) (spill : Spill) :
    OutputAccumulator × Except OutputAccumulatorError Unit :=
  if acc.finished then (acc, .ok ())
  else
    let acc := acc.countRest
    if acc.shouldUseTempFile then acc.ensureTempFile spill else (acc, .ok ())

/-- The path that a snapshot reports. -/
def snapshot (acc : OutputAccumulator) (persistIfTruncated : Bool) (spill : Spill) :
    OutputAccumulator × Except OutputAccumulatorError (Option String) :=
  let truncated := acc.maxLines < acc.totalLines || acc.maxBytes < acc.totalDecodedBytes
  if persistIfTruncated && truncated then
    match acc.ensureTempFile spill with
    | (acc, .error error) => (acc, .error error)
    | (acc, .ok ()) => (acc, .ok acc.tempFilePath)
  else (acc, .ok acc.tempFilePath)

def closeTempFile (acc : OutputAccumulator) : OutputAccumulator := { acc with tempFile := false }

end OutputAccumulator

/-! ## Totals -/

variable {rest data : List UInt8} {fuel : Nat} {text more : List Char}

namespace StreamingUtf8Decoder

/-- What is given back is what the decoding has not finished. -/
theorem decodeRest_true (h : rest.length ≤ fuel) :
    (decodeRest true fuel rest).1 = (Utf8.decodeFrom none rest).1 ∧
      Utf8.decodeFrom none (decodeRest true fuel rest).2 = ([], (Utf8.decodeFrom none rest).2) := by
  induction fuel generalizing rest with
  | zero =>
    rw [length_eq_zero_iff.mp (Nat.le_zero.mp h)]
    exact ⟨rfl, rfl⟩
  | succ fuel ih =>
    have htells := Utf8.tells_fromUtf8 rest
    rw [decodeRest]
    split
    · rename_i heq
      rw [heq] at htells
      rw [show Utf8.decodeFrom none rest = _ from htells]
      exact ⟨rfl, rfl⟩
    · rename_i bytes len heq
      rw [heq] at htells
      obtain ⟨hlen, hdec⟩ := htells
      obtain ⟨htext, hpend⟩ := @ih (bytes.drop len) (by omega)
      rw [hdec]
      exact ⟨by rw [htext], hpend⟩
    · rename_i heq
      rw [heq] at htells
      obtain ⟨unfinished, hrest, hdec⟩ := htells
      rw [hdec]
      exact ⟨rfl, hrest⟩

/-- At the end nothing is given back. -/
theorem decodeRest_false (h : rest.length ≤ fuel) :
    (decodeRest false fuel rest).1 = Utf8.lossy rest := by
  induction fuel generalizing rest with
  | zero =>
    rw [length_eq_zero_iff.mp (Nat.le_zero.mp h)]
    rfl
  | succ fuel ih =>
    have htells := Utf8.tells_fromUtf8 rest
    rw [decodeRest, Utf8.lossy]
    split
    · rename_i heq
      rw [heq] at htells
      rw [show Utf8.decodeFrom none rest = _ from htells]
      exact (append_nil _).symm
    · rename_i bytes len heq
      rw [heq] at htells
      obtain ⟨hlen, hdec⟩ := htells
      rw [hdec, @ih (bytes.drop len) (by omega), Utf8.lossy]
      simp
    · rename_i heq
      rw [heq] at htells
      obtain ⟨unfinished, hrest, hdec⟩ := htells
      rw [hdec]
      rfl

end StreamingUtf8Decoder

theorem length_splitOn (text : List Char) : (text.splitOn '\n').length = text.count '\n' + 1 := by
  induction text with
  | nil => rfl
  | cons c text ih =>
    rw [splitOn_cons_eq_if_modifyHead, count_cons]
    split_ifs with hc
    · rw [length_cons, ih]
    · rw [length_modifyHead, ih, Nat.add_zero]

/-- There is a line for every newline, and one for what stands behind the last. -/
theorem length_splitLinesForCounting (text : List Char) : (splitLinesForCounting text).length =
      text.count '\n' + if text.rtakeWhile (· != '\n') = [] then 0 else 1 := by
  cases text using reverseRecOn with
  | nil => rfl
  | append_singleton text c =>
    rw [splitLinesForCounting, if_neg (by simp), getLast?_concat, rtakeWhile_concat]
    by_cases hc : c = '\n'
    · subst hc
      simp [length_splitOn]
    · simp [hc, length_splitOn]

theorem rtakeWhile_append (text more : List Char) : (text ++ more).rtakeWhile (· != '\n') =
      if more.count '\n' = 0 then text.rtakeWhile (· != '\n') ++ more
      else more.rtakeWhile (· != '\n') := by
  induction more using reverseRecOn with
  | nil => simp
  | append_singleton more c ih =>
    rw [← append_assoc, rtakeWhile_concat, rtakeWhile_concat, ih]
    by_cases hc : c = '\n'
    · simp [hc]
    · split_ifs <;> simp_all

theorem byteLength_append (text more : List Char) :
    byteLength (text ++ more) = byteLength text + byteLength more := by
  rw [byteLength, Utf8.encode_append, length_append]
  rfl

namespace OutputAccumulator

variable {acc : OutputAccumulator} {received : List UInt8} {spill : Spill}

/-- The totals are those of the text. -/
structure Counted (acc : OutputAccumulator) : Prop where
  bytes : acc.totalDecodedBytes = byteLength acc.decoded
  completed : acc.completedLines = acc.decoded.count '\n'
  current : acc.currentLineBytes = byteLength (acc.decoded.rtakeWhile (· != '\n'))
  lines : acc.totalLines = (splitLinesForCounting acc.decoded).length

theorem Counted.appendDecodedText (h : acc.Counted) (text : List Char) :
    (acc.appendDecodedText text).Counted := by
  rw [OutputAccumulator.appendDecodedText]
  split_ifs with hnil
  · exact h
  have hopen := rtakeWhile_append acc.decoded text
  constructor
  · simp only [h.bytes, byteLength_append]
  · simp only [h.completed, count_append]
  · simp only [hopen, h.current]
    split_ifs
    · rw [byteLength_append]
    · rfl
  · simp only [length_splitLinesForCounting, hopen, h.completed, count_append]
    by_cases hnone : text.count '\n' = 0
    · simp [hnone, hnil]
    · by_cases htail : text.rtakeWhile (· != '\n') = []
      · simp only [hnone, htail, decide_false, ne_eq, not_true_eq_false, Bool.or_self, if_false,
          if_true, Bool.false_eq_true]
      · simp only [hnone, htail, decide_false, ne_eq, not_false_eq_true, decide_true, Bool.or_true,
          if_false, if_true]

/-- What was decoded of the bytes so far, and is counted. -/
structure Decodes (acc : OutputAccumulator) (received : List UInt8) : Prop extends acc.Counted where
  decoded : acc.decoded = sanitizeBinaryOutput (Utf8.decodeFrom none received).1
  pending : Utf8.decodeFrom none acc.decoder.pending = ([], (Utf8.decodeFrom none received).2)

theorem decoded_appendDecodedText (acc : OutputAccumulator) (text : List Char) :
    (acc.appendDecodedText text).decoded = acc.decoded ++ text := by
  rw [appendDecodedText]
  split_ifs with hnil
  · rw [hnil, append_nil]
  · rfl

theorem decoder_appendDecodedText (acc : OutputAccumulator) (text : List Char) :
    (acc.appendDecodedText text).decoder = acc.decoder := by
  rw [appendDecodedText]
  split_ifs <;> rfl

theorem finished_count (acc : OutputAccumulator) (data : List UInt8) :
    (acc.count data).finished = acc.finished := by
  rw [count, appendDecodedText]
  split_ifs <;> rfl

theorem sanitizeBinaryOutput_append (text more : List Char) :
    sanitizeBinaryOutput (text ++ more) = sanitizeBinaryOutput text ++ sanitizeBinaryOutput more :=
  filter_append _ _

theorem Decodes.count (h : acc.Decodes received) (data : List UInt8) :
    (acc.count data).Decodes (received ++ data) := by
  obtain ⟨htext, hpend⟩ :=
    StreamingUtf8Decoder.decodeRest_true (Nat.le_refl (acc.decoder.pending ++ data).length)
  have hdec := Utf8.decodeFrom_append none acc.decoder.pending data
  have hreceived := Utf8.decodeFrom_append none received data
  rw [h.pending] at hdec
  rw [hdec] at htext hpend
  rw [OutputAccumulator.count]
  constructor
  · apply Counted.appendDecodedText
    exact ⟨h.bytes, h.completed, h.current, h.lines⟩
  · simp only [StreamingUtf8Decoder.decode, decoded_appendDecodedText, htext, hreceived,
      sanitizeBinaryOutput_append, h.decoded, nil_append]
  · simp only [StreamingUtf8Decoder.decode, decoder_appendDecodedText, hpend, hreceived]

/-- What is left at the end is decoded and counted. -/
theorem Decodes.countRest (h : acc.Decodes received) : acc.countRest.Counted ∧
      acc.countRest.decoded = sanitizeBinaryOutput (Utf8.lossy received) := by
  have hrest := StreamingUtf8Decoder.decodeRest_false
    (Nat.le_refl (acc.decoder.pending ++ []).length)
  have hpend : Utf8.lossy (acc.decoder.pending ++ []) =
      Utf8.flush (Utf8.decodeFrom none received).2 := by
    rw [append_nil, Utf8.lossy, h.pending, nil_append]
  rw [OutputAccumulator.countRest]
  constructor
  · apply Counted.appendDecodedText
    exact ⟨h.bytes, h.completed, h.current, h.lines⟩
  · rw [decoded_appendDecodedText, StreamingUtf8Decoder.finish, Utf8.lossy,
      sanitizeBinaryOutput_append, ← hpend, ← hrest, ← h.decoded]
    rfl

/-- Two accumulators that differ in what they have written. -/
def SameTotals (acc acc' : OutputAccumulator) : Prop :=
  ∃ rawChunks tempFilePath tempFile file, acc' = { acc with
    rawChunks := rawChunks, tempFilePath := tempFilePath, tempFile := tempFile, file := file }

theorem SameTotals.trans {next last : OutputAccumulator} (h : SameTotals acc next)
    (h' : SameTotals next last) : SameTotals acc last := by
  obtain ⟨_, _, _, _, rfl⟩ := h
  obtain ⟨_, _, _, _, rfl⟩ := h'
  exact ⟨_, _, _, _, rfl⟩

theorem sameTotals_ensureTempFile (acc : OutputAccumulator) (spill : Spill) :
    SameTotals acc (acc.ensureTempFile spill).1 := by
  rw [ensureTempFile]
  split_ifs <;> exact ⟨_, _, _, _, rfl⟩

theorem sameTotals_writeThrough (acc : OutputAccumulator) (data : List UInt8) (spill : Spill) :
    SameTotals acc (acc.writeThrough data spill).1 := by
  rw [writeThrough]
  split <;> exact ⟨_, _, _, _, rfl⟩

/-- A chunk is decoded and counted, whatever becomes of the file. -/
theorem sameTotals_append (hopen : acc.finished = false) (data : List UInt8) (spill : Spill) :
    SameTotals (acc.count data) (acc.append data spill).1 := by
  have hensure := sameTotals_ensureTempFile (acc.count data) spill
  rw [append, hopen, if_neg Bool.false_ne_true]
  simp only
  split_ifs
  · split
    · rename_i heq
      rwa [heq] at hensure
    · rename_i heq
      rw [heq] at hensure
      exact hensure.trans (sameTotals_writeThrough _ data spill)
  · exact ⟨_, _, _, _, rfl⟩
  · exact ⟨_, _, _, _, rfl⟩

theorem sameTotals_finish (hopen : acc.finished = false) (spill : Spill) :
    SameTotals acc.countRest (acc.finish spill).1 := by
  rw [finish, hopen, if_neg Bool.false_ne_true]
  simp only
  split_ifs
  · exact sameTotals_ensureTempFile _ _
  · exact ⟨_, _, _, _, rfl⟩

/-- One chunk after another. -/
def appendAll (acc : OutputAccumulator) (chunks : List (List UInt8 × Spill)) : OutputAccumulator :=
  chunks.foldl (fun acc chunk => (acc.append chunk.1 chunk.2).1) acc

theorem Decodes.appendAll (h : acc.Decodes received) (hopen : acc.finished = false)
    (chunks : List (List UInt8 × Spill)) :
    (acc.appendAll chunks).finished = false ∧
      (acc.appendAll chunks).Decodes (received ++ (chunks.map Prod.fst).flatten) := by
  induction chunks generalizing acc received with
  | nil =>
    rw [map_nil, flatten_nil, append_nil]
    exact ⟨hopen, h⟩
  | cons chunk chunks ih =>
    have hcnt := h.count chunk.1
    obtain ⟨_, _, _, _, heq⟩ := sameTotals_append hopen chunk.1 chunk.2
    rw [map_cons, flatten_cons, ← append_assoc, OutputAccumulator.appendAll, foldl_cons, heq]
    exact ih ⟨⟨hcnt.bytes, hcnt.completed, hcnt.current, hcnt.lines⟩, hcnt.decoded,
      hcnt.pending⟩ ((finished_count acc chunk.1).trans hopen)

/-- However the bytes are cut into chunks, the text that is counted is the text of all of them. -/
theorem totals_of_chunks (maxLines maxBytes : Nat) (chunks : List (List UInt8 × Spill))
    (last : Spill) :
    let acc : OutputAccumulator := { maxLines := maxLines, maxBytes := maxBytes }
    let acc := ((acc.appendAll chunks).finish last).1
    let text := sanitizeBinaryOutput (Utf8.lossy (chunks.map Prod.fst).flatten)
    acc.decoded = text ∧ acc.totalDecodedBytes = byteLength text ∧
      acc.totalLines = (splitLinesForCounting text).length ∧
        acc.lastLineBytes = byteLength (text.rtakeWhile (· != '\n')) := by
  intro acc₀ acc text
  have hstart : acc₀.Decodes [] := ⟨⟨rfl, rfl, rfl, rfl⟩, rfl, rfl⟩
  obtain ⟨hopen, hdecodes⟩ := hstart.appendAll rfl chunks
  obtain ⟨_, _, _, _, heq⟩ := sameTotals_finish hopen last
  obtain ⟨hcounted, hdecoded⟩ := hdecodes.countRest
  have hacc : acc = _ := heq
  have htext : acc.decoded = text := by
    rw [hacc]
    exact hdecoded
  rw [← htext, hacc]
  exact ⟨rfl, hcounted.bytes, hcounted.lines, hcounted.current⟩

/-! ## The file -/

/-- What was accepted is buffered until there is a file, and then it is what the file holds. -/
structure Kept (acc : OutputAccumulator) (recorded : List UInt8) : Prop where
  buffered : acc.tempFilePath = none → acc.tempFile = false ∧ acc.rawChunks.flatten = recorded
  written : acc.tempFilePath.isSome = true → acc.file = recorded

variable {recorded : List UInt8}

/-- Counting leaves what is written alone. -/
theorem files_appendDecodedText (acc : OutputAccumulator) (text : List Char) :
    (acc.appendDecodedText text).rawChunks = acc.rawChunks ∧
      (acc.appendDecodedText text).tempFilePath = acc.tempFilePath ∧
        (acc.appendDecodedText text).tempFile = acc.tempFile ∧
          (acc.appendDecodedText text).file = acc.file := by
  rw [appendDecodedText]
  split_ifs <;> exact ⟨rfl, rfl, rfl, rfl⟩

theorem Kept.appendDecodedText (h : acc.Kept recorded) (text : List Char) :
    (acc.appendDecodedText text).Kept recorded := by
  obtain ⟨hchunks, hpath, hopen, hfile⟩ := files_appendDecodedText acc text
  constructor
  · rw [hpath, hopen, hchunks]
    exact h.buffered
  · rw [hpath, hfile]
    exact h.written

theorem fst_writeAll {fails : Option Nat} (h : (writeAll fails data).2 = true) :
    (writeAll fails data).1 = data := by
  unfold writeAll at h ⊢
  split at h
  · rfl
  · split_ifs at h ⊢
    rfl

/-- The file is opened, when there is none, with all that was buffered. -/
theorem Kept.ensureTempFile (h : acc.Kept recorded)
    (hflush : (writeAll spill.flushFails acc.rawChunks.flatten).2 = true) :
    (acc.ensureTempFile spill).1.Kept recorded ∧ ((acc.ensureTempFile spill).2 = .ok () →
      (acc.ensureTempFile spill).1.tempFilePath.isSome = true ∧
        ((acc.ensureTempFile spill).1.tempFile = true ∨
          acc.tempFilePath.isSome = true ∧ (acc.ensureTempFile spill).1 = acc)) := by
  rw [OutputAccumulator.ensureTempFile]
  split_ifs with hpath hmakes
  · exact ⟨h, fun _ => ⟨hpath, .inr ⟨hpath, rfl⟩⟩⟩
  · exact ⟨h, nofun⟩
  · refine ⟨⟨nofun, fun _ => ?_⟩, fun _ => ⟨rfl, .inl hflush⟩⟩
    rw [Option.not_isSome_iff_eq_none] at hpath
    exact (fst_writeAll hflush).trans (h.buffered hpath).2

theorem writeThrough_of_open {path : String} (hpath : acc.tempFilePath = some path)
    (htemp : acc.tempFile = true) :
    acc.writeThrough data spill =
      ({ acc with file := acc.file ++ (writeAll spill.writeFails data).1 },
        if (writeAll spill.writeFails data).2 then .ok () else .error (.spillWrite path)) := by
  unfold writeThrough
  rw [htemp, hpath]

theorem writeThrough_of_closed (htemp : acc.tempFile = false) :
    acc.writeThrough data spill = (acc, .ok ()) := by
  unfold writeThrough
  rw [htemp]

theorem Kept.writeThrough (h : acc.Kept recorded) (hpath : acc.tempFilePath.isSome = true)
    (htemp : acc.tempFile = true)
    (hwrt : (writeAll spill.writeFails data).2 = true ∨ (writeAll spill.writeFails data).1 = []) :
    match acc.writeThrough data spill with
    | (acc, .ok ()) => acc.Kept (recorded ++ data)
    | (acc, .error _) => acc.Kept recorded := by
  have hkept : { acc with file := acc.file ++ (writeAll spill.writeFails data).1 }.Kept
      (recorded ++ (writeAll spill.writeFails data).1) := by
    refine ⟨fun hnone => ?_, fun _ => by rw [h.written hpath]⟩
    rw [show acc.tempFilePath = none from hnone] at hpath
    cases hpath
  obtain ⟨path, hpath⟩ := Option.isSome_iff_exists.mp hpath
  rw [writeThrough_of_open hpath htemp]
  cases hwhole : (writeAll spill.writeFails data).2 with
  | true => rwa [fst_writeAll hwhole] at hkept ⊢
  | false =>
    rw [hwhole] at hwrt
    rwa [hwrt.resolve_left Bool.false_ne_true, append_nil] at hkept ⊢

/-- A chunk that is accepted is written or buffered, and one that is refused is not. -/
theorem Kept.append (h : acc.Kept recorded) (hopen : acc.finished = false)
    (hfile : acc.tempFilePath = none ∨ acc.tempFile = true ∨ data = [])
    (hflush : (writeAll spill.flushFails acc.rawChunks.flatten).2 = true)
    (hwrt : (writeAll spill.writeFails data).2 = true ∨ (writeAll spill.writeFails data).1 = []) :
    match acc.append data spill with
    | (acc, .ok ()) => acc.Kept (recorded ++ data)
    | (acc, .error _) => acc.Kept recorded := by
  obtain ⟨hchunks, hpath, htempFile, -⟩ := files_appendDecodedText
    { acc with totalRawBytes := acc.totalRawBytes + data.length,
               decoder := (acc.decoder.decode data true).2 }
    (sanitizeBinaryOutput (acc.decoder.decode data true).1)
  have hcnt : (acc.count data).Kept recorded := by
    apply Kept.appendDecodedText
    exact ⟨h.buffered, h.written⟩
  rw [OutputAccumulator.append, hopen, if_neg Bool.false_ne_true]
  change (acc.count data).rawChunks = _ at hchunks
  change (acc.count data).tempFilePath = _ at hpath
  change (acc.count data).tempFile = _ at htempFile
  generalize acc.count data = next at *
  dsimp only at hchunks hpath htempFile
  rw [← hchunks] at hflush
  rw [← hpath, ← htempFile] at hfile
  simp only
  split_ifs with hspill hnil
  · obtain ⟨hensured, hok⟩ := hcnt.ensureTempFile hflush
    rcases heq : next.ensureTempFile spill with ⟨last, _ | ⟨⟨⟩⟩⟩
    · rw [heq] at hensured
      exact hensured
    · rw [heq] at hensured hok
      obtain ⟨hsome, hwritable⟩ := hok rfl
      cases htemp : last.tempFile with
      | true => exact hensured.writeThrough hsome htemp hwrt
      | false =>
        rw [htemp] at hwritable
        obtain ⟨hknown, rfl⟩ := hwritable.resolve_left Bool.false_ne_true
        have hnil : data = [] := by
          rw [htemp] at hfile
          rcases hfile with hnone | hopen | hnil
          · rw [hnone] at hknown
            cases hknown
          · cases hopen
          · exact hnil
        simp only [writeThrough_of_closed htemp]
        rw [hnil, append_nil]
        exact hensured
  · rw [hnil, append_nil]
    exact hcnt
  · rw [Bool.not_eq_true, Bool.or_eq_false_iff] at hspill
    rw [hspill.1] at hfile
    have hnone := hfile.resolve_right (fun h => h.elim Bool.false_ne_true hnil)
    refine ⟨fun _ => ⟨hspill.1, ?_⟩, fun hsome => ?_⟩
    · rw [flatten_append, (hcnt.buffered hnone).2, flatten_singleton]
    · rw [show next.tempFilePath = none from hnone] at hsome
      cases hsome

theorem Kept.finish (h : acc.Kept recorded)
    (hflush : (writeAll spill.flushFails acc.rawChunks.flatten).2 = true) :
    (acc.finish spill).1.Kept recorded := by
  have hrest : acc.countRest.Kept recorded := by
    apply Kept.appendDecodedText
    exact ⟨h.buffered, h.written⟩
  have hchunks : acc.countRest.rawChunks = acc.rawChunks := (files_appendDecodedText _ _).1
  rw [← hchunks] at hflush
  rw [OutputAccumulator.finish]
  split_ifs
  · exact h
  · simp only
    split_ifs
    · exact (hrest.ensureTempFile hflush).1
    · exact hrest

end OutputAccumulator

/-- An accumulator, and the bytes of all chunks it has accepted. -/
structure Recording where
  acc : OutputAccumulator
  recorded : List UInt8 := []

inductive RecordingEvent
  | append (data : List UInt8) (spill : Spill)
  | snapshot (persistIfTruncated : Bool) (spill : Spill)
  | finish (spill : Spill)
  | closeTempFile

namespace Recording

def machine (maxLines maxBytes : Nat) : Machine Recording RecordingEvent where
  start s := s = { acc := { maxLines := maxLines, maxBytes := maxBytes } }
  step s
    | .append data spill =>
      match s.acc.append data spill with
      | (acc, .ok ()) => some ⟨acc, s.recorded ++ data⟩
      | (acc, .error _) => some { s with acc := acc }
    | .snapshot persistIfTruncated spill =>
      some { s with acc := (s.acc.snapshot persistIfTruncated spill).1 }
    | .finish spill => some { s with acc := (s.acc.finish spill).1 }
    | .closeTempFile => some { s with acc := s.acc.closeTempFile }

/-- The file that is reported holds what was accepted. -/
def Complete (s : Recording) : Prop := s.acc.tempFilePath.isSome = true → s.acc.file = s.recorded

/-- The buffered chunks are written whole, a write that fails has written nothing, and no chunk
comes when there is a path but no open file. -/
def careful (s : Recording) : RecordingEvent → Bool
  | .append data spill =>
    s.acc.finished || (s.acc.tempFilePath.isNone || s.acc.tempFile || data = []) &&
      (writeAll spill.flushFails s.acc.rawChunks.flatten).2 &&
      ((writeAll spill.writeFails data).2 || (writeAll spill.writeFails data).1 = [])
  | .snapshot _ spill | .finish spill =>
    (writeAll spill.flushFails s.acc.rawChunks.flatten).2
  | .closeTempFile => true

/-- As long as every step is careful, a file that is reported holds what was accepted. -/
theorem complete_of_run {maxLines maxBytes : Nat} {s : Recording}
    (h : (machine maxLines maxBytes).Run (fun s event => careful s event = true) s) :
    s.Complete := by
  have hkept : s.acc.Kept s.recorded := by
    apply h.invariant
    · rintro _ rfl
      exact ⟨fun _ => ⟨rfl, rfl⟩, nofun⟩
    · intro s s' event hkept hcareful hnext
      cases event with
      | append data spill =>
        cases hopen : s.acc.finished with
        | true =>
          simp only [machine, OutputAccumulator.append, hopen, if_true] at hnext
          cases hnext
          exact hkept
        | false =>
          simp only [careful, hopen, Bool.false_or, Bool.and_eq_true, Bool.or_eq_true,
            Option.isNone_iff_eq_none, decide_eq_true_eq, or_assoc] at hcareful
          have hstep := hkept.append hopen hcareful.1.1 hcareful.1.2 hcareful.2
          simp only [machine] at hnext
          rcases hresult : s.acc.append data spill with ⟨acc, error | ⟨⟨⟩⟩⟩
          · rw [hresult] at hnext hstep
            cases hnext
            exact hstep
          · rw [hresult] at hnext hstep
            cases hnext
            exact hstep
      | snapshot persistIfTruncated spill =>
        cases hnext
        have hensured := (hkept.ensureTempFile hcareful).1
        show (s.acc.snapshot persistIfTruncated spill).1.Kept s.recorded
        rw [OutputAccumulator.snapshot]
        split_ifs
        · split
          · rename_i heq
            rwa [heq] at hensured
          · rename_i heq
            rwa [heq] at hensured
        · exact hkept
      | finish spill =>
        cases hnext
        exact hkept.finish hcareful
      | closeTempFile =>
        cases hnext
        exact ⟨fun hnone => ⟨rfl, (hkept.buffered hnone).2⟩, hkept.written⟩
  exact hkept.written

/-- Two chunks cross the limit, a write of the third fails at once, and the fourth is written. -/
theorem complete_fourth_chunk : ∃ s : Recording,
    (machine 4 3).Run (fun s event => careful s event = true) s ∧ s.Complete ∧
      s.acc.tempFilePath = some "log" ∧ s.acc.file = [97, 98, 99, 100, 102] := by
  have hstart : (machine 4 3).Run (fun s event => careful s event = true)
    { acc := { maxLines := 4, maxBytes := 3 } } := .start rfl
  obtain ⟨s, hrun, hs⟩ := hstart.execute careful
    [.append [97, 98] ⟨"log", true, none, none⟩, .append [99, 100] ⟨"log", true, none, none⟩,
      .append [101] ⟨"", true, none, some 0⟩, .append [102] ⟨"", true, none, none⟩,
      .snapshot true ⟨"", true, none, none⟩]
    (fun s => s.acc.tempFilePath = some "log" ∧ s.acc.file = [97, 98, 99, 100, 102])
    (fun _ _ h => h) (by decide +kernel)
  exact ⟨s, hrun, complete_of_run hrun, of_decide_eq_true hs⟩

/-- A chunk that is appended after the file was closed is accepted and lost, and so is what was
accepted before the buffered chunks could not be written. -/
theorem chunks_lost :
    (∃ s : Recording, (machine 4 1).Run (fun _ _ => True) s ∧ s.recorded = [97, 98, 99] ∧
      s.acc.file = [97, 98] ∧ ¬ s.Complete) ∧
    ∃ s : Recording, (machine 4 1).Run (fun _ _ => True) s ∧ s.recorded = [97, 99] ∧
      s.acc.file = [] ∧ ¬ s.Complete := by
  have hlost (file recorded : List UInt8) (hne : file ≠ recorded) (events : List RecordingEvent)
      (hevents : ((machine 4 1).execute (fun _ _ => true) { acc := { maxLines := 4, maxBytes := 1 } }
        events).any (fun s => s.acc.tempFilePath.isSome ∧ s.recorded = recorded ∧
          s.acc.file = file) = true) :
      ∃ s : Recording, (machine 4 1).Run (fun _ _ => True) s ∧ s.recorded = recorded ∧
        s.acc.file = file ∧ ¬ s.Complete := by
    obtain ⟨s, hrun, hs⟩ := Machine.Run.execute (.start rfl) (fun _ _ => true) events _
      (fun _ _ _ => trivial) hevents
    obtain ⟨hsome, hrecorded, hfile⟩ := of_decide_eq_true hs
    refine ⟨s, hrun, hrecorded, hfile, fun hcomplete => hne ?_⟩
    rw [← hfile, ← hrecorded]
    exact hcomplete hsome
  constructor
  · exact hlost [97, 98] [97, 98, 99] (by decide)
      [.append [97, 98] ⟨"log", true, none, none⟩, .closeTempFile,
        .append [99] ⟨"", true, none, none⟩] (by decide +kernel)
  · exact hlost [] [97, 99] (by decide)
      [.append [97] ⟨"", true, none, none⟩, .append [98] ⟨"log", true, some 0, none⟩,
        .append [99] ⟨"", true, none, none⟩] (by decide +kernel)

end Recording

end PiOxidized.Tools
