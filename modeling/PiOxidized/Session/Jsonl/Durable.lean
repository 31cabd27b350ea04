/-
# What a file keeps of a handle

A file of the current format stands for a handle when its header is the handle's, its
complete lines replay to the index in memory and nothing after them closes a line.
Such a file opens to the handle, with the torn rest dropped.  Appending a batch and
upgrading a legacy file make the next state stand; a failed append leaves a torn rest.
-/

import PiOxidized.Session.Jsonl.Files

namespace PiOxidized.Session.Jsonl

open List Math InMemoryStorageState

variable {codecs : Codecs} {s : JsonlStorage} {first rest : List Char}
  {records : List (List Char)} {base : InMemoryStorageState Json}
  {batch : List (CommittedWrite Json)} {seqs : List U64} {now : Int} {usageId : String}

/-- A file that holds a header, the lines of a state, and a torn rest. -/
structure Durable (codecs : Codecs) (s : JsonlStorage) (first : List Char)
    (records : List (List Char)) (rest : List Char) (base : InMemoryStorageState Json) : Prop where
  backing : s.backing = .v4
  file : s.file = Utf8.encode (terminated '\n' (first :: records) ++ rest)
  lines : ∀ line ∈ first :: records, '\n' ∉ line
  rest : '\n' ∉ rest
  nonempty : first ≠ []
  header : parseHeader codecs first = .ok (.v4 s.header)
  version : s.header.storageVersion = storageVersion
  replay : replayLines codecs .new records = .ok base
  state : s.state = advanceTo base s.header.nextSeq
  positive : 1 ≤ base.nextSeq.val

/-- Whether a file ends in the middle of a line, or is no text at all. -/
def torn (file : List UInt8) : Bool := match Utf8.decode file with
  | none => true
  | some content => (splitCompleteLines content).2

/-! ## Opening -/

variable {header : JsonlStorageHeader} {file : List UInt8}

theorem Durable.decode (h : Durable codecs s first records rest base) :
    Utf8.decode s.file = some (terminated '\n' (first :: records) ++ rest) := by
  rw [h.file, Utf8.decode_encode]

theorem Durable.torn_eq (h : Durable codecs s first records rest base) :
    torn s.file = !rest.isEmpty := by
  rw [torn, h.decode]
  simp only [splitCompleteLines_terminated (cons_ne_nil first records) h.lines h.rest]

/-- A file that is not torn is its complete lines. -/
theorem Durable.file_eq (h : Durable codecs s first records [] base) :
    s.file = completeFile (first :: records) := by
  rw [h.file, append_nil, completeFile_eq (cons_ne_nil _ _)]

/-- A file with a header of the current format is opened on its complete lines. -/
theorem openSync_terminated
    (hfile : file = Utf8.encode (terminated '\n' (first :: records) ++ rest))
    (hlines : ∀ line ∈ first :: records, '\n' ∉ line) (hrest : '\n' ∉ rest) (hfst : first ≠ [])
    (hhead : parseHeader codecs first = .ok (.v4 header)) (mint : Nat → String) :
    openSync codecs mint file = openV4 codecs header file (first :: records) (!rest.isEmpty) := by
  have hemp : ¬first.isEmpty = true := fun hnil => hfst (isEmpty_iff.mp hnil)
  have hdec : Utf8.decode file = some (terminated '\n' (first :: records) ++ rest) := by
    rw [hfile, Utf8.decode_encode]
  rw [openSync, hdec]
  simp only [splitCompleteLines_terminated (cons_ne_nil first records) hlines hrest,
    if_neg hemp, hhead]

/-- Opening gives the handle back, on the complete lines of the file. -/
theorem Durable.openSync (h : Durable codecs s first records rest base) (mint : Nat → String) :
    openSync codecs mint s.file = .ok { s with file := completeFile (first :: records) } := by
  have hfile : (if (!rest.isEmpty) = true then completeFile (first :: records) else s.file) =
      completeFile (first :: records) := by
    cases rest with
    | nil => exact h.file_eq
    | cons c rest => rfl
  rw [openSync_terminated h.file h.lines h.rest h.nonempty h.header mint]
  simp only [openV4, tail_cons, h.replay, hfile]
  rw [if_neg (fun hver => hver h.version), ← h.state, ← h.backing]

/-- The complete lines alone stand for the handle too. -/
theorem Durable.repaired (h : Durable codecs s first records rest base) :
    Durable codecs { s with file := completeFile (first :: records) } first records [] base where
  __ := h
  file := by rw [append_nil, completeFile_eq (cons_ne_nil _ _)]
  rest := not_mem_nil

/-! ## Where a handle starts -/

variable {state : InMemoryStorageState Json} {mint : Nat → String}

/-- A created file stands for its handle. -/
theorem durable_createSync (hhead : header.Reads codecs) (hnseq : header.nextSeq = none)
    (h : createSync codecs header = .ok s) :
    ∃ first, Durable codecs s first [] [] .new := by
  rw [createSync] at h
  split_ifs at h
  cases h
  refine ⟨codecs.text.write (headerJson header), rfl, ?_, ?_, not_mem_nil,
    hhead.text.nonempty, hhead.parseHeader, hhead.version, rfl, ?_, coherent_new.positive⟩
  · rw [append_nil, completeFile_eq (cons_ne_nil _ _)]
  · intro line hline
    rw [mem_singleton.mp hline]
    exact hhead.text.line
  · rw [hnseq]
    rfl

/-- Replayed lines leave the mark positive. -/
theorem one_le_nextSeq_replayLines {final : InMemoryStorageState Json}
    (hpos : 1 ≤ state.nextSeq.val) (h : replayLines codecs state records = .ok final) :
    1 ≤ final.nextSeq.val := by
  induction records generalizing state with
  | nil =>
    cases h
    exact hpos
  | cons line lines ih =>
    obtain ⟨writes, stats, next, -, hrep, hrest⟩ := replayLines_cons_eq_ok h
    refine ih ?_ hrest
    rcases replay_cases state writes with ⟨error, herror⟩ | ⟨-, hok, -, -⟩
    · rw [herror] at hrep
      cases hrep
    · rw [hok] at hrep
      obtain ⟨-, rfl⟩ := Prod.mk.inj hrep
      exact one_le_nextSeq_applyCommitted hpos writes

/-- A file of the current format that opens stands for the handle, and keeps its complete
lines. -/
theorem durable_openV4 {content : List Char} {isTorn : Bool}
    (hdec : Utf8.decode file = some content)
    (hsplit : splitCompleteLines content = (first :: records, isTorn)) (hfst : first ≠ [])
    (hhead : parseHeader codecs first = .ok (.v4 header))
    (h : openV4 codecs header file (first :: records) isTorn = .ok s) :
    ∃ rest base, Durable codecs { s with file := file } first records rest base ∧
      s.file = completeFile (first :: records) := by
  obtain ⟨hlines, rest, hrest, hcont, htorn⟩ := splitCompleteLines_spec (cons_ne_nil _ _) hsplit
  have hbytes : file = Utf8.encode (terminated '\n' (first :: records) ++ rest) := by
    rw [← hcont]
    exact Utf8.decode_eq_some_iff.mp hdec
  have hfile : (if isTorn then completeFile (first :: records) else file) =
      completeFile (first :: records) := by
    cases rest with
    | nil => rw [htorn, if_neg (by simp), hbytes, append_nil, completeFile_eq (cons_ne_nil _ _)]
    | cons c rest => rw [htorn, if_pos (by simp)]
  simp only [openV4, hfile] at h
  split_ifs at h with hver
  rw [tail_cons] at h
  cases hrep : replayLines codecs .new records with
  | error error =>
    rw [hrep] at h
    cases h
  | ok base =>
    rw [hrep] at h
    cases h
    exact ⟨rest, base, ⟨rfl, hbytes, hlines, hrest, hfst, hhead, not_not.mp hver,
      hrep, rfl, one_le_nextSeq_replayLines coherent_new.positive hrep⟩, rfl⟩

/-- A legacy handle stands on the file it was read from, with an index that replays the
normalized records. -/
theorem openV3_eq_ok {header : LegacyV3Header} {lines : List (List Char)}
    (h : openV3 codecs mint header file lines = .ok s) :
    ∃ importedUsage baseline stats, s.backing = .v3 importedUsage baseline ∧ s.file = file ∧
      new.replay baseline = (.ok stats, s.state) := by
  obtain ⟨normalized, -, h⟩ := bind_ok h
  obtain ⟨target, -, h⟩ := bind_ok h
  split at h
  · cases h
  · rename_i stats state hrep
    cases h
    exact ⟨normalized.importedUsage, normalized.writes, stats, rfl, rfl, hrep⟩

/-- What opening a file can come to. -/
theorem openSync_cases (h : openSync codecs mint file = .ok s) :
    (∃ first records rest base, Durable codecs { s with file := file } first records rest base ∧
        s.file = completeFile (first :: records)) ∨
      ∃ importedUsage baseline stats, s.backing = .v3 importedUsage baseline ∧ s.file = file ∧
        new.replay baseline = (.ok stats, s.state) := by
  rw [openSync] at h
  cases hdec : Utf8.decode file with
  | none =>
    rw [hdec] at h
    cases h
  | some content =>
    simp only [hdec] at h
    cases hsplit : splitCompleteLines content with
    | mk lines isTorn =>
      simp only [hsplit] at h
      cases lines with
      | nil => cases h
      | cons first records =>
        simp only at h
        split_ifs at h with hemp
        have hfst : first ≠ [] := fun hnil => hemp (isEmpty_iff.mpr hnil)
        cases hhead : parseHeader codecs first with
        | error error =>
          rw [hhead] at h
          cases h
        | ok parsed =>
          rw [hhead] at h
          cases parsed with
          | v4 header =>
            obtain ⟨rest, base, hdur⟩ := durable_openV4 hdec hsplit hfst hhead h
            exact .inl ⟨first, records, rest, base, hdur⟩
          | legacyV3 header => exact .inr (openV3_eq_ok h)

/-! ## What a commit does to a file -/

variable {baseline : List (CommittedWrite Json)} {writes : List (Write Json)}

/-- A batch that passed the checks can be materialized from the mark on. -/
theorem JsonlStorage.prepare_eq_ok (h : s.prepare writes now usageId = .ok (taken, seqs)) :
    Admitted s.state taken ∧ Ascending s.state.nextSeq taken ∧
      (s.state.applyCommitted taken).nextSeq.val =
        min (s.state.nextSeq.val + taken.length) (2 ^ 64 - 1) := by
  rw [prepare] at h
  cases hval : validateCommittedWrites (s.batch writes usageId) s.state.nextSeq s.state.idView with
  | error error =>
    rw [hval] at h
    cases h
  | ok _ =>
    rw [hval] at h
    have hchecked : validateCommittedFrom s.state.nextSeq s.state.idView 0 [] []
        (s.batch writes usageId) = .ok () := by
      rwa [validateCommittedWrites, if_neg (fun h => h rfl)] at hval
    obtain ⟨-, hincr, hbounds, -⟩ := commitWritesFrom_spec h
    have hlt := s.state.nextSeq.isLt
    exact ⟨admitted_of_validateCommittedFrom (tracks_start s.state) hchecked h,
      ⟨hincr, fun write hwrt => (hbounds write hwrt).1⟩,
      nextSeq_applyCommitted_commitWritesFrom h (by omega)⟩

/-- A legacy file is told its imported usage, so its first batch is not empty. -/
theorem JsonlStorage.prepare_ne_nil {importedUsage : Usage}
    (hback : s.backing = .v3 importedUsage baseline)
    (h : s.prepare writes now usageId = .ok (taken, seqs)) : taken ≠ [] := by
  rw [prepare, batch, hback] at h
  split at h
  · cases h
  · have hlen := length_commitWritesFrom h
    rintro rfl
    cases hlen

theorem advanceTo_mark (mark : Option U64)
    (h : ∀ nextSeq : U64, mark = some nextSeq → nextSeq ≤ state.nextSeq) :
    advanceTo state mark = state := by
  cases mark with
  | none => rfl
  | some nextSeq =>
    change { state with nextSeq := max state.nextSeq nextSeq } = state
    rw [max_eq_left (h nextSeq rfl)]

theorem le_nextSeq_advanceTo (state : InMemoryStorageState Json) (mark : Option U64) :
    state.nextSeq ≤ (advanceTo state mark).nextSeq := by
  cases mark with
  | none => exact le_rfl
  | some nextSeq => exact le_max_left _ _

/-- A batch leads to the same index whether the header's mark was taken before or after it. -/
theorem applyCommitted_advanceTo (state : InMemoryStorageState Json) (mark : Option U64)
    (hadm : Admitted (advanceTo state mark) batch)
    (hasc : Ascending (advanceTo state mark).nextSeq batch) :
    (advanceTo state mark).applyCommitted batch = advanceTo (state.applyCommitted batch) mark ∧
      Admitted state batch ∧ Ascending state.nextSeq batch := by
  refine ⟨?_, ?_, hasc.increasing, fun write hwrt => ?_⟩
  · cases mark with
    | none => rfl
    | some nextSeq =>
      cases batch with
      | nil => rfl
      | cons write writes =>
        have hne : write :: writes ≠ [] := cons_ne_nil _ _
        have hmark : nextSeq ≤ (state.applyCommitted (write :: writes)).nextSeq := by
          rw [← applyCommitted_advanceNextSeq state nextSeq hne]
          exact le_nextSeq_applyCommitted (le_max_right _ _) hasc
        have hsame : advanceTo (state.applyCommitted (write :: writes)) (some nextSeq) =
            state.applyCommitted (write :: writes) := by
          apply advanceTo_mark
          rintro _ ⟨⟩
          exact hmark
        rw [hsame]
        exact applyCommitted_advanceNextSeq state nextSeq hne
  · cases mark with
    | none => exact hadm
    | some nextSeq => exact admitted_advanceNextSeq.mp hadm
  · exact (le_nextSeq_advanceTo state mark).trans (hasc.above write hwrt)

/-- A recorded batch that was appended to complete lines is one line more. -/
theorem Durable.append (h : Durable codecs s first records [] base)
    (hrecd : Recorded codecs batch) (hadm : Admitted s.state batch)
    (hasc : Ascending s.state.nextSeq batch) :
    Durable codecs { s with
        state := s.state.applyCommitted batch
        file := s.file ++ appended codecs batch }
      first (records ++ [serializeTransaction codecs batch]) [] (base.applyCommitted batch) := by
  rw [h.state] at hadm hasc
  obtain ⟨hstate, hadm, hasc⟩ := applyCommitted_advanceTo base s.header.nextSeq hadm hasc
  refine ⟨h.backing, ?_, ?_, not_mem_nil, h.nonempty, h.header, h.version, ?_, ?_,
    one_le_nextSeq_applyCommitted h.positive batch⟩
  · have hfile := h.file
    rw [append_nil] at hfile ⊢
    change s.file ++ _ = _
    rw [hfile, appended, ← Utf8.encode_append, ← cons_append, terminated_append, terminated_cons]
    simp [terminated]
  · intro line hline
    rw [← cons_append] at hline
    rcases mem_append.mp hline with hline | hline
    · exact h.lines line hline
    · rw [mem_singleton.mp hline]
      exact hrecd.text.line
  · rw [replayLines_append h.replay,
      replayLines_cons hrecd.parseTransaction (replay_eq_ok h.positive hadm hasc)]
    rfl
  · change s.state.applyCommitted batch = _
    rw [h.state, hstate]

/-- An append that failed at a character boundary leaves a torn rest. -/
theorem Durable.tear (h : Durable codecs s first records rest base) {count : Nat}
    (hline : '\n' ∉ serializeTransaction codecs batch)
    (hbdry : Utf8.Boundary (serializeTransaction codecs batch) count) :
    ∃ more, Durable codecs { s with file := s.file ++ (appended codecs batch).take count }
      first records (rest ++ more) base := by
  obtain ⟨before, after, hsplit, hcnt⟩ := hbdry
  refine ⟨before, h.backing, ?_, h.lines, ?_, h.nonempty, h.header, h.version, h.replay, h.state,
    h.positive⟩
  · have htake : (appended codecs batch).take count = Utf8.encode before := by
      rw [appended, hsplit, append_assoc, Utf8.encode_append, ← hcnt, take_left']
      rfl
    rw [htake, h.file, ← Utf8.encode_append, append_assoc]
  · rw [hsplit] at hline
    intro hmem
    rcases mem_append.mp hmem with hmem | hmem
    · exact h.rest hmem
    · exact hline (mem_append_left _ hmem)

/-- The file an upgrade publishes stands for the handle it leaves. -/
theorem durable_upgrade {stats : SessionStats} {nextSeq : U64}
    (hrep : new.replay baseline = (.ok stats, s.state)) (hadm : Admitted s.state taken)
    (hasc : Ascending s.state.nextSeq taken) (hnseq : header.nextSeq = some nextSeq)
    (hmark : nextSeq ≤ (s.state.applyCommitted taken).nextSeq) (hhead : header.Reads codecs)
    (hbaseline : ∀ write ∈ baseline, Recorded codecs [write])
    (hrecd : Recorded codecs taken) :
    Durable codecs
      { state := s.state.applyCommitted taken
        backing := .v4
        header := header
        file := completeFile (codecs.text.write (headerJson header) ::
          (baseline.map (fun write => serializeTransaction codecs [write]) ++
            [serializeTransaction codecs taken])) }
      (codecs.text.write (headerJson header))
      (baseline.map (fun write => serializeTransaction codecs [write]) ++
        [serializeTransaction codecs taken]) [] (s.state.applyCommitted taken) := by
  have hstate : s.state = new.applyCommitted baseline ∧ Admitted new baseline ∧
      Ascending (new : InMemoryStorageState Json).nextSeq baseline := by
    rcases replay_cases new baseline with ⟨error, herror⟩ | ⟨-, hok, hbase, hup⟩
    · rw [herror] at hrep
      cases hrep
    · rw [hok] at hrep
      exact ⟨(Prod.mk.inj hrep).2.symm, hbase, hup⟩
  obtain ⟨hstate, hbase, hup⟩ := hstate
  -- The lines are the baseline, one write each, and the batch.
  let cuts := baseline.map (fun write => [write]) ++ [taken]
  have hcuts : cuts.flatten = baseline ++ taken := by
    rw [flatten_append, flatten_singleton, ← flatMap_def, flatMap_singleton']
  have hlines : baseline.map (fun write => serializeTransaction codecs [write]) ++
      [serializeTransaction codecs taken] = cuts.map (serializeTransaction codecs) := by
    rw [map_append, map_map]
    rfl
  have hall : ∀ batch ∈ cuts, Recorded codecs batch := by
    intro batch hbat
    rcases mem_append.mp hbat with hbat | hbat
    · obtain ⟨write, hwrt, rfl⟩ := mem_map.mp hbat
      exact hbaseline write hwrt
    · rw [mem_singleton.mp hbat]
      exact hrecd
  have hmax : ∀ write ∈ baseline, write.seq < U64.max := by
    intro write hwrt
    have hle := ((hbaseline write hwrt).legible write mem_cons_self).seq.2
    rw [maxSafeInteger] at hle
    show write.seq.val < 2 ^ 64 - 1
    omega
  rw [hstate] at hadm hasc hmark ⊢
  refine ⟨rfl, ?_, ?_, not_mem_nil, hhead.text.nonempty, hhead.parseHeader,
    hhead.version, ?_, ?_, ?_⟩
  · rw [append_nil, completeFile_eq (cons_ne_nil _ _)]
  · rw [hlines]
    intro line hline
    rcases mem_cons.mp hline with rfl | hline
    · exact hhead.text.line
    · obtain ⟨batch, hbat, rfl⟩ := mem_map.mp hline
      exact (hall batch hbat).text.line
  · rw [hlines]
    apply replayLines_serialized hall
    rw [replayAll_eq_ok coherent_new.positive, hcuts, applyCommitted_append]
    · rw [hcuts]
      exact admitted_append.mpr ⟨hbase, hadm⟩
    · rw [hcuts]
      exact hup.append hmax hasc
  · change _ = advanceTo _ header.nextSeq
    rw [hnseq, advanceTo_mark]
    rintro _ ⟨⟩
    exact hmark
  · exact one_le_nextSeq_applyCommitted
      (one_le_nextSeq_applyCommitted coherent_new.positive baseline) taken

end PiOxidized.Session.Jsonl
