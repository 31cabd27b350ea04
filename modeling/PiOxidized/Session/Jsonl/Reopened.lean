/-
# Commits on one handle

A handle is created or opened and then commits, one batch after another.  The disk may
fail an append at any byte.  A run remembers the index it started from and the batches
that were reported as committed, so that what a file opens to can be compared with them.
-/

import PiOxidized.Session.Jsonl.Durable

namespace PiOxidized.Session.Jsonl

open List Math InMemoryStorageState

/-- A handle, the ids its file was opened with, the index it started from and the batches of the
commits that returned. -/
structure Handle where
  storage : JsonlStorage
  mint : Nat → String
  origin : InMemoryStorageState Json
  acknowledged : List (List (CommittedWrite Json))

/-- One call of commit: the writes, the clock, the id of a usage row for an upgrade, and the disk. -/
structure Commit where
  writes : List (Write Json)
  now : Int
  usageId : String
  disk : Disk

/-- The batch a commit adds to the index. -/
def JsonlStorage.proposed (s : JsonlStorage) (commit : Commit) : List (CommittedWrite Json) :=
  match s.backing, commit.writes.isEmpty with
  | .v3 _ _, true => []
  | _, _ =>
    match s.prepare commit.writes commit.now commit.usageId with
    | .ok (committed, _) => committed
    | .error _ => []

namespace Handle

/-- Take one commit; only one that returned is acknowledged. -/
def step (codecs : Codecs) (h : Handle) (commit : Commit) : Option Handle :=
  match h.storage.commitSync codecs commit.writes commit.now commit.usageId commit.disk with
  | (.error _, next) => some { h with storage := next }
  | (.ok _, next) =>
    some { h with
        storage := next
        acknowledged := h.acknowledged ++ [h.storage.proposed commit] }

/-- A created file, or a file of any content that opens. -/
def Starts (codecs : Codecs) (h : Handle) : Prop :=
  h.origin = h.storage.state ∧ h.acknowledged = [] ∧
    ((∃ header : JsonlStorageHeader, header.Reads codecs ∧ header.nextSeq = none ∧
        createSync codecs header = .ok h.storage) ∨
      ∃ file, openSync codecs h.mint file = .ok h.storage)

def machine (codecs : Codecs) : Machine Handle Commit where
  start := Starts codecs
  step := step codecs

end Handle

/-- What a commit writes reads back: its batch, and for an upgrade the header and the baseline. -/
structure Records (codecs : Codecs) (s : JsonlStorage) (commit : Commit) : Prop where
  batch : ∀ committed seqs, s.prepare commit.writes commit.now commit.usageId =
    .ok (committed, seqs) → committed ≠ [] → Recorded codecs committed
  baseline : ∀ importedUsage baseline, s.backing = .v3 importedUsage baseline →
    ∀ write ∈ baseline, Recorded codecs [write]
  header : ∀ importedUsage baseline committed seqs nextSeq, s.backing = .v3 importedUsage baseline →
    s.prepare commit.writes commit.now commit.usageId = .ok (committed, seqs) →
    s.state.nextSeq.checkedAdd committed.length = some nextSeq →
    JsonlStorageHeader.Reads codecs { s.header with nextSeq := some nextSeq }

variable {codecs : Codecs} {s : JsonlStorage} {commit : Commit} {h h' : Handle}

/-! ## What one commit can do -/

/-- The ways a commit goes. -/
inductive Handle.Taken (codecs : Codecs) (h : Handle) (commit : Commit) : Handle → Prop
  /-- The batch is refused, or a legacy file could not be replaced. -/
  | refused : Taken codecs h commit h
  /-- There is nothing to write. -/
  | empty : Taken codecs h commit { h with acknowledged := h.acknowledged ++ [[]] }
  | appended {committed : List (CommittedWrite Json)} {seqs : List U64}
      (hbacking : h.storage.backing = .v4)
      (hprepare : h.storage.prepare commit.writes commit.now commit.usageId = .ok (committed, seqs))
      (hne : committed ≠ []) (hdisk : commit.disk = .completes) :
      Taken codecs h commit { h with
          storage := { h.storage with
              state := h.storage.state.applyCommitted committed
              file := h.storage.file ++ appended codecs committed }
          acknowledged := h.acknowledged ++ [committed] }
  | failed {committed : List (CommittedWrite Json)} {seqs : List U64} {count : Nat}
      (hbacking : h.storage.backing = .v4)
      (hprepare : h.storage.prepare commit.writes commit.now commit.usageId = .ok (committed, seqs))
      (hne : committed ≠ []) (hdisk : commit.disk = .failsAfter count) :
      Taken codecs h commit { h with
          storage := { h.storage with
              file := h.storage.file ++ (Jsonl.appended codecs committed).take count } }
  | upgraded {importedUsage : Usage} {baseline committed : List (CommittedWrite Json)}
      {seqs : List U64} {nextSeq : U64} (hbacking : h.storage.backing = .v3 importedUsage baseline)
      (hprepare : h.storage.prepare commit.writes commit.now commit.usageId = .ok (committed, seqs))
      (hnextSeq : h.storage.state.nextSeq.checkedAdd committed.length = some nextSeq) :
      Taken codecs h commit { h with
          storage :=
            { state := h.storage.state.applyCommitted committed
              backing := .v4
              header := { h.storage.header with nextSeq := some nextSeq }
              file := completeFile
                (codecs.text.write (headerJson { h.storage.header with nextSeq := some nextSeq }) ::
                  (baseline.map (fun write => serializeTransaction codecs [write]) ++
                    [serializeTransaction codecs committed])) }
          acknowledged := h.acknowledged ++ [committed] }

variable {baseline : List (CommittedWrite Json)} {importedUsage : Usage}

/-- A commit to a file of the current format. -/
theorem Handle.taken_v4 (hback : h.storage.backing = .v4) (hnext : h.step codecs commit = some h') :
    h.Taken codecs commit h' := by
  cases hprep : h.storage.prepare commit.writes commit.now commit.usageId with
  | error error =>
    simp only [step, JsonlStorage.commitSync, hback, hprep] at hnext
    cases hnext
    exact .refused
  | ok prepared =>
    obtain ⟨batch, seqs⟩ := prepared
    simp only [step, JsonlStorage.commitSync, JsonlStorage.proposed, hback, hprep] at hnext
    cases batch with
    | nil =>
      cases hnext
      exact .empty
    | cons write writes =>
      cases hdisk : commit.disk with
      | completes =>
        rw [hdisk] at hnext
        cases hnext
        exact .appended hback hprep (cons_ne_nil _ _) hdisk
      | failsAfter count =>
        rw [hdisk] at hnext
        cases hnext
        exact .failed hback hprep (cons_ne_nil _ _) hdisk

/-- A commit to a legacy file. -/
theorem Handle.taken_v3 (hback : h.storage.backing = .v3 importedUsage baseline)
    (hnext : h.step codecs commit = some h') : h.Taken codecs commit h' := by
  cases hemp : commit.writes.isEmpty with
  | true =>
    simp only [step, JsonlStorage.commitSync, JsonlStorage.proposed, hback, hemp] at hnext
    cases hnext
    exact .empty
  | false =>
    cases hprep : h.storage.prepare commit.writes commit.now commit.usageId with
    | error error =>
      simp only [step, JsonlStorage.commitSync, hback, hemp, hprep] at hnext
      cases hnext
      exact .refused
    | ok prepared =>
      obtain ⟨batch, seqs⟩ := prepared
      simp only [step, JsonlStorage.commitSync, JsonlStorage.proposed, JsonlStorage.upgrade,
        hback, hemp, hprep] at hnext
      cases hnseq : h.storage.state.nextSeq.checkedAdd batch.length with
      | none =>
        rw [hnseq] at hnext
        cases hnext
        exact .refused
      | some nextSeq =>
        rw [hnseq] at hnext
        cases hdisk : commit.disk with
        | failsAfter count =>
          rw [hdisk] at hnext
          cases hnext
          exact .refused
        | completes =>
          rw [hdisk] at hnext
          cases hnext
          exact .upgraded hback hprep hnseq

theorem Handle.step_taken (hnext : h.step codecs commit = some h') : h.Taken codecs commit h' := by
  cases hback : h.storage.backing with
  | v4 => exact taken_v4 hback hnext
  | v3 importedUsage baseline => exact taken_v3 hback hnext

/-! ## What a run keeps -/

/-- The file stands for the index, or it is the legacy file the index was read from. -/
inductive Handle.Stands (codecs : Codecs) (h : Handle) (rest : List Char) : Prop
  | current {first : List Char} {records : List (List Char)} {base : InMemoryStorageState Json}
      (hdurable : Durable codecs h.storage first records rest base)
  | legacy {importedUsage : Usage} {baseline : List (CommittedWrite Json)} {stats : SessionStats}
      (hbacking : h.storage.backing = .v3 importedUsage baseline)
      (hopen : openSync codecs h.mint h.storage.file = .ok h.storage)
      (hreplay : new.replay baseline = (.ok stats, h.storage.state))

/-- The index is what the acknowledged batches made of the one it started from, and the file
stands for it, with a torn rest. -/
structure Handle.Kept (codecs : Codecs) (h : Handle) (rest : List Char) : Prop where
  index : h.storage.state = h.origin.applyCommitted h.acknowledged.flatten
  stands : h.Stands codecs rest

variable {rest : List Char}

theorem Handle.Starts.kept (hsta : h.Starts codecs) : h.Kept codecs [] := by
  obtain ⟨horig, hack, hstorage⟩ := hsta
  constructor
  case index =>
    rw [horig, hack]
    rfl
  case stands =>
    rcases hstorage with ⟨header, hhead, hnseq, hcreate⟩ | ⟨file, hopen⟩
    · obtain ⟨first, hdur⟩ := durable_createSync hhead hnseq hcreate
      exact .current hdur
    · rcases openSync_cases hopen with ⟨first, records, rest, base, hdur, hfile⟩ |
        ⟨importedUsage, baseline, stats, hback, hfile, hrep⟩
      · have hrepaired := hdur.repaired
        rw [← hfile] at hrepaired
        exact .current hrepaired
      · refine .legacy hback ?_ hrep
        rw [hfile]
        exact hopen

/-- A file of the current format. -/
theorem Handle.Kept.durable (hkept : h.Kept codecs rest) (hback : h.storage.backing = .v4) :
    ∃ first records base, Durable codecs h.storage first records rest base := by
  cases hkept.stands with
  | current hdur => exact ⟨_, _, _, hdur⟩
  | legacy hlegacy =>
    rw [hback] at hlegacy
    cases hlegacy

theorem Handle.index_append {i : InMemoryStorageState Json}
    (hidx : i = h.origin.applyCommitted h.acknowledged.flatten)
    (batch : List (CommittedWrite Json)) :
    i.applyCommitted batch = h.origin.applyCommitted (h.acknowledged ++ [batch]).flatten := by
  rw [hidx, flatten_append, flatten_singleton, applyCommitted_append]

/-- Whether an append may go on where the file ends, and where a failing one may stop. -/
structure Clean (codecs : Codecs) (s : JsonlStorage) (commit : Commit) : Prop where
  completes : ∀ committed seqs, s.backing = .v4 →
    s.prepare commit.writes commit.now commit.usageId = .ok (committed, seqs) → committed ≠ [] →
    commit.disk = .completes → torn s.file = false
  fails : ∀ committed seqs count, s.backing = .v4 →
    s.prepare commit.writes commit.now commit.usageId = .ok (committed, seqs) → committed ≠ [] →
    commit.disk = .failsAfter count → Utf8.Boundary (serializeTransaction codecs committed) count

variable {batch : List (CommittedWrite Json)}

/-- A recorded upgrade leaves a file that stands for the handle. -/
theorem durable_upgraded {stats : SessionStats} {seqs : List U64} {nextSeq : U64}
    (hrep : new.replay baseline = (.ok stats, s.state))
    (hprep : s.prepare commit.writes commit.now commit.usageId = .ok (taken, seqs))
    (hback : s.backing = .v3 importedUsage baseline)
    (hnseq : s.state.nextSeq.checkedAdd taken.length = some nextSeq)
    (hrecs : Records codecs s commit) :
    Durable codecs
      { state := s.state.applyCommitted taken
        backing := .v4
        header := { s.header with nextSeq := some nextSeq }
        file := completeFile
          (codecs.text.write (headerJson { s.header with nextSeq := some nextSeq }) ::
            (baseline.map (fun write => serializeTransaction codecs [write]) ++
              [serializeTransaction codecs taken])) }
      (codecs.text.write (headerJson { s.header with nextSeq := some nextSeq }))
      (baseline.map (fun write => serializeTransaction codecs [write]) ++
        [serializeTransaction codecs taken]) [] (s.state.applyCommitted taken) := by
  obtain ⟨hadm, hasc, hmark⟩ := JsonlStorage.prepare_eq_ok hprep
  have hrecd := hrecs.batch _ _ hprep (JsonlStorage.prepare_ne_nil hback hprep)
  have hle : nextSeq ≤ (s.state.applyCommitted taken).nextSeq := by
    have hval := U64.checkedAdd_eq_some hnseq
    have hlt := nextSeq.isLt
    show nextSeq.val ≤ (s.state.applyCommitted taken).nextSeq.val
    omega
  exact durable_upgrade hrep hadm hasc rfl hle
    (hrecs.header _ _ _ _ _ hback hprep hnseq) (hrecs.baseline _ _ hback)
    hrecd

/-- A commit keeps the file standing for the index. -/
theorem Handle.Kept.step (hkept : h.Kept codecs rest) (hrecs : Records codecs h.storage commit)
    (hclean : Clean codecs h.storage commit) (hnext : h.step codecs commit = some h') :
    ∃ rest', h'.Kept codecs rest' ∧ (commit.disk = .completes → rest = [] → rest' = []) := by
  cases Handle.step_taken hnext with
  | refused => exact ⟨rest, hkept, fun _ hrest => hrest⟩
  | empty =>
    refine ⟨rest, ⟨?_, ?_⟩, fun _ hrest => hrest⟩
    · rw [← Handle.index_append hkept.index []]
      rfl
    · cases hkept.stands with
      | current hdur => exact .current hdur
      | legacy hback hopen hrep => exact .legacy hback hopen hrep
  | appended hback hprep hne hdisk =>
    obtain ⟨first, records, base, hdur⟩ := hkept.durable hback
    obtain ⟨hadm, hasc, -⟩ := JsonlStorage.prepare_eq_ok hprep
    have htorn := hclean.completes _ _ hback hprep hne hdisk
    rw [hdur.torn_eq, Bool.not_eq_false', List.isEmpty_iff] at htorn
    subst htorn
    have hrecd := hrecs.batch _ _ hprep hne
    refine ⟨[], ⟨?_, .current (hdur.append hrecd hadm hasc)⟩, fun _ _ => rfl⟩
    exact Handle.index_append hkept.index _
  | failed hback hprep hne hdisk =>
    obtain ⟨first, records, base, hdur⟩ := hkept.durable hback
    have hbdry := hclean.fails _ _ _ hback hprep hne hdisk
    have hrecd := hrecs.batch _ _ hprep hne
    obtain ⟨more, htorn⟩ := hdur.tear hrecd.text.line hbdry
    refine ⟨rest ++ more, ⟨hkept.index, .current htorn⟩, fun hcompletes => ?_⟩
    rw [hdisk] at hcompletes
    cases hcompletes
  | @upgraded importedUsage baseline taken seqs nextSeq hback hprep hnseq =>
    cases hkept.stands with
    | current hdur =>
      rw [hdur.backing] at hback
      cases hback
    | legacy hback' hopen hrep =>
      obtain ⟨rfl, rfl⟩ := Backing.v3.inj (hback.symm.trans hback')
      have hdur := durable_upgraded hrep hprep hback hnseq hrecs
      exact ⟨[], ⟨Handle.index_append hkept.index _, .current hdur⟩, fun _ _ => rfl⟩

/-- Opening the file again gives the index and the totals back.  A legacy file that has not been
upgraded mints its ids anew, so it is opened with the ids it had. -/
def Handle.Reopens (codecs : Codecs) (h : Handle) : Prop :=
  ∀ mint : Nat → String, (h.storage.backing = .v4 ∨ mint = h.mint) →
    ∃ reopened, openSync codecs mint h.storage.file = .ok reopened ∧
      reopened.state = h.storage.state ∧ reopened.getStats = h.storage.getStats

theorem Handle.Kept.reopens (hkept : h.Kept codecs rest) : h.Reopens codecs := by
  intro mint hmint
  cases hkept.stands with
  | current hdur => exact ⟨_, hdur.openSync mint, rfl, rfl⟩
  | legacy hback hopen hrep =>
    rcases hmint with hcur | rfl
    · rw [hback] at hcur
      cases hcur
    · exact ⟨h.storage, hopen, rfl, rfl⟩

/-! ## A sample file -/

def sampleHeader : JsonlStorageHeader := ⟨4, "header", "s", 1, 0, "/", none, none, none⟩

/-- The commit of a note. -/
def noteCommit (data : Option Json) (disk : Disk) : Commit :=
  ⟨[.entry ⟨"n", none, .custom "note" data⟩], 0, "", disk⟩

/-- The note as the first write of a file. -/
def noted (data : Option Json) : CommittedWrite Json :=
  .entry (.custom ⟨"n", none, U64.one, 0, none⟩ "note" data)

/-- The text of the sample header and of two notes; there are no messages and no legacy files. -/
def sampleCodecs : Codecs where
  text := .ofValues [(headerJson sampleHeader, headerValue sampleHeader),
    (writeJson ⟨fun _ => .null, fun _ => none⟩ (noted none),
      writeJson ⟨fun _ => .null, fun _ => none⟩ (noted none)),
    (writeJson ⟨fun _ => .null, fun _ => none⟩ (noted (some (.string "é"))),
      writeJson ⟨fun _ => .null, fun _ => none⟩ (noted (some (.string "é"))))]
  messages := ⟨fun _ => .null, fun _ => none⟩
  isTimestamp := fun _ => false
  normalizeRecords := fun _ _ => .error (.invariant "no legacy files")
  normalizeHeader := fun _ => .error (.invariant "no legacy files")

/-- A handle on a new file. -/
def sampleHandle : Handle where
  storage :=
    { state := .new
      backing := .v4
      header := sampleHeader
      file := completeFile [sampleCodecs.text.write (headerJson sampleHeader)] }
  mint := fun _ => ""
  origin := .new
  acknowledged := []

variable {data : Option Json}

/-- The sample text is faithful to the values it is made of. -/
theorem sampleCodecs_faithful :
    sampleCodecs.text.Faithful (headerJson sampleHeader) (headerValue sampleHeader) ∧
      sampleCodecs.text.Faithful (writeJson sampleCodecs.messages (noted none))
        (writeJson sampleCodecs.messages (noted none)) ∧
      sampleCodecs.text.Faithful (writeJson sampleCodecs.messages (noted (some (.string "é"))))
        (writeJson sampleCodecs.messages (noted (some (.string "é")))) :=
  ⟨@JsonText.faithful_ofValues [] _ _ _ nofun (by decide +kernel) (by decide +kernel),
    @JsonText.faithful_ofValues [_] _ _ _ (by decide +kernel)
      (by decide +kernel) (by decide +kernel),
    @JsonText.faithful_ofValues [_, _] [] _ _ (by decide +kernel)
      (by decide +kernel) (by decide +kernel)⟩

theorem sampleHeader_reads : sampleHeader.Reads sampleCodecs where
  version := rfl
  admissible := by decide
  text := sampleCodecs_faithful.1

theorem sampleHandle_starts : sampleHandle.Starts sampleCodecs := by
  refine ⟨rfl, rfl, .inl ⟨sampleHeader, sampleHeader_reads, rfl, ?_⟩⟩
  rw [createSync, if_neg (by decide)]
  rfl

theorem noted_legible (h : Explicit data) : Legible sampleCodecs.messages (noted data) where
  seq := by
    change 1 ≤ U64.one.val ∧ U64.one.val ≤ maxSafeInteger
    decide
  entry := by
    rintro entry ⟨⟩
    refine ⟨?_, rfl, h⟩
    change (0 : Int) ≤ 0 ∧ (0 : Int) ≤ maxSafeInteger
    decide
  usage := by simp [noted]

theorem noted_none_recorded : Recorded sampleCodecs [noted none] where
  text := sampleCodecs_faithful.2.1
  legible := by
    intro write hwrt
    rw [mem_singleton.mp hwrt]
    exact noted_legible nofun

theorem noted_accent_recorded : Recorded sampleCodecs [noted (some (.string "é"))] where
  text := sampleCodecs_faithful.2.2
  legible := by
    intro write hwrt
    rw [mem_singleton.mp hwrt]
    exact noted_legible nofun

theorem prepare_sampleHandle (data : Option Json) :
    sampleHandle.storage.prepare (noteCommit data .completes).writes 0 "" =
      .ok ([noted data], [U64.one]) := rfl

theorem sampleHandle_records (disk : Disk) (hrecd : Recorded sampleCodecs [noted data]) :
    Records sampleCodecs sampleHandle.storage (noteCommit data disk) where
  batch := by
    intro taken seqs hprep _
    have hsame := hprep.symm.trans (prepare_sampleHandle data)
    rw [(Prod.mk.inj (Except.ok.inj hsame)).1]
    exact hrecd
  baseline := nofun
  header := nofun

/-- The sample handle after one note. -/
def sampleAfter (data : Option Json) : Handle where
  storage := { sampleHandle.storage with
      state := InMemoryStorageState.new.applyCommitted [noted data]
      file := sampleHandle.storage.file ++ appended sampleCodecs [noted data] }
  mint := fun _ => ""
  origin := .new
  acknowledged := [[noted data]]

theorem step_sampleHandle (data : Option Json) :
    sampleHandle.step sampleCodecs (noteCommit data .completes) = some (sampleAfter data) := rfl

/-! ## Reopening -/

/-- A commit on a disk that completes, whose writes read back. -/
def Legibly (codecs : Codecs) (h : Handle) (commit : Commit) : Prop :=
  commit.disk = .completes ∧ Records codecs h.storage commit

theorem Handle.kept_of_legibly (hrun : (Handle.machine codecs).Run (Legibly codecs) h) :
    h.Kept codecs [] := by
  apply hrun.invariant
  · intro h hsta
    exact Handle.Starts.kept hsta
  · intro h h' commit hkept hlegibly hnext
    obtain ⟨hdisk, hrecs⟩ := hlegibly
    have hclean : Clean codecs h.storage commit := by
      constructor
      case completes =>
        intro batch seqs hback _ _ _
        obtain ⟨first, records, base, hdur⟩ := hkept.durable hback
        rw [hdur.torn_eq]
        rfl
      case fails =>
        intro batch seqs count _ _ _ hfails
        rw [hdisk] at hfails
        cases hfails
    obtain ⟨rest, hkept', hrest⟩ := hkept.step hrecs hclean hnext
    rw [← hrest hdisk rfl]
    exact hkept'

/-- As long as every write that reaches the file reads back, opening the file again gives the
index in memory. -/
theorem Run.reopens_to_memory (hrun : (Handle.machine codecs).Run (Legibly codecs) h) :
    h.storage.state = h.origin.applyCommitted h.acknowledged.flatten ∧ h.Reopens codecs := by
  have hkept := Handle.kept_of_legibly hrun
  exact ⟨hkept.index, hkept.reopens⟩

theorem sampleAfter_run (hrecd : Recorded sampleCodecs [noted data]) :
    (Handle.machine sampleCodecs).Run (Legibly sampleCodecs) (sampleAfter data) :=
  .step (noteCommit data .completes) (.start sampleHandle_starts)
    ⟨rfl, sampleHandle_records .completes hrecd⟩ (step_sampleHandle data)

/-- A note with a text reads back. -/
theorem reopens_note : (sampleAfter (some (.string "é"))).storage.state =
        (sampleAfter (some (.string "é"))).origin.applyCommitted
          (sampleAfter (some (.string "é"))).acknowledged.flatten ∧
      (sampleAfter (some (.string "é"))).Reopens sampleCodecs :=
  Run.reopens_to_memory (sampleAfter_run noted_accent_recorded)

/-- An explicit null is written as no data is, so the two files are one and open to one index. -/
theorem explicit_null_lost :
    sampleHandle.Starts sampleCodecs ∧
      sampleHandle.step sampleCodecs (noteCommit (some .null) .completes) =
        some (sampleAfter (some .null)) ∧
      ¬(sampleAfter (some .null)).Reopens sampleCodecs := by
  refine ⟨sampleHandle_starts, step_sampleHandle _, fun hreopens => ?_⟩
  have hkept := Handle.kept_of_legibly (sampleAfter_run noted_none_recorded)
  obtain ⟨reopened, hopen, hstate, -⟩ := hreopens (fun _ => "") (.inl rfl)
  obtain ⟨same, hsame, hnone, -⟩ := hkept.reopens (fun _ => "") (.inl rfl)
  have hfile : (sampleAfter (some .null)).storage.file = (sampleAfter none).storage.file := rfl
  rw [hfile, hsame] at hopen
  rw [← Except.ok.inj hopen, hnone] at hstate
  have hentries := congrArg
    (fun state : InMemoryStorageState Json => state.entries.entries.map Prod.snd) hstate
  change [Entry.custom ⟨"n", none, U64.one, 0, none⟩ "note" none] =
    [Entry.custom ⟨"n", none, U64.one, 0, none⟩ "note" (some Json.null)] at hentries
  cases hentries

/-! ## Recovering from a cut -/

/-- A file opens to a handle with the same index, and leaves the file the handle had, which opens
to the same again. -/
def Recovers (codecs : Codecs) (s : JsonlStorage) (file : List UInt8) : Prop :=
  ∀ mint : Nat → String, ∃ opened, openSync codecs mint file = .ok opened ∧
    opened.state = s.state ∧ opened.file = s.file ∧
      ∀ mint' : Nat → String, ∃ again, openSync codecs mint' opened.file = .ok again ∧
        again.state = s.state ∧ again.file = s.file

/-- The cuts of the next record that are recovered are those between characters. -/
theorem Durable.recovers_iff {first : List Char} {records : List (List Char)}
    {base : InMemoryStorageState Json} {count : Nat}
    (hdur : Durable codecs s first records [] base)
    (hline : '\n' ∉ serializeTransaction codecs batch)
    (hcnt : count ≤ (Utf8.encode (serializeTransaction codecs batch)).length) :
    Recovers codecs s (s.file ++ (appended codecs batch).take count) ↔
      Utf8.Boundary (serializeTransaction codecs batch) count := by
  constructor
  · intro hrecovers
    obtain ⟨opened, hopen, -⟩ := hrecovers fun _ => ""
    rw [← Utf8.decode_take_isSome_iff hcnt]
    have htake : (appended codecs batch).take count =
        (Utf8.encode (serializeTransaction codecs batch)).take count := by
      rw [appended, Utf8.encode_append, take_append_of_le_length hcnt]
    -- A file that opens is text, and so is what follows the complete lines.
    rw [htake, hdur.file, Jsonl.openSync, Utf8.decode_encode_append] at hopen
    cases hdec : Utf8.decode ((Utf8.encode (serializeTransaction codecs batch)).take count) with
    | some cut => rfl
    | none =>
      rw [hdec] at hopen
      cases hopen
  · intro hbdry mint
    obtain ⟨more, htorn⟩ := hdur.tear hline hbdry
    have hfile : completeFile (first :: records) = s.file := hdur.file_eq.symm
    refine ⟨_, htorn.openSync mint, rfl, hfile, fun mint' => ?_⟩
    exact ⟨_, htorn.repaired.openSync mint', rfl, hfile⟩

/-- After legible commits to a file of the current format, the next record may be cut anywhere
between two characters, and nowhere else. -/
theorem Run.recovers_cut_iff (hrun : (Handle.machine codecs).Run (Legibly codecs) h)
    (hbacking : h.storage.backing = .v4) {batch : List (CommittedWrite Json)}
    (hline : '\n' ∉ serializeTransaction codecs batch) {count : Nat}
    (hcount : count ≤ (Utf8.encode (serializeTransaction codecs batch)).length) :
    Recovers codecs h.storage (h.storage.file ++ (appended codecs batch).take count) ↔
      Utf8.Boundary (serializeTransaction codecs batch) count := by
  obtain ⟨first, records, base, hdurable⟩ := (Handle.kept_of_legibly hrun).durable hbacking
  exact hdurable.recovers_iff hline hcount

/-- After a note, a second record that is cut before its first byte is recovered. -/
theorem recovers_iff_note :
    Recovers sampleCodecs (sampleAfter (some (.string "é"))).storage
        ((sampleAfter (some (.string "é"))).storage.file ++
          (appended sampleCodecs [noted none]).take 0) ↔
      Utf8.Boundary (serializeTransaction sampleCodecs [noted none]) 0 :=
  Run.recovers_cut_iff (sampleAfter_run noted_accent_recorded) rfl noted_none_recorded.text.line
    (Nat.zero_le _)

/-- The record of a note that is cut inside its accented letter makes the file unreadable. -/
theorem cut_inside_a_letter :
    sampleHandle.Starts sampleCodecs ∧ sampleHandle.storage.backing = .v4 ∧
      sampleHandle.storage.prepare (noteCommit (some (.string "é")) .completes).writes 0 "" =
        .ok ([noted (some (.string "é"))], [U64.one]) ∧
      30 ≤ (Utf8.encode (serializeTransaction sampleCodecs [noted (some (.string "é"))])).length ∧
      ¬Recovers sampleCodecs sampleHandle.storage
        (sampleHandle.storage.file ++
          (appended sampleCodecs [noted (some (.string "é"))]).take 30) := by
  have hcount : 30 ≤
      (Utf8.encode (serializeTransaction sampleCodecs [noted (some (.string "é"))])).length := by
    decide +kernel
  obtain ⟨first, records, base, hdurable⟩ := (Handle.Starts.kept sampleHandle_starts).durable rfl
  refine ⟨sampleHandle_starts, rfl, prepare_sampleHandle _, hcount, ?_⟩
  rw [hdurable.recovers_iff noted_accent_recorded.text.line hcount]
  decide +kernel

/-! ## Failing appends -/

/-- A commit whose writes read back, that appends only to complete lines and whose append, if it
fails, stops between characters. -/
def Cleanly (codecs : Codecs) (h : Handle) (commit : Commit) : Prop :=
  Records codecs h.storage commit ∧ Clean codecs h.storage commit

/-- As long as appends fail between characters and none goes on behind a torn rest, the file opens
to the index, which is what the acknowledged commits made of it. -/
theorem Run.acknowledged_durable (hrun : (Handle.machine codecs).Run (Cleanly codecs) h) :
    h.storage.state = h.origin.applyCommitted h.acknowledged.flatten ∧ h.Reopens codecs := by
  have hkept : ∃ rest, h.Kept codecs rest := by
    apply hrun.invariant
    · intro h hstart
      exact ⟨[], Handle.Starts.kept hstart⟩
    · rintro h h' commit ⟨rest, hkept⟩ ⟨hrecs, hclean⟩ hnext
      obtain ⟨rest', hkept', -⟩ := hkept.step hrecs hclean hnext
      exact ⟨rest', hkept'⟩
  obtain ⟨rest, hkept⟩ := hkept
  exact ⟨hkept.index, hkept.reopens⟩

/-- The sample handle after an append that failed behind the first byte. -/
def tornHandle : Handle := { sampleHandle with
    storage := { sampleHandle.storage with
        file := sampleHandle.storage.file ++ (appended sampleCodecs [noted none]).take 1 } }

theorem boundary_note_one : Utf8.Boundary (serializeTransaction sampleCodecs [noted none]) 1 := by
  decide +kernel

/-- The torn handle opens to the empty index it has. -/
theorem durable_torn :
    tornHandle.storage.state = tornHandle.origin.applyCommitted tornHandle.acknowledged.flatten ∧
      tornHandle.Reopens sampleCodecs := by
  have hclean : Clean sampleCodecs sampleHandle.storage (noteCommit none (.failsAfter 1)) := by
    constructor
    case completes =>
      intro batch seqs _ _ _ hdisk
      cases hdisk
    case fails =>
      intro batch seqs count _ hprepare _ hdisk
      have hsame := hprepare.symm.trans (prepare_sampleHandle none)
      rw [(Prod.mk.inj (Except.ok.inj hsame)).1, ← Disk.failsAfter.inj hdisk]
      exact boundary_note_one
  exact Run.acknowledged_durable (.step (noteCommit none (.failsAfter 1)) (.start sampleHandle_starts)
    ⟨sampleHandle_records (.failsAfter 1) noted_none_recorded, hclean⟩ rfl)

/-- The torn handle after a note that was acknowledged. -/
def gluedHandle : Handle := { sampleAfter none with
    storage := { (sampleAfter none).storage with
        file := tornHandle.storage.file ++ appended sampleCodecs [noted none] } }

/-- The next note goes on where the torn one stopped, and the file does not open again. -/
theorem append_behind_torn :
    sampleHandle.Starts sampleCodecs ∧
      sampleHandle.step sampleCodecs (noteCommit none (.failsAfter 1)) = some tornHandle ∧
      tornHandle.step sampleCodecs (noteCommit none .completes) = some gluedHandle ∧
      gluedHandle.acknowledged = [[noted none]] ∧ ¬gluedHandle.Reopens sampleCodecs := by
  refine ⟨sampleHandle_starts, rfl, rfl, rfl, fun hreopens => ?_⟩
  obtain ⟨reopened, hopen, -⟩ := hreopens (fun _ => "") (.inl rfl)
  have hread : sampleCodecs.text.read ('{' :: serializeTransaction sampleCodecs [noted none]) =
      none := by
    apply Option.isNone_iff_eq_none.mp
    decide +kernel
  have hlines := @openSync_terminated sampleCodecs (sampleCodecs.text.write (headerJson sampleHeader))
    [] ['{' :: serializeTransaction sampleCodecs [noted none]] sampleHeader gluedHandle.storage.file
    (by decide +kernel) (by decide +kernel) not_mem_nil sampleHeader_reads.text.nonempty
    sampleHeader_reads.parseHeader (fun _ => "")
  rw [hlines] at hopen
  simp only [openV4, tail_cons, replayLines, parseTransaction, hread] at hopen
  rw [if_neg (fun hversion => hversion rfl)] at hopen
  cases hopen

end PiOxidized.Session.Jsonl
