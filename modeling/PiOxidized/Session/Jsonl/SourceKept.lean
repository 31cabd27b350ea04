/-
# Commits and forks of one session file

The file always stands for the batches that were acknowledged, and whoever reads it or
holds the open handle has the index of a first part of them.  The call that holds the
reservation meets no commit, so its repair keeps every record; a fork holds no
reservation, and its repair keeps the records of the file only as it was read.
-/

import PiOxidized.Session.Jsonl.Source

namespace PiOxidized.Session.Jsonl

open Option List Math InMemoryStorageState

variable {codecs : Codecs} {s : JsonlStorage} {file : List UInt8} {mint : Nat → String}
  {opened : JsonlStorage}

/-! ## Complete lines of a file -/

def completeLines (file : List UInt8) : List (List Char) := match Utf8.decode file with
  | none => []
  | some content => (splitCompleteLines content).1

variable {base : InMemoryStorageState Json} {records : List (List Char)}

theorem Durable.completeLines_eq {first rest : List Char}
    (h : Durable codecs s first records rest base) :
    completeLines s.file = first :: records := by
  rw [completeLines, h.decode]
  simp only [splitCompleteLines_terminated (cons_ne_nil first records) h.lines h.rest]

/-- A file of the current format opens to the same handle whatever ids are minted, and so does the
file of its complete lines. -/
structure Current (codecs : Codecs) (file : List UInt8) (opened : JsonlStorage) : Prop where
  backing : opened.backing = .v4
  same : ∀ mint, openSync codecs mint file = .ok opened
  again : ∀ mint, openSync codecs mint opened.file = .ok opened
  lines : opened.file = completeFile (completeLines file)
  repaired : completeLines opened.file = completeLines file

theorem Durable.current {first rest : List Char} (h : Durable codecs s first records rest base) :
    Current codecs s.file { s with file := completeFile (first :: records) } where
  backing := h.backing
  same := h.openSync
  again := h.repaired.openSync
  lines := by rw [h.completeLines_eq]
  repaired := h.repaired.completeLines_eq.trans h.completeLines_eq.symm

/-- A file opens as a current one, or as a legacy one that is left as it is. -/
theorem openSync_current (h : openSync codecs mint file = .ok opened) :
    Current codecs file opened ∨ (opened.backing ≠ .v4 ∧ opened.file = file) := by
  rcases openSync_cases h with ⟨first, records, rest, base, hdur, hfile⟩ |
    ⟨importedUsage, baseline, stats, hback, hfile, -⟩
  · left
    have hcur := hdur.current
    rw [← hfile] at hcur
    exact hcur
  · right
    rw [hback]
    exact ⟨nofun, hfile⟩

theorem Current.unique {other : JsonlStorage} (h : Current codecs file opened)
    (hoth : openSync codecs mint file = .ok other) : other = opened :=
  Except.ok.inj (hoth.symm.trans (h.same mint))

/-- A repaired file is a current one. -/
theorem Current.next (h : Current codecs file opened) : Current codecs opened.file opened where
  __ := h
  same := h.again
  lines := by rw [h.repaired, ← h.lines]
  repaired := rfl

/-- What opening a file gives, up to the file. -/
def Loads (codecs : Codecs) (file : List UInt8) (loaded : JsonlStorage) : Prop :=
  ∃ mint opened, openSync codecs mint file = .ok opened ∧
    opened = { loaded with file := opened.file }

theorem loads_openSync (h : openSync codecs mint file = .ok opened) : Loads codecs file opened :=
  ⟨mint, opened, h, rfl⟩

/-- Repairing a file changes nothing that is loaded from it. -/
theorem Current.loads {loaded : JsonlStorage} (h : Current codecs file opened)
    (hloads : Loads codecs file loaded) : Loads codecs opened.file loaded := by
  obtain ⟨mint, other, hoth, hsame⟩ := hloads
  obtain rfl := h.unique hoth
  exact ⟨mint, other, h.again mint, hsame⟩

/-- The index a file opens to. -/
def Opens (codecs : Codecs) (file : List UInt8) (index : InMemoryStorageState Json) : Prop :=
  ∃ mint opened, openSync codecs mint file = .ok opened ∧ opened.state = index

namespace Source

variable {s s' : SessionFile} {i : Nat} {initial file : List UInt8}
  {acknowledged : List (List (CommittedWrite Json))} {cur pend : Option Nat}

/-! ## What a run keeps -/

/-- An index that a first part of the acknowledged batches makes of the one the session started
from. -/
def Shown (codecs : Codecs) (initial : List UInt8) (acknowledged : List (List (CommittedWrite Json)))
    (state : InMemoryStorageState Json) : Prop :=
  ∃ base k, Opens codecs initial base ∧ k ≤ acknowledged.length ∧
    state = base.applyCommitted (acknowledged.take k).flatten

/-- The file holds the acknowledged batches, or it is the legacy file the session started from. -/
inductive FileKept (codecs : Codecs) (initial : List UInt8)
    (acknowledged : List (List (CommittedWrite Json))) (file : List UInt8) : Prop
  | current {base b : InMemoryStorageState Json} {header : JsonlStorageHeader}
      {first rest : List Char} {records : List (List Char)} (hopens : Opens codecs initial base)
      (hdurable : Durable codecs ⟨base.applyCommitted acknowledged.flatten, .v4, header, file⟩
        first records rest b)
      (hrecords : ∀ batch ∈ acknowledged, batch ≠ [] → serializeTransaction codecs batch ∈ records)
  | legacy (hfile : file = initial) (hnone : acknowledged.flatten = [])
      (hbacking : ∀ mint opened, openSync codecs mint initial = .ok opened → opened.backing ≠ .v4)

/-- What holds while a call opens the session: from the reservation to its release the id is
reserved by the call, and until the handle is published none is open. -/
def OpenCall.Fits (codecs : Codecs) (file : List UInt8) (current pending : Option Nat)
    (index : Nat) : OpenCall → Prop
  | .checking | .reserving | .returned => True
  | .releasing => pending = some index
  | .reading => pending = some index ∧ current = none
  | .repairing loaded => pending = some index ∧ current = none ∧ Current codecs file loaded
  | .publishing loaded =>
    pending = some index ∧ current = none ∧ Loads codecs file loaded

/-- What holds while a call forks the session. -/
def ForkCall.Fits (codecs : Codecs) (initial : List UInt8)
    (acknowledged : List (List (CommittedWrite Json))) (file : List UInt8) : ForkCall → Prop
  | .repairing loaded read =>
    (∃ opened, Current codecs file opened) ∧ Shown codecs initial acknowledged loaded.state ∧
      loaded.file = completeFile (completeLines read)
  | .captured snapshot =>
    ∃ state, Shown codecs initial acknowledged state ∧ snapshot = state.snapshotForFork
  | _ => True

structure Sound (codecs : Codecs) (s : SessionFile) : Prop where
  kept : FileKept codecs s.initial s.acknowledged s.file
  handle : ∀ i, s.current = some i → ∃ o : OpenStorage, s.opened[i]? = some o ∧
    Loads codecs s.file o.storage
  detached : ∀ (i : Nat) o, s.opened[i]? = some o → s.current ≠ some i →
    o.closed = true ∧ o.admitted = []
  shown : ∀ (i : Nat) o, s.opened[i]? = some o →
    Shown codecs s.initial s.acknowledged o.storage.state
  opens : ∀ (i : Nat) call, s.opens[i]? = some call →
    call.Fits codecs s.file s.current s.pending i
  forks : ∀ (i : Nat) call, s.forks[i]? = some call →
    call.Fits codecs s.initial s.acknowledged s.file

/-- The condition of a step: a commit's writes read back, its append goes on behind complete lines
and fails between characters if it does, and a fork replaces a torn file only while the file has
the complete lines that the fork read. -/
def Keeps (codecs : Codecs) (s : SessionFile) : Event → Prop
  | .runCommit handle position => ∀ o commit, s.opened[handle]? = some o →
      o.admitted[position]? = some commit →
      Records codecs { o.storage with file := s.file } commit ∧
        Clean codecs { o.storage with file := s.file } commit
  | .stepFork index _ => ∀ loaded read, s.forks[index]? = some (.repairing loaded read) →
      completeLines s.file = completeLines read
  | _ => True

theorem Sound.start (hsta : s.Starts) : Sound codecs s := by
  obtain ⟨file, rfl⟩ := hsta
  constructor
  case kept =>
    by_cases hback : ∀ mint opened, openSync codecs mint file = .ok opened → opened.backing ≠ .v4
    · exact .legacy rfl rfl hback
    · simp only [not_forall, not_not] at hback
      obtain ⟨mint, opened, hopen, hv4⟩ := hback
      rcases openSync_cases hopen with ⟨first, records, rest, base, hdur, -⟩ |
        ⟨importedUsage, baseline, stats, hv3, -⟩
      · obtain ⟨state, backing, header, file'⟩ := opened
        obtain rfl : backing = .v4 := hv4
        have hopens : Opens codecs file state := ⟨mint, _, hopen, rfl⟩
        exact .current hopens hdur nofun
      · rw [hv4] at hv3
        cases hv3
  case handle =>
    intro i h
    cases h
  case detached =>
    intro i o h
    cases h
  case shown =>
    intro i o h
    cases h
  case opens =>
    intro i call h
    cases h
  case forks =>
    intro i call h
    cases h

/-! ## Reading and repairing -/

variable {loaded : JsonlStorage}

section

variable (hkept : FileKept codecs initial acknowledged file)

include hkept

/-- What a file opens to is shown. -/
theorem FileKept.shown (hload : openSync codecs mint file = .ok loaded) :
    Shown codecs initial acknowledged loaded.state := by
  cases hkept with
  | @current base b header first rest records hopens hdur hrecs =>
    obtain rfl := hdur.current.unique hload
    refine ⟨base, acknowledged.length, hopens, le_rfl, ?_⟩
    rw [take_length]
  | legacy hfile hnone hback =>
    rw [hfile] at hload
    refine ⟨loaded.state, acknowledged.length, ⟨mint, loaded, hload, rfl⟩, le_rfl, ?_⟩
    rw [take_length, hnone]
    rfl

/-- A repair from the complete lines of the file keeps every record. -/
theorem FileKept.repaired (hcur : Current codecs file opened) :
    FileKept codecs initial acknowledged opened.file := by
  cases hkept with
  | current hopens hdur hrecs =>
    obtain rfl := hdur.current.unique (hcur.same fun _ => "")
    exact .current hopens hdur.repaired hrecs
  | legacy hfile hnone hback =>
    rw [hfile] at hcur
    exact absurd hcur.backing (hback _ _ (hcur.same fun _ => ""))

theorem FileKept.shown_loads (hloads : Loads codecs file loaded) :
    Shown codecs initial acknowledged loaded.state := by
  obtain ⟨mint, opened, hopen, hsame⟩ := hloads
  have hshown := hkept.shown hopen
  rw [hsame] at hshown
  exact hshown

end

/-- What a call read of a file that it finds in order, or has to repair. -/
theorem loaded_cases (hload : openSync codecs mint file = .ok loaded) :
    (loaded.file = file ∧ Loads codecs file loaded) ∨
      (loaded.file ≠ file ∧ Current codecs file loaded) := by
  by_cases hfile : loaded.file = file
  · exact .inl ⟨hfile, loads_openSync hload⟩
  · rcases openSync_current hload with hcur | ⟨-, hsame⟩
    · exact .inr ⟨hfile, hcur⟩
    · exact absurd hsame hfile

/-! ## Calls that open the session -/

/-- Whether a call holds the reservation. -/
def OpenCall.holds : OpenCall → Bool
  | .checking | .reserving | .returned => false
  | .reading | .repairing _ | .publishing _ | .releasing => true

variable {call : OpenCall} {i : Nat}

theorem OpenCall.fits_of_idle (h : call.holds = false) (file : List UInt8)
    (cur pend : Option Nat) (i : Nat) : call.Fits codecs file cur pend i := by
  cases call <;> trivial

theorem OpenCall.Fits.reserved (h : call.Fits codecs file cur pend i) (hholds : call.holds = true) :
    pend = some i := by
  cases call with
  | checking | reserving | returned => cases hholds
  | releasing => exact h
  | reading | repairing loaded | publishing loaded => exact h.1

/-- While a call holds the reservation, or none does, every other call is idle. -/
theorem Sound.others_idle (h : Sound codecs s) (hpend : ∀ i, s.pending = some i → i = k)
    (hcall : s.opens[i]? = some call) (hne : i ≠ k) :
    call.holds = false := by
  cases hholds : call.holds with
  | false => rfl
  | true => exact absurd (hpend i ((h.opens i call hcall).reserved hholds)) hne

/-- The fork calls fit a file that was repaired. -/
theorem ForkCall.Fits.repaired {call : ForkCall} (h : call.Fits codecs initial acknowledged file)
    (hcur : Current codecs file opened) :
    call.Fits codecs initial acknowledged opened.file := by
  cases call with
  | repairing loaded read => exact ⟨⟨opened, hcur.next⟩, h.2⟩
  | checking | admitting handle | capturing handle | reading | failed => trivial
  | captured snapshot => exact h

/-- The calls that open the session fit a file that was repaired. -/
theorem OpenCall.Fits.repaired (h : call.Fits codecs file cur pend i)
    (hcur : Current codecs file opened) :
    call.Fits codecs opened.file cur pend i := by
  cases call with
  | checking | reserving | returned => trivial
  | releasing => exact h
  | reading => exact h
  | repairing loaded =>
    obtain ⟨hpend, hnone, hloaded⟩ := h
    obtain rfl := hcur.unique (hloaded.same fun _ => "")
    exact ⟨hpend, hnone, hcur.next⟩
  | publishing loaded =>
    obtain ⟨hpend, hnone, hloads⟩ := h
    exact ⟨hpend, hnone, hcur.loads hloads⟩

/-- A step of a call that opens the session. -/
theorem Sound.stepOpen (h : Sound codecs s) (hcall : s.opens[k]? = some call)
    (hnext : s.stepOpen codecs k mint call = some s') :
    Sound codecs s' := by
  have hfits := h.opens k call hcall
  cases call with
  | checking =>
    cases hnext
    refine { h with opens := forall_set h.opens ?_ }
    split_ifs <;> trivial
  | reserving =>
    simp only [SessionFile.stepOpen] at hnext
    split_ifs at hnext with hbusy
    · cases hnext
      exact { h with opens := forall_set h.opens trivial }
    · cases hnext
      rw [Bool.or_eq_true, not_or, not_isSome_iff_eq_none, not_isSome_iff_eq_none] at hbusy
      refine { h with opens := fun i other hoth => ?_ }
      rcases getElem?_set_cases hoth with ⟨rfl, rfl⟩ | ⟨hne, hoth⟩
      · exact ⟨rfl, hbusy.1⟩
      · have hidle := h.others_idle (by rw [hbusy.2]; exact nofun) hoth hne
        exact OpenCall.fits_of_idle hidle _ _ _ _
  | reading =>
    obtain ⟨hpend, hnone⟩ := hfits
    simp only [SessionFile.stepOpen] at hnext
    cases hload : openSync codecs mint s.file with
    | error error =>
      rw [hload] at hnext
      cases hnext
      exact { h with opens := forall_set h.opens hpend }
    | ok loaded =>
      simp only [hload] at hnext
      rcases loaded_cases hload with ⟨hfile, hloads⟩ | ⟨hfile, hcur⟩
      · rw [if_pos hfile] at hnext
        cases hnext
        exact { h with opens := forall_set h.opens ⟨hpend, hnone, hloads⟩ }
      · rw [if_neg hfile] at hnext
        cases hnext
        exact { h with opens := forall_set h.opens ⟨hpend, hnone, hcur⟩ }
  | repairing loaded =>
    obtain ⟨hpend, hnone, hcur⟩ := hfits
    cases hnext
    constructor
    case kept => exact h.kept.repaired hcur
    case handle =>
      intro i hi
      rw [show s.current = some i from hi] at hnone
      cases hnone
    case detached => exact h.detached
    case shown => exact h.shown
    case opens =>
      intro i other hoth
      rcases getElem?_set_cases hoth with ⟨rfl, rfl⟩ | ⟨hne, hoth⟩
      · exact ⟨hpend, hnone, loads_openSync (hcur.again fun _ => "")⟩
      · have hidle := h.others_idle (fun i hi => (some.inj (hpend.symm.trans hi)).symm) hoth hne
        exact OpenCall.fits_of_idle hidle _ _ _ _
    case forks => exact fun i other hoth => (h.forks i other hoth).repaired hcur
  | publishing loaded =>
    obtain ⟨hpend, hnone, hloads⟩ := hfits
    simp only [SessionFile.stepOpen, hnone, isSome_none, Bool.false_eq_true, if_false] at hnext
    cases hnext
    constructor
    case kept => exact h.kept
    case handle =>
      intro i hi
      cases hi
      exact ⟨_, getElem?_concat_length, hloads⟩
    case detached =>
      intro i o ho hi
      rcases getElem?_append_cases ho with ho | ⟨rfl, -⟩
      · exact h.detached i o ho (by rw [hnone]; exact nofun)
      · exact absurd rfl hi
    case shown =>
      exact forall_concat h.shown (h.kept.shown_loads hloads)
    case opens =>
      intro i other hoth
      rcases getElem?_set_cases hoth with ⟨rfl, rfl⟩ | ⟨hne, hoth⟩
      · exact hpend
      · have hidle := h.others_idle (fun i hi => (some.inj (hpend.symm.trans hi)).symm) hoth hne
        exact OpenCall.fits_of_idle hidle _ _ _ _
    case forks => exact h.forks
  | releasing =>
    have hpend : s.pending = some k := hfits
    cases hnext
    refine { h with opens := fun i other hoth => ?_ }
    rcases getElem?_set_cases hoth with ⟨rfl, rfl⟩ | ⟨hne, hoth⟩
    · trivial
    · have hidle := h.others_idle (fun i hi => (some.inj (hpend.symm.trans hi)).symm) hoth hne
      exact OpenCall.fits_of_idle hidle _ _ _ _
  | returned => cases hnext

/-! ## Calls that fork the session -/

variable {handle : Nat} {o : OpenStorage}

/-- Replacing a call keeps the others, and a call in a phase that nothing is asked of fits. -/
theorem Sound.setFork (h : Sound codecs s) (i : Nat) (call : ForkCall)
    (hcall : call.Fits codecs s.initial s.acknowledged s.file) :
    Sound codecs (s.setFork i call) := by
  exact { h with forks := forall_set h.forks hcall }

/-- A change of a handle that keeps its index, its flag and its commits. -/
theorem Sound.setOpened (h : Sound codecs s) {o' : OpenStorage} (ho : s.opened[handle]? = some o)
    (hstorage : o'.storage = o.storage)
    (hdetached : s.current ≠ some handle → o'.closed = true ∧ o'.admitted = []) :
    Sound codecs (s.setOpened handle o') := by
  constructor
  case kept => exact h.kept
  case handle =>
    intro i hi
    obtain ⟨other, hoth, hloads⟩ := h.handle i hi
    by_cases heq : i = handle
    · subst heq
      obtain rfl := some.inj (ho.symm.trans hoth)
      refine ⟨o', getElem?_set_of_some ho, ?_⟩
      rw [hstorage]
      exact hloads
    · refine ⟨other, ?_, hloads⟩
      change (s.opened.set handle o')[i]? = some other
      rw [getElem?_set_ne (Ne.symm heq)]
      exact hoth
  case detached =>
    exact forall_set h.detached fun hi => hdetached hi
  case shown =>
    intro i other hoth
    rcases getElem?_set_cases hoth with ⟨rfl, rfl⟩ | ⟨-, hoth⟩
    · rw [hstorage]
      exact h.shown i o ho
    · exact h.shown i other hoth
  case opens => exact h.opens
  case forks => exact h.forks

/-- A step of a call that forks the session. -/
theorem Sound.stepFork (h : Sound codecs s) {call : ForkCall} (hcall : s.forks[k]? = some call)
    (hfrs : ∀ loaded read, call = .repairing loaded read →
      completeLines s.file = completeLines read)
    (hnext : s.stepFork codecs k mint call = some s') : Sound codecs s' := by
  have hfits := h.forks k call hcall
  cases call with
  | checking =>
    simp only [SessionFile.stepFork] at hnext
    split at hnext
    · rename_i handle _
      cases hnext
      exact h.setFork k (.admitting handle) trivial
    · cases hnext
      exact h.setFork k .reading trivial
  | admitting handle =>
    simp only [SessionFile.stepFork] at hnext
    split at hnext
    · cases hnext
    · rename_i o ho
      split_ifs at hnext with hshut
      · cases hnext
        exact h.setFork k .failed trivial
      · cases hnext
        exact (h.setFork k (.capturing handle) trivial).setOpened ho rfl (h.detached handle o ho)
  | capturing handle =>
    simp only [SessionFile.stepFork] at hnext
    split at hnext
    · cases hnext
    · rename_i o ho
      cases hnext
      have hcaptured := h.setFork k (.captured o.storage.state.snapshotForFork)
        ⟨o.storage.state, h.shown handle o ho, rfl⟩
      exact hcaptured.setOpened ho rfl (h.detached handle o ho)
  | reading =>
    simp only [SessionFile.stepFork] at hnext
    cases hload : openSync codecs mint s.file with
    | error error =>
      rw [hload] at hnext
      cases hnext
      exact h.setFork k .failed trivial
    | ok loaded =>
      have hshown := h.kept.shown hload
      simp only [hload] at hnext
      rcases loaded_cases hload with ⟨hfile, -⟩ | ⟨hfile, hcur⟩
      · rw [if_pos hfile] at hnext
        cases hnext
        exact h.setFork k (.captured loaded.state.snapshotForFork) ⟨loaded.state, hshown, rfl⟩
      · rw [if_neg hfile] at hnext
        cases hnext
        exact h.setFork k (.repairing loaded s.file) ⟨⟨loaded, hcur⟩, hshown, hcur.lines⟩
  | repairing loaded read =>
    obtain ⟨⟨opened, hcur⟩, hshown, hlines⟩ := hfits
    cases hnext
    -- The fork writes the complete lines the file still has.
    have hfile : loaded.file = opened.file := by
      rw [hlines, ← hfrs loaded read rfl, ← hcur.lines]
    have hrepaired : Sound codecs { s with file := opened.file } := by
      constructor
      case kept => exact h.kept.repaired hcur
      case handle =>
        intro i hi
        obtain ⟨o, ho, hloads⟩ := h.handle i hi
        exact ⟨o, ho, hcur.loads hloads⟩
      case detached => exact h.detached
      case shown => exact h.shown
      case opens => exact fun i other hoth => (h.opens i other hoth).repaired hcur
      case forks => exact fun i other hoth => (h.forks i other hoth).repaired hcur
    have hcaptured := hrepaired.setFork k (.captured loaded.state.snapshotForFork)
      ⟨loaded.state, hshown, rfl⟩
    rw [← hfile] at hcaptured
    exact hcaptured
  | captured | failed => cases hnext

/-! ## Commits -/

theorem Shown.extend {state : InMemoryStorageState Json}
    {later : List (List (CommittedWrite Json))} (h : Shown codecs initial acknowledged state)
    (hextends : acknowledged <+: later) : Shown codecs initial later state := by
  obtain ⟨base, k, hopens, hk, hstate⟩ := h
  obtain ⟨more, rfl⟩ := hextends
  refine ⟨base, k, hopens, ?_, ?_⟩
  · rw [length_append]
    omega
  · rw [take_append_of_le_length hk]
    exact hstate

/-- While a handle is open, no call is between its reservation and its handle. -/
theorem OpenCall.Fits.of_open (h : call.Fits codecs file (some handle) pend i)
    (other : List UInt8) :
    call.Fits codecs other (some handle) pend i := by
  cases call with
  | checking | reserving | returned => trivial
  | releasing => exact h
  | reading =>
    obtain ⟨-, hnone⟩ := h
    cases hnone
  | repairing loaded | publishing loaded =>
    obtain ⟨-, hnone, -⟩ := h
    cases hnone

theorem OpenCall.Fits.of_detached (h : call.Fits codecs file (some handle) pend i) :
    call.Fits codecs file none pend i := by
  cases call with
  | checking | reserving | returned => trivial
  | releasing => exact h
  | reading =>
    obtain ⟨-, hnone⟩ := h
    cases hnone
  | repairing loaded | publishing loaded =>
    obtain ⟨-, hnone, -⟩ := h
    cases hnone

/-- The open handle and the file moved on together. -/
theorem Sound.advanced (h : Sound codecs s) (hcur : s.current = some handle)
    (ho : s.opened[handle]? = some o) {next : JsonlStorage} {admitted : List Commit}
    (hextends : s.acknowledged <+: acknowledged)
    (hkept : FileKept codecs s.initial acknowledged next.file)
    (hloads : Loads codecs next.file next) (hforks : ∀ opened, Current codecs s.file opened →
      ∃ opened', Current codecs next.file opened') :
    Sound codecs { s.setOpened handle { o with storage := next, admitted := admitted } with
        file := next.file
        acknowledged := acknowledged } := by
  constructor
  case kept => exact hkept
  case handle =>
    intro i hi
    obtain rfl := some.inj (hcur.symm.trans hi)
    exact ⟨_, getElem?_set_of_some ho, hloads⟩
  case detached =>
    intro i other hoth hi
    rcases getElem?_set_cases hoth with ⟨rfl, -⟩ | ⟨-, hoth⟩
    · exact absurd hcur hi
    · exact h.detached i other hoth hi
  case shown =>
    intro i other hoth
    rcases getElem?_set_cases hoth with ⟨-, rfl⟩ | ⟨-, hoth⟩
    · exact hkept.shown_loads hloads
    · exact (h.shown i other hoth).extend hextends
  case opens =>
    intro i call hcall
    have hfits := h.opens i call hcall
    change call.Fits codecs _ s.current s.pending i
    rw [hcur] at hfits ⊢
    exact hfits.of_open _
  case forks =>
    intro i call hcall
    have hfits := h.forks i call hcall
    cases call with
    | repairing loaded read =>
      obtain ⟨⟨opened, hopn⟩, hshown, hlines⟩ := hfits
      exact ⟨hforks opened hopn, hshown.extend hextends, hlines⟩
    | captured snapshot =>
      obtain ⟨state, hshown, hsnapshot⟩ := hfits
      exact ⟨state, hshown.extend hextends, hsnapshot⟩
    | checking | admitting handle | capturing handle | reading | failed => trivial

/-- A batch without writes asks nothing of the file. -/
theorem FileKept.append_nil (hkept : FileKept codecs initial acknowledged file) :
    FileKept codecs initial (acknowledged ++ [[]]) file := by
  have hflatten : (acknowledged ++ [[]]).flatten = acknowledged.flatten := by simp
  cases hkept with
  | current hopens hdur hrecs =>
    rw [← hflatten] at hdur
    refine .current hopens hdur fun batch hbat hne => ?_
    rcases mem_append.mp hbat with hbat | hbat
    · exact hrecs batch hbat hne
    · exact absurd (mem_singleton.mp hbat) hne
  | legacy hfile hnone hback => exact .legacy hfile (hflatten.trans hnone) hback

theorem FileKept.of_durable {next : JsonlStorage} {b : InMemoryStorageState Json}
    {first rest : List Char} (hopens : Opens codecs initial base)
    (hdur : Durable codecs next first records rest b)
    (hstate : next.state = base.applyCommitted acknowledged.flatten)
    (hrecs : ∀ batch ∈ acknowledged, batch ≠ [] → serializeTransaction codecs batch ∈ records) :
    FileKept codecs initial acknowledged next.file := by
  obtain ⟨state, backing, header, file⟩ := next
  obtain rfl : backing = .v4 := hdur.backing
  obtain rfl : state = base.applyCommitted acknowledged.flatten := hstate
  exact .current hopens hdur hrecs

/-- A handle of the current format stands as in the file. -/
theorem FileKept.durable (hkept : FileKept codecs initial acknowledged file)
    (hloads : Loads codecs file loaded) (hback : loaded.backing = .v4) :
    ∃ base first rest records b, Opens codecs initial base ∧
      loaded.state = base.applyCommitted acknowledged.flatten ∧
      Durable codecs { loaded with file := file } first records rest b ∧
      ∀ batch ∈ acknowledged, batch ≠ [] → serializeTransaction codecs batch ∈ records := by
  obtain ⟨mint, opened, hopen, hsame⟩ := hloads
  cases hkept with
  | @current base b header first rest records hopens hdur hrecs =>
    obtain rfl := hdur.current.unique hopen
    obtain ⟨state, backing, header', file'⟩ := loaded
    obtain ⟨rfl, rfl, rfl, -⟩ := JsonlStorage.mk.inj hsame
    exact ⟨base, first, rest, records, b, hopens, rfl, hdur, hrecs⟩
  | legacy hfile hnone hlegacy =>
    rw [hfile] at hopen
    have hnot := hlegacy mint opened hopen
    rw [hsame] at hnot
    exact absurd hback hnot

/-- A legacy handle is the one the session started from. -/
theorem FileKept.legacy_loads {importedUsage : Usage} {baseline : List (CommittedWrite Json)}
    (hkept : FileKept codecs initial acknowledged file) (hloads : Loads codecs file loaded)
    (hback : loaded.backing = .v3 importedUsage baseline) :
    acknowledged.flatten = [] ∧ Opens codecs initial loaded.state ∧
      ∃ stats, new.replay baseline = (.ok stats, loaded.state) := by
  obtain ⟨mint, opened, hopen, hsame⟩ := hloads
  cases hkept with
  | current hopens hdur hrecs =>
    obtain rfl := hdur.current.unique hopen
    obtain ⟨state, backing, header', file'⟩ := loaded
    obtain ⟨-, rfl, -, -⟩ := JsonlStorage.mk.inj hsame
    cases hback
  | legacy hfile hnone hlegacy =>
    rw [hfile] at hopen
    have hstate : opened.state = loaded.state := by rw [hsame]
    rcases openSync_cases hopen with ⟨first, records, rest, base, hdur, -⟩ |
      ⟨importedUsage', baseline', stats, hback', -, hrep⟩
    · exact absurd hdur.backing (hlegacy mint opened hopen)
    · rw [hsame] at hback'
      obtain ⟨-, rfl⟩ := Backing.v3.inj (hback.symm.trans hback')
      rw [hstate] at hrep
      exact ⟨hnone, ⟨mint, opened, hopen, hstate⟩, stats, hrep⟩

/-- An admitted commit takes one of the ways a commit goes. -/
theorem taken_runCommit (s : SessionFile) (handle pos : Nat) (o : OpenStorage)
    (commit : Commit) (origin : InMemoryStorageState Json) :
    ∃ h' : Handle,
      (Handle.mk { o.storage with file := s.file } (fun _ => "") origin s.acknowledged).Taken codecs
        commit h' ∧
      s.runCommit codecs handle pos o commit = { s.setOpened handle
            { o with storage := h'.storage, admitted := o.admitted.eraseIdx pos } with
          file := h'.storage.file
          acknowledged := h'.acknowledged } := by
  cases hcom : JsonlStorage.commitSync codecs { o.storage with file := s.file } commit.writes
      commit.now commit.usageId commit.disk with
  | mk outcome next =>
    cases outcome with
    | error error =>
      refine ⟨⟨next, fun _ => "", origin, s.acknowledged⟩, Handle.step_taken ?_, ?_⟩
      · simp only [Handle.step, hcom]
      · simp only [SessionFile.runCommit, hcom]
    | ok result =>
      refine ⟨⟨next, fun _ => "", origin, s.acknowledged ++
        [JsonlStorage.proposed { o.storage with file := s.file } commit]⟩,
        Handle.step_taken ?_, ?_⟩
      · simp only [Handle.step, hcom]
      · simp only [SessionFile.runCommit, hcom]

/-- A commit on the open handle. -/
theorem Sound.runCommit (h : Sound codecs s) {pos : Nat} {commit : Commit}
    (ho : s.opened[handle]? = some o) (hcom : o.admitted[pos]? = some commit)
    (hrecs : Records codecs { o.storage with file := s.file } commit)
    (hclean : Clean codecs { o.storage with file := s.file } commit) :
    Sound codecs (s.runCommit codecs handle pos o commit) := by
  have hcur : s.current = some handle := by
    by_contra hne
    rw [(h.detached handle o ho hne).2] at hcom
    cases hcom
  obtain ⟨other, hoth, hloads⟩ := h.handle handle hcur
  obtain rfl := some.inj (ho.symm.trans hoth)
  obtain ⟨h', htkn, hrun⟩ := taken_runCommit s handle pos o commit .new
  rw [hrun]
  have hpre : Loads codecs s.file { o.storage with file := s.file } := hloads
  cases htkn with
  | refused =>
    exact h.advanced hcur ho (prefix_refl _) h.kept hpre fun opened hopn => ⟨opened, hopn⟩
  | empty =>
    exact h.advanced hcur ho (prefix_append _ _) h.kept.append_nil hpre
      fun opened hopn => ⟨opened, hopn⟩
  | @appended committed seqs hback hprep hne hdisk =>
    obtain ⟨base, first, rest, records, b, hopens, hstate, hdur, hack⟩ := h.kept.durable hpre hback
    have htorn := hclean.completes _ _ hback hprep hne hdisk
    rw [hdur.torn_eq, Bool.not_eq_false', List.isEmpty_iff] at htorn
    subst htorn
    obtain ⟨hadm, hasc, -⟩ := JsonlStorage.prepare_eq_ok hprep
    have hnext := hdur.append (hrecs.batch _ _ hprep hne) hadm hasc
    refine h.advanced hcur ho (prefix_append _ _) ?_
      ⟨fun _ => "", _, hnext.openSync _, rfl⟩ fun _ _ => ⟨_, hnext.current⟩
    refine FileKept.of_durable hopens hnext ?_ fun batch hbat hnonempty => ?_
    · rw [flatten_append, flatten_singleton, applyCommitted_append, ← hstate]
    · rcases mem_append.mp hbat with hbat | hbat
      · exact mem_append_left _ (hack batch hbat hnonempty)
      · rw [mem_singleton.mp hbat]
        exact mem_append_right _ (mem_singleton_self _)
  | @failed committed seqs count hback hprep hne hdisk =>
    obtain ⟨base, first, rest, records, b, hopens, hstate, hdur, hack⟩ := h.kept.durable hpre hback
    have hbdry := hclean.fails _ _ _ hback hprep hne hdisk
    have hrecd := hrecs.batch _ _ hprep hne
    obtain ⟨more, hnext⟩ := hdur.tear hrecd.text.line hbdry
    exact h.advanced hcur ho (prefix_refl _) (FileKept.of_durable hopens hnext hstate hack)
      ⟨fun _ => "", _, hnext.openSync _, rfl⟩ fun _ _ => ⟨_, hnext.current⟩
  | @upgraded importedUsage baseline committed seqs nextSeq hback hprep hnseq =>
    obtain ⟨hnone, hopens, stats, hrep⟩ := h.kept.legacy_loads hpre hback
    have hnext := durable_upgraded hrep hprep hback hnseq hrecs
    refine h.advanced hcur ho (prefix_append _ _) ?_
      ⟨fun _ => "", _, hnext.openSync _, rfl⟩ fun _ _ => ⟨_, hnext.current⟩
    refine FileKept.of_durable hopens hnext ?_ fun batch hbat hnonempty => ?_
    · rw [flatten_append, flatten_singleton, hnone, nil_append]
    · rcases mem_append.mp hbat with hbat | hbat
      · have hemp := flatten_eq_nil_iff.mp hnone batch hbat
        exact absurd hemp hnonempty
      · rw [mem_singleton.mp hbat]
        exact mem_append_right _ (mem_singleton_self _)

/-! ## Runs -/

/-- A closed handle that has nothing left to run leaves the map. -/
theorem Sound.detach (h : Sound codecs s) (ho : s.opened[handle]? = some o)
    (hshut : o.closed = true) (hnone : o.admitted = []) :
    Sound codecs { s with current := if s.current = some handle then none else s.current } := by
  by_cases hcur : s.current = some handle
  · rw [if_pos hcur]
    constructor
    case kept => exact h.kept
    case handle =>
      intro i hi
      cases hi
    case detached =>
      intro i other hoth _
      by_cases heq : i = handle
      · subst heq
        obtain rfl := some.inj (ho.symm.trans hoth)
        exact ⟨hshut, hnone⟩
      · apply h.detached i other hoth
        rw [hcur]
        intro hi
        exact heq (some.inj hi).symm
    case shown => exact h.shown
    case opens =>
      intro i call hcall
      have hfits := h.opens i call hcall
      rw [hcur] at hfits
      exact hfits.of_detached
    case forks => exact h.forks
  · rw [if_neg hcur]
    exact h

/-- Every step that meets the condition keeps the session sound. -/
theorem Sound.step (h : Sound codecs s) {event : Event} (hkps : Keeps codecs s event)
    (hnext : s.step codecs event = some s') : Sound codecs s' := by
  cases event with
  | callOpen =>
    cases hnext
    exact { h with opens := forall_concat h.opens trivial }
  | stepOpen i mint =>
    obtain ⟨call, hcall, hnext⟩ := bind_eq_some_iff.mp hnext
    exact h.stepOpen hcall hnext
  | callFork =>
    cases hnext
    exact { h with forks := forall_concat h.forks trivial }
  | stepFork i mint =>
    obtain ⟨call, hcall, hnext⟩ := bind_eq_some_iff.mp hnext
    apply h.stepFork hcall ?_ hnext
    intro loaded read hrepairing
    rw [hrepairing] at hcall
    exact hkps loaded read hcall
  | admitCommit handle commit =>
    obtain ⟨o, ho, hnext⟩ := bind_eq_some_iff.mp hnext
    split_ifs at hnext with hshut
    cases hnext
    refine h.setOpened ho rfl fun hdetached => ?_
    exact absurd (h.detached handle o ho hdetached).1 hshut
  | runCommit handle pos =>
    obtain ⟨o, ho, hnext⟩ := bind_eq_some_iff.mp hnext
    obtain ⟨commit, hcom, rfl⟩ := map_eq_some_iff.mp hnext
    obtain ⟨hrecs, hclean⟩ := hkps o commit ho hcom
    exact h.runCommit ho hcom hrecs hclean
  | close handle =>
    obtain ⟨o, ho, rfl⟩ := map_eq_some_iff.mp hnext
    exact h.setOpened ho rfl fun hdetached => ⟨rfl, (h.detached handle o ho hdetached).2⟩
  | detach handle =>
    obtain ⟨o, ho, hnext⟩ := bind_eq_some_iff.mp hnext
    rw [ite_none_right_eq_some] at hnext
    obtain ⟨hdone, hnext⟩ := hnext
    cases hnext
    simp only [Bool.and_eq_true, List.isEmpty_iff] at hdone
    exact h.detach ho hdone.1.1 hdone.1.2

theorem Sound.run (hrun : (SessionFile.machine codecs).Run (Keeps codecs) s) : Sound codecs s :=
  hrun.invariant (fun _ => Sound.start) fun _ _ _ hsnd hkps hnext => hsnd.step hkps hnext

/-- The records of the acknowledged batches are complete lines of the file. -/
theorem FileKept.records_mem (hkept : FileKept codecs initial acknowledged file)
    {batch : List (CommittedWrite Json)} (hbat : batch ∈ acknowledged) (hne : batch ≠ []) :
    serializeTransaction codecs batch ∈ completeLines file := by
  cases hkept with
  | current hopens hdur hrecs =>
    rw [hdur.completeLines_eq]
    exact mem_cons_of_mem _ (hrecs batch hbat hne)
  | legacy hfile hnone hback =>
    exact absurd (flatten_eq_nil_iff.mp hnone batch hbat) hne

/-- The file has the record of every acknowledged commit, and a fork captures what a first part of
the acknowledged commits made of the index the file opened to at the start. -/
def Preserved (codecs : Codecs) (s : SessionFile) : Prop := (∀ batch ∈ s.acknowledged, batch ≠ [] →
    serializeTransaction codecs batch ∈ completeLines s.file) ∧
  ∀ snapshot, ForkCall.captured snapshot ∈ s.forks →
    ∃ state, Shown codecs s.initial s.acknowledged state ∧ snapshot = state.snapshotForFork

/-- As long as no fork repairs a file that has gained a record since the fork read it, forking
loses none of the source's commits. -/
theorem Run.commits_kept (hrun : (SessionFile.machine codecs).Run (Keeps codecs) s) :
    Preserved codecs s := by
  have hsound := Sound.run hrun
  constructor
  · intro batch hbatch hne
    exact hsound.kept.records_mem hbatch hne
  · intro snapshot hsnapshot
    obtain ⟨i, hcall⟩ := mem_iff_getElem?.mp hsnapshot
    exact hsound.forks i _ hcall

/-! ## A fork and a commit -/

/-- The torn sample file opens to the sample handle. -/
theorem openSync_torn (mint : Nat → String) :
    openSync sampleCodecs mint tornHandle.storage.file = .ok sampleHandle.storage := by
  obtain ⟨first, records, base, hdur⟩ := (Handle.Starts.kept sampleHandle_starts).durable rfl
  obtain ⟨more, htorn⟩ := hdur.tear noted_none_recorded.text.line boundary_note_one
  have hopen := htorn.openSync mint
  rw [← hdur.file_eq] at hopen
  exact hopen

theorem completeLines_torn :
    completeLines tornHandle.storage.file = completeLines sampleHandle.storage.file := by
  obtain ⟨first, records, base, hdur⟩ := (Handle.Starts.kept sampleHandle_starts).durable rfl
  obtain ⟨more, htorn⟩ := hdur.tear noted_none_recorded.text.line boundary_note_one
  exact htorn.completeLines_eq.trans hdur.completeLines_eq.symm

theorem completeLines_sample : completeLines sampleHandle.storage.file =
      [sampleCodecs.text.write (headerJson sampleHeader)] := by
  rw [completeLines, show sampleHandle.storage.file = Utf8.encode (terminated '\n'
    [sampleCodecs.text.write (headerJson sampleHeader)]) by decide +kernel, Utf8.decode_encode]
  decide +kernel

/-- Nothing is torn in the sample file, to which the note is appended. -/
theorem sampleHandle_clean :
    Clean sampleCodecs sampleHandle.storage (noteCommit none .completes) where
  completes := by
    intro _ _ _ _ _ _
    obtain ⟨first, records, base, hdur⟩ := (Handle.Starts.kept sampleHandle_starts).durable rfl
    exact hdur.torn_eq
  fails := by
    rintro _ _ _ _ _ _ ⟨⟩

theorem torn_ne : sampleHandle.storage.file ≠ tornHandle.storage.file := by
  decide +kernel

/-- A fork has read the torn file, and the session was opened since; the file is `file`, and the
commits `admitted` of the handle at `storage` have not run. -/
def racing (file : List UInt8) (storage : JsonlStorage) (admitted : List Commit) (fork : ForkCall)
    (acknowledged : List (List (CommittedWrite Json))) : SessionFile where
  file := file
  opened := [⟨storage, false, admitted, 0⟩]
  current := some 0
  pending := none
  opens := [.returned]
  forks := [fork]
  initial := tornHandle.storage.file
  acknowledged := acknowledged

theorem fork_reads_torn (hfile : s.file = tornHandle.storage.file)
    (hcall : s.forks[i]? = some .reading) :
    (SessionFile.machine sampleCodecs).step s (.stepFork i mint) =
      some (s.setFork i (.repairing sampleHandle.storage tornHandle.storage.file)) := by
  simp only [SessionFile.machine, SessionFile.step, hcall, bind_some,
    SessionFile.stepFork, hfile, openSync_torn]
  rw [if_neg torn_ne]

theorem open_reads_torn (hfile : s.file = tornHandle.storage.file)
    (hcall : s.opens[i]? = some .reading) :
    (SessionFile.machine sampleCodecs).step s (.stepOpen i mint) =
      some (s.setOpen i (.repairing sampleHandle.storage)) := by
  simp only [SessionFile.machine, SessionFile.step, hcall, bind_some,
    SessionFile.stepOpen, hfile, openSync_torn]
  rw [if_neg torn_ne]

/-- A fork reads the torn file; then the session is opened and a note admitted. -/
theorem racing_run : (SessionFile.machine sampleCodecs).Run (Keeps sampleCodecs)
      (racing sampleHandle.storage.file sampleHandle.storage [noteCommit none .completes]
        (.repairing sampleHandle.storage tornHandle.storage.file) []) := by
  let mint : Nat → String := fun _ => ""
  have hsta : (SessionFile.machine sampleCodecs).Run (Keeps sampleCodecs)
      ⟨tornHandle.storage.file, [], none, none, [], [], tornHandle.storage.file, []⟩ :=
    .start ⟨_, rfl⟩
  have hfork := hsta.step Event.callFork trivial rfl
  have hchecked := hfork.step (Event.stepFork 0 mint) (by rintro _ _ ⟨⟩) rfl
  have hstale := hchecked.step (Event.stepFork 0 mint) (by rintro _ _ ⟨⟩) (fork_reads_torn rfl rfl)
  have hopen := hstale.step Event.callOpen trivial rfl
  have hreserving := hopen.step (Event.stepOpen 0 mint) trivial rfl
  have hreading := hreserving.step (Event.stepOpen 0 mint) trivial rfl
  have hrepairing := hreading.step (Event.stepOpen 0 mint) trivial (open_reads_torn rfl rfl)
  have hpublishing := hrepairing.step (Event.stepOpen 0 mint) trivial rfl
  have hreleasing := hpublishing.step (Event.stepOpen 0 mint) trivial rfl
  have hretd := hreleasing.step (Event.stepOpen 0 mint) trivial rfl
  exact hretd.step (Event.admitCommit 0 (noteCommit none .completes)) trivial rfl

/-- The fork replaces the torn file before the note is appended, and nothing is lost. -/
theorem commits_kept_note : Preserved sampleCodecs
      (racing (sampleAfter none).storage.file (sampleAfter none).storage []
        (.captured sampleHandle.storage.state.snapshotForFork) [[noted none]]) := by
  have hrepaired := racing_run.step (Event.stepFork 0 fun _ => "")
    (by rintro _ _ ⟨⟩; exact completeLines_torn.symm) rfl
  exact Run.commits_kept (hrepaired.step (Event.runCommit 0 0)
    (by rintro _ _ ⟨⟩ ⟨⟩; exact ⟨sampleHandle_records .completes noted_none_recorded, sampleHandle_clean⟩)
    rfl)

/-- The note is appended and acknowledged before the fork replaces the file by what it read, and its
record is gone when all calls have returned. -/
theorem fork_drops_commit : ∃ s, (SessionFile.machine sampleCodecs).Run (fun _ _ => True) s ∧
      s.opens = [.returned] ∧ s.forks = [.captured sampleHandle.storage.state.snapshotForFork] ∧
      (∀ o ∈ s.opened, o.admitted = []) ∧ ¬Preserved sampleCodecs s := by
  have hcommitted := (racing_run.mono fun _ _ _ => trivial).step (Event.runCommit 0 0) trivial rfl
  refine ⟨_, hcommitted.step (Event.stepFork 0 fun _ => "") trivial rfl, rfl, rfl, ?_, ?_⟩
  · rintro o ho
    rw [mem_singleton.mp ho]
    rfl
  · rintro ⟨hrecs, -⟩
    have hmem := hrecs [noted none] (mem_singleton_self _) (cons_ne_nil _ _)
    change serializeTransaction sampleCodecs [noted none] ∈
      completeLines sampleHandle.storage.file at hmem
    rw [completeLines_sample] at hmem
    revert hmem
    decide +kernel

end Source

end PiOxidized.Session.Jsonl
