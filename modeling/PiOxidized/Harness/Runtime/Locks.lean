/-
# What the locks promise

A party that holds a lock relies on what the lock guards.  The stored values stay as they are
from the moment a batch is built to its commit, because only the holder of the guard commits;
lane data stays as it is from the moment the driver or an append takes it, because everybody
else waits for the data lock before writing to it.

What a party relies on is stated for its own phase; a step of another party keeps it, since it
keeps what is behind the locks the party holds.
-/

import PiOxidized.Harness.Runtime.Moves
import PiOxidized.Math.Slots

namespace PiOxidized.Harness.Runtime

open Math
open Session (EntryId SessionError)

variable {M : Type} {name : LaneName} {shared shared' : Shared M} {lane lane' : Lane M}

/-! ## What a phase says about its request -/

/-- The phases in which a call can stand before it has a batch. -/
inductive CallPhase.Early (name : LaneName) : CallRequest M → CallPhase M → Prop
  | waiting (request : CallRequest M) : Early name request (.waiting request)
  | holding (id : EntryId) (entry : PendingEntry M) (data : LaneData) :
      Early name (.append id entry) (.holding (appendUpdate name data id entry))
  | reserved {request : CallRequest M} {data data' : LaneData} {admission : Admission M}
      (hdata : data.operation = none)
      (h : beginAdmission name data request = (data', .reserved admission)) :
      Early name request (.reserved admission)
  | snapshot {operation : Operation} (requestedAt : Int)
      (h : operation.state.control.isCancelRequested = false) :
      Early name (.requestAbort operation.info.operationId requestedAt)
        (.snapshot operation requestedAt)

/-- A batch that a request can have built. -/
def Update.Serves (name : LaneName) (request : CallRequest M) (update : Update M) : Prop :=
  ∃ phase stored, CallPhase.Early name request phase ∧ Built name stored phase update

/-- The answers a request can get. -/
def CallAnswer.Serves (name : LaneName) (request : CallRequest M) (answer : CallAnswer M) : Prop :=
  answer.Idle ∨ ∃ update, Update.Serves name request update ∧ answer = update.answer

/-- A phase its request can have led to. -/
inductive Call.Sound (name : LaneName) : Call M → Prop
  | early {request : CallRequest M} {phase : CallPhase M} (h : phase.Early name request) :
      Sound name ⟨request, phase⟩
  | guarded {request : CallRequest M} {update : Update M} (h : update.Serves name request) :
      Sound name ⟨request, .guarded update⟩
  | committed {request : CallRequest M} {update : Update M} (h : update.Serves name request) :
      Sound name ⟨request, .committed update⟩
  | missing (id : EntryId) : Sound name ⟨.cancelQueued id, .missing id⟩
  | listing {request : CallRequest M} {queue : List InboxItem} {answer : CallAnswer M}
      (h : answer.Serves name request) : Sound name ⟨request, .listing queue answer⟩
  | undoing {request : CallRequest M} {admission : Admission M} {error : HarnessError}
      (h : (CallPhase.reserved admission).Early name request) :
      Sound name ⟨request, .undoing admission.operationId error⟩
  | returned {request : CallRequest M} {answer : CallAnswer M} (h : answer.Serves name request) :
      Sound name ⟨request, .returned answer⟩

/-! ## What a party relies on -/

/-- What the locks a party holds keep through a step of somebody else. -/
structure Keeps (name : LaneName) (party : Party) (shared : Shared M) (lane : Lane M)
    (shared' : Shared M) (lane' : Lane M) : Prop where
  guard : shared.guard = some (name, party) →
    shared'.guard = some (name, party) ∧ shared'.stored = shared.stored
  data : lane.dataLock = some party → lane'.dataLock = some party ∧ lane'.data = lane.data

/-- A batch built under the data lock, on lane data that has not changed since. -/
def Held (name : LaneName) (lane : Lane M) (party : Party) (request : CallRequest M)
    (update : Update M) : Prop :=
  lane.dataLock = some party ∧
    ∃ id entry, request = .append id entry ∧ update = appendUpdate name lane.data id entry

/-- What a call relies on. -/
def Call.Ordered (name : LaneName) (shared : Shared M) (lane : Lane M) (index : Nat)
    (call : Call M) : Prop :=
  match call.phase with
  | .holding update => Held name lane (.call index) call.request update
  | .guarded update =>
    shared.guard = some (name, .call index) ∧
      (∃ phase, phase.Early name call.request ∧ Built name shared.stored phase update) ∧
      (update.publication.holdsData = true → Held name lane (.call index) call.request update)
  | .committed update =>
    update.publication.holdsData = true → Held name lane (.call index) call.request update
  | _ => True

/-- What the drive relies on. -/
def DrivePhase.Ordered (name : LaneName) (shared : Shared M) (lane : Lane M) : DrivePhase M → Prop
  | .running _ => True
  | .publishing publication _ => publication.holdsData = true → lane.dataLock = some .drive
  | .guarded publication performed writes _ =>
    shared.guard = some (name, .drive) ∧ performed.writes = some writes ∧
      ∃ data, publication.perform name data shared.stored = .ok performed ∧
        (publication.holdsData = true → lane.dataLock = some .drive ∧ lane.data = data)
  | .committed publication performed _ =>
    ∃ data stored, publication.perform name data stored = .ok performed ∧
      (publication.holdsData = true → lane.dataLock = some .drive ∧ lane.data = data)

/-- What everybody on a lane relies on. -/
structure Ordered (name : LaneName) (shared : Shared M) (lane : Lane M) : Prop where
  calls : ∀ (index : Nat) call, lane.calls[index]? = some call →
    call.Sound name ∧ call.Ordered name shared lane index
  drive : ∀ drive : Drive M, lane.drive = some drive → drive.phase.Ordered name shared lane

/-! ## Steps of others -/

variable {req : CallRequest M} {lock : Option Party} {data : LaneData} {party : Party}
  {upd : Update M} {next : CallPhase M} {i : Nat} {stored : Stored M} {call : Call M}

variable {p : Publish M} {options : DriveOptions}

theorem Held.kept (h : Held name lane party req upd)
    (hkps : Keeps name party shared lane shared' lane') :
    Held name lane' party req upd := by
  obtain ⟨hlock, hupd⟩ := h
  obtain ⟨hlock', hdata⟩ := hkps.data hlock
  exact ⟨hlock', by rw [hdata]; exact hupd⟩

theorem Call.Ordered.kept (h : call.Ordered name shared lane i)
    (hkps : Keeps name (.call i) shared lane shared' lane') :
    call.Ordered name shared' lane' i := by
  cases hph : call.phase with
  | holding upd =>
    simp only [Call.Ordered, hph] at h ⊢
    exact h.kept hkps
  | guarded upd =>
    simp only [Call.Ordered, hph] at h ⊢
    obtain ⟨hguard, hbuilt, hheld⟩ := h
    obtain ⟨hguard', hstored⟩ := hkps.guard hguard
    rw [hstored]
    exact ⟨hguard', hbuilt, fun hholds => (hheld hholds).kept hkps⟩
  | committed upd =>
    simp only [Call.Ordered, hph] at h ⊢
    exact fun hholds => (h hholds).kept hkps
  | _ => simp only [Call.Ordered, hph]

theorem DrivePhase.Ordered.kept {phase : DrivePhase M} (h : phase.Ordered name shared lane)
    (hkps : Keeps name .drive shared lane shared' lane') :
    phase.Ordered name shared' lane' := by
  cases phase with
  | running program => trivial
  | publishing p next => exact fun hholds => (hkps.data (h hholds)).1
  | guarded p perf writes next =>
    obtain ⟨hguard, hwr, data, hperf, hdata⟩ := h
    obtain ⟨hguard', hstored⟩ := hkps.guard hguard
    refine ⟨hguard', hwr, data, by rw [hstored]; exact hperf, fun hholds => ?_⟩
    obtain ⟨hlock, hsame⟩ := hdata hholds
    obtain ⟨hlock', hsame'⟩ := hkps.data hlock
    exact ⟨hlock', hsame'.trans hsame⟩
  | committed p perf next =>
    obtain ⟨data, stored, hperf, hdata⟩ := h
    refine ⟨data, stored, hperf, fun hholds => ?_⟩
    obtain ⟨hlock, hsame⟩ := hdata hholds
    obtain ⟨hlock', hsame'⟩ := hkps.data hlock
    exact ⟨hlock', hsame'.trans hsame⟩

/-- A step that leaves the locks and what they guard alone keeps everything. -/
theorem Keeps.same (hguard : shared'.guard = shared.guard)
    (hstored : shared'.stored = shared.stored) (hlock : lane'.dataLock = lane.dataLock)
    (hdata : lane'.data = lane.data) : Keeps name party shared lane shared' lane' where
  guard h := ⟨hguard.trans h, hstored⟩
  data h := ⟨hlock.trans h, hdata⟩

/-- A step that takes the guard finds it free, so nobody relied on it. -/
theorem Keeps.takeGuard (hfree : shared.guard = none) (hlock : lane'.dataLock = lane.dataLock)
    (hdata : lane'.data = lane.data) :
    Keeps name party shared lane shared' lane' where
  guard h := by
    rw [hfree] at h
    cases h
  data h := ⟨hlock.trans h, hdata⟩

/-- A step that writes lane data while nobody holds it. -/
theorem Keeps.free (hguard : shared'.guard = shared.guard)
    (hstored : shared'.stored = shared.stored) (hfree : lane.dataLock = none) :
    Keeps name party shared lane shared' lane' where
  guard h := ⟨hguard.trans h, hstored⟩
  data h := by
    rw [hfree] at h
    cases h

/-- A step of the holder of the data lock. -/
theorem Keeps.holder {holder : Party} (hguard : shared'.guard = shared.guard)
    (hstored : shared'.stored = shared.stored) (hlock : lane.dataLock = some holder)
    (hparty : party ≠ holder) : Keeps name party shared lane shared' lane' where
  guard h := ⟨hguard.trans h, hstored⟩
  data h := by
    rw [hlock] at h
    exact absurd (Option.some.inj h).symm hparty

/-- A step of the holder of the guard that gives the guard back, and the data lock if it
holds that too. -/
theorem Keeps.giveBack {holder : Party} (hguard : shared.guard = some (name, holder))
    (hparty : party ≠ holder) (hdata : lane'.data = lane.data)
    (hlock : lane'.dataLock = lane.dataLock ∨ lane.dataLock = some holder) :
    Keeps name party shared lane shared' lane' where
  guard h := by
    rw [hguard] at h
    cases h
    exact absurd rfl hparty
  data h := by
    obtain hlock | hlock := hlock
    · exact ⟨hlock.trans h, hdata⟩
    · rw [hlock] at h
      exact absurd (Option.some.inj h).symm hparty

/-- A step of a call keeps what the locks of the others guard. -/
theorem CallMove.keeps (hmove : CallMove name shared lane i call.phase next shared' data lock)
    (hord : call.Ordered name shared lane i) (hparty : party ≠ .call i)
    (hdata : lane'.data = data) (hlock : lane'.dataLock = lock) :
    Keeps name party shared lane shared' lane' := by
  generalize hph : call.phase = phase at hmove
  cases hmove with
  | build hguard h => exact .takeGuard hguard hlock hdata
  | answer | snapshot | refuse | drop | list | listFails => exact .same rfl rfl hlock hdata
  | hold hfree | reserve hfree | undo hfree => exact .free rfl rfl hfree
  | commit h =>
    simp only [Call.Ordered, hph] at hord
    exact .giveBack hord.1 hparty hdata (.inl hlock)
  | @fault upd error reason h =>
    simp only [Call.Ordered, hph] at hord
    refine .giveBack hord.1 hparty hdata ?_
    by_cases hholds : upd.publication.holdsData = true
    · exact .inr (hord.2.2 hholds).1
    · rw [if_neg hholds] at hlock
      exact .inl hlock
  | @publish upd data hfree h =>
    simp only [Call.Ordered, hph] at hord
    obtain hholds | hfree := hfree
    · exact .holder rfl rfl (hord hholds).1 hparty
    · exact .free rfl rfl hfree

/-- A publication that does not write to lane data publishes nothing. -/
theorem Publish.publish_eq_of_not_updatesData {perf : Performed M p.Answer}
    (h : p.perform name data stored = .ok perf)
    (hupds : p.updatesData = false) (current : LaneData) :
    perf.publish current = current := by
  cases p with
  | stageToolOutput operationId entryId value =>
    cases h
    rfl
  | _ => cases hupds

theorem releaseData_of_not_holdsData (h : p.holdsData = false) (lock : Option Party) :
    releaseData p lock = lock := by
  rw [releaseData, h, if_neg Bool.false_ne_true]

/-- A step of the drive keeps what the locks of the calls guard. -/
theorem DriveMove.keeps [Inhabited M] {phase : DrivePhase M} {next : Option (DrivePhase M)}
    (hmove : DriveMove name options shared lane phase next shared' data lock)
    (hord : phase.Ordered name shared lane) (hparty : party ≠ .drive)
    (hdata : lane'.data = data) (hlock : lane'.dataLock = lock) :
    Keeps name party shared lane shared' lane' := by
  cases hmove with
  | answer h =>
    obtain ⟨hguard, hstored⟩ := h.kept
    exact .same hguard hstored hlock hdata
  | again | finish | approach => exact .same rfl rfl hlock hdata
  | lock hfree h => exact .free rfl rfl hfree
  | build hguard h hwr => exact .takeGuard hguard hlock hdata
  | @skip p next perf h hwr | @refuse p next error h =>
    cases hholds : p.holdsData with
    | true => exact .holder rfl rfl (hord hholds) hparty
    | false => exact .same rfl rfl (hlock.trans (releaseData_of_not_holdsData hholds _)) hdata
  | commit h => exact .giveBack hord.1 hparty hdata (.inl hlock)
  | @fault p next perf writes error h =>
    obtain ⟨hguard, _, _, _, hheld⟩ := hord
    refine .giveBack hguard hparty hdata ?_
    cases hholds : p.holdsData with
    | true => exact .inr (hheld hholds).1
    | false => exact .inl (hlock.trans (releaseData_of_not_holdsData hholds _))
  | @publish p next perf after hfree haft =>
    obtain ⟨_, _, hperf, hheld⟩ := hord
    cases hholds : p.holdsData with
    | true => exact .holder rfl rfl (hheld hholds).1 hparty
    | false =>
      rw [hholds] at hfree
      obtain hupds | hfree := hfree.resolve_left Bool.false_ne_true
      · have hsame := Publish.publish_eq_of_not_updatesData hperf hupds lane.data
        exact .same rfl rfl (hlock.trans (releaseData_of_not_holdsData hholds _))
          (hdata.trans hsame)
      · exact .free rfl rfl hfree

/-! ## Every step keeps the order -/

variable {phase : CallPhase M}

variable {stepped : Call M}

/-- Only an append holds the data lock across its commit. -/
theorem Built.eq_holding (h : Built name stored phase upd)
    (hholds : upd.publication.holdsData = true) :
    phase = .holding upd := by
  cases h with
  | enqueue id kind message => cases hholds
  | cancel h =>
    rw [(cancelUpdate_eq_some h).1] at hholds
    cases hholds
  | hold => rfl
  | @admission admission _ h =>
    cases admission with
    | run id messages selected sourceTip settings startedAt =>
      obtain ⟨_, pending, _, rfl⟩ := runUpdate_eq_ok h
      cases hholds
    | prepared operation task preparation =>
      rw [(preparedUpdate_eq_ok h).2] at hholds
      cases hholds
  | abort h =>
    obtain ⟨_, pending, _, _, _, rfl⟩ := abortUpdate_eq_ok h
    cases hholds

theorem Call.Sound.early_of_built (h : Call.Sound name ⟨req, phase⟩)
    (hbuilt : Built name stored phase upd) : phase.Early name req := by
  cases h with
  | early h => exact h
  | _ => cases hbuilt

theorem Call.Sound.eq_of_waiting {req' : CallRequest M}
    (h : Call.Sound name ⟨req, .waiting req'⟩) : req' = req := by
  cases h with
  | early h =>
    cases h
    rfl

theorem Call.Sound.serves_of_committed (h : call.Sound name) (hph : call.phase = .committed upd) :
    upd.Serves name call.request := by
  obtain ⟨req, phase⟩ := call
  dsimp only at hph
  subst hph
  cases h with
  | committed h => exact h
  | early h => cases h

/-- The phases after a publication answer for the batch that was committed. -/
theorem afterPublication_sound (data : LaneData) (h : upd.Serves name req) :
    Call.Sound name ⟨req, afterPublication data upd.answer⟩ := by
  have hsrv : upd.answer.Serves name req := .inr ⟨upd, h, rfl⟩
  rw [afterPublication.eq_def]
  split
  · exact .listing hsrv
  · exact .listing hsrv
  · split_ifs
    · exact .listing hsrv
    · exact .returned hsrv
  · exact .returned hsrv

theorem afterPublication_ordered (data : LaneData) (answer : CallAnswer M) :
    Call.Ordered name shared lane i ⟨req, afterPublication data answer⟩ := by
  rw [afterPublication.eq_def]
  split
  · trivial
  · trivial
  · split_ifs
    · trivial
    · trivial
  · trivial

/-- The phase a step of a call ends in, with what it relies on. -/
theorem CallMove.ordered (hmove : CallMove name shared lane i phase next shared' data lock)
    (hsnd : Call.Sound name ⟨req, phase⟩)
    (hord : Call.Ordered name shared lane i ⟨req, phase⟩) :
    Call.Sound name ⟨req, next⟩ ∧
      Call.Ordered name shared' (lane.withCall i next data lock) i ⟨req, next⟩ := by
  cases hmove with
  | @build _ upd hguard h =>
    have hearly := hsnd.early_of_built h
    refine ⟨.guarded ⟨phase, shared.stored, hearly, h⟩, rfl, ⟨phase, hearly, h⟩, ?_⟩
    intro hholds
    rw [h.eq_holding hholds] at hord
    exact hord
  | answer h =>
    cases h with
    | missing id =>
      obtain rfl := hsnd.eq_of_waiting
      exact ⟨.missing id, trivial⟩
    | waiting h | snapshot h | found h => exact ⟨.returned (.inl h), trivial⟩
  | @hold id entry hfree =>
    obtain rfl := hsnd.eq_of_waiting
    exact ⟨.early (.holding id entry lane.data), rfl, id, entry, rfl, rfl⟩
  | @snapshot id operation reqAt hfree hcur hid hctrl =>
    obtain rfl := hsnd.eq_of_waiting
    subst hid
    exact ⟨.early (.snapshot reqAt hctrl), trivial⟩
  | reserve hfree hcur h =>
    obtain rfl := hsnd.eq_of_waiting
    exact ⟨.early (.reserved hcur h), trivial⟩
  | refuse h =>
    cases hsnd with
    | early hearly => exact ⟨.undoing hearly, trivial⟩
  | @commit upd stored h =>
    cases hsnd with
    | guarded hserve => exact ⟨.committed hserve, hord.2.2⟩
    | early hearly => cases hearly
  | fault | drop | listFails | undo => exact ⟨.returned (.inl (.failed _)), trivial⟩
  | @publish upd data hfree h =>
    cases hsnd with
    | committed hserve =>
      exact ⟨afterPublication_sound data hserve, afterPublication_ordered data _⟩
    | early hearly => cases hearly
  | list h =>
    cases hsnd with
    | listing hserve => exact ⟨.returned hserve, trivial⟩
    | early hearly => cases hearly

/-- The phase a step of the drive ends in, with what it relies on. -/
theorem DriveMove.ordered [Inhabited M] {phase : DrivePhase M} {next : Option (DrivePhase M)}
    (hmove : DriveMove name options shared lane phase next shared' data lock)
    (hord : phase.Ordered name shared lane) (hdata : lane'.data = data)
    (hlock : lane'.dataLock = lock) {after : DrivePhase M} (hnext : next = some after) :
    after.Ordered name shared' lane' := by
  cases hmove with
  | answer | again | skip =>
    cases hnext
    trivial
  | finish | refuse | fault => cases hnext
  | lock hfree h =>
    cases hnext
    exact fun _ => hlock
  | approach h =>
    cases hnext
    intro hholds
    rw [h] at hholds
    cases hholds
  | build hguard h hwr =>
    cases hnext
    exact ⟨rfl, hwr, lane.data, h, fun hholds => ⟨hlock.trans (hord hholds), hdata⟩⟩
  | commit h =>
    cases hnext
    obtain ⟨_, _, held, hperf, hheld⟩ := hord
    exact ⟨held, shared.stored, hperf, fun hholds =>
      ⟨hlock.trans (hheld hholds).1, hdata.trans (hheld hholds).2⟩⟩
  | publish hfree haft =>
    obtain ⟨rfl, _⟩ | ⟨rfl, _⟩ := haft
    · cases hnext
    · cases hnext
      trivial

/-- The calls of a lane after a step of one of them. -/
theorem Lane.getElem?_withCall {pos : Nat} (hstepped : lane.calls[i]? = some stepped)
    (h : (lane.withCall i next data lock).calls[pos]? = some call) :
    (pos = i ∧ call = ⟨stepped.request, next⟩) ∨ (pos ≠ i ∧ lane.calls[pos]? = some call) := by
  simp only [Lane.withCall, Lane.setCall, List.getElem?_modify] at h
  by_cases hplc : pos = i
  · subst hplc
    rw [hstepped] at h
    simp only [if_true, Option.map_eq_map, Option.map_some, Option.some.injEq] at h
    exact .inl ⟨rfl, h.symm⟩
  · simp only [if_neg (Ne.symm hplc), Option.map_eq_map, Option.map_id'] at h
    exact .inr ⟨hplc, h⟩

theorem Call.sound_of_begin
    (h : phase = .waiting req ∨ ∃ reason, phase = .returned (.failed reason)) :
    Call.Sound name ⟨req, phase⟩ := by
  obtain rfl | ⟨reason, rfl⟩ := h
  · exact .early (.waiting req)
  · exact .returned (.inl (.failed reason))

theorem Call.ordered_of_begin
    (h : phase = .waiting req ∨ ∃ reason, phase = .returned (.failed reason)) :
    Call.Ordered name shared lane i ⟨req, phase⟩ := by
  obtain rfl | ⟨reason, rfl⟩ := h
  · trivial
  · trivial

/-- A call that goes on leaves the others what they rely on. -/
theorem Ordered.withCall (h : Ordered name shared lane) (hstepped : lane.calls[i]? = some stepped)
    (hself : Call.Sound name ⟨stepped.request, next⟩ ∧
      Call.Ordered name shared' (lane.withCall i next data lock) i ⟨stepped.request, next⟩)
    (hkps : ∀ party, party ≠ .call i →
      Keeps name party shared lane shared' (lane.withCall i next data lock)) :
    Ordered name shared' (lane.withCall i next data lock) := by
  constructor
  · intro pos call hcall
    obtain ⟨rfl, rfl⟩ | ⟨hplc, hcall⟩ := Lane.getElem?_withCall hstepped hcall
    · exact hself
    · obtain ⟨hsnd, hord⟩ := h.calls pos call hcall
      have hparty : Party.call pos ≠ .call i := by simpa using hplc
      exact ⟨hsnd, hord.kept (hkps _ hparty)⟩
  · intro drive hdrv
    have hparty : Party.drive ≠ .call i := by simp
    exact (h.drive drive hdrv).kept (hkps _ hparty)

/-- Every step of a lane keeps what everybody relies on. -/
theorem Ordered.step [Inhabited M] {event : LaneEvent M} (h : Ordered name shared lane)
    (hmove : LaneMove name shared lane event shared' lane') : Ordered name shared' lane' := by
  cases hmove with
  | @begin req phase issued hfrs hnodup hissued hph =>
    have hkps (party : Party) : Keeps name party shared lane { shared with issued := issued }
        { lane with calls := lane.calls ++ [⟨req, phase⟩] } := .same rfl rfl rfl rfl
    constructor
    · intro pos call hcall
      obtain hcall | ⟨_, rfl⟩ := getElem?_append_cases hcall
      · obtain ⟨hsnd, hord⟩ := h.calls pos call hcall
        exact ⟨hsnd, hord.kept (hkps _)⟩
      · exact ⟨Call.sound_of_begin hph, Call.ordered_of_begin hph⟩
    · exact fun drive hdrv => (h.drive drive hdrv).kept (hkps .drive)
  | @call i stepped next shared' data lock hstepped hmove =>
    obtain ⟨hsnd, hord⟩ := h.calls i stepped hstepped
    exact h.withCall hstepped (hmove.ordered hsnd hord) fun party hparty =>
      hmove.keeps hord hparty rfl rfl
  | startDrive hdrv =>
    constructor
    · intro pos call hcall
      obtain ⟨hsnd, hord⟩ := h.calls pos call hcall
      exact ⟨hsnd, hord.kept (.same rfl rfl rfl rfl)⟩
    · intro drive hnext
      cases hnext
      trivial
  | @drive surroundings options phase next shared' data lock hph hmove =>
    have hord := h.drive _ hph
    constructor
    · intro pos call hcall
      obtain ⟨hsnd, hord'⟩ := h.calls pos call hcall
      exact ⟨hsnd, hord'.kept (hmove.keeps hord (by simp) rfl rfl)⟩
    · intro drive hnext
      obtain ⟨after, haft, rfl⟩ := Option.map_eq_some_iff.mp hnext
      exact hmove.ordered hord rfl rfl haft

/-- Along every run everybody can rely on their locks. -/
theorem ordered_of_run [Inhabited M] {condition : LaneSystem M → LaneEvent M → Prop}
    {s : LaneSystem M} (h : (laneMachine name).Run condition s) : Ordered name s.1 s.2 := by
  refine h.invariant (P := fun s => Ordered name s.1 s.2) ?_ ?_
  · rintro _ ⟨config, rfl⟩
    constructor
    · intro i call hcall
      cases hcall
    · intro drive hdrv
      cases hdrv
  · intro s s' event hord _ hstep
    exact hord.step (stepLane_moves hstep)

end PiOxidized.Harness.Runtime
