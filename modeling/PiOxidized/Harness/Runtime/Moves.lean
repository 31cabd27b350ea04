/-
# What a step of a lane can do

Every step of a lane is one of a few moves: a call or the drive takes a lock, reads, commits a
batch, or brings the lane data up to date.  What the other modules prove about runs is proved
move by move.
-/

import PiOxidized.Harness.Runtime.Lane

namespace PiOxidized.Harness.Runtime

open Math
open Option hiding or_assoc
open Session (EntryId SessionError)

variable {M : Type} {name : LaneName} {shared shared' : Shared M} {lane lane' : Lane M}

/-! ## Batches under the guard -/

variable {stored : Stored M} {upd : Update M} {op : Operation}

variable {requestedAt : Int}

theorem cancelUpdate_eq_some {id : EntryId} (h : cancelUpdate name stored id = some upd) :
    upd = cancelBatch name stored id ∧
      (stored.laneState name).inbox.any (fun item => item.entryId == id) = true := by
  rw [cancelUpdate] at h
  split_ifs at h with hq
  exact ⟨(some.inj h).symm, hq⟩

theorem runUpdate_eq_ok {id : OperationId} {messages : List (EntryId × AgentMessage M)}
    {selected : List InboxItem} {sourceTip : Option EntryId} {settings : RunSettings}
    {startedAt : Int}
    (h : runUpdate name stored id messages selected sourceTip settings startedAt = .ok upd) :
    stored.operationIdIsUsed id = false ∧ ∃ pend,
        readPending stored (stillQueued (stored.laneState name).inbox selected) = .ok pend ∧
        upd = runBatch name stored id messages
          (stillQueued (stored.laneState name).inbox selected) pend sourceTip settings
          startedAt := by
  rw [runUpdate] at h
  split_ifs at h with hused
  dsimp only at h
  cases hpend : readPending stored (stillQueued (stored.laneState name).inbox selected) with
  | error error =>
    rw [hpend] at h
    cases h
  | ok pend =>
    rw [hpend] at h
    cases h
    exact ⟨Bool.eq_false_iff.mpr hused, pend, rfl, rfl⟩

theorem preparedUpdate_eq_ok {task : String} {preparation : Option (DurableStructuralPreparation M)}
    (h : preparedUpdate name stored op task preparation = .ok upd) :
    stored.operationIdIsUsed op.info.operationId = false ∧
      upd = preparedBatch name stored op task preparation := by
  rw [preparedUpdate] at h
  split_ifs at h with hused
  cases h
  exact ⟨Bool.eq_false_iff.mpr hused, rfl⟩

/-- A cancellation that commits found the operation stored and not yet cancelled. -/
theorem abortUpdate_eq_ok (h : abortUpdate name stored op requestedAt = .ok upd) :
    ∃ leaf pend, stored.operationStates.get? op.info.operationId = some leaf ∧
      leaf.control.isCancelRequested = false ∧
      readPending stored (drainedByAbort (stored.laneState name).inbox) = .ok pend ∧
      upd = abortBatch name stored op requestedAt pend := by
  rw [abortUpdate] at h
  split_ifs at h with hcan
  cases hleaf : stored.operationStates.get? op.info.operationId with
  | none =>
    rw [hleaf] at hcan
    exact absurd rfl hcan
  | some leaf =>
    rw [hleaf] at hcan
    cases hpend : readPending stored (drainedByAbort (stored.laneState name).inbox) with
    | error error =>
      rw [hpend] at h
      cases h
    | ok pend =>
      rw [hpend] at h
      cases h
      exact ⟨leaf, pend, rfl, Bool.eq_false_iff.mpr hcan, rfl, rfl⟩

theorem abortUpdate_eq_error {ans : CallAnswer M}
    (h : abortUpdate name stored op requestedAt = .error ans) :
    ans = .abortRequested false [] [] ∨ ∃ error, ans = .failed error := by
  rw [abortUpdate] at h
  split_ifs at h with hcan
  · cases h
    exact .inl rfl
  · cases hpend : readPending stored (drainedByAbort (stored.laneState name).inbox) with
    | error error =>
      rw [hpend] at h
      cases h
      exact .inr ⟨_, rfl⟩
    | ok pend =>
      rw [hpend] at h
      cases h

/-! ## Moves of a call -/

/-- The batches a call can have built from the stored values. -/
inductive Built (name : LaneName) (stored : Stored M) : CallPhase M → Update M → Prop
  | enqueue (id : EntryId) (kind : InboxItemKind) (message : AgentMessage M) :
      Built name stored (.waiting (.enqueue id kind message))
        (enqueueUpdate name stored id kind message)
  | cancel {id : EntryId} {update : Update M} (h : cancelUpdate name stored id = some update) :
      Built name stored (.waiting (.cancelQueued id)) update
  | hold (update : Update M) : Built name stored (.holding update) update
  | admission {admission : Admission M} {update : Update M}
      (h : admission.update name stored = .ok update) :
      Built name stored (.reserved admission) update
  | abort {operation : Operation} {requestedAt : Int} {update : Update M}
      (h : abortUpdate name stored operation requestedAt = .ok update) :
      Built name stored (.snapshot operation requestedAt) update

/-- The answers of a call that has changed nothing. -/
inductive CallAnswer.Idle : CallAnswer M → Prop
  | alreadyConsumed : Idle .alreadyConsumed
  | notFound : Idle .notFound
  | alreadyRequested : Idle (.abortRequested false [] [])
  | failed (error : HarnessError) : Idle (.failed error)

/-- The phases from which a call may return without having changed anything. -/
inductive CallPhase.Returns : CallPhase M → CallPhase M → Prop
  | missing (id : EntryId) : Returns (.waiting (.cancelQueued id)) (.missing id)
  | waiting {request : CallRequest M} {answer : CallAnswer M} (h : answer.Idle) :
      Returns (.waiting request) (.returned answer)
  | snapshot {operation : Operation} {requestedAt : Int} {answer : CallAnswer M}
      (h : answer.Idle) : Returns (.snapshot operation requestedAt) (.returned answer)
  | found {id : EntryId} {answer : CallAnswer M} (h : answer.Idle) :
      Returns (.missing id) (.returned answer)

/-- What a call does in one step, from a phase to a phase. -/
inductive CallMove (name : LaneName) (shared : Shared M) (lane : Lane M) (index : Nat) :
    CallPhase M → CallPhase M → Shared M → LaneData → Option Party → Prop
  /-- The guard, and a batch. -/
  | build {phase : CallPhase M} {update : Update M} (hguard : shared.guard = none)
      (h : Built name shared.stored phase update) :
      CallMove name shared lane index phase (.guarded update)
        { shared with guard := some (name, .call index) } lane.data lane.dataLock
  /-- An answer without an effect. -/
  | answer {phase next : CallPhase M} (h : phase.Returns next) :
      CallMove name shared lane index phase next shared lane.data lane.dataLock
  /-- The data lock, for an append. -/
  | hold {id : EntryId} {entry : PendingEntry M} (hlock : lane.dataLock = none) :
      CallMove name shared lane index (.waiting (.append id entry))
        (.holding (appendUpdate name lane.data id entry)) shared lane.data (some (.call index))
  /-- A copy of the current operation. -/
  | snapshot {id : OperationId} {operation : Operation} {requestedAt : Int}
      (hlock : lane.dataLock = none) (hdata : lane.data.operation = some operation)
      (hid : operation.info.operationId = id)
      (hcontrol : operation.state.control.isCancelRequested = false) :
      CallMove name shared lane index (.waiting (.requestAbort id requestedAt))
        (.snapshot operation requestedAt) shared lane.data lane.dataLock
  /-- A reservation. -/
  | reserve {request : CallRequest M} {admission : Admission M} {data : LaneData}
      (hlock : lane.dataLock = none) (hdata : lane.data.operation = none)
      (h : beginAdmission name lane.data request = (data, .reserved admission)) :
      CallMove name shared lane index (.waiting request) (.reserved admission) shared data
        lane.dataLock
  /-- An admission that cannot go on. -/
  | refuse {admission : Admission M} {error : HarnessError}
      (h : admission.update name shared.stored = .error error) :
      CallMove name shared lane index (.reserved admission)
        (.undoing admission.operationId error) shared lane.data lane.dataLock
  | commit {update : Update M} {stored : Stored M}
      (h : shared.stored.commit update.writes = .ok stored) :
      CallMove name shared lane index (.guarded update) (.committed update)
        { shared with stored := stored, guard := none } lane.data lane.dataLock
  /-- A batch that storage refuses. -/
  | fault {update : Update M} {error : SessionError} {reason : HarnessError}
      (h : shared.stored.commit update.writes = .error error) :
      CallMove name shared lane index (.guarded update) (.returned (.failed reason))
        { shared.seal (commitFaultText error) with guard := none } lane.data
        (if update.publication.holdsData then none else lane.dataLock)
  /-- The lane data follows a commit. -/
  | publish {update : Update M} {data : LaneData}
      (hlock : update.publication.holdsData = true ∨ lane.dataLock = none)
      (h : update.publication.apply lane.data = .ok data) :
      CallMove name shared lane index (.committed update)
        (afterPublication data update.answer) shared data
        (if update.publication.holdsData then none else lane.dataLock)
  /-- A committed admission whose reservation is gone, or whose harness is sealed. -/
  | drop {update : Update M} {reason : HarnessError} (hlock : lane.dataLock = none)
      (h : update.publication.isAdmission = true)
      (hcause : shared.fault.isSome = true ∨
        ∃ error, update.publication.apply lane.data = .error error) :
      CallMove name shared lane index (.committed update) (.returned (.failed reason)) shared
        lane.data lane.dataLock
  /-- The queue as it was remembered, with its payloads. -/
  | list {queue : List InboxItem} {answer : CallAnswer M}
      {pending : List (InboxItem × PendingEntry M)}
      (h : readPending shared.stored queue = .ok pending) :
      CallMove name shared lane index (.listing queue answer) (.returned answer) shared lane.data
        lane.dataLock
  /-- A remembered item that has been taken since. -/
  | listFails {queue : List InboxItem} {answer : CallAnswer M} {error : SessionError}
      (h : readPending shared.stored queue = .error error) :
      CallMove name shared lane index (.listing queue answer)
        (.returned (.failed (mapSessionError error))) shared lane.data lane.dataLock
  | undo {id : OperationId} {error : HarnessError} (hlock : lane.dataLock = none) :
      CallMove name shared lane index (.undoing id error) (.returned (.failed error)) shared
        (undoReservation lane.data id) lane.dataLock

/-! ## Moves of the drive -/

/-- What a drive can be told, with what that makes of the shared values. -/
def Answered (shared : Shared M) (lane : Lane M) (question : Request M)
    (answer : question.Answer) (shared' : Shared M) : Prop :=
  (readData lane.data question = some answer ∧ lane.dataLock = none ∧ shared' = shared) ∨
    ∃ surroundings, readShared shared surroundings question = some (shared', answer)

/-- What the drive does in one step, from a phase to a phase or to its end. -/
inductive DriveMove [Inhabited M] (name : LaneName) (options : DriveOptions)
    (shared : Shared M) (lane : Lane M) :
    DrivePhase M → Option (DrivePhase M) → Shared M → LaneData → Option Party → Prop
  /-- Something read, asked or reported. -/
  | answer {question : Request M} {next : question.Answer → Procedure M (DriveStep M)}
      {answer : question.Answer} {shared' : Shared M}
      (h : Answered shared lane question answer shared') :
      DriveMove name options shared lane (.running (.ask question next))
        (some (.running (next answer))) shared' lane.data lane.dataLock
  /-- The next round. -/
  | again :
      DriveMove name options shared lane (.running (.done .proceed))
        (some (.running (driveRound name options false))) shared lane.data lane.dataLock
  /-- The drive returns. -/
  | finish {program : Procedure M (DriveStep M)} :
      DriveMove name options shared lane (.running program) none shared lane.data lane.dataLock
  /-- The data lock, for a publication. -/
  | lock {publication : Publish M} {next : publication.Answer → Procedure M (DriveStep M)}
      (hlock : lane.dataLock = none) (h : publication.holdsData = true) :
      DriveMove name options shared lane (.running (.ask (.publish publication) next))
        (some (.publishing publication next)) shared lane.data (some .drive)
  | approach {publication : Publish M} {next : publication.Answer → Procedure M (DriveStep M)}
      (h : publication.holdsData = false) :
      DriveMove name options shared lane (.running (.ask (.publish publication) next))
        (some (.publishing publication next)) shared lane.data lane.dataLock
  /-- The guard, and a batch. -/
  | build {publication : Publish M} {next : publication.Answer → Procedure M (DriveStep M)}
      {performed : Performed M publication.Answer} {writes : List (Write M)}
      (hguard : shared.guard = none)
      (h : publication.perform name lane.data shared.stored = .ok performed)
      (hwrites : performed.writes = some writes) :
      DriveMove name options shared lane (.publishing publication next)
        (some (.guarded publication performed writes next))
        { shared with guard := some (name, .drive) } lane.data lane.dataLock
  /-- A publication with nothing to commit. -/
  | skip {publication : Publish M} {next : publication.Answer → Procedure M (DriveStep M)}
      {performed : Performed M publication.Answer}
      (h : publication.perform name lane.data shared.stored = .ok performed)
      (hwrites : performed.writes = none) :
      DriveMove name options shared lane (.publishing publication next)
        (some (.running (next performed.answer))) shared lane.data
        (releaseData publication lane.dataLock)
  | refuse {publication : Publish M} {next : publication.Answer → Procedure M (DriveStep M)}
      {error : HarnessError}
      (h : publication.perform name lane.data shared.stored = .error error) :
      DriveMove name options shared lane (.publishing publication next) none shared lane.data
        (releaseData publication lane.dataLock)
  | commit {publication : Publish M} {next : publication.Answer → Procedure M (DriveStep M)}
      {performed : Performed M publication.Answer} {writes : List (Write M)} {stored : Stored M}
      (h : shared.stored.commit writes = .ok stored) :
      DriveMove name options shared lane (.guarded publication performed writes next)
        (some (.committed publication performed next))
        { shared with stored := stored, guard := none } lane.data lane.dataLock
  /-- A batch that storage refuses. -/
  | fault {publication : Publish M} {next : publication.Answer → Procedure M (DriveStep M)}
      {performed : Performed M publication.Answer} {writes : List (Write M)}
      {error : SessionError} (h : shared.stored.commit writes = .error error) :
      DriveMove name options shared lane (.guarded publication performed writes next) none
        { shared.seal (commitFaultText error) with guard := none } lane.data
        (releaseData publication lane.dataLock)
  /-- The lane data follows a commit. -/
  | publish {publication : Publish M} {next : publication.Answer → Procedure M (DriveStep M)}
      {performed : Performed M publication.Answer} {after : Option (DrivePhase M)}
      (hlock : publication.holdsData = true ∨ publication.updatesData = false ∨
        lane.dataLock = none)
      (hafter : after = none ∧ performed.failure.isSome = true ∨
        after = some (.running (next performed.answer)) ∧ performed.failure = none) :
      DriveMove name options shared lane (.committed publication performed next) after shared
        (performed.publish lane.data) (releaseData publication lane.dataLock)

/-! ## Moves of a lane -/

/-- The lane with one of its calls in another phase. -/
def Lane.withCall (lane : Lane M) (index : Nat) (phase : CallPhase M) (data : LaneData)
    (lock : Option Party) : Lane M :=
  { lane.setCall index phase with data := data, dataLock := lock }

/-- What a step does to a lane. -/
inductive LaneMove [Inhabited M] (name : LaneName) (shared : Shared M) (lane : Lane M) :
    LaneEvent M → Shared M → Lane M → Prop
  | begin {request : CallRequest M} {phase : CallPhase M} {issued : List String}
      (hfresh : ∀ id ∈ request.newIds, id ∉ shared.issued) (hnodup : request.newIds.Nodup)
      (hissued : issued = request.newIds ++ shared.issued)
      (hphase : phase = .waiting request ∨ ∃ reason, phase = .returned (.failed reason)) :
      LaneMove name shared lane (.call request) { shared with issued := issued }
        { lane with calls := lane.calls ++ [⟨request, phase⟩] }
  | call {index : Nat} {call : Call M} {next : CallPhase M} {shared' : Shared M}
      {data : LaneData} {lock : Option Party} (hcall : lane.calls[index]? = some call)
      (h : CallMove name shared lane index call.phase next shared' data lock) :
      LaneMove name shared lane (.advance index) shared' (lane.withCall index next data lock)
  | startDrive {options : DriveOptions} (hdrive : lane.drive = none) :
      LaneMove name shared lane (.startDrive options) shared
        (lane.setDrive options (.running (driveRound name options true)))
  | drive {surroundings : Surroundings M} {options : DriveOptions} {phase : DrivePhase M}
      {next : Option (DrivePhase M)} {shared' : Shared M} {data : LaneData}
      {lock : Option Party} (hphase : lane.drive = some ⟨options, phase⟩)
      (h : DriveMove name options shared lane phase next shared' data lock) :
      LaneMove name shared lane (.drive surroundings) shared'
        ⟨data, lock, lane.calls, next.map fun phase => ⟨options, phase⟩⟩

/-- A step that commits what a call has built. -/
def CallCommits (shared : Shared M) (lane : Lane M) (event : LaneEvent M) (stored : Stored M) :
    Prop :=
  ∃ index call update, event = .advance index ∧ lane.calls[index]? = some call ∧
    call.phase = .guarded update ∧ shared.stored.commit update.writes = .ok stored

/-- A step that commits what the drive has built. -/
def DriveCommits (shared : Shared M) (lane : Lane M) (event : LaneEvent M) (stored : Stored M) :
    Prop :=
  ∃ surroundings options publication performed writes next, event = .drive surroundings ∧
    lane.drive = some ⟨options, .guarded publication performed writes next⟩ ∧
    shared.stored.commit writes = .ok stored

variable {i : Nat}

variable {question : Request M} {event : LaneEvent M}

/-- What a drive is told changes neither the guard nor the stored values. -/
theorem Answered.kept {ans : question.Answer} (h : Answered shared lane question ans shared') :
    shared'.guard = shared.guard ∧ shared'.stored = shared.stored := by
  obtain ⟨_, _, rfl⟩ | ⟨surroundings, hread⟩ := h
  · exact ⟨rfl, rfl⟩
  · cases question with
    | newId | finishedTool =>
      rw [readShared] at hread
      split_ifs at hread
      cases hread
      exact ⟨rfl, rfl⟩
    | operation | tip | laneConfig | publish => cases hread
    | _ =>
      cases hread
      exact ⟨rfl, rfl⟩

/-- A step of a call commits its batch or leaves the stored values alone. -/
theorem CallMove.commit_cases {phase next : CallPhase M} {data : LaneData} {lock : Option Party}
    (h : CallMove name shared lane i phase next shared' data lock) :
    shared'.stored = shared.stored ∨ ∃ upd stored, phase = .guarded upd ∧
        shared.stored.commit upd.writes = .ok stored ∧ next = .committed upd ∧
        shared' = { shared with stored := stored, guard := none } ∧ data = lane.data ∧
        lock = lane.dataLock := by
  cases h with
  | commit h => exact .inr ⟨_, _, rfl, h, rfl, rfl, rfl, rfl⟩
  | _ => exact .inl rfl

/-- The stored values change by commits only. -/
theorem LaneMove.stored_cases [Inhabited M] (h : LaneMove name shared lane event shared' lane') :
    shared'.stored = shared.stored ∨ CallCommits shared lane event shared'.stored ∨
      DriveCommits shared lane event shared'.stored := by
  cases h with
  | begin | startDrive => exact .inl rfl
  | @call i call next shared' data lock hcall hmove =>
    obtain hsame | ⟨upd, stored, hph, h, _, rfl, _, _⟩ := hmove.commit_cases
    · exact .inl hsame
    · exact .inr (.inl ⟨i, call, upd, rfl, hcall, hph, h⟩)
  | @drive surroundings opts phase next shared' data lock hph hmove =>
    cases hmove with
    | answer h => exact .inl h.kept.2
    | commit h => exact .inr (.inr ⟨surroundings, opts, _, _, _, _, rfl, hph, h⟩)
    | _ => exact .inl rfl

/-! ## Every step is a move -/

/-- Whether a call asks for an operation to be admitted. -/
def CallRequest.admits : CallRequest M → Bool
  | acceptRun _ _ _ _ => true
  | acceptCompaction _ _ _ _ _ => true
  | acceptNavigation _ _ _ _ _ _ _ _ => true
  | _ => false

variable {req : CallRequest M}

theorem beginAdmission_cases (name : LaneName) (data : LaneData) (h : req.admits = true) :
    (∃ adm data', beginAdmission name data req = (data', .reserved adm) ∧ data.operation = none) ∨
    ∃ reason, beginAdmission name data req = (data, .returned (.failed reason)) := by
  cases req with
  | acceptRun opId messages settings startedAt =>
    cases hop : data.operation with
    | some op => exact .inr ⟨_, by simp only [beginAdmission, hop]; rfl⟩
    | none =>
      cases hval : validateOperationId opId with
      | some text => exact .inr ⟨_, by simp only [beginAdmission, hop, hval]; rfl⟩
      | none =>
        exact .inl ⟨_, _, by simp only [beginAdmission, hop, hval]; rfl, rfl⟩
  | acceptCompaction opId customInstructions prep settings startedAt =>
    cases hop : data.operation with
    | some op => exact .inr ⟨_, by simp only [beginAdmission, hop]; rfl⟩
    | none =>
      cases prep with
      | none => exact .inr ⟨_, by simp only [beginAdmission, hop]; rfl⟩
      | some prep =>
        cases hval : validateOperationId opId with
        | some text =>
          exact .inr ⟨_, by simp only [beginAdmission, hop, hval]; rfl⟩
        | none =>
          exact .inl ⟨_, _, by simp only [beginAdmission, hop, hval]; rfl, rfl⟩
  | acceptNavigation opId target summarize label customInstructions prep settings
      startedAt =>
      cases hop : data.operation with
      | some op => exact .inr ⟨_, by simp only [beginAdmission, hop]; rfl⟩
      | none =>
        cases hval : validateOperationId opId with
        | some text => exact .inr ⟨_, by simp only [beginAdmission, hop, hval]; rfl⟩
        | none =>
          exact .inl ⟨_, _, by simp only [beginAdmission, hop, hval]; rfl, rfl⟩
  | enqueue id kind message => cases h
  | cancelQueued id => cases h
  | append id entry => cases h
  | requestAbort opId requestedAt => cases h

/-- The id an admission asks for. -/
def CallRequest.admittedId : CallRequest M → Option OperationId
  | acceptRun operationId _ _ _ => some operationId
  | acceptCompaction operationId _ _ _ _ => some operationId
  | acceptNavigation operationId _ _ _ _ _ _ _ => some operationId
  | _ => none

/-- The operation an admission reserves the lane for. -/
def Admission.provisional (name : LaneName) : Admission M → Operation
  | run operationId _ _ sourceTip settings startedAt =>
    provisionalRun name operationId sourceTip settings startedAt []
  | prepared operation _ _ => operation

@[simp]
theorem Admission.operationId_provisional (adm : Admission M) :
    (adm.provisional name).info.operationId = adm.operationId := by
  cases adm <;> rfl

/-- A reservation puts its operation into lane data and changes nothing else there. -/
theorem beginAdmission_reserved {data data' : LaneData} {adm : Admission M}
    (hdata : data.operation = none)
    (h : beginAdmission name data req = (data', .reserved adm)) :
    req.admittedId = some adm.operationId ∧
      data' = data.withOperation (some (adm.provisional name)) := by
  cases req with
  | acceptRun opId messages settings startedAt =>
    cases hval : validateOperationId opId with
    | some text =>
      simp only [beginAdmission, hdata, hval] at h
      cases h
    | none =>
      simp only [beginAdmission, hdata, hval, reserve] at h
      cases h
      exact ⟨rfl, rfl⟩
  | acceptCompaction opId customInstructions prep settings startedAt =>
    cases prep with
    | none =>
      simp only [beginAdmission, hdata] at h
      cases h
    | some prep =>
      cases hval : validateOperationId opId with
      | some text =>
        simp only [beginAdmission, hdata, hval] at h
        cases h
      | none =>
        simp only [beginAdmission, hdata, hval, reserve] at h
        cases h
        exact ⟨rfl, rfl⟩
  | acceptNavigation opId target summarize label customInstructions prep settings
      startedAt =>
      cases hval : validateOperationId opId with
      | some text =>
        simp only [beginAdmission, hdata, hval] at h
        cases h
      | none =>
        simp only [beginAdmission, hdata, hval, reserve] at h
        cases h
        exact ⟨rfl, rfl⟩
  | enqueue id kind message => cases h
  | cancelQueued id => cases h
  | append id entry => cases h
  | requestAbort opId requestedAt => cases h

theorem beginAbort_cases (name : LaneName) (data : LaneData) (id : OperationId) (requestedAt : Int) :
    (∃ op, (beginAbort name data id requestedAt : CallPhase M) = .snapshot op requestedAt ∧
      data.operation = some op ∧ op.info.operationId = id ∧
      op.state.control.isCancelRequested = false) ∨
    ∃ ans : CallAnswer M, beginAbort name data id requestedAt = .returned ans ∧ ans.Idle := by
  rw [beginAbort]
  cases hop : data.operation with
  | none => exact .inr ⟨_, rfl, .failed _⟩
  | some op =>
    dsimp only
    by_cases hid : op.info.operationId = id
    · rw [if_neg (not_not.mpr hid)]
      cases hctrl : op.state.control.isCancelRequested with
      | true => exact .inr ⟨_, rfl, .alreadyRequested⟩
      | false => exact .inl ⟨op, rfl, rfl, hid, hctrl⟩
    · rw [if_pos hid]
      exact .inr ⟨_, rfl, .failed _⟩

/-- A call takes a step from a phase. -/
def Advances (name : LaneName) (shared : Shared M) (lane : Lane M) (index : Nat)
    (phase : CallPhase M) (shared' : Shared M) (lane' : Lane M) : Prop :=
  ∃ next data lock, CallMove name shared lane index phase next shared' data lock ∧
    lane' = lane.withCall index next data lock

theorem admission_moves (hlock : lane.dataLock = none) (hads : req.admits = true) :
    Advances name shared lane i (.waiting req) shared
      { lane.setCall i (beginAdmission name lane.data req).2 with
        data := (beginAdmission name lane.data req).1 } := by
  obtain ⟨adm, data, hbegin, hdata⟩ | ⟨reason, hbegin⟩ := beginAdmission_cases name lane.data hads
  · exact ⟨_, _, _, .reserve hlock hdata hbegin, by rw [hbegin]; rfl⟩
  · exact ⟨_, _, _, .answer (.waiting (.failed reason)), by rw [hbegin]; rfl⟩

theorem advanceWaiting_moves (h : advanceWaiting name shared lane i req = some (shared', lane')) :
    Advances name shared lane i (.waiting req) shared' lane' := by
  cases req with
  | enqueue id kind message =>
    rw [advanceWaiting] at h
    split_ifs at h with hguard
    cases h
    exact ⟨_, _, _, .build (isNone_iff_eq_none.mp hguard) (.enqueue id kind message), rfl⟩
  | cancelQueued id =>
    rw [advanceWaiting] at h
    split_ifs at h with hguard
    cases hupd : cancelUpdate name shared.stored id with
    | none =>
      rw [hupd] at h
      cases h
      exact ⟨_, _, _, .answer (.missing id), rfl⟩
    | some upd =>
      rw [hupd] at h
      cases h
      exact ⟨_, _, _, .build (isNone_iff_eq_none.mp hguard) (.cancel hupd), rfl⟩
  | append id entry =>
    rw [advanceWaiting] at h
    split_ifs at h with hlock
    cases h
    exact ⟨_, _, _, .hold (isNone_iff_eq_none.mp hlock), rfl⟩
  | requestAbort id requestedAt =>
    rw [advanceWaiting] at h
    split_ifs at h with hlock
    cases h
    have hlock := isNone_iff_eq_none.mp hlock
    obtain ⟨op, hbegin, hdata, hid, hctrl⟩ | ⟨ans, hbegin, hidle⟩ :=
      beginAbort_cases name lane.data id requestedAt
    · exact ⟨_, _, _, .snapshot hlock hdata hid hctrl, by rw [hbegin]; rfl⟩
    · exact ⟨_, _, _, .answer (.waiting hidle), by rw [hbegin]; rfl⟩
  | acceptRun opId messages settings startedAt =>
    rw [advanceWaiting] at h
    split_ifs at h with hlock hemp hfault
    · cases h
      exact ⟨_, _, _, .answer (.waiting (.failed _)), rfl⟩
    · cases h
      exact ⟨_, _, _, .answer (.waiting (.failed _)), rfl⟩
    · cases h
      exact admission_moves (isNone_iff_eq_none.mp hlock) (by simp [CallRequest.admits])
  | acceptCompaction opId customInstructions prep settings startedAt =>
    simp only [advanceWaiting] at h
    split_ifs at h with hlock
    split at h
    · cases h
      exact ⟨_, _, _, .answer (.waiting (.failed _)), rfl⟩
    · cases h
      exact admission_moves (isNone_iff_eq_none.mp hlock) (by simp [CallRequest.admits])
  | acceptNavigation opId target summarize label customInstructions prep settings
      startedAt =>
      simp only [advanceWaiting] at h
      split_ifs at h with hlock
      split at h
      · cases h
        exact ⟨_, _, _, .answer (.waiting (.failed _)), rfl⟩
      · cases h
        exact admission_moves (isNone_iff_eq_none.mp hlock) (by simp [CallRequest.admits])

theorem advanceCommitted_moves (hlock : upd.publication.holdsData = true ∨ lane.dataLock = none)
    (h : advanceCommitted shared lane i upd = (shared', lane')) :
    Advances name shared lane i (.committed upd) shared' lane' := by
  -- Only an adm can fail here, and an adm does not hold the data lock.
  have hnone : upd.publication.isAdmission = true → lane.dataLock = none := by
    intro hadmn
    cases hpublication : upd.publication with
    | accept base next op tip => simpa [hpublication, Publication.holdsData] using hlock
    | _ => simp [hpublication, Publication.isAdmission] at hadmn
  rw [advanceCommitted] at h
  by_cases hseal : (upd.publication.isAdmission && shared.fault.isSome) = true
  · rw [if_pos hseal] at h
    cases h
    rw [Bool.and_eq_true] at hseal
    exact ⟨_, _, _, .drop (hnone hseal.1) hseal.1 (.inl hseal.2), rfl⟩
  · rw [if_neg hseal] at h
    cases happly : upd.publication.apply lane.data with
    | ok data =>
      rw [happly] at h
      cases h
      exact ⟨_, _, _, .publish hlock happly, rfl⟩
    | error error =>
      have hadmn : upd.publication.isAdmission = true := by
        cases hpublication : upd.publication with
        | accept base next op tip => rfl
        | _ => simp [hpublication, Publication.apply] at happly
      rw [happly] at h
      cases h
      exact ⟨_, _, _, .drop (hnone hadmn) hadmn (.inr ⟨error, happly⟩), rfl⟩

theorem advanceCall_moves {phase : CallPhase M}
    (h : advanceCall name shared lane i phase = some (shared', lane')) :
    Advances name shared lane i phase shared' lane' := by
  cases phase with
  | waiting req => exact advanceWaiting_moves h
  | holding upd =>
    rw [advanceCall] at h
    split_ifs at h with hguard
    cases h
    exact ⟨_, _, _, .build (isNone_iff_eq_none.mp hguard) (.hold upd), rfl⟩
  | reserved adm =>
    rw [advanceCall] at h
    split_ifs at h with hguard
    cases hupd : adm.update name shared.stored with
    | ok upd =>
      rw [hupd] at h
      cases h
      exact ⟨_, _, _, .build (isNone_iff_eq_none.mp hguard) (.admission hupd), rfl⟩
    | error error =>
      rw [hupd] at h
      cases h
      exact ⟨_, _, _, .refuse hupd, rfl⟩
  | snapshot op requestedAt =>
    rw [advanceCall] at h
    split_ifs at h with hguard
    cases hupd : abortUpdate name shared.stored op requestedAt with
    | ok upd =>
      rw [hupd] at h
      cases h
      exact ⟨_, _, _, .build (isNone_iff_eq_none.mp hguard) (.abort hupd), rfl⟩
    | error ans =>
      rw [hupd] at h
      cases h
      obtain rfl | ⟨error, rfl⟩ := abortUpdate_eq_error hupd
      · exact ⟨_, _, _, .answer (.snapshot .alreadyRequested), rfl⟩
      · exact ⟨_, _, _, .answer (.snapshot (.failed error)), rfl⟩
  | guarded upd =>
    rw [advanceCall, advanceGuarded] at h
    cases hcom : shared.stored.commit upd.writes with
    | ok stored =>
      rw [hcom] at h
      cases h
      exact ⟨_, _, _, .commit hcom, rfl⟩
    | error error =>
      rw [hcom] at h
      cases h
      exact ⟨_, _, _, .fault hcom, rfl⟩
  | committed upd =>
    rw [advanceCall] at h
    split_ifs at h with hlock
    rw [Bool.or_eq_true, isNone_iff_eq_none] at hlock
    exact advanceCommitted_moves hlock (some.inj h)
  | missing id =>
    rw [advanceCall] at h
    cases h
    refine ⟨_, _, _, .answer (.found ?_), rfl⟩
    split_ifs
    · exact .alreadyConsumed
    · exact .notFound
  | listing queue ans =>
    rw [advanceCall] at h
    cases hpend : readPending shared.stored queue with
    | ok pend =>
      rw [hpend] at h
      cases h
      exact ⟨_, _, _, .list hpend, rfl⟩
    | error error =>
      rw [hpend] at h
      cases h
      exact ⟨_, _, _, .listFails hpend, rfl⟩
  | undoing id error =>
    rw [advanceCall] at h
    split_ifs at h with hlock
    cases h
    exact ⟨_, _, _, .undo (isNone_iff_eq_none.mp hlock), rfl⟩
  | returned ans => cases h

/-- The drive takes a step from a phase. -/
def Drives [Inhabited M] (name : LaneName) (options : DriveOptions) (shared : Shared M)
    (lane : Lane M) (phase : DrivePhase M) (shared' : Shared M) (lane' : Lane M) : Prop :=
  ∃ next data lock, DriveMove name options shared lane phase next shared' data lock ∧
    lane' = ⟨data, lock, lane.calls, next.map fun phase => ⟨options, phase⟩⟩

variable {opts : DriveOptions}

variable {surroundings : Surroundings M}

theorem driveAsk_moves [Inhabited M] {next : question.Answer → Procedure M (DriveStep M)}
    (h : driveAsk shared lane opts surroundings question next = some (shared', lane')) :
    Drives name opts shared lane (.running (.ask question next)) shared' lane' := by
  rw [driveAsk.eq_def] at h
  split at h
  · split_ifs at h with hholds hlock
    · cases h
      exact ⟨_, _, _, .lock (isNone_iff_eq_none.mp hlock) hholds, rfl⟩
    · cases h
      exact ⟨_, _, _, .approach (Bool.not_eq_true _ ▸ hholds), rfl⟩
  · split at h
    · next ans hread =>
        split_ifs at h with hlock
        cases h
        exact ⟨_, _, _, .answer (.inl ⟨hread, isNone_iff_eq_none.mp hlock, rfl⟩), rfl⟩
    · obtain ⟨⟨shared'', ans⟩, hread, hlane⟩ := map_eq_some_iff.mp h
      cases hlane
      exact ⟨_, _, _, .answer (.inr ⟨surroundings, hread⟩), rfl⟩

theorem drivePublishing_moves [Inhabited M] {p : Publish M}
    {next : p.Answer → Procedure M (DriveStep M)}
    (h : drivePublishing name shared lane opts p next = some (shared', lane')) :
    Drives name opts shared lane (.publishing p next) shared' lane' := by
  rw [drivePublishing] at h
  cases hperf : p.perform name lane.data shared.stored with
  | error error =>
    rw [hperf] at h
    cases h
    exact ⟨_, _, _, .refuse hperf, rfl⟩
  | ok perf =>
    rw [hperf] at h
    dsimp only at h
    cases hwr : perf.writes with
    | none =>
      rw [hwr] at h
      cases h
      exact ⟨_, _, _, .skip hperf hwr, rfl⟩
    | some writes =>
      rw [hwr] at h
      dsimp only at h
      split_ifs at h with hguard
      cases h
      exact ⟨_, _, _, .build (isNone_iff_eq_none.mp hguard) hperf hwr, rfl⟩

theorem driveStep_moves [Inhabited M] {phase : DrivePhase M}
    (h : driveStep name shared lane opts surroundings phase = some (shared', lane')) :
    Drives name opts shared lane phase shared' lane' := by
  rw [driveStep.eq_def] at h
  split at h
  · cases h
    exact ⟨_, _, _, .again, rfl⟩
  · cases h
    exact ⟨_, _, _, .finish, rfl⟩
  · cases h
    exact ⟨_, _, _, .finish, rfl⟩
  · exact driveAsk_moves h
  · exact drivePublishing_moves h
  · next p perf writes next =>
      rw [driveGuarded] at h
      cases hcom : shared.stored.commit writes with
      | ok stored =>
        rw [hcom] at h
        cases h
        exact ⟨_, _, _, .commit hcom, rfl⟩
      | error error =>
        rw [hcom] at h
        cases h
        exact ⟨_, _, _, .fault hcom, rfl⟩
  · next p perf next =>
      split_ifs at h with hlock
      have hlock : p.holdsData = true ∨ p.updatesData = false ∨ lane.dataLock = none := by
        simpa [Bool.or_eq_true, or_assoc] using hlock
      rw [driveCommitted] at h
      cases hfailure : perf.failure with
      | some error =>
        rw [hfailure] at h
        cases h
        exact ⟨_, _, _, .publish hlock (.inl ⟨rfl, by rw [hfailure]; rfl⟩), rfl⟩
      | none =>
        rw [hfailure] at h
        cases h
        exact ⟨_, _, _, .publish hlock (.inr ⟨rfl, hfailure⟩), rfl⟩

/-- Every step of a lane is a move. -/
theorem stepLane_moves [Inhabited M]
    (h : stepLane name (shared, lane) event = some (shared', lane')) :
    LaneMove name shared lane event shared' lane' := by
  cases event with
  | call req =>
    rw [stepLane] at h
    by_cases hfrs : (req.newIds.all (fun id => !shared.issued.contains id) &&
        req.newIds.Nodup) = true
    · rw [if_pos hfrs] at h
      cases h
      simp only [Bool.and_eq_true, List.all_eq_true, Bool.not_eq_true', decide_eq_true_eq,
        List.contains_eq_mem, decide_eq_false_iff_not] at hfrs
      refine .begin hfrs.1 hfrs.2 rfl ?_
      by_cases hseal : shared.fault.isSome = true
      · exact .inr ⟨_, if_pos hseal⟩
      · exact .inl (if_neg hseal)
    · rw [if_neg hfrs] at h
      cases h
  | advance i =>
    obtain ⟨call, hcall, hadv⟩ := bind_eq_some_iff.mp h
    obtain ⟨next, data, lock, hmove, rfl⟩ := advanceCall_moves hadv
    exact .call hcall hmove
  | startDrive opts =>
    rw [stepLane] at h
    split_ifs at h with hdrv
    cases h
    rw [Bool.and_eq_true] at hdrv
    exact .startDrive (isNone_iff_eq_none.mp hdrv.1)
  | drive surroundings =>
    obtain ⟨⟨opts, phase⟩, hdrv, hstep⟩ := bind_eq_some_iff.mp h
    obtain ⟨next, data, lock, hmove, rfl⟩ := driveStep_moves hstep
    exact .drive hdrv hmove

end PiOxidized.Harness.Runtime
