/-
# Admissions of a session

The lanes of one session share its storage and its mutation guard, and admissions and
settlements on all of them run concurrently.  An admission reserves its lane in memory before
it takes the guard; under the guard it checks that its id is new to the whole session.

A future that is dropped stops where it waits: it gives the guard back if it holds that, and
nothing clears its reservation.
-/

import PiOxidized.Harness.Runtime.Convergence

namespace PiOxidized.Harness.Runtime

open Math
open Session (EntryId SessionError)

variable {M : Type}

/-! ## Settlements -/

/-- How a drive settles its operation. -/
inductive Ending
  | settle (status : TerminalStatus) (error : Option OperationError) (endedAt : Int)
  /-- As a navigation that is committed. -/
  | navigate (target : Option EntryId) (label : Option String) (endedAt : Int)
  deriving DecidableEq

/-- The end of a drive; it works on the operation as it was read. -/
def Ending.program (operation : Operation) : Ending → Procedure M (DriveStep M)
  | settle status error endedAt =>
    .ask (.publish (.settle operation status error endedAt)) fun record =>
      .done (.settled record)
  | navigate target label endedAt =>
    .ask (.publish (.navigation operation target label endedAt)) fun record =>
      .done (.settled record)

/-! ## The lanes of a session -/

structure HarnessRuntime (M : Type) where
  shared : Shared M
  lanes : Dict LaneName (Lane M)
  /-- The admissions whose futures were dropped. -/
  dropped : List (LaneName × Nat)
  /-- Every operation id admitted so far. -/
  admitted : List OperationId
  /-- The admissions that have changed the stored values. -/
  writers : List (LaneName × Nat)

inductive HarnessEvent (M : Type)
  | accept (lane : LaneName) (request : CallRequest M)
  | advance (lane : LaneName) (index : Nat)
  /-- The session refuses the mutation, or a read under it fails. -/
  | refuse (lane : LaneName) (index : Nat) (error : SessionError)
  | drop (lane : LaneName) (index : Nat)
  /-- A drive has read the current operation and is to settle it. -/
  | settle (lane : LaneName) (ending : Ending)
  | drive (lane : LaneName) (surroundings : Surroundings M)
  /-- Storage fails to commit what a call or a drive has built. -/
  | fault (lane : LaneName) (party : Party) (error : SessionError)

namespace HarnessRuntime

def withLane (s : HarnessRuntime M) (name : LaneName) (system : LaneSystem M) : HarnessRuntime M :=
  { s with shared := system.1, lanes := s.lanes.insert name system.2 }

/-- The id a call is about to commit. -/
def admits (lane : Lane M) (index : Nat) : Option OperationId := match lane.calls[index]? with
  | some ⟨_, .guarded update⟩ => update.publication.admitted.map (·.info.operationId)
  | _ => none

/-- Whether a call has committed. -/
def hasCommitted (lane : Lane M) (index : Nat) : Bool :=
  lane.calls[index]?.any fun call => call.phase.isCommitted

/-- Take down an admission that has just been committed. -/
def record (s : HarnessRuntime M) (name : LaneName) (index : Nat) (before after : Lane M) :
    HarnessRuntime M :=
  match admits before index with
  | none => s
  | some id =>
    if hasCommitted after index then
      { s with admitted := s.admitted ++ [id], writers := s.writers ++ [(name, index)] }
    else s

/-- The next step of a call. -/
def advance [Inhabited M] (s : HarnessRuntime M) (name : LaneName) (index : Nat)
    (lane : Lane M) : Option (HarnessRuntime M) :=
  (stepLane name (s.shared, lane) (.advance index)).map fun system =>
    (s.withLane name system).record name index lane system.2

/-- A reservation is given up before its batch is built. -/
def refuse (s : HarnessRuntime M) (name : LaneName) (index : Nat) (error : SessionError)
    (lane : Lane M) : Option (HarnessRuntime M) :=
  match lane.calls[index]? with
  | some ⟨_, .reserved admission⟩ =>
    some (s.withLane name
      (s.shared, lane.setCall index (.undoing admission.operationId (mapSessionError error))))
  | _ => none

/-- Give the guard back if a party holds it. -/
def releaseGuard (shared : Shared M) (name : LaneName) (party : Party) : Shared M :=
  { shared with guard := if shared.guard = some (name, party) then none else shared.guard }

/-- A call that is dropped never moves again, and nobody sees its answer.  A commit in flight runs
on in a task of its own, so a call that is dropped meanwhile is one that is dropped behind it. -/
def drop (s : HarnessRuntime M) (name : LaneName) (index : Nat) (lane : Lane M) :
    Option (HarnessRuntime M) :=
  match lane.calls[index]? with
  | none => none
  | some call =>
    if call.phase.hasReturned then none
    else
      some { s.withLane name (releaseGuard s.shared name (.call index),
          lane.setCall index (.returned (.failed (.closed "dropped")))) with
        dropped := s.dropped ++ [(name, index)] }

/-- Begin to settle the current operation. -/
def settle (s : HarnessRuntime M) (name : LaneName) (ending : Ending) (lane : Lane M) :
    Option (HarnessRuntime M) :=
  match lane.data.operation with
  | none => none
  | some operation =>
    if lane.drive.isNone && lane.dataLock.isNone && s.shared.fault.isNone then
      some (s.withLane name (s.shared, lane.setDrive ⟨operation.info.operationId, false, false⟩
        (.running (ending.program operation))))
    else none

/-- A commit that storage fails seals the harness. -/
def fault (s : HarnessRuntime M) (name : LaneName) (party : Party) (error : SessionError)
    (lane : Lane M) : Option (HarnessRuntime M) :=
  let shared := { s.shared.seal (commitFaultText error) with guard := none }
  match party with
  | .call index =>
    match lane.calls[index]? with
    | some ⟨_, .guarded update⟩ =>
      some (s.withLane name (shared,
        { lane.setCall index (.returned (.failed shared.rejection)) with
          dataLock := if update.publication.holdsData then none else lane.dataLock }))
    | _ => none
  | .drive =>
    match lane.drive with
    | some ⟨_, .guarded publication _ _ _⟩ =>
      some (s.withLane name (shared,
        { lane.endDrive with dataLock := releaseData publication lane.dataLock }))
    | _ => none

/-- One step of a session. -/
def step [Inhabited M] (s : HarnessRuntime M) : HarnessEvent M → Option (HarnessRuntime M)
  | .accept name request =>
    if request.admits then
      (s.lanes.get? name).bind fun lane =>
        (stepLane name (s.shared, lane) (.call request)).map (s.withLane name)
    else none
  | .advance name index => (s.lanes.get? name).bind (s.advance name index)
  | .refuse name index error => (s.lanes.get? name).bind (s.refuse name index error)
  | .drop name index => (s.lanes.get? name).bind (s.drop name index)
  | .settle name ending => (s.lanes.get? name).bind (s.settle name ending)
  | .drive name surroundings =>
    (s.lanes.get? name).bind fun lane =>
      (stepLane name (s.shared, lane) (.drive surroundings)).map (s.withLane name)
  | .fault name party error => (s.lanes.get? name).bind (s.fault name party error)

/-- A session nobody works on: lane memory has what is stored, and the ids admitted so far are
those in use. -/
structure Rested (s : HarnessRuntime M) : Prop where
  dropped : s.dropped = []
  writers : s.writers = []
  guard : s.shared.guard = none
  fault : s.shared.fault = none
  admitted : s.admitted.Nodup
  used : ∀ id, id ∈ s.admitted ↔ s.shared.stored.operationIdIsUsed id = true
  lanes : ∀ (name : LaneName) (lane : Lane M), s.lanes.get? name = some lane →
    ∃ data, lane = .idle data ∧ Mirrors name s.shared.stored data
  operations : ∀ (name : LaneName) (lane : Lane M), s.lanes.get? name = some lane →
    ∀ (id : OperationId) (info : OperationMeta),
      s.shared.stored.operationMetas.get? id = some info → info.lane = name →
        s.shared.stored.currentId name = some id

/-- A session from a rested state on, with every admission and settlement on its lanes. -/
def machine [Inhabited M] : Machine (HarnessRuntime M) (HarnessEvent M) where
  start := Rested
  step := step

/-! ## What admissions promise -/

/-- Whether a call failed because the harness is sealed. -/
def isFaultSealed : HarnessError → Bool
  | .faultSealed _ => true
  | _ => false

/-- Admissions exclude each other and leave nothing behind. -/
structure Exclusive (s : HarnessRuntime M) : Prop where
  /-- The only operation stored for a lane is its current one. -/
  single : ∀ (name : LaneName) (lane : Lane M), s.lanes.get? name = some lane →
    ∀ (id : OperationId) (info : OperationMeta),
      s.shared.stored.operationMetas.get? id = some info → info.lane = name →
        s.shared.stored.currentId name = some id
  /-- No id is admitted twice. -/
  once : s.admitted.Nodup
  /-- An admission that failed, but for a fault, has not changed the stored values. -/
  unchanged : ∀ (name : LaneName) (lane : Lane M) (index : Nat) (call : Call M)
    (error : HarnessError), s.lanes.get? name = some lane → lane.calls[index]? = some call →
      (name, index) ∉ s.dropped → call.phase = .returned (.failed error) →
        isFaultSealed error = false → (name, index) ∉ s.writers
  /-- While no admission is in progress memory has the operation that is stored as current. -/
  agrees : ∀ (name : LaneName) (lane : Lane M), s.lanes.get? name = some lane →
    lane.dataLock = none → s.shared.fault = none →
      (∀ call ∈ lane.calls, call.phase.hasReturned = true) →
        lane.data.operationId = s.shared.stored.currentId name

/-- No admission is dropped between its reservation and its commit, and no operation is settled
while a committed admission of its lane is yet to be published or another operation is
remembered. -/
def Careful (s : HarnessRuntime M) : HarnessEvent M → Prop
  | .drop name index => ∀ (lane : Lane M) (call : Call M), s.lanes.get? name = some lane →
      lane.calls[index]? = some call → call.phase.reserves = true →
        lane.data.operationId ≠ call.phase.owns
  | .drive name _ => ∀ (lane : Lane M) (drive : Drive M), s.lanes.get? name = some lane →
      lane.drive = some drive → ∀ publication performed writes next,
        drive.phase = .guarded publication performed writes next →
          (∀ call ∈ lane.calls, call.phase.isCommitted = false) ∧
            ∀ id, lane.data.operationId = some id → publication.ends id = true
  | _ => True

end HarnessRuntime

end PiOxidized.Harness.Runtime
