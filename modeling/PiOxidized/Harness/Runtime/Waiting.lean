/-
# Calls on one lane

Drives, aborts, waits for idle and admissions of one lane run concurrently.  A drive that finds
another one of its operation in charge waits for it and starts over; otherwise it takes charge,
runs the loop, gives the lane up and wakes who waits.  Each section under a lock is one step,
and so is the creation of each wait future, each wait and each wake-up.

A notifier wakes exactly the futures created before it fires: it counts how often it has fired,
and a future made at some count is ready once the count has passed it.
-/

import PiOxidized.Math.Transition
import PiOxidized.Harness.Runtime.Operation

namespace PiOxidized.Harness.Runtime

open Math

namespace Waiting

/-- What a drive call returns; a settled record is the one of the settlement with this number. -/
inductive DriveEnd
  | settled (record : Nat)
  | waitingRetry
  | waitingDeferred
  | laneBusy
  | operationMismatch
  /-- A hook, the storage or an invariant of the drive failed. -/
  | failed
  deriving DecidableEq

/-- How far a drive call has got. -/
inductive DrivePhase
  /-- An abort that has read the current operation and is about to request the cancellation. -/
  | requesting
  /-- About to look for a drive in charge. -/
  | entered
  /-- Saw its operation driven; the wait future is not created yet. -/
  | joining (controller : Nat)
  | joined (controller since : Nat)
  /-- Saw nobody in charge and is about to take charge. -/
  | installing
  /-- In charge, about to look at the current operation. -/
  | looking (controller : Nat)
  /-- In a procedure of the current operation. -/
  | working (controller : Nat)
  /-- The settlement is committed and its notifications are still to come. -/
  | settling (controller record : Nat)
  /-- The loop is over and the lane still to be given up. -/
  | finishing (controller : Nat) (result : DriveEnd)
  /-- The lane is given up and whoever joined still to be woken. -/
  | released (controller : Nat) (result : DriveEnd)
  /-- About to wake the waits for idle if nothing is current. -/
  | announced (result : DriveEnd)
  | returned (result : DriveEnd)
  deriving DecidableEq

structure DriveCall where
  operationId : OperationId
  phase : DrivePhase
  deriving DecidableEq

/-- The mark of a drive in charge. -/
structure DriveController where
  operationId : OperationId
  /-- The call it belongs to. -/
  call : Nat
  /-- How often it has woken whoever joined. -/
  done : Nat := 0
  deriving DecidableEq

/-- How far a wait for idle has got. -/
inductive WaitPhase
  | entered
  /-- The wait future is created. -/
  | watching (since : Nat)
  /-- Nothing was current. -/
  | checked (since : Nat)
  /-- The lane was busy. -/
  | parked (since : Nat)
  | returned
  deriving DecidableEq

/-- How far an admission has got. -/
inductive AcceptPhase
  | entered
  /-- The reservation is published in the memory of the lane. -/
  | reserved
  | accepted
  | rejected
  deriving DecidableEq

structure AcceptCall where
  operationId : OperationId
  phase : AcceptPhase := .entered
  deriving DecidableEq

/-- A settlement that was committed, with the drive calls of the operation pending then. -/
structure Settlement where
  operationId : OperationId
  call : Nat
  pending : List Nat
  deriving DecidableEq

structure Lane where
  /-- The current operation in memory. -/
  operation : Option OperationId := none
  activeDrive : Option Nat := none
  controllers : List DriveController := []
  /-- How often the waits for idle were woken. -/
  idle : Nat := 0
  drives : List DriveCall := []
  waits : List WaitPhase := []
  accepts : List AcceptCall := []
  /-- Oldest first. -/
  settlements : List Settlement := []
  deriving DecidableEq

/-- A step of a drive call; what procedures do is chosen by the run. -/
inductive DriveEvent
  | request
  | look
  /-- Create the wait future. -/
  | listen
  | wake
  | install
  | check
  /-- A procedure has moved the operation on. -/
  | progress
  /-- A procedure ends the loop without settling. -/
  | stop (result : DriveEnd)
  /-- Settle the operation; a navigation does not wake the waits for idle. -/
  | settle (wakes : Bool)
  | notify
  | release
  | announce
  | leave
  deriving DecidableEq

/-- A step of a wait for idle. -/
inductive WaitEvent
  | watch
  | checkOperation
  | checkDrive
  | wake
  deriving DecidableEq

/-- A step of an admission. -/
inductive AcceptEvent
  | reserve
  | commit
  /-- Give the reservation up before the commit. -/
  | undo
  deriving DecidableEq

inductive Event
  | drive (operationId : OperationId)
  | abort
  | advance (call : Nat) (event : DriveEvent)
  | waitForIdle
  | wait (call : Nat) (event : WaitEvent)
  | accept (operationId : OperationId)
  | admission (call : Nat) (event : AcceptEvent)
  deriving DecidableEq

/-- Whether a drive call has begun and not returned. -/
def DrivePhase.isPending : DrivePhase → Bool
  | requesting => false
  | returned _ => false
  | _ => true

namespace Lane

def putDrive (s : Lane) (index : Nat) (call : DriveCall) : Lane :=
  { s with drives := s.drives.set index call }

def putWait (s : Lane) (index : Nat) (phase : WaitPhase) : Lane :=
  { s with waits := s.waits.set index phase }

def putAccept (s : Lane) (index : Nat) (call : AcceptCall) : Lane :=
  { s with accepts := s.accepts.set index call }

/-- How often a controller has woken whoever joined it. -/
def doneOf (s : Lane) (controller : Nat) : Nat :=
  ((s.controllers[controller]?).map DriveController.done).getD 0

/-- The drive calls of an operation that have begun and not returned. -/
def pendingDrives (s : Lane) (operationId : OperationId) : List Nat :=
  (List.range s.drives.length).filter fun index =>
    (s.drives[index]?).any fun call => call.operationId == operationId && call.phase.isPending

/-! ## Drives -/

/-- Look for a drive in charge. -/
def look (s : Lane) (index : Nat) (call : DriveCall) : Lane := match s.activeDrive with
  | none => s.putDrive index { call with phase := .installing }
  | some controller =>
    if (s.controllers[controller]?).any fun found => found.operationId == call.operationId then
      s.putDrive index { call with phase := .joining controller }
    else s.putDrive index { call with phase := .returned .laneBusy }

/-- Take charge, unless another drive has done so. -/
def install (s : Lane) (index : Nat) (call : DriveCall) : Lane :=
  if s.activeDrive.isSome then s.putDrive index { call with phase := .entered }
  else
    { s.putDrive index { call with phase := .looking s.controllers.length } with
      controllers := s.controllers ++ [{ operationId := call.operationId, call := index }]
      activeDrive := some s.controllers.length }

/-- Wake whoever joined. -/
def announce (s : Lane) (controller : Nat) : Lane := match s.controllers[controller]? with
  | none => s
  | some found =>
    { s with controllers := s.controllers.set controller { found with done := found.done + 1 } }

/-- The settlement is committed and published in one section. -/
def settle (s : Lane) (index controller : Nat) (call : DriveCall) (wakes : Bool) : Lane :=
  let record := s.settlements.length
  { s.putDrive index { call with
      phase := if wakes then .settling controller record else .finishing controller (.settled record) } with
    operation := none
    settlements := s.settlements ++ [⟨call.operationId, index, s.pendingDrives call.operationId⟩] }

/-- The next section of a drive call. -/
def driveStep (s : Lane) (index : Nat) (call : DriveCall) : DriveEvent → Option Lane
  | .request =>
    match call.phase with
    | .requesting =>
      some (s.putDrive index { call with
        phase := if s.operation = some call.operationId then .entered
          else .returned .operationMismatch })
    | _ => none
  | .look =>
    match call.phase with
    | .entered => some (s.look index call)
    | _ => none
  | .listen =>
    match call.phase with
    | .joining controller =>
      some (s.putDrive index { call with phase := .joined controller (s.doneOf controller) })
    | _ => none
  | .wake =>
    match call.phase with
    | .joined controller since =>
      if since < s.doneOf controller then some (s.putDrive index { call with phase := .entered })
      else none
    | _ => none
  | .install =>
    match call.phase with
    | .installing => some (s.install index call)
    | _ => none
  | .check =>
    match call.phase with
    | .looking controller =>
      some (s.putDrive index { call with
        phase := if s.operation = some call.operationId then .working controller
          else .finishing controller .operationMismatch })
    | _ => none
  | .progress =>
    match call.phase with
    | .working controller =>
      some (s.putDrive index { call with
        phase := if s.operation.isSome then .looking controller
          else .finishing controller .failed })
    | _ => none
  | .stop result =>
    match call.phase, result with
    | .working _, .settled _ => none
    | .working controller, result =>
      some (s.putDrive index { call with phase := .finishing controller result })
    | _, _ => none
  | .settle wakes =>
    match call.phase with
    | .working controller => some (s.settle index controller call wakes)
    | _ => none
  | .notify =>
    match call.phase with
    | .settling controller record =>
      some { s.putDrive index { call with phase := .finishing controller (.settled record) } with
        idle := s.idle + 1 }
    | _ => none
  | .release =>
    match call.phase with
    | .finishing controller result =>
      some { s.putDrive index { call with phase := .released controller result } with
        activeDrive := if s.activeDrive = some controller then none else s.activeDrive }
    | _ => none
  | .announce =>
    match call.phase with
    | .released controller result =>
      some ((s.putDrive index { call with phase := .announced result }).announce controller)
    | _ => none
  | .leave =>
    match call.phase with
    | .announced result =>
      some { s.putDrive index { call with phase := .returned result } with
        idle := if s.operation.isNone then s.idle + 1 else s.idle }
    | _ => none

/-! ## Waits and admissions -/

/-- The next section of a wait for idle. -/
def waitStep (s : Lane) (index : Nat) (phase : WaitPhase) : WaitEvent → Option Lane
  | .watch =>
    match phase with
    | .entered => some (s.putWait index (.watching s.idle))
    | _ => none
  | .checkOperation =>
    match phase with
    | .watching since =>
      some (s.putWait index (if s.operation.isNone then .checked since else .parked since))
    | _ => none
  | .checkDrive =>
    match phase with
    | .checked since =>
      some (s.putWait index (if s.activeDrive.isNone then .returned else .parked since))
    | _ => none
  | .wake =>
    match phase with
    | .parked since => if since < s.idle then some (s.putWait index .entered) else none
    | _ => none

/-- Give a reservation up; a lane that has moved on is left alone. -/
def undo (s : Lane) (operationId : OperationId) : Lane :=
  { s with operation := if s.operation = some operationId then none else s.operation }

/-- The next section of an admission. -/
def acceptStep (s : Lane) (index : Nat) (call : AcceptCall) : AcceptEvent → Option Lane
  | .reserve =>
    match call.phase with
    | .entered =>
      if s.operation.isNone then
        some { s.putAccept index { call with phase := .reserved } with
          operation := some call.operationId }
      else some (s.putAccept index { call with phase := .rejected })
    | _ => none
  | .commit =>
    match call.phase with
    | .reserved =>
      some (s.putAccept index { call with
        phase := if s.operation = some call.operationId then .accepted else .rejected })
    | _ => none
  | .undo =>
    match call.phase with
    | .reserved => some ((s.putAccept index { call with phase := .rejected }).undo call.operationId)
    | _ => none

/-- One section, one wait or one wake-up. -/
def step (s : Lane) : Event → Option Lane
  | .drive operationId =>
    some { s with drives := s.drives ++ [{ operationId := operationId, phase := .entered }] }
  | .abort =>
    match s.operation with
    | none => none
    | some operationId =>
      some { s with drives := s.drives ++ [{ operationId := operationId, phase := .requesting }] }
  | .advance index event =>
    match s.drives[index]? with
    | none => none
    | some call => s.driveStep index call event
  | .waitForIdle => some { s with waits := s.waits ++ [.entered] }
  | .wait index event =>
    match s.waits[index]? with
    | none => none
    | some phase => s.waitStep index phase event
  | .accept operationId =>
    some { s with accepts := s.accepts ++ [{ operationId := operationId }] }
  | .admission index event =>
    match s.accepts[index]? with
    | none => none
    | some call => s.acceptStep index call event

/-- A lane nothing has happened on, with everything that can happen to it. -/
def machine : Machine Lane Event where
  start s := s = {}
  step := step

end Lane

end Waiting

end PiOxidized.Harness.Runtime
