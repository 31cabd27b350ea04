/-
# Attachments of clients

The calls of one client run one after another; releases, removals of sessions and the
invalidation of terminated handles run beside them.  A switch releases the old attachment without
telling the client, and tells it of the new one when it is entered; whoever begins the release of
an attachment decides for all who wait for it whether the client is told.

A removal works on the attachments it finds when it looks, and forgets the session last; an
attachment is listed in its session before the session is looked up again, and entered for its
client after that.
-/

import PiOxidized.Math.Slots
import PiOxidized.Math.Transition

namespace PiOxidized.Remote

open Math Function

namespace SessionRouter

structure ClientAttachment where
  client : Nat
  handle : Nat
  deriving DecidableEq

/-- How far the release of an attachment has got. -/
inductive ReleasePhase
  | begun
  /-- The lease is released, or could not be. -/
  | released
  /-- Out of the attachments of its session. -/
  | unlisted
  /-- Not entered for its client any more; whether it was is kept. -/
  | cleared (removed : Bool)
  | done
  deriving DecidableEq

structure ReleaseTask where
  /-- Whether the client is told. -/
  publish : Bool
  failed : Bool := false
  phase : ReleasePhase := .begun
  deriving DecidableEq

/-- How far a call of a client has got.  A call that attaches keeps the attachment it dropped. -/
inductive CallPhase
  | queued
  | acquiring (old : Option Nat)
  | acquired (old : Option Nat) (handle : Nat)
  | releasing (old handle : Nat)
  | attaching (dropped : Option Nat) (handle : Nat)
  | attached (dropped : Option Nat) (attachment : Nat)
  /-- In the attachments of its session. -/
  | inserted (dropped : Option Nat) (attachment : Nat)
  /-- The session was still hosted by the same handle. -/
  | current (dropped : Option Nat) (attachment : Nat)
  /-- Entered for the client, who is not told yet. -/
  | entered (attachment : Nat)
  /-- The session was not hosted any more; the new attachment is released. -/
  | discarding (attachment : Nat)
  /-- A detach that found an attachment. -/
  | leaving (attachment : Nat)
  | detaching (attachment : Nat)
  | returned (ok : Bool)
  deriving DecidableEq

/-- An attach to a session, or a detach. -/
structure ClientCall where
  client : Nat
  session : Option String
  phase : CallPhase := .queued
  deriving DecidableEq

inductive SweepPhase
  | entered
  /-- Found the handle; its attachments are not looked at yet. -/
  | found
  | releasing (todo : List Nat)
  | closing
  | closed
  /-- The handle was still hosted; about to take whatever is hosted out of the map. -/
  | removing
  | returned
  deriving DecidableEq

/-- The removal of a session, or the invalidation of a terminated handle. -/
structure Sweep where
  removal : Bool
  session : String
  handle : Option Nat
  /-- The attachments found. -/
  snapshot : Option (List Nat) := none
  phase : SweepPhase := .entered
  deriving DecidableEq

structure Attaching where
  hosted : String → Option Nat := fun _ => none
  /-- The session of each handle that was opened. -/
  handles : List String := []
  created : List ClientAttachment := []
  /-- The attachments of a hosted handle, by client. -/
  attachments : Nat × Nat → Option Nat := fun _ => none
  attachmentsByClient : Nat → Option Nat := fun _ => none
  releases : Nat → Option ReleaseTask := fun _ => none
  /-- The last attachment published to a client. -/
  told : Nat → Option Nat := fun _ => none
  calls : List ClientCall := []
  sweeps : List Sweep := []

/-- What the host, or `acquire`, answers. -/
inductive AttachAnswer
  | ok
  /-- The session was not hosted, and was opened. -/
  | opened
  | error
  deriving DecidableEq

inductive AttachEvent
  | attach (client : Nat) (session : String)
  | detach (client : Nat)
  /-- The next section of a call of a client. -/
  | advance (call : Nat) (answer : AttachAnswer)
  | advanceRelease (attachment : Nat) (answer : AttachAnswer)
  | remove (session : String)
  /-- A handle has terminated. -/
  | invalidate (handle : Nat)
  | advanceSweep (sweep : Nat)
  deriving DecidableEq

/-- Whether a call has returned. -/
def CallPhase.finished : CallPhase → Bool
  | returned _ => true
  | _ => false

/-- Whether an attachment is not entered for its client any more. -/
def ReleasePhase.past : ReleasePhase → Bool
  | cleared _ | done => true
  | _ => false

namespace Attaching

def put (s : Attaching) (index : Nat) (call : ClientCall) (phase : CallPhase) : Attaching :=
  { s with calls := s.calls.set index { call with phase := phase } }

/-- The session an attachment is to. -/
def sessionOf (s : Attaching) (attachment : Nat) : Option String :=
  (s.created[attachment]?).bind fun found => s.handles[found.handle]?

/-- Whether the release of an attachment is over. -/
def released (s : Attaching) (attachment : Nat) : Bool :=
  (s.releases attachment).any fun task => task.phase = .done

/-- Whether an attachment was taken from its client. -/
def cleared (s : Attaching) (attachment : Nat) : Bool :=
  (s.releases attachment).any fun task => task.phase.past

/-- Begin the release of an attachment, unless it is under way. -/
def beginRelease (s : Attaching) (attachment : Nat) (publish : Bool) : Attaching :=
  match s.releases attachment with
  | some _ => s
  | none =>
    { s with releases := update s.releases attachment (some { publish := publish }) }

/-- Whether a call is the next one of its client. -/
def isNext (s : Attaching) (index client : Nat) : Bool :=
  (s.calls.take index).all fun call => call.client ≠ client || call.phase.finished

/-- The host makes an attachment. -/
def create (s : Attaching) (attachment : ClientAttachment) : Attaching :=
  { s with created := s.created ++ [attachment] }

/-- The next section of a call. -/
def callStep (s : Attaching) (index : Nat) (call : ClientCall) (answer : AttachAnswer) :
    Option Attaching :=
  match call.phase with
  | .queued =>
    if s.isNext index call.client then
      match call.session, s.attachmentsByClient call.client with
      | some _, none => some (s.put index call (.acquiring none))
      | some session, some old =>
        if s.sessionOf old = some session then some (s.put index call (.returned true))
        else some (s.put index call (.acquiring (some old)))
      | none, none => some (s.put index call (.returned true))
      | none, some old => some (s.put index call (.leaving old))
    else none
  | .acquiring old =>
    match call.session, answer with
    | none, _ => none
    | some session, .ok =>
      match s.hosted session with
      | none => none
      | some handle => some (s.put index call (.acquired old handle))
    | some session, .opened =>
      some ({ s with
        hosted := update s.hosted session (some s.handles.length)
        handles := s.handles ++ [session] }.put index call (.acquired old s.handles.length))
    | some _, .error => some (s.put index call (.returned false))
  | .acquired none handle => some (s.put index call (.attaching none handle))
  | .acquired (some old) handle =>
    some ((s.beginRelease old false).put index call (.releasing old handle))
  | .releasing old handle =>
    match s.releases old with
    | none => none
    | some task =>
      if task.phase = .done then
        if task.failed then some (s.put index call (.returned false))
        else some (s.put index call (.attaching (some old) handle))
      else none
  | .attaching dropped handle =>
    match answer with
    | .ok =>
      some ((s.create { client := call.client, handle := handle }).put index call
        (.attached dropped s.created.length))
    | .opened => none
    | .error => some (s.put index call (.returned false))
  | .attached dropped attachment =>
    match s.created[attachment]? with
    | none => none
    | some found =>
      some ({ s with
        attachments := update s.attachments (found.handle, call.client)
          (some attachment) }.put index call (.inserted dropped attachment))
  | .inserted dropped attachment =>
    match s.created[attachment]? with
    | none => none
    | some found =>
      if (s.handles[found.handle]?).bind s.hosted = some found.handle then
        some (s.put index call (.current dropped attachment))
      else some ((s.beginRelease attachment false).put index call (.discarding attachment))
  | .current _ attachment =>
    some ({ s with
      attachmentsByClient := update s.attachmentsByClient call.client
        (some attachment) }.put index call (.entered attachment))
  | .entered attachment =>
    some ({ s with told := update s.told call.client (some attachment) }.put index call
      (.returned true))
  | .discarding attachment =>
    if s.released attachment then some (s.put index call (.returned false)) else none
  | .leaving attachment =>
    some ((s.beginRelease attachment true).put index call (.detaching attachment))
  | .detaching attachment =>
    match s.releases attachment with
    | none => none
    | some task =>
      if task.phase = .done then some (s.put index call (.returned (!task.failed))) else none
  | .returned _ => none

/-- Move a release on. -/
def putRelease (s : Attaching) (attachment : Nat) (task : ReleaseTask) : Attaching :=
  { s with releases := update s.releases attachment (some task) }

/-- The next section of a release. -/
def releaseStep (s : Attaching) (attachment : Nat) (found : ClientAttachment) (task : ReleaseTask)
    (answer : AttachAnswer) : Option Attaching :=
  match task.phase with
  | .begun =>
    some (s.putRelease attachment { task with phase := .released, failed := answer = .error })
  | .released =>
    some ({ s with
      attachments := update s.attachments (found.handle, found.client)
        none }.putRelease attachment { task with phase := .unlisted })
  | .unlisted =>
    if s.attachmentsByClient found.client = some attachment then
      some ({ s with
        attachmentsByClient := update s.attachmentsByClient found.client
          none }.putRelease attachment { task with phase := .cleared true })
    else some (s.putRelease attachment { task with phase := .cleared false })
  | .cleared removed =>
    if removed && task.publish then
      some ({ s with told := update s.told found.client none }.putRelease attachment
        { task with phase := .done })
    else some (s.putRelease attachment { task with phase := .done })
  | .done => none

def putSweep (s : Attaching) (index : Nat) (sweep : Sweep) : Attaching :=
  { s with sweeps := s.sweeps.set index sweep }

/-- The attachments of a handle. -/
def attachmentsOf (s : Attaching) (handle : Nat) : List Nat :=
  (List.range s.created.length).filter fun attachment =>
    s.created[attachment]?.any fun found =>
      found.handle = handle && s.attachments (handle, found.client) = some attachment

/-- The next section of a removal or of an invalidation.  A removal begins all releases at once,
an invalidation one after another. -/
def sweepStep (s : Attaching) (index : Nat) (sweep : Sweep) : Option Attaching :=
  match sweep.phase, sweep.handle, sweep.snapshot with
  | .entered, handle, _ =>
    if sweep.removal then
      match s.hosted sweep.session with
      | none => some (s.putSweep index { sweep with phase := .returned })
      | some found => some (s.putSweep index { sweep with handle := some found, phase := .found })
    else if s.hosted sweep.session = handle then
      some ({ s with hosted := update s.hosted sweep.session none }.putSweep index
        { sweep with phase := .found })
    else some (s.putSweep index { sweep with phase := .returned })
  | .found, some handle, _ =>
    some (s.putSweep index { sweep with
      snapshot := some (s.attachmentsOf handle)
      phase := .releasing (s.attachmentsOf handle) })
  | .releasing (attachment :: todo), _, some snapshot =>
    if sweep.removal ||
        snapshot.all fun other => (attachment :: todo).contains other || s.released other then
      some ((s.beginRelease attachment true).putSweep index { sweep with phase := .releasing todo })
    else none
  | .releasing [], _, some snapshot =>
    if snapshot.all s.released then
      some (s.putSweep index { sweep with phase := if sweep.removal then .closing else .returned })
    else none
  | .closing, _, _ => some (s.putSweep index { sweep with phase := .closed })
  | .closed, handle, _ =>
    some (s.putSweep index
      { sweep with phase := if s.hosted sweep.session = handle then .removing else .returned })
  | .removing, _, _ =>
    some ({ s with hosted := update s.hosted sweep.session none }.putSweep index
      { sweep with phase := .returned })
  | _, _, _ => none

/-- A call, one section, or an answer of the host. -/
def step (s : Attaching) : AttachEvent → Option Attaching
  | .attach client session =>
    some { s with calls := s.calls ++ [{ client := client, session := some session }] }
  | .detach client =>
    some { s with calls := s.calls ++ [{ client := client, session := none }] }
  | .advance index answer =>
    match s.calls[index]? with
    | none => none
    | some call => s.callStep index call answer
  | .advanceRelease attachment answer =>
    match s.created[attachment]?, s.releases attachment with
    | some found, some task => s.releaseStep attachment found task answer
    | _, _ => none
  | .remove session =>
    some { s with sweeps := s.sweeps ++ [{ removal := true, session := session, handle := none }] }
  | .invalidate handle =>
    match s.handles[handle]? with
    | none => none
    | some session =>
      some { s with
        sweeps := s.sweeps ++ [{ removal := false, session := session, handle := some handle }] }
  | .advanceSweep index =>
    match s.sweeps[index]? with
    | none => none
    | some sweep => s.sweepStep index sweep

/-- A router without clients. -/
def machine : Machine Attaching AttachEvent where
  start s := s = {}
  step := step

end Attaching

end SessionRouter

end PiOxidized.Remote
