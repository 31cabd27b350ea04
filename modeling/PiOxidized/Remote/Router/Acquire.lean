/-
# Acquiring a hosted session

A caller that finds no handle of a session hosted looks for one being opened; it waits for that
one, or opens one itself.  Both maps are looked at under locks of their own, so every access is
one step, and so is the creation of a wait future.  A notifier wakes the futures created before
it fires.

Between its two looks a caller can miss a handle that has just been hosted, and between finding
an opening and creating the future it can miss the only notification.
-/

import PiOxidized.Math.Slots
import PiOxidized.Math.Transition

namespace PiOxidized.Remote

open Math

namespace SessionRouter

/-- What an `acquire` call comes to: the handle it returns, or an error. -/
inductive Acquired
  | hosted (handle : Nat)
  | failed
  deriving DecidableEq

/-- How far an `acquire` call has got. -/
inductive AcquirePhase
  | entered
  /-- Nothing was hosted. -/
  | missed
  /-- An opening is under way; the future that waits for it is not created yet. -/
  | found (opening : Nat)
  | watching (opening since : Nat)
  /-- Its own opening is in the map; the host resolves the session. -/
  | resolving (opening : Nat)
  /-- The host opens the session. -/
  | asked (opening : Nat)
  /-- The host has opened it; it is not hosted yet. -/
  | opened (opening handle : Nat)
  /-- The opening is still to be taken out of the map. -/
  | finishing (opening : Nat) (result : Acquired)
  /-- What was returned, and what was hosted at that moment. -/
  | returned (result : Acquired) (hosted : Option Nat)
  deriving DecidableEq

structure AcquireCall where
  session : String
  phase : AcquirePhase
  deriving DecidableEq

/-- How far a removal of a session has got. -/
inductive RemovalPhase
  | entered
  /-- Found the handle; its attachments are released and it is closed. -/
  | closing (handle : Nat)
  /-- About to see whether the handle is still hosted. -/
  | closed (handle : Nat)
  /-- It was; about to take whatever is hosted out of the map. -/
  | removing
  | returned
  deriving DecidableEq

structure RemovalCall where
  session : String
  phase : RemovalPhase
  deriving DecidableEq

/-- The maps of the router, the calls under way, and what should not have happened. -/
structure Hosting where
  hosted : String → Option Nat := fun _ => none
  openings : String → Option Nat := fun _ => none
  closing : Bool := false
  /-- How many openings there were. -/
  opened : Nat := 0
  /-- How often the notifier of each opening has fired. -/
  done : Nat → Nat := fun _ => 0
  /-- The session of each handle that was opened. -/
  handles : List String := []
  /-- The handles the router has closed. -/
  closedHandles : List Nat := []
  acquires : List AcquireCall := []
  removals : List RemovalCall := []
  /-- The sessions opened while one was hosted or being opened. -/
  clashes : List String := []
  /-- The handles another one was put in place of. -/
  overwritten : List Nat := []

/-- What the host answers. -/
inductive HostAnswer
  | ok
  | error
  deriving DecidableEq

inductive HostingEvent
  | acquire (session : String)
  /-- The next section of an `acquire` call; the host answers as given where it is asked. -/
  | advance (call : Nat) (answer : HostAnswer)
  /-- The scope of a waiting call is cancelled. -/
  | cancel (call : Nat)
  | remove (session : String)
  | advanceRemoval (call : Nat)
  /-- A handle has terminated. -/
  | invalidate (handle : Nat)
  | close
  /-- The close of the router closes the handles it finds and forgets them. -/
  | clear
  deriving DecidableEq

namespace AcquirePhase

/-- The opening a call has put into the map. -/
def owns : AcquirePhase → Option Nat
  | resolving opening => some opening
  | asked opening => some opening
  | opened opening _ => some opening
  | finishing opening _ => some opening
  | _ => none

/-- Whether the host has been asked to open the session and the handle is not hosted yet. -/
def opens : AcquirePhase → Bool
  | asked _ => true
  | opened _ _ => true
  | _ => false

end AcquirePhase

namespace Hosting

/-- Move a call on. -/
def put (s : Hosting) (index : Nat) (call : AcquireCall) (phase : AcquirePhase) : Hosting :=
  { s with acquires := s.acquires.set index { call with phase := phase } }

/-- Whether a handle of the session is hosted or being opened. -/
def taken (s : Hosting) (session : String) : Bool := (s.hosted session).isSome ||
    s.acquires.any fun call => call.session = session && call.phase.opens

/-- Ask the host to open the session. -/
def callOpen (s : Hosting) (session : String) : Hosting :=
  { s with clashes := if s.taken session then s.clashes ++ [session] else s.clashes }

/-- Host a handle, in place of what is hosted. -/
def host (s : Hosting) (session : String) (handle : Nat) : Hosting := { s with
    hosted := Function.update s.hosted session (some handle)
    overwritten := s.overwritten ++ (s.hosted session).toList }

/-- Take an opening out of the map and wake who waits for it. -/
def completeOpening (s : Hosting) (session : String) : Hosting := match s.openings session with
  | none => s
  | some opening =>
    { s with
      openings := Function.update s.openings session none
      done := Function.update s.done opening (s.done opening + 1) }

/-- The next section of an `acquire` call. -/
def acquireStep (s : Hosting) (index : Nat) (call : AcquireCall) (answer : HostAnswer) :
    Option Hosting :=
  match call.phase with
  | .entered =>
    match s.hosted call.session with
    | some handle => some (s.put index call (.returned (.hosted handle) (some handle)))
    | none => some (s.put index call .missed)
  | .missed =>
    match s.openings call.session with
    | some opening => some (s.put index call (.found opening))
    | none =>
      some ({ s with
        openings := Function.update s.openings call.session (some s.opened)
        opened := s.opened + 1 }.put index call (.resolving s.opened))
  | .found opening => some (s.put index call (.watching opening (s.done opening)))
  | .watching opening since =>
    if since < s.done opening then some (s.put index call .entered) else none
  | .resolving opening =>
    match answer with
    | .error => some (s.put index call (.finishing opening .failed))
    | .ok => some ((s.callOpen call.session).put index call (.asked opening))
  | .asked opening =>
    match answer with
    | .error => some (s.put index call (.finishing opening .failed))
    | .ok =>
      some ({ s with handles := s.handles ++ [call.session] }.put index call
        (.opened opening s.handles.length))
  | .opened opening handle =>
    if s.closing then
      some ({ s with closedHandles := s.closedHandles ++ [handle] }.put index call
        (.finishing opening .failed))
    else
      some ((s.host call.session handle).put index call (.finishing opening (.hosted handle)))
  | .finishing _ result =>
    some ((s.completeOpening call.session).put index call
      (.returned result (s.hosted call.session)))
  | .returned _ _ => none

/-- Move a removal on. -/
def putRemoval (s : Hosting) (index : Nat) (call : RemovalCall) (phase : RemovalPhase) : Hosting :=
  { s with removals := s.removals.set index { call with phase := phase } }

/-- The next section of a removal. -/
def removalStep (s : Hosting) (index : Nat) (call : RemovalCall) : Option Hosting :=
  match call.phase with
  | .entered =>
    if s.closing then some (s.putRemoval index call .returned)
    else
      match s.hosted call.session with
      | none => some (s.putRemoval index call .returned)
      | some handle => some (s.putRemoval index call (.closing handle))
  | .closing handle =>
    some ({ s with closedHandles := s.closedHandles ++ [handle] }.putRemoval index call
      (.closed handle))
  | .closed handle =>
    some (s.putRemoval index call
      (if s.hosted call.session = some handle then .removing else .returned))
  | .removing =>
    some ({ s with hosted := Function.update s.hosted call.session none }.putRemoval index call
      .returned)
  | .returned => none

/-- One section, one answer of the host or one wake-up. -/
def step (s : Hosting) : HostingEvent → Option Hosting
  | .acquire session =>
    some { s with acquires := s.acquires ++ [{ session := session, phase := .entered }] }
  | .advance index answer =>
    match s.acquires[index]? with
    | none => none
    | some call => s.acquireStep index call answer
  | .cancel index =>
    match s.acquires[index]? with
    | none => none
    | some call =>
      match call.phase with
      | .watching _ _ => some (s.put index call (.returned .failed (s.hosted call.session)))
      | _ => none
  | .remove session =>
    some { s with removals := s.removals ++ [{ session := session, phase := .entered }] }
  | .advanceRemoval index =>
    match s.removals[index]? with
    | none => none
    | some call => s.removalStep index call
  | .invalidate handle =>
    match s.handles[handle]? with
    | none => none
    | some session =>
      if s.hosted session = some handle then
        some { s with hosted := Function.update s.hosted session none }
      else some s
  | .close => some { s with closing := true }
  | .clear =>
    if s.closing then
      some { s with
        hosted := fun _ => none
        closedHandles := s.closedHandles ++ (List.range s.handles.length).filter fun handle =>
            s.handles[handle]?.any fun session => s.hosted session = some handle }
    else none

/-- A router without sessions. -/
def machine : Machine Hosting HostingEvent where
  start s := s = {}
  step := step

end Hosting

end SessionRouter

end PiOxidized.Remote
