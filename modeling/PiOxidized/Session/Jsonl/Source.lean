/-
# Opening and forking one session file

Calls of the repository on one session: those that open it, commit to it, close it and
fork it.  The map of open sessions holds at most one handle for it, and a call that opens
it reserves its id first; a fork of a session that is not open reads the file without a
reservation.  Reading a file and replacing a torn one are two steps.

A step is a section under a lock, a read of the file, an append or a replacement of the
file, which includes writing its temporary copy.
-/

import PiOxidized.Math.Slots
import PiOxidized.Session.Fork
import PiOxidized.Session.Jsonl.Reopened

namespace PiOxidized.Session.Jsonl.Source

open Math InMemoryStorageState

/-- A handle that was entered in the map, with the commits that were admitted and have not run and
the number of forks that hold a permit. -/
structure OpenStorage where
  storage : JsonlStorage
  closed : Bool
  admitted : List Commit
  permits : Nat

/-- How far a call that opens the session has got. -/
inductive OpenCall
  /-- About to look the session up in the map. -/
  | checking
  | reserving
  | reading
  /-- About to replace a torn file by its complete lines. -/
  | repairing (loaded : JsonlStorage)
  /-- About to enter the handle in the map. -/
  | publishing (loaded : JsonlStorage)
  /-- About to give up the reservation. -/
  | releasing
  | returned

/-- How far a call that forks the session has got in capturing its source. -/
inductive ForkCall
  /-- About to look the session up in the map. -/
  | checking
  /-- About to take a permit of an open handle. -/
  | admitting (handle : Nat)
  /-- About to copy the index of an open handle. -/
  | capturing (handle : Nat)
  | reading
  /-- About to replace a torn file, as it was read, by its complete lines. -/
  | repairing (loaded : JsonlStorage) (read : List UInt8)
  | captured (snapshot : ForkSourceSnapshot Json)
  | failed

/-- One session of the repository.  The reservation names the call that holds it; the file at the
start and the batches of the commits that returned are only remembered. -/
structure SessionFile where
  file : List UInt8
  opened : List OpenStorage
  current : Option Nat
  pending : Option Nat
  opens : List OpenCall
  forks : List ForkCall
  initial : List UInt8
  acknowledged : List (List (CommittedWrite Json))

inductive Event
  /-- A call to open the session starts. -/
  | callOpen
  /-- A call to open the session takes its next step, minting ids if it reads a legacy file. -/
  | stepOpen (index : Nat) (mint : Nat → String)
  | callFork
  | stepFork (index : Nat) (mint : Nat → String)
  /-- A commit is admitted. -/
  | admitCommit (handle : Nat) (commit : Commit)
  /-- An admitted commit runs under the lock of the index. -/
  | runCommit (handle position : Nat)
  /-- A handle stops admitting. -/
  | close (handle : Nat)
  /-- A closed handle with nothing left to run leaves the map. -/
  | detach (handle : Nat)

namespace SessionFile

def setOpen (s : SessionFile) (index : Nat) (call : OpenCall) : SessionFile :=
  { s with opens := s.opens.set index call }

def setFork (s : SessionFile) (index : Nat) (call : ForkCall) : SessionFile :=
  { s with forks := s.forks.set index call }

def setOpened (s : SessionFile) (handle : Nat) (o : OpenStorage) : SessionFile :=
  { s with opened := s.opened.set handle o }

/-- One step of a call that opens the session. -/
def stepOpen (codecs : Codecs) (s : SessionFile) (index : Nat) (mint : Nat → String) :
    OpenCall → Option SessionFile
  | .checking => some (s.setOpen index (if s.current.isSome then .returned else .reserving))
  | .reserving =>
    if s.current.isSome || s.pending.isSome then some (s.setOpen index .returned)
    else some { s.setOpen index .reading with pending := some index }
  | .reading =>
    match openSync codecs mint s.file with
    | .error _ => some (s.setOpen index .releasing)
    | .ok loaded =>
      -- Opening asks for another file only when this one is torn.
      if loaded.file = s.file then some (s.setOpen index (.publishing loaded))
      else some (s.setOpen index (.repairing loaded))
  | .repairing loaded => some { s.setOpen index (.publishing loaded) with file := loaded.file }
  | .publishing loaded =>
    if s.current.isSome then some (s.setOpen index .releasing)
    else
      some { s.setOpen index .releasing with
          opened := s.opened ++ [⟨loaded, false, [], 0⟩]
          current := some s.opened.length }
  | .releasing => some { s.setOpen index .returned with pending := none }
  | .returned => none

/-- One step of a call that forks the session. -/
def stepFork (codecs : Codecs) (s : SessionFile) (index : Nat) (mint : Nat → String) :
    ForkCall → Option SessionFile
  | .checking =>
    match s.current with
    | some handle => some (s.setFork index (.admitting handle))
    | none => some (s.setFork index .reading)
  | .admitting handle =>
    match s.opened[handle]? with
    | none => none
    | some o =>
      if o.closed then some (s.setFork index .failed)
      else
        some ((s.setFork index (.capturing handle)).setOpened handle
          { o with permits := o.permits + 1 })
  | .capturing handle =>
    match s.opened[handle]? with
    | none => none
    | some o =>
      some ((s.setFork index (.captured o.storage.state.snapshotForFork)).setOpened handle
        { o with permits := o.permits - 1 })
  | .reading =>
    match openSync codecs mint s.file with
    | .error _ => some (s.setFork index .failed)
    | .ok loaded =>
      if loaded.file = s.file then
        some (s.setFork index (.captured loaded.state.snapshotForFork))
      else some (s.setFork index (.repairing loaded s.file))
  | .repairing loaded _ =>
    some { s.setFork index (.captured loaded.state.snapshotForFork) with file := loaded.file }
  | .captured _ => none
  | .failed => none

/-- An admitted commit runs on the index of its handle and on the file. -/
def runCommit (codecs : Codecs) (s : SessionFile) (handle position : Nat) (o : OpenStorage)
    (commit : Commit) : SessionFile :=
  let before := { o.storage with file := s.file }
  let outcome := before.commitSync codecs commit.writes commit.now commit.usageId commit.disk
  { s.setOpened handle
      { o with storage := outcome.2, admitted := o.admitted.eraseIdx position } with
    file := outcome.2.file
    acknowledged := match outcome.1 with
      | .ok _ => s.acknowledged ++ [before.proposed commit]
      | .error _ => s.acknowledged }

def step (codecs : Codecs) (s : SessionFile) : Event → Option SessionFile
  | .callOpen => some { s with opens := s.opens ++ [.checking] }
  | .stepOpen index mint => s.opens[index]?.bind (s.stepOpen codecs index mint)
  | .callFork => some { s with forks := s.forks ++ [.checking] }
  | .stepFork index mint => s.forks[index]?.bind (s.stepFork codecs index mint)
  | .admitCommit handle commit =>
    s.opened[handle]?.bind fun o =>
      if o.closed then none
      else some (s.setOpened handle { o with admitted := o.admitted ++ [commit] })
  | .runCommit handle position =>
    s.opened[handle]?.bind fun o =>
      o.admitted[position]?.map (s.runCommit codecs handle position o)
  | .close handle =>
    s.opened[handle]?.map fun o => s.setOpened handle { o with closed := true }
  | .detach handle =>
    s.opened[handle]?.bind fun o =>
      if o.closed && o.admitted.isEmpty && o.permits == 0 then
        some { s with current := if s.current = some handle then none else s.current }
      else none

/-- A session that is not open, with any file. -/
def Starts (s : SessionFile) : Prop := ∃ file, s = ⟨file, [], none, none, [], [], file, []⟩

def machine (codecs : Codecs) : Machine SessionFile Event where
  start := Starts
  step := step codecs

end SessionFile

end PiOxidized.Session.Jsonl.Source
