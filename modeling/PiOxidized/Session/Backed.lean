/-
# Sessions over a storage backend

Calls on one session run concurrently.  A call takes the mutation lock, reads the
tip of its branch under it and hands the guard to a task that commits, so that a
caller that goes away does not take a started commit with it.  Closing seals the
session at once and closes the backend under the same lock.

Each call and its commit task stand in one slot.  A step is one section between
two points at which another call may run.
-/

import PiOxidized.Math.Slots
import PiOxidized.Math.Transition
import PiOxidized.Session.Coherence
import PiOxidized.Session.Fork

namespace PiOxidized.Session

open Math

/-- The session is closed. -/
def closedError : SessionError := .backend .closed "session storage is closed"

/-- The caller's cancellation token fired. -/
def abortedError : SessionError := .backend .aborted "operation cancelled"

/-- A stored payload that does not decode. -/
def corruptValue : SessionError := .backend .corrupt "stored value decode failed"

/-- What a caller asks of a session. -/
inductive Call (R : Type)
  | appendToBranch (branch : String) (body : NewEntryBody R)
  | createBranch (branch : String) (anchor : Option EntryId)
  deriving DecidableEq

/-- How far a caller has got. -/
inductive Caller (R : Type)
  /-- Past the checks of the call itself. -/
  | admitted
  /-- Waiting for the mutation lock. -/
  | queued
  /-- Holding the lock, before the session is checked again. -/
  | locked
  /-- Holding a mutation. -/
  | granted
  /-- A new branch whose name is free and whose anchor is still to be looked up. -/
  | anchoring
  /-- About to commit. -/
  | ready (writes : List (Write R))
  /-- Waiting for the commit task. -/
  | waiting
  | returned (result : Except SessionError EntryId)
  | dropped
  deriving DecidableEq

/-- A spawned commit, which holds the lock until it is finished. -/
inductive Task (R : Type)
  | running (writes : List (Write R))
  | committed (result : Except SessionError CommitResult)
  | finished (result : Except SessionError CommitResult)
  deriving DecidableEq

/-- A call with the id reserved for its entry and the commit task it spawned.
A call that creates a branch returns a handle, for which the id stands. -/
structure Slot (R : Type) where
  call : Call R
  id : EntryId
  caller : Caller R
  task : Option (Task R)
  deriving DecidableEq

/-- The one task that closes the backend. -/
inductive Closer
  | idle
  | waiting
  | holding
  | closing
  | completed
  deriving DecidableEq

/-- Who holds the mutation lock. -/
inductive Owner
  | slot (index : Nat)
  | closer
  deriving DecidableEq

/-- A session over the in-memory backend with everything in flight. -/
structure BackedSession (R : Type) where
  memory : InMemoryStorageState R
  /-- Whether the session is sealed. -/
  closed : Bool
  /-- Whether the backend is closed. -/
  storageClosed : Bool
  owner : Option Owner
  slots : List (Slot R)
  closer : Closer
  /-- Entries committed so far, with their branches, oldest first. -/
  log : List (String × EntryId)

/-- One step of a caller, a commit task or the closer. -/
inductive Event (R : Type)
  | call (call : Call R) (id : Except SessionError EntryId)
  | enqueue (index : Nat)
  | acquire (index : Nat)
  | recheck (index : Nat)
  | readTip (index : Nat)
  | readAnchor (index : Nat)
  | spawn (index : Nat)
  | commit (index : Nat) (now : Except SessionError Int)
  | release (index : Nat)
  | deliver (index : Nat)
  | drop (index : Nat)
  | abort (index : Nat)
  | sealSession
  | startClose
  | acquireClose
  | closeStorage
  | finishClose

section

variable {R : Type}

/-- Whether a body is an assistant message that is still pending. -/
def NewEntryBody.isPending : NewEntryBody R → Bool
  | message (.llm (.assistant stopReason _)) _ => stopReason == .pending
  | _ => false

/-- The checks of a call before it reaches for the lock. -/
def Call.validate : Call R → Except SessionError Unit
  | appendToBranch _ body => if body.isPending then .error .pendingAssistantMessage else .ok ()
  | createBranch branch _ => validateBranchName branch

/-- The branch a call is about. -/
def Call.branch : Call R → String
  | appendToBranch branch _ => branch
  | createBranch branch _ => branch

/-- The slot of a branch tip. -/
def tipSlot (branch : String) : String ×ₗ String := toLex ("pi.branch.tip", branch)

/-- Set the tip of a branch. -/
def setTip (codec : ValueCodec R) (branch : String) (tip : Option EntryId) : Write R :=
  .value (.set "pi.branch.tip" branch (codec.tip tip))

/-- The writes of an append. -/
def appendWrites (codec : ValueCodec R) (branch : String) (id : EntryId) (parent : Option EntryId)
    (body : NewEntryBody R) : List (Write R) :=
  [.entry ⟨id, parent, body⟩, setTip codec branch (some id)]

/-- Whether the caller itself holds the lock. -/
def Caller.holdsLock : Caller R → Bool
  | locked | granted | anchoring | ready _ => true
  | _ => false

/-- Whether the task holds the lock. -/
def Task.holdsLock : Task R → Bool
  | running _ | committed _ => true
  | finished _ => false

/-- Whether a call or its task holds the lock. -/
def Slot.holdsLock (slot : Slot R) : Bool := slot.caller.holdsLock || slot.task.any Task.holdsLock

/-- What a caller that has read the tip of its branch does next. -/
def Slot.afterTip (codec : ValueCodec R) (slot : Slot R) (stored : Option (RawStoredValue R)) :
    Except SessionError (Caller R) :=
  match stored with
  | none =>
    match slot.call with
    | .appendToBranch branch _ => .error (.invariant ("unknown branch: " ++ branch))
    | .createBranch branch none => .ok (.ready [setTip codec branch none])
    | .createBranch _ (some _) => .ok .anchoring
  | some stored =>
    match codec.readTip stored.value with
    | none => .error corruptValue
    | some parent =>
      match slot.call with
      | .appendToBranch branch body => .ok (.ready (appendWrites codec branch slot.id parent body))
      | .createBranch branch _ => .error (.branchExists branch)

/-- Entries a successful call has added to its branch. -/
def Slot.committed (slot : Slot R) : List (String × EntryId) := match slot.call with
  | .appendToBranch branch _ => [(branch, slot.id)]
  | .createBranch _ _ => []

namespace BackedSession

/-- A session over a memory. -/
def ofMemory (memory : InMemoryStorageState R) : BackedSession R where
  memory := memory
  closed := false
  storageClosed := false
  owner := none
  slots := []
  closer := .idle
  log := []

/-- Replace a slot. -/
def put (s : BackedSession R) (index : Nat) (slot : Slot R) : BackedSession R :=
  { s with slots := s.slots.set index slot }

/-- End a call that holds the lock with an error. -/
def fail (s : BackedSession R) (index : Nat) (slot : Slot R) (error : SessionError) :
    BackedSession R :=
  { s.put index { slot with caller := .returned (.error error) } with owner := none }

/-- Start a call. -/
def begin (s : BackedSession R) (call : Call R) (id : Except SessionError EntryId) :
    BackedSession R :=
  let start (id : EntryId) (caller : Caller R) : BackedSession R :=
    { s with slots := s.slots ++ [⟨call, id, caller, none⟩] }
  if s.closed then start "" (.returned (.error closedError))
  else
    match call.validate, id with
    | .error error, _ => start "" (.returned (.error error))
    | .ok (), .error error => start "" (.returned (.error error))
    | .ok (), .ok id => start id .admitted

/-- One step of the caller in a slot. -/
def callerStep (codec : ValueCodec R) (s : BackedSession R) (index : Nat) (slot : Slot R) :
    Event R → Option (BackedSession R)
  | .enqueue _ =>
    match slot.caller with
    | .admitted =>
      if s.closed then
        some (s.put index { slot with caller := .returned (.error closedError) })
      else some (s.put index { slot with caller := .queued })
    | _ => none
  | .acquire _ =>
    match slot.caller, s.owner with
    | .queued, none =>
      some { s.put index { slot with caller := .locked } with owner := some (.slot index) }
    | _, _ => none
  | .recheck _ =>
    match slot.caller with
    | .locked =>
      -- A close may have been admitted while this call queued on the lock.
      if s.closed then some (s.fail index slot closedError)
      else some (s.put index { slot with caller := .granted })
    | _ => none
  | .readTip _ =>
    match slot.caller with
    | .granted =>
      if s.storageClosed then some (s.fail index slot closedError)
      else
        match slot.afterTip codec (s.memory.values.get? (tipSlot slot.call.branch)) with
        | .error error => some (s.fail index slot error)
        | .ok caller => some (s.put index { slot with caller := caller })
    | _ => none
  | .readAnchor _ =>
    match slot.caller, slot.call with
    | .anchoring, .createBranch branch (some anchor) =>
      if s.storageClosed then some (s.fail index slot closedError)
      else if s.memory.entries.contains anchor then
        some (s.put index { slot with caller := .ready [setTip codec branch (some anchor)] })
      else some (s.fail index slot (.unknownTarget anchor))
    | _, _ => none
  | .spawn _ =>
    match slot.caller with
    | .ready writes =>
      some (s.put index { slot with caller := .waiting, task := some (.running writes) })
    | _ => none
  | .deliver _ =>
    match slot.caller, slot.task with
    | .waiting, some (.finished result) =>
      some (s.put index { slot with caller := .returned (result.map fun _ => slot.id) })
    | _, _ => none
  | .drop _ =>
    match slot.caller with
    | .returned _ | .dropped => none
    | _ =>
      some { s.put index { slot with caller := .dropped } with
          owner := if slot.caller.holdsLock then none else s.owner }
  | .abort _ =>
    match slot.caller with
    | .admitted => some (s.put index { slot with caller := .returned (.error abortedError) })
    | .locked | .granted | .anchoring | .ready _ => some (s.fail index slot abortedError)
    | _ => none
  | _ => none

/-- Commit the writes of a task. -/
def commit (s : BackedSession R) (index : Nat) (slot : Slot R) (writes : List (Write R))
    (now : Except SessionError Int) : BackedSession R :=
  let done (result : Except SessionError CommitResult) : Slot R :=
    { slot with task := some (.committed result) }
  if s.storageClosed then s.put index (done (.error closedError))
  else
    match now with
    | .error error => s.put index (done (.error error))
    | .ok timestamp =>
      match s.memory.apply writes timestamp with
      | (.error error, memory) => { s.put index (done (.error error)) with memory := memory }
      | (.ok result, memory) =>
        { s.put index (done (.ok result)) with
          memory := memory
          log := s.log ++ slot.committed }

/-- One step of the commit task in a slot. -/
def taskStep (s : BackedSession R) (index : Nat) (slot : Slot R) :
    Event R → Option (BackedSession R)
  | .commit _ now =>
    match slot.task with
    | some (.running writes) => some (s.commit index slot writes now)
    | _ => none
  | .release _ =>
    match slot.task with
    | some (.committed result) =>
      some { s.put index { slot with task := some (.finished result) } with owner := none }
    | _ => none
  | _ => none

/-- One step of the session. -/
def step (codec : ValueCodec R) (s : BackedSession R) (event : Event R) :
    Option (BackedSession R) :=
  match event with
  | .call call id => some (s.begin call id)
  | .enqueue index | .acquire index | .recheck index | .readTip index | .readAnchor index
  | .spawn index | .deliver index | .drop index | .abort index =>
    (s.slots[index]?).bind fun slot => s.callerStep codec index slot event
  | .commit index _ | .release index =>
    (s.slots[index]?).bind fun slot => s.taskStep index slot event
  | .sealSession => some { s with closed := true }
  | .startClose =>
    if s.closed && s.closer == .idle then some { s with closer := .waiting } else none
  | .acquireClose =>
    if s.closer == .waiting && s.owner.isNone then
      some { s with closer := .holding, owner := some .closer }
    else none
  | .closeStorage =>
    if s.closer == .holding then some { s with storageClosed := true, closer := .closing }
    else none
  | .finishClose =>
    if s.closer == .closing then some { s with closer := .completed, owner := none } else none

/-- Sessions over coherent memories. -/
def machine (codec : ValueCodec R) : Machine (BackedSession R) (Event R) where
  start := fun s => ∃ memory, InMemoryStorageState.Coherent memory ∧ s = ofMemory memory
  step := step codec

end BackedSession

end

end PiOxidized.Session
