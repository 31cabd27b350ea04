/-
# The repository of session files

Calls that create, open, fork and delete sessions.  A session that is open, or that a call
is creating, opening or deleting, is reserved under its key; its file lies at a path that
another key may share.

A step is a section under a lock or one operation on the file system.  Whether the call's
context is still alive, the repository has not been closed and the file system complies is
the answer to a step.  A file is what reading it gives.
-/

import PiOxidized.Math.Dict
import PiOxidized.Math.Ledger
import PiOxidized.Math.Slots
import PiOxidized.Math.Transition
import PiOxidized.Session.Jsonl.Paths

namespace PiOxidized.Session.Jsonl.Repo

open Math

/-- The session that the header names, if its first line is a header, whether the lines load, and
whether the file ends in a torn record. -/
structure SessionFile where
  header : Option Identity
  loads : Bool
  torn : Bool
  deriving DecidableEq

/-- What a caller knows a session by. -/
structure Metadata where
  identity : Identity
  path : SessionPath

/-- How far a call has got in making a new session. -/
inductive NewPhase
  | reserving
  /-- About to look for files that stand in the way. -/
  | resolving
  /-- About to put the file at the path. -/
  | publishing (path : SessionPath)
  /-- About to enter the session in the map. -/
  | registering (path : SessionPath)
  | discarding (path : SessionPath)
  | releasing
  | returned

/-- How far a call has got in loading a file. -/
inductive LoadPhase
  /-- About to put a stranded backup back. -/
  | restoring
  /-- About to check that the file exists and is the session's. -/
  | finding
  | reading
  /-- About to replace a torn file by its complete lines. -/
  | repairing (header : Identity)

inductive OpenPhase
  | checking
  | reserving
  | loading (phase : LoadPhase)
  | registering
  | releasing
  | returned

inductive ForkPhase
  | checking
  | loading (phase : LoadPhase)
  /-- The source was captured. -/
  | creating (phase : NewPhase)

inductive DeletePhase
  | checking
  | reserving
  | restoring
  | finding
  /-- About to read the header. -/
  | reading
  | removing
  | releasing
  | returned

inductive Call
  | create (identity : Identity) (createdAt : Int) (phase : NewPhase)
  | open (metadata : Metadata) (phase : OpenPhase)
  | fork (source : Metadata) (id : String) (createdAt : Int) (phase : ForkPhase)
  | delete (metadata : Metadata) (phase : DeletePhase)

/-- What a step meets. -/
inductive Answer
  | proceeds
  /-- The context was cancelled or the repository closed. -/
  | stopped
  /-- The file system refuses. -/
  | fails
  deriving DecidableEq

end Repo

open Math Repo in
/-- The files and their backups, the map of open sessions and the reserved keys.  A reserved key
names the call that reserved it; whether a new file took the place of another is only
remembered. -/
structure Repo where
  files : Dict SessionPath SessionFile
  backups : Dict SessionPath SessionFile
  opened : Dict String SessionPath
  pending : Dict String Nat
  calls : List Call
  replaced : Bool

namespace Repo

open Math

inductive Event
  | callCreate (identity : Identity) (createdAt : Int)
  | callOpen (metadata : Metadata)
  | callFork (source : Metadata) (id : String) (createdAt : Int)
  | callDelete (metadata : Metadata)
  | step (index : Nat) (answer : Answer)
  /-- An open session leaves the map. -/
  | close (key : String)
  /-- An open session writes to its file. -/
  | write (key : String) (loads torn : Bool)

def setCall (r : Repo) (index : Nat) (call : Call) : Repo :=
  { r with calls := r.calls.set index call }

/-- Reserve a key that is neither open nor reserved. -/
def reserveId (r : Repo) (index : Nat) (key : String) : Option Repo :=
  if r.opened.contains key || r.pending.contains key then none
  else some { r with pending := r.pending.insert key index }

def release (r : Repo) (key : String) : Repo := { r with pending := r.pending.erase key }

/-- Put the backup of a missing file back. -/
def restoreStrandedBackup (r : Repo) (path : SessionPath) : Repo :=
  match r.files.get? path, r.backups.get? path with
  | none, some backup =>
    { r with files := r.files.insert path backup, backups := r.backups.erase path }
  | _, _ => r

def removeFile (r : Repo) (path : SessionPath) : Repo := { r with files := r.files.erase path }

def removeBackup (r : Repo) (path : SessionPath) : Repo :=
  { r with backups := r.backups.erase path }

/-- Put a new file at a path, whatever is there. -/
def publish (r : Repo) (path : SessionPath) (identity : Identity) : Repo := { r with
    files := r.files.insert path ⟨some identity, true, false⟩
    replaced := r.replaced || r.files.contains path }

/-- Put the complete lines of a file at its path. -/
def repair (r : Repo) (path : SessionPath) (header : Identity) : Repo :=
  { r with files := r.files.insert path ⟨some header, true, false⟩ }

def publishOpen (r : Repo) (key : String) (path : SessionPath) : Repo :=
  { r with opened := r.opened.insert key path }

/-- Whether a file stands in the way of a new session. -/
def hasDuplicate (r : Repo) (identity : Identity) : Bool :=
  r.files.entries.any fun entry => duplicates identity entry.1

/-- What a step of loading leads to. -/
inductive Loading
  | goes (phase : LoadPhase)
  | loaded
  | failed

/-- A file that was loaded must have the header of the session. -/
def validated (metadata : Metadata) (header : Identity) : Loading :=
  if header = metadata.identity then .loaded else .failed

/-- One step of loading the file of a session. -/
def stepLoad (r : Repo) (metadata : Metadata) (answer : Answer) : LoadPhase → Repo × Loading
  | .restoring =>
    match answer with
    | .stopped => (r, .failed)
    -- A backup that cannot be put back is left for the next attempt.
    | .fails => (r, .goes .finding)
    | .proceeds => (r.restoreStrandedBackup metadata.path, .goes .finding)
  | .finding =>
    if answer = .proceeds ∧ r.files.contains metadata.path ∧
        ownsSessionPath metadata.identity metadata.path then (r, .goes .reading)
    else (r, .failed)
  | .reading =>
    if answer = .proceeds then
      let restored := r.restoreStrandedBackup metadata.path
      match restored.files.get? metadata.path with
      | some ⟨some header, true, torn⟩ =>
        if torn then (restored, .goes (.repairing header))
        else (restored, validated metadata header)
      | _ => (restored, .failed)
    else (r, .failed)
  | .repairing header =>
    if answer = .proceeds then (r.repair metadata.path header, validated metadata header)
    else (r, .failed)

section Steps

variable (isoFromMillis : Int → List Char)

/-- One step of making a new session. -/
def stepNew (r : Repo) (index : Nat) (identity : Identity) (createdAt : Int) (answer : Answer) :
    NewPhase → Option (Repo × NewPhase)
  | .reserving =>
    match answer, r.reserveId index identity.sessionKey with
    | .proceeds, some reserved => some (reserved, .resolving)
    | _, _ => some (r, .returned)
  | .resolving =>
    if answer = .proceeds ∧ ¬r.hasDuplicate identity then
      some (r, .publishing (newSessionPath isoFromMillis identity createdAt))
    else some (r, .releasing)
  | .publishing path =>
    match answer with
    | .proceeds => some (r.publish path identity, .registering path)
    | .stopped => some (r, .releasing)
    | .fails => some (r, .discarding path)
  | .registering path =>
    if answer = .proceeds ∧ ¬r.opened.contains identity.sessionKey then
      some (r.publishOpen identity.sessionKey path, .releasing)
    else some (r, .discarding path)
  | .discarding path =>
    if answer = .proceeds then some (r.removeFile path, .releasing) else some (r, .releasing)
  | .releasing => some (r.release identity.sessionKey, .returned)
  | .returned => none

/-- One step of opening a session. -/
def stepOpen (r : Repo) (index : Nat) (metadata : Metadata) (answer : Answer) :
    OpenPhase → Option (Repo × OpenPhase)
  | .checking =>
    if answer = .proceeds ∧ ¬r.opened.contains metadata.identity.sessionKey then
      some (r, .reserving)
    else some (r, .returned)
  | .reserving =>
    match r.reserveId index metadata.identity.sessionKey with
    | some reserved => some (reserved, .loading .restoring)
    | none => some (r, .returned)
  | .loading phase =>
    match r.stepLoad metadata answer phase with
    | (next, .goes phase) => some (next, .loading phase)
    | (next, .loaded) => some (next, .registering)
    | (next, .failed) => some (next, .releasing)
  | .registering =>
    if answer = .proceeds ∧ ¬r.opened.contains metadata.identity.sessionKey then
      some (r.publishOpen metadata.identity.sessionKey metadata.path, .releasing)
    else some (r, .releasing)
  | .releasing => some (r.release metadata.identity.sessionKey, .returned)
  | .returned => none

/-- One step of forking a session. -/
def stepFork (r : Repo) (index : Nat) (source : Metadata) (id : String) (createdAt : Int)
    (answer : Answer) : ForkPhase → Option (Repo × ForkPhase)
  | .checking =>
    if answer ≠ .proceeds then some (r, .creating .returned)
    else if r.opened.contains source.identity.sessionKey then some (r, .creating .reserving)
    else some (r, .loading .restoring)
  | .loading phase =>
    match r.stepLoad source answer phase with
    | (next, .goes phase) => some (next, .loading phase)
    | (next, .loaded) => some (next, .creating .reserving)
    | (next, .failed) => some (next, .creating .returned)
  | .creating phase =>
    (r.stepNew isoFromMillis index ⟨source.identity.cwd, id⟩ createdAt answer phase).map
      fun (next, phase) => (next, .creating phase)

/-- One step of deleting a session. -/
def stepDelete (r : Repo) (index : Nat) (metadata : Metadata) (answer : Answer) :
    DeletePhase → Option (Repo × DeletePhase)
  | .checking =>
    if answer = .proceeds ∧ ¬r.opened.contains metadata.identity.sessionKey then
      some (r, .reserving)
    else some (r, .returned)
  | .reserving =>
    match r.reserveId index metadata.identity.sessionKey with
    | some reserved => some (reserved, .restoring)
    | none => some (r, .returned)
  | .restoring =>
    if answer = .proceeds then some (r.restoreStrandedBackup metadata.path, .finding)
    else some (r, .finding)
  | .finding =>
    if answer = .proceeds ∧ r.files.contains metadata.path ∧
        ownsSessionPath metadata.identity metadata.path then some (r, .reading)
    else some (r, .releasing)
  | .reading =>
    if answer = .proceeds then
      -- A file that is gone or has no header is removed on its name alone.
      match (r.files.get? metadata.path).bind SessionFile.header with
      | none => some (r, .removing)
      | some header =>
        if header = metadata.identity then some (r, .removing) else some (r, .releasing)
    else some (r, .releasing)
  | .removing =>
    match answer with
    | .proceeds => some ((r.removeBackup metadata.path).removeFile metadata.path, .releasing)
    | .fails => some (r.removeBackup metadata.path, .releasing)
    | .stopped => some (r, .releasing)
  | .releasing => some (r.release metadata.identity.sessionKey, .returned)
  | .returned => none

/-- One step of a call. -/
def stepCall (r : Repo) (index : Nat) (answer : Answer) : Call → Option (Repo × Call)
  | .create identity createdAt phase =>
    (r.stepNew isoFromMillis index identity createdAt answer phase).map
      fun (next, phase) => (next, .create identity createdAt phase)
  | .open metadata phase =>
    (r.stepOpen index metadata answer phase).map fun (next, phase) => (next, .open metadata phase)
  | .fork source id createdAt phase =>
    (r.stepFork isoFromMillis index source id createdAt answer phase).map
      fun (next, phase) => (next, .fork source id createdAt phase)
  | .delete metadata phase =>
    (r.stepDelete index metadata answer phase).map
      fun (next, phase) => (next, .delete metadata phase)

def step (r : Repo) : Event → Option Repo
  | .callCreate identity createdAt =>
    some { r with calls := r.calls ++ [.create identity createdAt .reserving] }
  | .callOpen metadata => some { r with calls := r.calls ++ [.open metadata .checking] }
  | .callFork source id createdAt =>
    some { r with calls := r.calls ++ [.fork source id createdAt .checking] }
  | .callDelete metadata => some { r with calls := r.calls ++ [.delete metadata .checking] }
  | .step index answer =>
    r.calls[index]?.bind fun call =>
      (r.stepCall isoFromMillis index answer call).map fun (next, call) =>
        next.setCall index call
  | .close key => some { r with opened := r.opened.erase key }
  | .write key loads torn =>
    (r.opened.get? key).bind fun path =>
      (r.files.get? path).map fun file =>
        { r with files := r.files.insert path { file with loads := loads, torn := torn } }

/-- A repository that was just opened on any files. -/
def Starts (r : Repo) : Prop := ∃ files backups, r = ⟨files, backups, .empty, .empty, [], false⟩

def machine : Machine Repo Event where
  start := Starts
  step := step isoFromMillis

end Steps

end Repo

end PiOxidized.Session.Jsonl
