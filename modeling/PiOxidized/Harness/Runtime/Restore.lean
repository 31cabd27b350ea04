/-
# Restoring a session

Reading every lane and its open operation back from the stored values, without a change to
them.  A stored leaf must be one its operation's intent can be at.
-/

import PiOxidized.Harness.Runtime.Stored

namespace PiOxidized.Harness.Runtime

open Math
open Session (EntryId SessionError)

variable {M : Type}

def OperationKind.text : OperationKind → String
  | run => "Run"
  | compaction => "Compaction"
  | navigation => "Navigation"

/-- Whether a leaf belongs to the generation of a summary. -/
def OperationState.isSummary : OperationState → Bool
  | summaryDeciding _ _ => true
  | summaryReady _ _ _ => true
  | summaryEffectPending _ _ _ _ _ => true
  | summaryRetryWait _ _ _ => true
  | _ => false

def OperationState.isNavigation : OperationState → Bool
  | navigationReadyToCommit _ _ _ => true
  | _ => false

/-- The kind of operation a leaf is taken to belong to. -/
def stateKind (intent : OperationIntent) (state : OperationState) : OperationKind :=
  if state.isSummary then
    match intent with
    | .navigation _ true _ _ => .navigation
    | _ => .compaction
  else if state.isNavigation then .navigation
  else .run

def validateStateIntent (intent : OperationIntent) (state : OperationState) :
    Except SessionError Unit :=
  if operationKind intent = stateKind intent state then .ok ()
  else
    .error (.invariant
      ("operation state does not match its " ++ (operationKind intent).text ++ " intent"))

/-- Resolve the open operation of a lane; a pointer that moved meanwhile is followed. -/
def readOpenOperation (stored : Stored M) (name : LaneName) :
    Nat → OperationId → LaneState → Option EntryId →
      Except SessionError (LaneState × Option EntryId × Option Operation)
  | 0, _, _, _ =>
    .error (.invariant ("lane " ++ name ++ " operation pointer kept changing during restore"))
  | attempts + 1, id, state, tip =>
    match stored.operationMetas.get? id, stored.operationStates.get? id with
    | some info, some leaf =>
      if info.operationId = id ∧ info.lane = name then
        match validateStateIntent info.intent leaf with
        | .error error => .error error
        | .ok () => .ok ({ state with currentOperationId := some id }, tip, some ⟨info, leaf⟩)
      else
        .error (.invariant ("operation " ++ id ++ " does not belong to lane " ++ name))
    | info, _ =>
      let fresh := (stored.laneStates.get? name).getD default
      if fresh.currentOperationId = some id then
        .error (.invariant ("lane " ++ name ++ " references missing operation " ++
          if info.isNone then "metadata" else "state"))
      else
        let tip := (stored.branchTips.get? name).join
        match fresh.currentOperationId with
        | none => .ok ({ fresh with currentOperationId := none }, tip, none)
        | some next =>
          readOpenOperation stored name attempts next { fresh with currentOperationId := none } tip

/-- Restore one lane; a branch without lane values is passed over. -/
def restoreLane (stored : Stored M) (name : LaneName) : Except SessionError (Option LaneData) :=
  match stored.laneConfigs.get? name, stored.laneStates.get? name with
  | some config, some state =>
    let tip := (stored.branchTips.get? name).join
    let opened : Except SessionError (LaneState × Option EntryId × Option Operation) :=
      match state.currentOperationId with
      | none => .ok (state, tip, none)
      | some id => readOpenOperation stored name 3 id { state with currentOperationId := none } tip
    match opened with
    | .error error => .error error
    | .ok (state, tip, operation) =>
      .ok (some
        { tip := tip
          config := config
          state := state
          operation := operation
          lastResult := state.lastOperationId.bind stored.operationResults.get? })
  | _, _ => .ok none

/-- The names of every lane that has left a value, in order. -/
def laneNames (stored : Stored M) : List LaneName :=
  (((stored.branchTips.entries.map Prod.fst ++ stored.laneConfigs.entries.map Prod.fst ++
    stored.laneStates.entries.map Prod.fst).filter fun name => name != "").dedup).mergeSort
      fun a b => decide (a ≤ b)

/-- Restore the lanes of a list of names. -/
def restoreLanes (stored : Stored M) :
    List LaneName → Except SessionError (List (LaneName × LaneData))
  | [] => .ok []
  | name :: names =>
    match restoreLane stored name with
    | .error error => .error error
    | .ok data =>
      match restoreLanes stored names with
      | .error error => .error error
      | .ok rest => .ok ((data.map fun d => (name, d)).toList ++ rest)

/-- Restore every lane. -/
def restoreSession (stored : Stored M) : Except SessionError (List (LaneName × LaneData)) :=
  restoreLanes stored (laneNames stored)

end PiOxidized.Harness.Runtime
