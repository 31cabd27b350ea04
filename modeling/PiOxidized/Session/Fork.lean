/-
# Forking a session

A fork reads one coherent snapshot of its source, checks the branches stored in
it, selects the entries the destination starts with and rebuilds the scalar
values above every sequence it keeps.  Entries and usage rows keep their source
sequences.
-/

import PiOxidized.Session.Memory

namespace PiOxidized.Session

open Math

/-- How branch tips and lane states are represented as stored values. -/
structure ValueCodec (R : Type) where
  tip : Option EntryId → R
  readTip : R → Option (Option EntryId)
  readTip_tip : ∀ id, readTip (tip id) = some id
  /-- The state of an idle lane. -/
  laneState : R

/-- Stored values that are a branch tip or something else. -/
def tipOrOther : ValueCodec (Option EntryId ⊕ Unit) where
  tip := Sum.inl
  readTip := Sum.getLeft?
  readTip_tip := fun _ => rfl
  laneState := Sum.inr ()

/-- State captured from one backend at a serialized commit boundary. -/
structure ForkSourceSnapshot (R : Type) where
  entries : List (Entry R)
  values : List (RawStoredValue R)
  usage : List (UsageRow R)
  /-- Whether the entries are the complete source tree. -/
  entriesComplete : Bool

/-- Where a branch fork sits relative to its anchor entry. -/
inductive ForkPosition
  | before
  | at
  deriving DecidableEq

/-- How a fork selects the state the new session starts with. -/
inductive ForkOptions
  | branch (branch : String) (entryId : Option EntryId) (position : ForkPosition)
      (id : Option String)
  | tree (id : Option String)
  deriving DecidableEq

/-- The part of the options the copied values depend on. -/
inductive ForkScope
  | branch
  | tree
  deriving DecidableEq

/-- Branch names with their tips. -/
abbrev BranchTips := List (String × Option EntryId)

/-- Reject branch names a backend could not key on. -/
def validateBranchName (name : String) : Except SessionError Unit :=
  if name.isEmpty then .error (.invalidBranch name "branch name must not be empty")
  else if name.toList.contains (Char.ofNat 0) then
    .error (.invalidBranch name "branch name must not contain \\u0000")
  else .ok ()

section

variable {R : Type}

/-- The snapshot of a state, in sequence order. -/
def InMemoryStorageState.snapshotForFork (state : InMemoryStorageState R) :
    ForkSourceSnapshot R where
  entries := state.entries.values.mergeSort fun a b => decide (a.seq ≤ b.seq)
  values := state.values.values
  usage := state.usage.values.mergeSort fun a b => decide (a.seq ≤ b.seq)
  entriesComplete := true

/-- The first stored value of a slot. -/
def valueFor (values : List (RawStoredValue R)) (ns key : String) : Option (RawStoredValue R) :=
  values.find? fun stored => stored.ns == ns && stored.key == key

/-- Decode the tips among stored values, with the keys seen so far. -/
def tipValuesFrom (codec : ValueCodec R) :
    List String → List (RawStoredValue R) → Except SessionError BranchTips
  | _, [] => .ok []
  | seen, stored :: values =>
    if stored.ns ≠ "pi.branch.tip" then tipValuesFrom codec seen values
    else if stored.kind ≠ .value then
      .error (.invariant ("branch tip " ++ stored.key ++ " is not a scalar value"))
    else if seen.contains stored.key then
      .error (.invariant ("duplicate source branch tip " ++ stored.key))
    else
      match codec.readTip stored.value with
      | none => .error (.backend .corrupt "stored branch tip decode failed")
      | some tip => do
        let tips ← tipValuesFrom codec (stored.key :: seen) values
        .ok ((stored.key, tip) :: tips)

/-- The branch tips among stored values. -/
def tipValues (codec : ValueCodec R) (values : List (RawStoredValue R)) :
    Except SessionError BranchTips :=
  tipValuesFrom codec [] values

/-- Index the source entries by id. -/
def indexEntries : List (Entry R) → OrderedMap EntryId (Entry R) →
    Except SessionError (OrderedMap EntryId (Entry R))
  | [], index => .ok index
  | entry :: entries, index =>
    if index.contains entry.id then
      .error (.invariant ("duplicate source entry id " ++ entry.id))
    else indexEntries entries (index.insert entry.id entry)

/-- A lane value without a branch tip. -/
def orphanLane (tips : BranchTips) (stored : RawStoredValue R) : Bool :=
  (stored.ns == "pi.lane.config" || stored.ns == "pi.lane.state") &&
    !(tips.map Prod.fst).contains stored.key

/-- Check the lane values and the tip of one branch. -/
def validateTip (source : ForkSourceSnapshot R) (entries : OrderedMap EntryId (Entry R))
    (options : ForkOptions) (branch : String) (tip : Option EntryId) : Except SessionError Unit :=
  let configuration := valueFor source.values "pi.lane.config" branch
  let state := valueFor source.values "pi.lane.state" branch
  if configuration.isSome ≠ state.isSome then
    .error (.invariant ("source session branch " ++ branch ++ " has incomplete lane state"))
  else
    let unconfigured := match options with
      | .branch requested _ _ _ => requested == branch && configuration.isNone
      | .tree _ => false
    let complete := match options with
      | .branch _ _ _ _ => source.entriesComplete
      | .tree _ => true
    if unconfigured then
      .error (.invariant ("source branch " ++ branch ++ " is not a configured AgentLane"))
    else if complete && tip.any (fun id => !entries.contains id) then
      .error (.invariant ("source session branch " ++ branch ++ " has an unknown tip"))
    else .ok ()

/-- Check the branches of a source. -/
def validateSourceSnapshot (source : ForkSourceSnapshot R)
    (entries : OrderedMap EntryId (Entry R)) (tips : BranchTips) (options : ForkOptions) :
    Except SessionError Unit :=
  match source.values.find? (orphanLane tips) with
  | some stored =>
    .error (.invariant ("source session branch " ++ stored.key ++ " is missing branch.tip"))
  | none => tips.forM fun (branch, tip) => validateTip source entries options branch tip

/-- What the walk over a source branch has gathered. -/
structure Selection where
  found : Bool
  destinationTip : Option EntryId
  selected : List EntryId
  deriving DecidableEq

/-- Visit one entry of a source branch. -/
def Selection.visit (requested : Option EntryId) (position : ForkPosition) (entry : Entry R)
    (selection : Selection) : Selection :=
  if some entry.id = requested then
    match position with
    | .before => ⟨true, entry.parentId, selection.selected⟩
    | .at => ⟨true, some entry.id, selection.selected ++ [entry.id]⟩
  else if selection.found then
    { selection with selected := selection.selected ++ [entry.id] }
  else selection

/-- The walk over a source branch, with the ids visited so far. -/
def selectLoop (entries : OrderedMap EntryId (Entry R)) (requested : Option EntryId)
    (position : ForkPosition) (current : Option EntryId) (visited : List EntryId)
    (selection : Selection) : Except SessionError Selection :=
  match current with
  | none => .ok selection
  | some id =>
    if _hvisited : visited.contains id = true then
      .error (.invariant "cycle in source branch ancestry")
    else
      match _hget : entries.get? id with
      | none => .error (.invariant ("corrupt source branch: missing parent " ++ id))
      | some entry =>
        selectLoop entries requested position entry.parentId (id :: visited)
          (selection.visit requested position entry)
termination_by (entries.without visited).length
decreasing_by exact OrderedMap.length_without_lt (Bool.eq_false_of_not_eq_true _hvisited) _hget

/-- The entries and branch tips a fork keeps. -/
def selectContents (entries : OrderedMap EntryId (Entry R)) (tips : BranchTips) :
    ForkOptions → Except SessionError (List EntryId × BranchTips)
  | .tree _ => .ok (entries.entries.map Prod.fst, tips)
  | .branch branch entryId position _ =>
    match tips.lookup branch with
    | none => .error (.invariant ("unknown source branch " ++ branch))
    | some sourceTip => do
      let requested := entryId.or sourceTip
      let selection ← selectLoop entries requested position sourceTip []
        ⟨requested.isNone, none, []⟩
      if selection.found then .ok (selection.selected, [(branch, selection.destinationTip)])
      else
        .error (.invariant ("fork entry " ++ requested.getD "null" ++
          " is not on source branch " ++ branch))

/-- A sequence that occurs twice, with the sequences seen so far. -/
def duplicateSequence : List U64 → List (Entry R) → Option U64
  | _, [] => none
  | seen, entry :: entries =>
    if seen.contains entry.seq then some entry.seq
    else duplicateSequence (entry.seq :: seen) entries

/-- Values pushed so far and the sequence of the next one. -/
structure Pushed (R : Type) where
  values : List (RawStoredValue R)
  nextSeq : U64

/-- Append a value with the next sequence. -/
def pushValue (pushed : Pushed R) (ns key : String) (value : R) : Except SessionError (Pushed R) :=
  match pushed.nextSeq.checkedAdd 1 with
  | none => .error (.invariant "sequence overflow")
  | some next => .ok ⟨pushed.values ++ [⟨ns, key, .value, value, pushed.nextSeq⟩], next⟩

/-- Append the tip of a branch and, for a lane, its configuration and idle state. -/
def pushBranch (codec : ValueCodec R) (source : ForkSourceSnapshot R) (pushed : Pushed R)
    (branch : String) (tip : Option EntryId) : Except SessionError (Pushed R) := do
  let pushed ← pushValue pushed "pi.branch.tip" branch (codec.tip tip)
  match valueFor source.values "pi.lane.config" branch with
  | none => .ok pushed
  | some configuration =>
    let pushed ← pushValue pushed "pi.lane.config" branch configuration.value
    pushValue pushed "pi.lane.state" branch codec.laneState

/-- Whether a stored value is copied. -/
def copyDisposition (ns key : String) (scope : ForkScope) (selected : List EntryId) :
    Except SessionError Bool :=
  if ns = "pi.session.name" then .ok true
  else if ns = "pi.entry.label" then .ok (scope == .tree || selected.contains key)
  else if ns = "pi.branch.tip" ∨ ns = "pi.lane.config" ∨ ns = "pi.lane.state" then .ok false
  else if ns = "pi.result" ∨ "pi.op.".isPrefixOf ns ∨ "pi.pending.".isPrefixOf ns then .ok false
  else if ns = "pi" ∨ "pi.".isPrefixOf ns then
    .error (.invariant ("unknown reserved fork namespace " ++ ns))
  else .ok (scope == .tree)

/-- Copy one stored value if its namespace is kept. -/
def pushCopy (scope : ForkScope) (selected : List EntryId) (pushed : Pushed R)
    (stored : RawStoredValue R) : Except SessionError (Pushed R) := do
  if ← copyDisposition stored.ns stored.key scope selected then
    pushValue pushed stored.ns stored.key stored.value
  else .ok pushed

/-- The scope of a fork. -/
def ForkOptions.scope : ForkOptions → ForkScope
  | .branch _ _ _ _ => .branch
  | .tree _ => .tree

/-- Check the name of the requested branch. -/
def ForkOptions.validate : ForkOptions → Except SessionError Unit
  | .branch name _ _ _ => validateBranchName name
  | .tree _ => .ok ()

/-- The largest of some sequences, zero without any. -/
def maxSeq (seqs : List U64) : U64 := seqs.foldl max U64.zero

/-- Usage rows a fork copies. -/
def copiedUsage (source : ForkSourceSnapshot R) : ForkScope → List (UsageRow R)
  | .branch => []
  | .tree => source.usage

/-- Number the destination's values above the entries and usage rows it keeps. -/
def forkDestination (codec : ValueCodec R) (source : ForkSourceSnapshot R) (scope : ForkScope)
    (entries : List (Entry R)) (selected : List EntryId) (destinationTips : BranchTips) :
    Except SessionError (ForkDestinationSnapshot R) := do
  let maxUsageSeq := maxSeq ((copiedUsage source scope).map UsageRow.seq)
  match (max (maxSeq (entries.map Entry.seq)) maxUsageSeq).checkedAdd 1 with
  | none => .error (.invariant "sequence overflow")
  | some nextSeq =>
    let pushed ← destinationTips.foldlM
      (fun pushed (branch, tip) => pushBranch codec source pushed branch tip) ⟨[], nextSeq⟩
    let pushed ← source.values.foldlM (pushCopy scope selected) pushed
    .ok ⟨entries, pushed.values, copiedUsage source scope, pushed.nextSeq⟩

/-- Build the complete logical state of a forked destination session. -/
def createForkSnapshot (codec : ValueCodec R) (source : ForkSourceSnapshot R)
    (options : ForkOptions) : Except SessionError (ForkDestinationSnapshot R) := do
  options.validate
  let sourceEntries ← indexEntries source.entries ∅
  let tips ← tipValues codec source.values
  validateSourceSnapshot source sourceEntries tips options
  let (selected, destinationTips) ← selectContents sourceEntries tips options
  let entries := (selected.filterMap sourceEntries.get?).mergeSort fun a b => decide (a.seq ≤ b.seq)
  match duplicateSequence [] entries with
  | some seq => .error (.invariant ("duplicate source entry sequence " ++ toString seq.val))
  | none => forkDestination codec source options.scope entries selected destinationTips

end

end PiOxidized.Session
