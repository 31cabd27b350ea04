/-
# A cancellation in the stored leaf

The control flag of an operation is part of its leaf, and the driver stores a leaf made from
the copy it read when its procedure began.  A cancellation that was stored in between is
overwritten, and a restored lane would go on with the run.

That is the only way to lose one: as long as the driver's copy has the flag whenever the stored
leaf has it, the flag stays until the operation is settled.
-/

import PiOxidized.Harness.Runtime.Driven

namespace PiOxidized.Harness.Runtime

open Bool Math

variable {M : Type} {name : LaneName} {shared shared' : Shared M} {lane lane' : Lane M}

/-- Whether an operation is stored with cancellation requested. -/
def Stored.cancels (stored : Stored M) (id : OperationId) : Bool :=
  (stored.operationStates.get? id).any fun leaf => leaf.control.isCancelRequested

/-- Whether the driver commits a leaf made from a copy without the flag that the stored leaf
has. -/
def forgetsCancellation (system : LaneSystem M) : LaneEvent M → Bool
  | .drive _ =>
    match system.2.drive with
    | some ⟨_, .guarded publication _ _ _⟩ =>
      (publication.operation.any fun operation =>
          system.1.stored.cancels operation.info.operationId) &&
        publication.base.any fun base => !base.control.isCancelRequested
    | _ => false
  | _ => false

variable {id : OperationId} {event : LaneEvent M} {leaf : OperationState} {stored : Stored M}

theorem Stored.cancels_eq_true : stored.cancels id = true ↔
      ∃ leaf, stored.operationStates.get? id = some leaf ∧
        leaf.control.isCancelRequested = true := by
  rw [Stored.cancels, Option.any_eq_true]

/-- What a call commits keeps a stored cancellation: it stores leaves of free ids and
cancellations only. -/
theorem cancels_callCommits (hord : Ordered name shared lane)
    (hcommits : CallCommits shared lane event stored) (hcans : shared.stored.cancels id = true)
    (hleaf : stored.operationStates.get? id = some leaf) :
    leaf.control.isCancelRequested = true := by
  obtain ⟨index, call, update, _, hcall, hph, hcom⟩ := hcommits
  obtain ⟨old, hold, hctrl⟩ := Stored.cancels_eq_true.mp hcans
  obtain ⟨_, rfl⟩ := Stored.commit_eq_ok hcom
  have hlock := (hord.calls index call hcall).2
  simp only [Call.Ordered, hph] at hlock
  obtain ⟨_, ⟨phase, hear, hbuilt⟩, _⟩ := hlock
  obtain hwrt | hsame := Stored.operationState_of_apply hleaf
  · obtain hfree | ⟨op, reqAt, _, _, rfl⟩ := hbuilt.leaf_cases hear hwrt
    · rw [Stored.operationIdIsUsed_of_leaf hold] at hfree
      cases hfree
    · exact op.control_cancelled reqAt
  · rw [hold] at hsame
    cases hsame
    exact hctrl

/-- What the driver commits keeps a stored cancellation that its copy has. -/
theorem cancels_driveCommits (hord : Ordered name shared lane)
    (hdrvs : lane.DrivesWell fun _ => True) (hcommits : DriveCommits shared lane event stored)
    (hkps : forgetsCancellation (shared, lane) event = false)
    (hcans : shared.stored.cancels id = true)
    (hleaf : stored.operationStates.get? id = some leaf) :
    leaf.control.isCancelRequested = true := by
  obtain ⟨surroundings, options, publication, perf, writes, next, rfl, hdrv, hcom⟩ := hcommits
  obtain ⟨old, hold, hctrl⟩ := Stored.cancels_eq_true.mp hcans
  obtain ⟨_, rfl⟩ := Stored.commit_eq_ok hcom
  obtain ⟨_, hwr, data, hperf, _⟩ := hord.drive _ hdrv
  obtain ⟨origin, _, hfol⟩ := hdrvs.guarded hdrv
  obtain hwrt | hsame := Stored.operationState_of_apply hleaf
  · obtain ⟨op, base, hop, rfl, hsts⟩ := Publish.leaf_of_perform hperf hwr hfol.writes hwrt
    -- The copy has the flag, and the next leaf takes the flag over.
    have hbase : base.control.isCancelRequested = true := by
      simpa [forgetsCancellation, hdrv, hop, hcans, hsts.base_eq] using hkps
    rw [(hfol.stores base leaf hsts).control]
    exact hbase
  · rw [hold] at hsame
    cases hsame
    exact hctrl

/-- A step keeps a stored cancellation as long as the operation stays stored. -/
theorem cancels_step [Inhabited M] (hord : Ordered name shared lane)
    (hdrvs : lane.DrivesWell fun _ => True)
    (hmove : LaneMove name shared lane event shared' lane')
    (hkps : forgetsCancellation (shared, lane) event = false)
    (hcans : shared.stored.cancels id = true)
    (hleaf : shared'.stored.operationStates.get? id = some leaf) :
    leaf.control.isCancelRequested = true := by
  obtain hsame | hcommits | hcommits := hmove.stored_cases
  · obtain ⟨old, hold, hctrl⟩ := Stored.cancels_eq_true.mp hcans
    rw [hsame, hold] at hleaf
    cases hleaf
    exact hctrl
  · exact cancels_callCommits hord hcommits hcans hleaf
  · exact cancels_driveCommits hord hdrvs hcommits hkps hcans hleaf

/-- Steps that forget no cancellation and start with an operation stored. -/
def KeepsStored (id : OperationId) (system : LaneSystem M) (event : LaneEvent M) : Prop :=
  forgetsCancellation system event = false ∧ (system.1.stored.operationStates.get? id).isSome = true

/-- From a reachable state in which an operation is stored with cancellation requested, along
steps that forget no cancellation, it is stored with cancellation requested until it is
settled. -/
theorem cancellation_kept [Inhabited M] {s s' : LaneSystem M} {id : OperationId}
    {leaf : OperationState}
    (hrun : (laneMachine name).Run (fun s event => forgetsCancellation s event = false) s)
    (hcancels : s.1.stored.cancels id = true)
    (hfollows : (laneMachine name).Follows (KeepsStored id) s s')
    (hleaf : s'.1.stored.operationStates.get? id = some leaf) :
    leaf.control.isCancelRequested = true := by
  have hinvariant : Ordered name s'.1 s'.2 ∧ (s'.2.DrivesWell fun _ => True) ∧
      ∀ leaf, s'.1.stored.operationStates.get? id = some leaf →
        leaf.control.isCancelRequested = true := by
    refine hfollows.invariant (P := fun s => Ordered name s.1 s.2 ∧
      (s.2.DrivesWell fun _ => True) ∧ ∀ leaf, s.1.stored.operationStates.get? id = some leaf →
        leaf.control.isCancelRequested = true) ⟨ordered_of_run hrun, drivesWell_of_run hrun, ?_⟩ ?_
    · intro leaf hleaf
      obtain ⟨old, hold, hcontrol⟩ := Stored.cancels_eq_true.mp hcancels
      rw [hold] at hleaf
      cases hleaf
      exact hcontrol
    · rintro t t' event ⟨hord, hdrives, hcontrol⟩ ⟨hkeeps, hsome⟩ hstep
      have hmove := stepLane_moves hstep
      obtain ⟨old, hold⟩ := Option.isSome_iff_exists.mp hsome
      have hcancels : t.1.stored.cancels id = true :=
        Stored.cancels_eq_true.mpr ⟨old, hold, hcontrol old hold⟩
      refine ⟨hord.step hmove, hdrives.step (fun _ _ => trivial) hmove, fun leaf hleaf => ?_⟩
      exact cancels_step hord hdrives hmove hkeeps hcancels hleaf
  exact hinvariant.2.2 leaf hleaf

/-- Whether a step forgets no cancellation and starts with an operation stored. -/
def keepsStored (id : OperationId) (system : LaneSystem M) (event : LaneEvent M) : Bool :=
  !forgetsCancellation system event && (system.1.stored.operationStates.get? id).isSome

theorem keepsStored_iff {system : LaneSystem M} :
    keepsStored id system event = true ↔ KeepsStored id system event := by
  rw [keepsStored, KeepsStored, and_eq_true, not_eq_true']

/-- A run is cancelled, and a drive finds it so. -/
theorem cancellation_kept_by_next_drive : ∃ s s' : LaneSystem Unit, s.1.stored.cancels "op" = true ∧
      (laneMachine "main").Follows (KeepsStored "op") s s' ∧ s'.2.drive.isSome = true ∧
      ∀ leaf, s'.1.stored.operationStates.get? "op" = some leaf →
        leaf.control.isCancelRequested = true := by
  have hstart : (laneMachine "main").Run (fun s event => forgetsCancellation s event = false)
      (createdLane "main" plainConfiguration : LaneSystem Unit) := .start ⟨_, rfl⟩
  obtain ⟨s, hrun, hs⟩ := hstart.execute (fun s event => !forgetsCancellation s event)
    (plainRun () ++ [.call (.requestAbort "op" 5)] ++ advances 1 3)
    (fun s => s.1.stored.cancels "op" && ((laneMachine "main").execute (keepsStored "op") s
        ([.advance 1, .startDrive ⟨"op", false, false⟩] ++ plainDrive 3)).any fun s =>
          s.2.drive.isSome)
    (fun _ _ h => by simpa using h) (by decide +kernel)
  rw [and_eq_true] at hs
  obtain ⟨s', hfollows, hs'⟩ := Machine.Follows.execute (laneMachine "main") _ s _ _
    (fun _ _ => keepsStored_iff.mp) hs.2
  exact ⟨s, s', hs.1, hfollows, hs', fun leaf hleaf =>
    cancellation_kept hrun hs.1 hfollows hleaf⟩

/-- A cancellation that is stored while a drive is about to store its first checkpoint is
overwritten by it. -/
theorem cancellation_forgotten :
    ∃ s s' : LaneSystem Unit, (laneMachine "main").Run (fun _ _ => True) s ∧
      s.1.stored.cancels "op" = true ∧
      (laneMachine "main").Follows
        (fun s _ => (s.1.stored.operationStates.get? "op").isSome = true) s s' ∧
      ∃ leaf, s'.1.stored.operationStates.get? "op" = some leaf ∧
        leaf.control.isCancelRequested = false := by
  have hstart : (laneMachine "main").Run (fun _ _ => True)
      (createdLane "main" plainConfiguration : LaneSystem Unit) := .start ⟨_, rfl⟩
  obtain ⟨s, hrun, hs⟩ := hstart.execute (fun _ _ => true)
    (plainRun () ++ [.startDrive ⟨"op", false, false⟩] ++ plainDrive 5 ++
      [.call (.requestAbort "op" 5)] ++ advances 1 3)
    (fun s => s.1.stored.cancels "op" && ((laneMachine "main").execute
        (fun s _ => (s.1.stored.operationStates.get? "op").isSome) s (plainDrive 3)).any fun s =>
          (s.1.stored.operationStates.get? "op").any fun leaf => !leaf.control.isCancelRequested)
    (fun _ _ _ => trivial) (by decide +kernel)
  rw [and_eq_true] at hs
  obtain ⟨s', hfollows, hs'⟩ := Machine.Follows.execute (laneMachine "main") _ s _ _
    (fun _ _ h => h) hs.2
  obtain ⟨leaf, hleaf, hcontrol⟩ := (Option.any_eq_true _ _).mp hs'
  exact ⟨s, s', hrun, hs.1, hfollows, leaf, hleaf, by simpa using hcontrol⟩

end PiOxidized.Harness.Runtime
