/-
# A drive among its callers

A drive that waits stands inside its program.  Whatever a program may ask by itself it may ask
here, as long as it is told what it may be told; so what is known of the driver's publications
holds of the batches it brings under the guard.
-/

import PiOxidized.Harness.Runtime.Batches

namespace PiOxidized.Harness.Runtime

open Math

variable {M : Type} {name : LaneName} {shared shared' : Shared M} {lane lane' : Lane M}

/-- What a drive may still ask. -/
def DrivePhase.Asks (P : Request M → Prop) (A : (question : Request M) → question.Answer → Prop) :
    DrivePhase M → Prop
  | .running program => program.Asks P A fun _ => True
  | .publishing publication next =>
    P (.publish publication) ∧
      ∀ answer, A (.publish publication) answer → (next answer).Asks P A fun _ => True
  | .guarded publication _ _ next =>
    P (.publish publication) ∧
      ∀ answer, A (.publish publication) answer → (next answer).Asks P A fun _ => True
  | .committed publication _ next =>
    P (.publish publication) ∧
      ∀ answer, A (.publish publication) answer → (next answer).Asks P A fun _ => True

variable {P : Request M → Prop} {A : (question : Request M) → question.Answer → Prop}

variable {opts : DriveOptions}

/-- A step of a drive asks nothing new, if what it is told is what it may be told. -/
theorem DriveMove.asks [Inhabited M] {phase after : DrivePhase M} {next : Option (DrivePhase M)}
    {data : LaneData} {lock : Option Party}
    (hmove : DriveMove name opts shared lane phase next shared' data lock) (h : phase.Asks P A)
    (hround : (driveRound name opts false).Asks P A fun _ => True)
    (hans : ∀ question answer, Answered shared lane question answer shared' → A question answer)
    (hpub : ∀ p answer, A (.publish p) answer) (hnext : next = some after) :
    after.Asks P A := by
  cases hmove with
  | answer htold =>
    cases hnext
    exact h.2 _ (hans _ _ htold)
  | again =>
    cases hnext
    exact hround
  | finish | refuse | fault => cases hnext
  | lock | approach | build | commit =>
    cases hnext
    exact h
  | skip hperf hwr =>
    cases hnext
    exact h.2 _ (hpub _ _)
  | publish hfree haft =>
    obtain ⟨rfl, _⟩ | ⟨rfl, _⟩ := haft
    · cases hnext
    · cases hnext
      exact h.2 _ (hpub _ _)

/-! ## Drives that publish as their operations allow -/

/-- Every publication of the drive is one its operations allow. -/
def Lane.DrivesWell (Good : Operation → Prop) (lane : Lane M) : Prop :=
  ∀ drive, lane.drive = some drive → drive.phase.Asks (Request.Drives Good) (Told Good)

/-- The remembered operation is a good one. -/
def LaneData.Remembers (Good : Operation → Prop) (data : LaneData) : Prop :=
  ∀ operation, data.operation = some operation → Good operation

variable {Good : Operation → Prop}

theorem Answered.told {question : Request M} {ans : question.Answer}
    (h : Answered shared lane question ans shared') (hdata : lane.data.Remembers Good) :
    Told Good question ans := by
  cases question with
  | operation =>
    obtain ⟨hread, _, _⟩ | ⟨surroundings, hread⟩ := h
    · cases hread
      exact hdata
    · cases hread
  | _ => trivial

/-- A step of a lane keeps its drive to what the operations it reads allow. -/
theorem Lane.DrivesWell.step [Inhabited M] {event : LaneEvent M} (h : lane.DrivesWell Good)
    (hdata : lane.data.Remembers Good) (hmove : LaneMove name shared lane event shared' lane') :
    lane'.DrivesWell Good := by
  cases hmove with
  | begin | call => exact h
  | @startDrive opts hdrv =>
    intro drive hnext
    cases hnext
    exact drivesWell_driveRound Good name opts true
  | @drive surroundings opts phase next shared' data lock hph hmove =>
    intro drive hnext
    obtain ⟨after, haft, rfl⟩ := Option.map_eq_some_iff.mp hnext
    exact hmove.asks (h _ hph) (drivesWell_driveRound Good name opts false)
      (fun question ans htold => htold.told hdata) (fun _ _ => trivial) haft

/-- The publication of a batch under the guard, with the operation its leaf is made from. -/
theorem Lane.DrivesWell.guarded (h : lane.DrivesWell Good) {p : Publish M}
    {perf : Performed M p.Answer} {writes : List (Write M)}
    {next : p.Answer → Procedure M (DriveStep M)}
    (hdrv : lane.drive = some ⟨opts, .guarded p perf writes next⟩) :
    ∃ origin, Good origin ∧ p.Follows Good origin :=
  (h _ hdrv).1

/-- Every drive of a run publishes copies of what it has read. -/
theorem drivesWell_of_run [Inhabited M] {condition : LaneSystem M → LaneEvent M → Prop}
    {s : LaneSystem M} (h : (laneMachine name).Run condition s) :
    s.2.DrivesWell fun _ => True := by
  refine h.invariant (P := fun s => s.2.DrivesWell fun _ => True) ?_ ?_
  · rintro _ ⟨config, rfl⟩ drive hdrv
    cases hdrv
  · intro s s' event hdrvs _ hstep
    exact hdrvs.step (fun _ _ => trivial) (stepLane_moves hstep)

end PiOxidized.Harness.Runtime
