/-
# Concurrent drives of one operation

At most one drive is in charge of a lane.  When it settles the operation, the calls that joined
it start over and find nothing current, so of all drives that were pending then only the one
that settled returns the record.
-/

import PiOxidized.Math.Slots
import PiOxidized.Harness.Runtime.Waiting

namespace PiOxidized.Harness.Runtime.Waiting

open List Math

/-- The controller of a drive in charge. -/
def DrivePhase.charge? : DrivePhase → Option Nat
  | looking controller => some controller
  | working controller => some controller
  | settling controller _ => some controller
  | finishing controller _ => some controller
  | _ => none

/-- The controller a drive has made and not yet fired. -/
def DrivePhase.controller? : DrivePhase → Option Nat
  | released controller _ => some controller
  | phase => phase.charge?

/-- Whether a drive is inside its loop. -/
def DrivePhase.inLoop : DrivePhase → Bool
  | looking _ => true
  | working _ => true
  | settling _ _ => true
  | _ => false

/-- The settlement a result is of. -/
def DriveEnd.record? : DriveEnd → Option Nat
  | settled record => some record
  | _ => none

/-- The settlement a drive call has made and is to return. -/
def DrivePhase.record? : DrivePhase → Option Nat
  | settling _ record => some record
  | finishing _ result => result.record?
  | released _ result => result.record?
  | announced result => result.record?
  | returned result => result.record?
  | _ => none

theorem DrivePhase.controller?_of_charge? {phase : DrivePhase} {ctl : Nat}
    (h : phase.charge? = some ctl) : phase.controller? = some ctl := by
  cases phase with
  | looking | working | settling | finishing => exact h
  | requesting | entered | joining | joined | installing | released | announced | returned =>
    cases h

namespace Lane

/-- The marker of the lane is the one of the drive in charge, and each record has one call. -/
structure Kept (s : Lane) : Prop where
  owner : ∀ (index : Nat) (call : DriveCall) (controller : Nat), s.drives[index]? = some call →
    call.phase.controller? = some controller →
      ∃ found, s.controllers[controller]? = some found ∧ found.call = index
  charge : ∀ (index : Nat) (call : DriveCall) (controller : Nat), s.drives[index]? = some call →
    call.phase.charge? = some controller → s.activeDrive = some controller
  active : ∀ controller, s.activeDrive = some controller →
    ∃ (index : Nat) (call : DriveCall), s.drives[index]? = some call ∧
      call.phase.charge? = some controller
  record : ∀ (index : Nat) (call : DriveCall) (number : Nat), s.drives[index]? = some call →
    call.phase.record? = some number →
      ∃ settlement, s.settlements[number]? = some settlement ∧ settlement.call = index
  settler : ∀ (number : Nat) settlement, s.settlements[number]? = some settlement →
      ∃ call, s.drives[settlement.call]? = some call ∧ call.phase.record? = some number

variable {s s' : Lane} {i : Nat} {call : DriveCall} {phase : DrivePhase}

variable {ctl : Nat}

variable {event : DriveEvent}

section

variable (h : Kept s)

include h

/-- Notifiers, waits and admissions do not matter. -/
theorem Kept.of_eq (hdrvs : s'.drives = s.drives) (hcontrollers : s'.controllers = s.controllers)
    (hact : s'.activeDrive = s.activeDrive) (hsettlements : s'.settlements = s.settlements) :
    Kept s' := by
  obtain ⟨_, _, _, _, _, _, _, _⟩ := s'
  simp only at hdrvs hcontrollers hact hsettlements
  subst hdrvs hcontrollers hact hsettlements
  exact ⟨h.owner, h.charge, h.active, h.record, h.settler⟩

/-- The drive in charge is one. -/
theorem Kept.eq_of_charge {place : Nat} {other : DriveCall} {ctl' : Nat}
    (hcall : s.drives[i]? = some call) (hchg : call.phase.charge? = some ctl)
    (hoth : s.drives[place]? = some other) (hchg' : other.phase.charge? = some ctl') :
    place = i := by
  have hact := h.charge i call ctl hcall hchg
  rw [h.charge place other ctl' hoth hchg'] at hact
  cases hact
  obtain ⟨found, hfnd, rfl⟩ := h.owner i call _ hcall (DrivePhase.controller?_of_charge? hchg)
  obtain ⟨found', hfnd', rfl⟩ :=
    h.owner place other _ hoth (DrivePhase.controller?_of_charge? hchg')
  rw [hfnd] at hfnd'
  cases hfnd'
  rfl

/-- A drive call goes on in the charge it had. -/
theorem Kept.move (hcall : s.drives[i]? = some call) (hchg : phase.charge? = call.phase.charge?)
    (hctl : phase.controller? = none ∨ phase.controller? = call.phase.controller?)
    (hrec : phase.record? = call.phase.record?) :
    Kept (s.putDrive i { call with phase := phase }) := by
  have hself : (s.putDrive i { call with phase := phase }).drives[i]? =
      some { call with phase := phase } := getElem?_set_of_some hcall
  have hoth (place : Nat) (hne : place ≠ i) :
      (s.putDrive i { call with phase := phase }).drives[place]? = s.drives[place]? :=
    getElem?_set_ne (Ne.symm hne)
  constructor
  case owner =>
    refine forall_set₁ h.owner ?_
    intro ctl hfoundCtl
    rcases hctl with hnone | hsame
    · rw [hnone] at hfoundCtl
      cases hfoundCtl
    · rw [hsame] at hfoundCtl
      exact h.owner i call ctl hcall hfoundCtl
  case charge =>
    refine forall_set₁ h.charge ?_
    intro ctl hfoundCh
    rw [hchg] at hfoundCh
    exact h.charge i call ctl hcall hfoundCh
  case active =>
    intro ctl hact
    obtain ⟨place, found, hfnd, hfoundCh⟩ := h.active ctl hact
    by_cases heq : place = i
    · subst heq
      obtain rfl := Option.some.inj (hfnd.symm.trans hcall)
      exact ⟨place, _, hself, hchg.trans hfoundCh⟩
    · exact ⟨place, found, (hoth place heq).trans hfnd, hfoundCh⟩
  case record =>
    refine forall_set₁ h.record ?_
    intro num hfoundRec
    rw [hrec] at hfoundRec
    exact h.record i call num hcall hfoundRec
  case settler =>
    intro num sett hsett
    obtain ⟨found, hfnd, hfoundRec⟩ := h.settler num sett hsett
    by_cases heq : sett.call = i
    · rw [heq] at hfnd ⊢
      obtain rfl := Option.some.inj (hfnd.symm.trans hcall)
      exact ⟨_, hself, hrec.trans hfoundRec⟩
    · exact ⟨found, (hoth _ heq).trans hfnd, hfoundRec⟩

/-- A new drive call. -/
theorem Kept.addDrive (hctl : call.phase.controller? = none)
    (hrec : call.phase.record? = none) : Kept { s with drives := s.drives ++ [call] } := by
  constructor
  case owner =>
    refine forall_concat₁ h.owner ?_
    intro ctl hfoundCtl
    rw [hctl] at hfoundCtl
    cases hfoundCtl
  case charge =>
    refine forall_concat₁ h.charge ?_
    intro ctl hfoundCh
    rw [DrivePhase.controller?_of_charge? hfoundCh] at hctl
    cases hctl
  case active =>
    intro ctl hact
    obtain ⟨place, found, hfnd, hchg⟩ := h.active ctl hact
    exact ⟨place, found, getElem?_append_of_some hfnd, hchg⟩
  case record =>
    refine forall_concat₁ h.record ?_
    intro num hfoundRec
    rw [hrec] at hfoundRec
    cases hfoundRec
  case settler =>
    intro num sett hsett
    obtain ⟨found, hfnd, hfoundRec⟩ := h.settler num sett hsett
    exact ⟨found, getElem?_append_of_some hfnd, hfoundRec⟩

/-- A drive takes charge of a free lane. -/
theorem Kept.install (hcall : s.drives[i]? = some call) (hph : call.phase = .installing) :
    Kept (s.install i call) := by
  rw [Lane.install]
  split_ifs with hbusy
  · apply h.move hcall
    · rw [hph]
      rfl
    · exact .inl rfl
    · rw [hph]
      rfl
  · have hfree : s.activeDrive = none := Option.not_isSome_iff_eq_none.mp hbusy
    have hself : (s.putDrive i { call with phase := .looking s.controllers.length }).drives[i]? =
          some { call with phase := .looking s.controllers.length } := getElem?_set_of_some hcall
    constructor
    case owner =>
      intro place found ctl hfnd hctl
      rcases getElem?_set_cases hfnd with ⟨rfl, rfl⟩ | ⟨-, hfnd⟩
      · cases hctl
        exact ⟨_, getElem?_concat_length, rfl⟩
      · obtain ⟨owned, howned, hcaller⟩ := h.owner place found ctl hfnd hctl
        exact ⟨owned, getElem?_append_of_some howned, hcaller⟩
    case charge =>
      intro place found ctl hfnd hchg
      rcases getElem?_set_cases hfnd with ⟨rfl, rfl⟩ | ⟨-, hfnd⟩
      · exact hchg
      · rw [h.charge place found ctl hfnd hchg] at hfree
        cases hfree
    case active =>
      intro ctl hact
      exact ⟨i, _, hself, hact⟩
    case record =>
      refine forall_set₁ h.record ?_
      intro num hrec
      cases hrec
    case settler =>
      intro num sett hsett
      obtain ⟨found, hfnd, hrec⟩ := h.settler num sett hsett
      have hne : sett.call ≠ i := by
        intro heq
        rw [heq, hcall] at hfnd
        cases hfnd
        rw [hph] at hrec
        cases hrec
      exact ⟨found, (getElem?_set_ne (Ne.symm hne)).trans hfnd, hrec⟩

/-- A drive settles its operation. -/
theorem Kept.settle (hcall : s.drives[i]? = some call)
    (hph : call.phase = .working ctl) (wakes : Bool) :
    Kept (s.settle i ctl call wakes) := by
  rw [Lane.settle]
  have hchg : (if wakes then DrivePhase.settling ctl s.settlements.length
      else .finishing ctl (.settled s.settlements.length)).charge? = some ctl := by
    split_ifs
    · rfl
    · rfl
  have hrec : (if wakes then DrivePhase.settling ctl s.settlements.length
      else .finishing ctl (.settled s.settlements.length)).record? = some s.settlements.length := by
    split_ifs
    · rfl
    · rfl
  generalize (if wakes then DrivePhase.settling ctl s.settlements.length
    else .finishing ctl (.settled s.settlements.length)) = phase at hchg hrec
  have hself : (s.putDrive i { call with phase := phase }).drives[i]? =
      some { call with phase := phase } := getElem?_set_of_some hcall
  have hpre : call.phase.charge? = some ctl := by
    rw [hph]
    rfl
  constructor
  case owner =>
    refine forall_set₁ h.owner ?_
    intro other hctl
    have hown : phase.controller? = some ctl := DrivePhase.controller?_of_charge? hchg
    rw [hown] at hctl
    cases hctl
    exact h.owner i call _ hcall (DrivePhase.controller?_of_charge? hpre)
  case charge =>
    refine forall_set₁ h.charge ?_
    intro other hfoundCh
    rw [hchg] at hfoundCh
    cases hfoundCh
    exact h.charge i call _ hcall hpre
  case active =>
    intro other hact
    have hsame := h.charge i call ctl hcall hpre
    obtain rfl : ctl = other := Option.some.inj (hsame.symm.trans hact)
    exact ⟨i, _, hself, hchg⟩
  case record =>
    intro place found num hfnd hfoundRec
    rcases getElem?_set_cases hfnd with ⟨rfl, rfl⟩ | ⟨-, hfnd⟩
    · rw [hrec] at hfoundRec
      cases hfoundRec
      exact ⟨_, getElem?_concat_length, rfl⟩
    · obtain ⟨sett, hsett, hcaller⟩ := h.record place found num hfnd hfoundRec
      exact ⟨sett, getElem?_append_of_some hsett, hcaller⟩
  case settler =>
    intro num sett hsett
    rcases getElem?_append_cases hsett with hsett | ⟨rfl, rfl⟩
    · obtain ⟨found, hfnd, hfoundRec⟩ := h.settler num sett hsett
      have hne : sett.call ≠ i := by
        intro heq
        rw [heq, hcall] at hfnd
        cases hfnd
        rw [hph] at hfoundRec
        cases hfoundRec
      exact ⟨found, (getElem?_set_ne (Ne.symm hne)).trans hfnd, hfoundRec⟩
    · exact ⟨_, hself, hrec⟩

/-- A drive gives the lane up. -/
theorem Kept.release {res : DriveEnd} (hcall : s.drives[i]? = some call)
    (hph : call.phase = .finishing ctl res) :
    Kept { s.putDrive i { call with phase := .released ctl res } with
      activeDrive := none } := by
  have hself : (s.putDrive i { call with phase := .released ctl res }).drives[i]? =
      some { call with phase := .released ctl res } := getElem?_set_of_some hcall
  have hpre : call.phase.charge? = some ctl := by
    rw [hph]
    rfl
  constructor
  case owner =>
    refine forall_set₁ h.owner ?_
    intro other hctl
    cases hctl
    exact h.owner i call _ hcall (DrivePhase.controller?_of_charge? hpre)
  case charge =>
    intro place found other hfnd hchg
    rcases getElem?_set_cases hfnd with ⟨rfl, rfl⟩ | ⟨hne, hfnd⟩
    · cases hchg
    · exact absurd (h.eq_of_charge hcall hpre hfnd hchg) hne
  case active =>
    intro other hact
    cases hact
  case record =>
    refine forall_set₁ h.record ?_
    intro num hrec
    apply h.record i call num hcall
    rw [hph]
    exact hrec
  case settler =>
    intro num sett hsett
    obtain ⟨found, hfnd, hrec⟩ := h.settler num sett hsett
    by_cases heq : sett.call = i
    · rw [heq] at hfnd ⊢
      obtain rfl := Option.some.inj (hfnd.symm.trans hcall)
      rw [hph] at hrec
      exact ⟨_, hself, hrec⟩
    · exact ⟨found, (getElem?_set_ne (Ne.symm heq)).trans hfnd, hrec⟩

/-- Waking whoever joined changes the controller only. -/
theorem Kept.announce (ctl : Nat) : Kept (s.announce ctl) := by
  rw [Lane.announce]
  cases hctl : s.controllers[ctl]? with
  | none => exact h
  | some found =>
    refine { h with owner := ?owner }
    case owner =>
      intro place call other hcall hoth
      obtain ⟨owned, howned, hcaller⟩ := h.owner place call other hcall hoth
      by_cases heq : other = ctl
      · rw [heq, hctl] at howned
        cases howned
        rw [heq]
        exact ⟨_, getElem?_set_of_some hctl, hcaller⟩
      · exact ⟨owned, (getElem?_set_ne (Ne.symm heq)).trans howned, hcaller⟩

theorem Kept.look (hcall : s.drives[i]? = some call) (hph : call.phase = .entered) :
    Kept (s.look i call) := by
  have hmove (phase : DrivePhase) (hctl : phase.controller? = none)
      (hchg : phase.charge? = none) (hrec : phase.record? = none) :
      Kept (s.putDrive i { call with phase := phase }) := by
    apply h.move hcall
    · rw [hph, hchg]
      rfl
    · exact .inl hctl
    · rw [hph, hrec]
      rfl
  rw [Lane.look]
  cases s.activeDrive with
  | none => exact hmove _ rfl rfl rfl
  | some ctl =>
    simp only
    split_ifs
    · exact hmove _ rfl rfl rfl
    · exact hmove _ rfl rfl rfl

/-- A drive call goes on. -/
theorem Kept.driveStep (hcall : s.drives[i]? = some call)
    (hnext : s.driveStep i call event = some s') : Kept s' := by
  obtain ⟨opId, phase⟩ := call
  -- An event is about one phase.
  cases event <;> cases phase <;> try (cases hnext; done)
  case request.requesting =>
    cases hnext
    split_ifs
    · exact h.move hcall rfl (.inl rfl) rfl
    · exact h.move hcall rfl (.inl rfl) rfl
  case look.entered =>
    cases hnext
    exact h.look hcall rfl
  case listen.joining =>
    cases hnext
    exact h.move hcall rfl (.inl rfl) rfl
  case wake.joined =>
    simp only [Lane.driveStep] at hnext
    split_ifs at hnext
    cases hnext
    exact h.move hcall rfl (.inl rfl) rfl
  case install.installing =>
    cases hnext
    exact h.install hcall rfl
  case check.looking | progress.working =>
    cases hnext
    split_ifs
    · exact h.move hcall rfl (.inr rfl) rfl
    · exact h.move hcall rfl (.inr rfl) rfl
  case stop.working res ctl =>
    cases res with
    | settled record => cases hnext
    | waitingRetry | waitingDeferred | laneBusy | operationMismatch | failed =>
      cases hnext
      exact h.move hcall rfl (.inr rfl) rfl
  case settle.working wakes ctl =>
    cases hnext
    exact h.settle hcall rfl wakes
  case notify.settling ctl record =>
    cases hnext
    have hmoved : Kept (s.putDrive i ⟨opId, .finishing ctl (.settled record)⟩) :=
      h.move hcall rfl (.inr rfl) rfl
    exact hmoved.of_eq rfl rfl rfl rfl
  case release.finishing ctl res =>
    cases hnext
    have hact := h.charge i _ ctl hcall rfl
    rw [if_pos hact]
    exact h.release hcall rfl
  case announce.released ctl res =>
    cases hnext
    have hmoved : Kept (s.putDrive i ⟨opId, .announced res⟩) := h.move hcall rfl (.inl rfl) rfl
    exact hmoved.announce ctl
  case leave.announced res =>
    cases hnext
    have hmoved : Kept (s.putDrive i ⟨opId, .returned res⟩) := h.move hcall rfl (.inl rfl) rfl
    exact hmoved.of_eq rfl rfl rfl rfl

end

/-- What waits and admissions change does not matter to the drives. -/
structure SameDrives (s s' : Lane) : Prop where
  drives : s'.drives = s.drives
  controllers : s'.controllers = s.controllers
  activeDrive : s'.activeDrive = s.activeDrive
  settlements : s'.settlements = s.settlements

variable {condition : Lane → Event → Prop}

theorem sameDrives_waitStep {phase : WaitPhase} {event : WaitEvent}
    (hnext : s.waitStep i phase event = some s') : SameDrives s s' := by
  cases event <;> cases phase <;> try (cases hnext; done)
  case wake.parked =>
    simp only [Lane.waitStep] at hnext
    split_ifs at hnext
    cases hnext
    exact ⟨rfl, rfl, rfl, rfl⟩
  all_goals
    cases hnext
    exact ⟨rfl, rfl, rfl, rfl⟩

theorem sameDrives_acceptStep {call : AcceptCall} {event : AcceptEvent}
    (hnext : s.acceptStep i call event = some s') : SameDrives s s' := by
  obtain ⟨opId, phase⟩ := call
  cases event <;> cases phase <;> try (cases hnext; done)
  case reserve.entered =>
    simp only [Lane.acceptStep] at hnext
    split_ifs at hnext
    · cases hnext
      exact ⟨rfl, rfl, rfl, rfl⟩
    · cases hnext
      exact ⟨rfl, rfl, rfl, rfl⟩
  all_goals
    cases hnext
    exact ⟨rfl, rfl, rfl, rfl⟩

theorem Kept.step {event : Event} (h : Kept s) (hnext : s.step event = some s') : Kept s' := by
  cases event with
  | drive opId =>
    cases hnext
    exact h.addDrive rfl rfl
  | abort =>
    rw [Lane.step] at hnext
    split at hnext
    · cases hnext
    · cases hnext
      exact h.addDrive rfl rfl
  | advance i event =>
    rw [Lane.step] at hnext
    split at hnext
    · cases hnext
    · rename_i call hcall
      exact h.driveStep hcall hnext
  | waitForIdle | accept =>
    cases hnext
    exact h.of_eq rfl rfl rfl rfl
  | wait i event =>
    rw [Lane.step] at hnext
    split at hnext
    · cases hnext
    · have hsame := sameDrives_waitStep hnext
      exact h.of_eq hsame.drives hsame.controllers hsame.activeDrive hsame.settlements
  | admission i event =>
    rw [Lane.step] at hnext
    split at hnext
    · cases hnext
    · have hsame := sameDrives_acceptStep hnext
      exact h.of_eq hsame.drives hsame.controllers hsame.activeDrive hsame.settlements

theorem kept_start : Kept {} where
  owner := fun i call ctl hcall => by cases hcall
  charge := fun i call ctl hcall => by cases hcall
  active := fun ctl hact => by cases hact
  record := fun i call num hcall => by cases hcall
  settler := fun num sett hsett => by cases hsett

theorem kept_of_run (h : machine.Run condition s) : Kept s := by
  apply h.invariant
  · rintro _ rfl
    exact kept_start
  · intro s s' event hkept _ hnext
    exact hkept.step hnext

/-! ## Agreement -/

/-- At most one drive is inside its loop. -/
def OneLoop (s : Lane) : Prop :=
  ∀ (index place : Nat) (call other : DriveCall), s.drives[index]? = some call →
    s.drives[place]? = some other → call.phase.inLoop = true → other.phase.inLoop = true →
      place = index

/-- Whether a drive call has returned with a result. -/
def HasReturned (s : Lane) (index : Nat) (result : DriveEnd) : Prop :=
  ∃ call, s.drives[index]? = some call ∧ call.phase = .returned result

/-- Every drive call that was pending at a settlement returns its record. -/
def Agrees (s : Lane) (number : Nat) (settlement : Settlement) : Prop :=
  ∀ index ∈ settlement.pending, ∀ result, s.HasReturned index result → result = .settled number

/-- Only the drive that settled, of those that were pending then, has returned. -/
def Alone (s : Lane) (settlement : Settlement) : Prop :=
  ∀ index ∈ settlement.pending, ∀ result, s.HasReturned index result → index = settlement.call

theorem Kept.oneLoop (h : Kept s) : s.OneLoop := by
  have hchg (phase : DrivePhase) (hin : phase.inLoop = true) : ∃ ctl, phase.charge? = some ctl := by
    cases phase with
    | looking ctl | working ctl | settling ctl => exact ⟨ctl, rfl⟩
    | requesting | entered | joining | joined | installing | finishing | released | announced
    | returned => cases hin
  intro i place call other hcall hoth hin hinOther
  obtain ⟨ctl, hown⟩ := hchg _ hin
  obtain ⟨ctl', hown'⟩ := hchg _ hinOther
  exact h.eq_of_charge hcall hown hoth hown'

/-- The drives of a settled operation agree exactly when the drive that settled was alone. -/
theorem agrees_iff (hrun : machine.Run condition s) : s.OneLoop ∧ ∀ (num : Nat) sett,
      s.settlements[num]? = some sett → (s.Agrees num sett ↔ s.Alone sett) := by
  have h := kept_of_run hrun
  refine ⟨h.oneLoop, fun num sett hsett => ⟨fun hagr => ?_, fun halone => ?_⟩⟩
  · intro i hpend res hret
    have hset := hagr i hpend res hret
    obtain ⟨call, hcall, hph⟩ := hret
    obtain ⟨found, hfnd, hcaller⟩ := h.record i call num hcall (by
      rw [hph, hset]
      rfl)
    rw [hsett] at hfnd
    cases hfnd
    exact hcaller.symm
  · intro i hpend res hret
    have hcaller := halone i hpend res hret
    obtain ⟨call, hcall, hph⟩ := hret
    obtain ⟨found, hfnd, hrec⟩ := h.settler num sett hsett
    rw [← hcaller, hcall] at hfnd
    cases hfnd
    rw [hph] at hrec
    cases res with
    | settled record => exact congrArg DriveEnd.settled (Option.some.inj hrec)
    | waitingRetry | waitingDeferred | laneBusy | operationMismatch | failed => cases hrec

/-- A drive settles its operation only while no other drive of the operation is pending. -/
def Lone (s : Lane) : Event → Prop
  | .advance index (.settle _) => ∀ call, s.drives[index]? = some call →
      ∀ other ∈ s.pendingDrives call.operationId, other = index
  | _ => True

/-- Only a settlement adds to the settlements. -/
theorem settlements_driveStep (hnext : s.driveStep i call event = some s') :
    s'.settlements = s.settlements ∨ ∃ wakes, event = .settle wakes ∧
      s'.settlements = s.settlements ++
        [⟨call.operationId, i, s.pendingDrives call.operationId⟩] := by
  obtain ⟨opId, phase⟩ := call
  cases event <;> cases phase <;> try (cases hnext; done)
  case settle.working wakes ctl =>
    cases hnext
    exact .inr ⟨wakes, rfl, rfl⟩
  case look.entered =>
    cases hnext
    apply Or.inl
    rw [Lane.look]
    split
    · rfl
    · split
      · rfl
      · rfl
  case install.installing =>
    cases hnext
    apply Or.inl
    rw [Lane.install]
    split
    · rfl
    · rfl
  case wake.joined =>
    simp only [Lane.driveStep] at hnext
    split_ifs at hnext
    cases hnext
    exact .inl rfl
  case announce.released =>
    cases hnext
    apply Or.inl
    rw [Lane.announce]
    split
    · rfl
    · rfl
  case stop.working res ctl =>
    cases res with
    | settled record => cases hnext
    | waitingRetry | waitingDeferred | laneBusy | operationMismatch | failed =>
      cases hnext
      exact .inl rfl
  all_goals
    cases hnext
    exact .inl rfl

/-- In a run of lone settlements no other drive was pending at one. -/
theorem pending_of_run (h : machine.Run Lone s) :
    ∀ sett ∈ s.settlements, ∀ i ∈ sett.pending, i = sett.call := by
  apply h.invariant
  · rintro _ rfl sett hsett
    cases hsett
  · intro s s' event hpend hlone hnext
    cases event with
    | drive | waitForIdle | accept =>
      cases hnext
      exact hpend
    | abort =>
      change Lane.step s .abort = some s' at hnext
      rw [Lane.step] at hnext
      split at hnext
      · cases hnext
      · cases hnext
        exact hpend
    | advance i event =>
      change Lane.step s (.advance i event) = some s' at hnext
      rw [Lane.step] at hnext
      split at hnext
      · cases hnext
      · rename_i call hcall
        rcases settlements_driveStep hnext with hsame | ⟨wakes, rfl, hadded⟩
        · rw [hsame]
          exact hpend
        · rw [hadded]
          exact forall_mem_concat hpend (hlone call hcall)
    | wait i event =>
      change Lane.step s (.wait i event) = some s' at hnext
      rw [Lane.step] at hnext
      split at hnext
      · cases hnext
      · rw [(sameDrives_waitStep hnext).settlements]
        exact hpend
    | admission i event =>
      change Lane.step s (.admission i event) = some s' at hnext
      rw [Lane.step] at hnext
      split at hnext
      · cases hnext
      · rw [(sameDrives_acceptStep hnext).settlements]
        exact hpend

/-- In a run of lone settlements all drives of a settled operation agree. -/
theorem drives_agree (h : machine.Run Lone s) : s.OneLoop ∧ ∀ (num : Nat) settlement,
      s.settlements[num]? = some settlement → s.Agrees num settlement := by
  obtain ⟨hone, hiff⟩ := agrees_iff h
  refine ⟨hone, fun num settlement hsettlement => (hiff num settlement hsettlement).mpr ?_⟩
  intro i hpend res _
  exact pending_of_run h settlement (mem_of_getElem? hsettlement) i hpend

/-- An operation is accepted, aborted and settled by the drive of the abort. -/
theorem drives_agree_aborted : ∃ s : Lane, (s.OneLoop ∧
    ∀ (num : Nat) settlement, s.settlements[num]? = some settlement → s.Agrees num settlement) ∧
    s.settlements.length = 1 ∧ s.HasReturned 0 (.settled 0) := by
  have hstart : machine.Run Lone {} := .start rfl
  obtain ⟨s, hrun, hs⟩ := hstart.execute (fun s event =>
      match event with
      | .advance i (.settle _) => (s.drives[i]?).all fun call =>
        (s.pendingDrives call.operationId).all fun other => other == i
      | _ => true)
    [.accept "a", .admission 0 .reserve, .admission 0 .commit, .abort, .advance 0 .request,
      .advance 0 .look, .advance 0 .install, .advance 0 .check, .advance 0 (.settle true),
      .advance 0 .notify, .advance 0 .release, .advance 0 .announce, .advance 0 .leave]
    (fun s => s.settlements.length == 1 && s.drives[0]? == some ⟨"a", .returned (.settled 0)⟩)
    (by
      intro s event hcheck
      cases event with
      | advance i event =>
        cases event with
        | settle wakes =>
          intro call hcall other hother
          simp only [hcall, Option.all_some] at hcheck
          exact eq_of_beq (List.all_eq_true.mp hcheck other hother)
        | _ => trivial
      | _ => trivial)
    (by decide +kernel)
  obtain ⟨hlength, hdrive⟩ := Bool.and_eq_true_iff.mp hs
  exact ⟨s, drives_agree hrun, eq_of_beq hlength, _, eq_of_beq hdrive, rfl⟩

/-- An abort joins the drive that settles the operation, and fails. -/
theorem abort_mismatches : ¬ ∀ s : Lane, machine.Run (fun _ _ => True) s →
    s.OneLoop ∧ ∀ (num : Nat) settlement,
      s.settlements[num]? = some settlement → s.Agrees num settlement := by
  intro h
  have hstart : machine.Run (fun _ _ => True) {} := .start rfl
  obtain ⟨s, hrun, hs⟩ := hstart.execute (fun _ _ => true)
    [.accept "a", .admission 0 .reserve, .admission 0 .commit, .drive "a", .advance 0 .look,
      .advance 0 .install, .advance 0 .check, .abort, .advance 1 .request, .advance 1 .look,
      .advance 1 .listen, .advance 0 (.settle true), .advance 0 .notify, .advance 0 .release,
      .advance 0 .announce, .advance 0 .leave, .advance 1 .wake, .advance 1 .look,
      .advance 1 .install, .advance 1 .check, .advance 1 .release, .advance 1 .announce,
      .advance 1 .leave]
    (fun s => s.settlements[0]? == some ⟨"a", 0, [0, 1]⟩ &&
      s.drives[1]? == some ⟨"a", .returned .operationMismatch⟩)
    (fun _ _ _ => trivial)
    (by decide +kernel)
  obtain ⟨hsettlement, hdrive⟩ := Bool.and_eq_true_iff.mp hs
  have hsettled := (h s hrun).2 0 _ (eq_of_beq hsettlement) 1 (by simp) _ ⟨_, eq_of_beq hdrive, rfl⟩
  cases hsettled

end Lane

end PiOxidized.Harness.Runtime.Waiting
