/-
# Nobody waits for an idle lane

A drive that joined another one waits until that one has fired its notifier, and a wait for idle
until the lane has been given up.  Both are woken as long as no notifier fires between the look
at the marker and the creation of the wait future, and no reservation is given up under a wait
for idle that nobody else will wake.
-/

import PiOxidized.Harness.Runtime.Agreement

namespace PiOxidized.Harness.Runtime.Waiting

open List Math Option

/-- Whether a drive has given the lane up and is about to wake the waits for idle. -/
def DrivePhase.isLeaving : DrivePhase → Bool
  | released _ _ => true
  | announced _ => true
  | _ => false

/-- Whether a drive has returned or waits for another one. -/
def DrivePhase.isQuiet : DrivePhase → Bool
  | returned _ => true
  | joined _ _ => true
  | _ => false

/-- Whether a wait for idle has returned or is parked. -/
def WaitPhase.isQuiet : WaitPhase → Bool
  | returned => true
  | parked _ => true
  | _ => false

/-- The count a wait future was created at. -/
def WaitPhase.since? : WaitPhase → Option Nat
  | watching since => some since
  | checked since => some since
  | parked since => some since
  | _ => none

/-- Whether an admission is over. -/
def AcceptPhase.isQuiet : AcceptPhase → Bool
  | accepted => true
  | rejected => true
  | _ => false

namespace Lane

/-- Whether a controller is yet to fire. -/
def Driving (s : Lane) (controller : Nat) : Prop :=
  ∃ (index : Nat) (call : DriveCall), s.drives[index]? = some call ∧
    call.phase.controller? = some controller

/-- Whether a drive is to wake the waits for idle once nothing is current. -/
def Served (s : Lane) : Prop := s.activeDrive.isSome = true ∨
    ∃ (index : Nat) (call : DriveCall), s.drives[index]? = some call ∧ call.phase.isLeaving = true

/-- Nothing is current, nobody is in charge and no call is in progress but for waiting ones. -/
structure Quiet (s : Lane) : Prop where
  operation : s.operation = none
  activeDrive : s.activeDrive = none
  drives : ∀ (index : Nat) call, s.drives[index]? = some call → call.phase.isQuiet = true
  waits : ∀ phase ∈ s.waits, phase.isQuiet = true
  accepts : ∀ call ∈ s.accepts, call.phase.isQuiet = true

/-- On a quiet lane every wait future is ready. -/
def NoneStranded (s : Lane) : Prop := s.Quiet →
    (∀ since, WaitPhase.parked since ∈ s.waits → since < s.idle) ∧
      ∀ (index : Nat) (call : DriveCall) (controller since : Nat),
        s.drives[index]? = some call → call.phase = .joined controller since →
          since < s.doneOf controller

/-- No notifier fires for a drive that has seen it but not created its wait future, and no
reservation is given up under a parked wait for idle that no drive is to wake. -/
def Watchful (s : Lane) : Event → Prop
  | .advance index .announce => ∀ call controller result, s.drives[index]? = some call →
      call.phase = .released controller result →
        ∀ (place : Nat) other, s.drives[place]? = some other → other.phase ≠ .joining controller
  | .admission index .undo => ∀ call, s.accepts[index]? = some call →
      s.operation = some call.operationId →
        s.Served ∨ ∀ since, WaitPhase.parked since ∈ s.waits → since < s.idle
  | _ => True

/-- Whoever joined a drive is yet to be woken or ready. -/
structure Joins (s : Lane) : Prop where
  joining : ∀ (index : Nat) (call : DriveCall) (controller : Nat),
    s.drives[index]? = some call → call.phase = .joining controller → s.Driving controller
  joined : ∀ (index : Nat) (call : DriveCall) (controller since : Nat),
    s.drives[index]? = some call → call.phase = .joined controller since →
      since < s.doneOf controller ∨ (since = s.doneOf controller ∧ s.Driving controller)

/-- A parked wait for idle is ready, or something is current or a drive is to wake it. -/
structure Parks (s : Lane) : Prop where
  since : ∀ phase ∈ s.waits, ∀ since, phase.since? = some since → since ≤ s.idle
  parked : ∀ since, WaitPhase.parked since ∈ s.waits →
    since < s.idle ∨ s.operation.isSome = true ∨ s.Served

variable {s s' : Lane} {i : Nat} {call : DriveCall} {phase : DrivePhase}

/-! ## Drives -/

variable {ctl : Nat}

variable {event : DriveEvent}

theorem Driving.putDrive (h : s.Driving ctl) (hcall : s.drives[i]? = some call)
    (hkeep : call.phase.controller? = some ctl → phase.controller? = some ctl) :
    (s.putDrive i { call with phase := phase }).Driving ctl := by
  obtain ⟨place, found, hfnd, hctl⟩ := h
  by_cases heq : place = i
  · subst heq
    obtain rfl := some.inj (hfnd.symm.trans hcall)
    exact ⟨place, _, getElem?_set_of_some hcall, hkeep hctl⟩
  · exact ⟨place, found, (getElem?_set_ne (Ne.symm heq)).trans hfnd, hctl⟩

theorem Served.putDrive (h : s.Served) (hcall : s.drives[i]? = some call)
    (hkeep : call.phase.isLeaving = true → phase.isLeaving = true) :
    (s.putDrive i { call with phase := phase }).Served := by
  rcases h with hact | ⟨place, found, hfnd, hleav⟩
  · exact .inl hact
  · apply Or.inr
    by_cases heq : place = i
    · subst heq
      obtain rfl := some.inj (hfnd.symm.trans hcall)
      exact ⟨place, _, getElem?_set_of_some hcall, hkeep hleav⟩
    · exact ⟨place, found, (getElem?_set_ne (Ne.symm heq)).trans hfnd, hleav⟩

/-- A drive call goes on without firing its controller. -/
theorem Joins.move (h : Joins s) (hcall : s.drives[i]? = some call)
    (hkeep : ∀ ctl, call.phase.controller? = some ctl → phase.controller? = some ctl)
    (hjoin : ∀ ctl, phase = .joining ctl → s.Driving ctl)
    (hjnd : ∀ ctl since, phase = .joined ctl since → since = s.doneOf ctl ∧ s.Driving ctl) :
    Joins (s.putDrive i { call with phase := phase }) := by
  have hdriv (ctl : Nat) (hpre : s.Driving ctl) :
      (s.putDrive i { call with phase := phase }).Driving ctl :=
    hpre.putDrive hcall (hkeep ctl)
  constructor
  case joining =>
    intro place found ctl hfnd hph
    rcases getElem?_set_cases hfnd with ⟨-, rfl⟩ | ⟨-, hfnd⟩
    · exact hdriv ctl (hjoin ctl hph)
    · exact hdriv ctl (h.joining place found ctl hfnd hph)
  case joined =>
    intro place found ctl since hfnd hph
    rcases getElem?_set_cases hfnd with ⟨-, rfl⟩ | ⟨-, hfnd⟩
    · exact .inr ((hjnd ctl since hph).imp_right (hdriv ctl))
    · exact (h.joined place found ctl since hfnd hph).imp_right (And.imp_right (hdriv ctl))

/-- A drive call moves between phases that neither have a controller nor wait for one. -/
theorem Joins.goOn (h : Joins s) (hcall : s.drives[i]? = some call)
    (hkeep : ∀ ctl, call.phase.controller? = some ctl → phase.controller? = some ctl)
    (hjoin : ∀ ctl, phase ≠ .joining ctl)
    (hjnd : ∀ ctl since, phase ≠ .joined ctl since) :
    Joins (s.putDrive i { call with phase := phase }) :=
  h.move hcall hkeep (fun ctl heq => absurd heq (hjoin ctl))
    (fun ctl since heq => absurd heq (hjnd ctl since))

/-- What the joined drives look at is the same. -/
theorem Joins.of_eq (h : Joins s) (hdrvs : s'.drives = s.drives)
    (hcontrollers : s'.doneOf = s.doneOf) : Joins s' := by
  have hdriv (ctl : Nat) (hpre : s.Driving ctl) : s'.Driving ctl := by
    rw [Driving, hdrvs]
    exact hpre
  constructor
  case joining =>
    rw [hdrvs]
    exact fun place found ctl hfnd hph =>
      hdriv ctl (h.joining place found ctl hfnd hph)
  case joined =>
    rw [hdrvs, hcontrollers]
    exact fun place found ctl since hfnd hph =>
      (h.joined place found ctl since hfnd hph).imp_right (And.imp_right (hdriv ctl))

theorem doneOf_install (s : Lane) (i : Nat) (call : DriveCall) :
    (s.install i call).doneOf = s.doneOf := by
  funext ctl
  rw [Lane.install]
  split
  · rfl
  · show (((s.controllers ++ [_])[ctl]?).map DriveController.done).getD 0 = _
    rcases Nat.lt_trichotomy ctl s.controllers.length with hlt | rfl | hgt
    · rw [getElem?_append_left hlt]
      rfl
    · rw [getElem?_concat_length, doneOf, getElem?_eq_none (Nat.le_refl _)]
      rfl
    · rw [doneOf, getElem?_eq_none (Nat.le_of_lt hgt), getElem?_eq_none
        (by rw [length_append, length_singleton]; omega)]

theorem doneOf_announce {found : DriveController} (hfnd : s.controllers[ctl]? = some found)
    (other : Nat) :
    (s.announce ctl).doneOf other = if other = ctl then s.doneOf ctl + 1 else s.doneOf other := by
  rw [Lane.announce, hfnd]
  show (((s.controllers.set ctl _)[other]?).map DriveController.done).getD 0 = _
  split_ifs with heq
  · rw [heq, getElem?_set_of_some hfnd, doneOf, hfnd]
    rfl
  · rw [getElem?_set_ne (Ne.symm heq), doneOf]

theorem drives_announce (s : Lane) (ctl : Nat) : (s.announce ctl).drives = s.drives := by
  rw [Lane.announce]
  split
  · rfl
  · rfl

section

variable (h : Joins s) (hkept : Kept s) (hcall : s.drives[i]? = some call)

include h hkept hcall

/-- A drive wakes whoever joined it. -/
theorem Joins.announce {res : DriveEnd} (hph : call.phase = .released ctl res)
    (hnone : ∀ (place : Nat) other, s.drives[place]? = some other → other.phase ≠ .joining ctl) :
    Joins ((s.putDrive i { call with phase := .announced res }).announce ctl) := by
  obtain ⟨owned, howned, -⟩ := hkept.owner i call ctl hcall (by rw [hph]; rfl)
  have hdone (other : Nat) :
      ((s.putDrive i { call with phase := .announced res }).announce ctl).doneOf other =
        if other = ctl then s.doneOf ctl + 1 else s.doneOf other :=
    doneOf_announce (s := s.putDrive i { call with phase := .announced res }) howned other
  have hdrvs : ((s.putDrive i { call with phase := .announced res }).announce ctl).drives =
        s.drives.set i { call with phase := .announced res } := drives_announce _ _
  have hdriv (other : Nat) (hne : other ≠ ctl) (hpre : s.Driving other) : ((s.putDrive i
        { call with phase := .announced res }).announce ctl).Driving other := by
    have hput : (s.putDrive i { call with phase := .announced res }).Driving other := by
      apply hpre.putDrive hcall
      rw [hph]
      intro heq
      exact absurd (some.inj heq).symm hne
    rw [Driving, drives_announce]
    exact hput
  constructor
  case joining =>
    rw [hdrvs]
    intro place found other hfnd hjoin
    rcases getElem?_set_cases hfnd with ⟨-, rfl⟩ | ⟨-, hfnd⟩
    · cases hjoin
    · have hne : other ≠ ctl := by
        rintro rfl
        exact hnone place found hfnd hjoin
      exact hdriv other hne (h.joining place found other hfnd hjoin)
  case joined =>
    rw [hdrvs]
    intro place found other since hfnd hjnd
    rw [hdone]
    rcases getElem?_set_cases hfnd with ⟨-, rfl⟩ | ⟨-, hfnd⟩
    · cases hjnd
    · split_ifs with heq
      · subst heq
        rcases h.joined place found other since hfnd hjnd with hlt | ⟨hsame, -⟩
        · exact .inl (Nat.lt_succ_of_lt hlt)
        · exact .inl (hsame ▸ Nat.lt_succ_self _)
      · exact (h.joined place found other since hfnd hjnd).imp_right
          (And.imp_right (hdriv other heq))

theorem Joins.look (hph : call.phase = .entered) : Joins (s.look i call) := by
  have hkeep (phase : DrivePhase) (ctl : Nat) (hctl : call.phase.controller? = some ctl) :
      phase.controller? = some ctl := by
    rw [hph] at hctl
    cases hctl
  rw [Lane.look]
  cases hact : s.activeDrive with
  | none =>
    exact h.goOn hcall (hkeep _) (fun _ heq => by cases heq) (fun _ _ heq => by cases heq)
  | some ctl =>
    simp only
    split_ifs
    · apply h.move hcall (hkeep _)
      · intro other heq
        obtain rfl := DrivePhase.joining.inj heq
        obtain ⟨place, found, hfnd, hchg⟩ := hkept.active ctl hact
        exact ⟨place, found, hfnd, DrivePhase.controller?_of_charge? hchg⟩
      · intro other since heq
        cases heq
    · exact h.goOn hcall (hkeep _) (fun _ heq => by cases heq) (fun _ _ heq => by cases heq)

/-- A drive call goes on. -/
theorem Joins.driveStep (hwatchful : s.Watchful (.advance i event))
    (hnext : s.driveStep i call event = some s') : Joins s' := by
  obtain ⟨opId, phase⟩ := call
  -- Most steps have no ctl before them, or keep the one they have.
  have hidle (next : DrivePhase) (hnone : phase.controller? = none)
      (hjoin : ∀ ctl, next ≠ .joining ctl)
      (hjnd : ∀ ctl since, next ≠ .joined ctl since) :
      Joins (s.putDrive i ⟨opId, next⟩) := by
    apply h.goOn hcall _ hjoin hjnd
    intro ctl hctl
    rw [hnone] at hctl
    cases hctl
  have hown (next : DrivePhase) (ctl : Nat) (hpre : phase.controller? = some ctl)
      (haft : next.controller? = some ctl) :
      Joins (s.putDrive i ⟨opId, next⟩) := by
    apply h.goOn hcall
    · intro other hoth
      rw [hpre] at hoth
      exact haft.trans hoth
    · rintro other rfl
      cases haft
    · rintro other since rfl
      cases haft
  cases event <;> cases phase <;> try (cases hnext; done)
  case request.requesting =>
    cases hnext
    apply hidle _ rfl
    · intro ctl heq
      split_ifs at heq
    · intro ctl since heq
      split_ifs at heq
  case look.entered =>
    cases hnext
    exact h.look hkept hcall rfl
  case listen.joining ctl =>
    cases hnext
    apply h.move hcall
    · intro other hoth
      cases hoth
    · intro other heq
      cases heq
    · intro other since heq
      obtain ⟨rfl, rfl⟩ := DrivePhase.joined.inj heq
      exact ⟨rfl, h.joining i _ ctl hcall rfl⟩
  case wake.joined =>
    simp only [Lane.driveStep] at hnext
    split_ifs at hnext
    cases hnext
    exact hidle _ rfl (fun _ heq => by cases heq) (fun _ _ heq => by cases heq)
  case install.installing =>
    cases hnext
    have hdone := doneOf_install s i ⟨opId, .installing⟩
    by_cases hbusy : s.activeDrive.isSome = true
    · rw [Lane.install, if_pos hbusy]
      exact hidle _ rfl (fun _ heq => by cases heq) (fun _ _ heq => by cases heq)
    · rw [Lane.install, if_neg hbusy] at hdone ⊢
      exact (hidle (.looking s.controllers.length) rfl (fun _ heq => by cases heq)
        (fun _ _ heq => by cases heq)).of_eq rfl hdone
  case check.looking ctl | progress.working ctl =>
    cases hnext
    apply hown _ ctl rfl
    split_ifs
    · rfl
    · rfl
  case stop.working res ctl =>
    cases res with
    | settled record => cases hnext
    | waitingRetry | waitingDeferred | laneBusy | operationMismatch | failed =>
      cases hnext
      exact hown _ ctl rfl rfl
  case settle.working wakes ctl =>
    cases hnext
    rw [Lane.settle]
    have hmoved := hown (if wakes then .settling ctl s.settlements.length
      else .finishing ctl (.settled s.settlements.length)) ctl rfl
      (by split_ifs <;> rfl)
    exact hmoved.of_eq rfl rfl
  case notify.settling ctl record =>
    cases hnext
    exact (hown (.finishing ctl (.settled record)) ctl rfl rfl).of_eq rfl rfl
  case release.finishing ctl res =>
    cases hnext
    exact (hown (.released ctl res) ctl rfl rfl).of_eq rfl rfl
  case announce.released ctl res =>
    cases hnext
    exact h.announce hkept hcall rfl (hwatchful _ ctl res hcall rfl)
  case leave.announced res =>
    cases hnext
    exact (hidle (.returned res) rfl (fun _ heq => by cases heq)
      (fun _ _ heq => by cases heq)).of_eq rfl rfl

end

/-! ## Waits for idle -/

variable {wait : WaitPhase}

section

variable (h : Parks s)

include h

/-- A drive call goes on and does not stop being about to wake the waits for idle. -/
theorem Parks.putDrive (hcall : s.drives[i]? = some call)
    (hkeep : call.phase.isLeaving = true → phase.isLeaving = true) :
    Parks (s.putDrive i { call with phase := phase }) where
  since := h.since
  parked := fun since hpark => (h.parked since hpark).imp_right
    (Or.imp_right fun hserved => hserved.putDrive hcall hkeep)

section

variable (hwaits : s'.waits = s.waits)

include hwaits

/-- The waits for idle are woken. -/
theorem Parks.wakeAll (hidle : s'.idle = s.idle + 1) : Parks s' where
  since := by
    rw [hwaits, hidle]
    exact fun phase hph since hsince => Nat.le_succ_of_le (h.since phase hph since hsince)
  parked := by
    rw [hwaits, hidle]
    exact fun since hpark => .inl (Nat.lt_succ_of_le (h.since _ hpark since rfl))

/-- Someone is about to wake the waits for idle. -/
theorem Parks.of_served (hidle : s'.idle = s.idle) (hserved : s'.Served) : Parks s' where
  since := by
    rw [hwaits, hidle]
    exact h.since
  parked := fun _ _ => .inr (.inr hserved)

/-- Something is current. -/
theorem Parks.of_operation (hidle : s'.idle = s.idle) (hop : s'.operation.isSome = true) :
    Parks s' where
  since := by
    rw [hwaits, hidle]
    exact h.since
  parked := fun _ _ => .inr (.inl hop)

theorem Parks.of_eq (hidle : s'.idle = s.idle) (hop : s'.operation = s.operation)
    (hserved : s.Served → s'.Served) : Parks s' where
  since := by
    rw [hwaits, hidle]
    exact h.since
  parked := by
    rw [hwaits, hidle, hop]
    exact fun since hpark => (h.parked since hpark).imp_right (Or.imp_right hserved)

end

/-- A wait for idle goes on. -/
theorem Parks.putWait (hsince : ∀ since, wait.since? = some since → since ≤ s.idle)
    (hpark : ∀ since, wait = .parked since → s.operation.isSome = true ∨ s.Served) :
    Parks (s.putWait i wait) := by
  have hmem (found : WaitPhase) (hfnd : found ∈ s.waits.set i wait) :
      found ∈ s.waits ∨ found = wait := mem_or_eq_of_mem_set hfnd
  constructor
  case since =>
    intro found hfnd since hfoundSince
    rcases hmem found hfnd with hfnd | rfl
    · exact h.since found hfnd since hfoundSince
    · exact hsince since hfoundSince
  case parked =>
    intro since hfnd
    rcases hmem _ hfnd with hfnd | heq
    · exact h.parked since hfnd
    · exact .inr (hpark since heq.symm)

/-- A drive call goes on. -/
theorem Parks.driveStep (hkept : Kept s) (hcall : s.drives[i]? = some call)
    (hnext : s.driveStep i call event = some s') : Parks s' := by
  obtain ⟨opId, phase⟩ := call
  have hidle (next : DrivePhase) (hnot : phase.isLeaving = false) :
      Parks (s.putDrive i ⟨opId, next⟩) := by
    apply h.putDrive hcall
    intro hleav
    rw [hnot] at hleav
    cases hleav
  have hleav (next : DrivePhase) (haft : next.isLeaving = true) :
      ∃ (place : Nat) (found : DriveCall),
        (s.drives.set i ⟨opId, next⟩)[place]? = some found ∧ found.phase.isLeaving = true :=
    ⟨i, _, getElem?_set_of_some hcall, haft⟩
  cases event <;> cases phase <;> try (cases hnext; done)
  case request.requesting | listen.joining | check.looking | progress.working =>
    cases hnext
    exact hidle _ rfl
  case look.entered =>
    cases hnext
    rw [Lane.look]
    split
    · exact hidle _ rfl
    · split_ifs
      · exact hidle _ rfl
      · exact hidle _ rfl
  case wake.joined =>
    simp only [Lane.driveStep] at hnext
    split_ifs at hnext
    cases hnext
    exact hidle _ rfl
  case install.installing =>
    cases hnext
    by_cases hbusy : s.activeDrive.isSome = true
    · rw [Lane.install, if_pos hbusy]
      exact hidle _ rfl
    · rw [Lane.install, if_neg hbusy]
      exact h.of_served rfl rfl (.inl rfl)
  case stop.working res ctl =>
    cases res with
    | settled record => cases hnext
    | waitingRetry | waitingDeferred | laneBusy | operationMismatch | failed =>
      cases hnext
      exact hidle _ rfl
  case settle.working wakes ctl =>
    cases hnext
    -- The lane is given up, and the waits for idle are woken, after the loop.
    have hact : s.activeDrive = some ctl := hkept.charge i _ ctl hcall rfl
    exact h.of_served rfl rfl (.inl (isSome_iff_exists.mpr ⟨ctl, hact⟩))
  case notify.settling =>
    cases hnext
    exact h.wakeAll rfl rfl
  case release.finishing ctl res =>
    cases hnext
    exact h.of_served rfl rfl (.inr (hleav (.released ctl res) rfl))
  case announce.released ctl res =>
    cases hnext
    rw [Lane.announce]
    split
    · exact h.of_served rfl rfl (.inr (hleav (.announced res) rfl))
    · exact h.of_served rfl rfl (.inr (hleav (.announced res) rfl))
  case leave.announced =>
    cases hnext
    cases hop : s.operation with
    | none => exact h.wakeAll rfl rfl
    | some opId =>
      exact h.of_operation rfl rfl (isSome_iff_exists.mpr ⟨opId, hop⟩)

/-- A wait for idle looks at the lane. -/
theorem Parks.waitStep {event : WaitEvent} (hwait : s.waits[i]? = some wait)
    (hnext : s.waitStep i wait event = some s') : Parks s' := by
  have hsince (since : Nat) (hwaitSince : wait.since? = some since) : since ≤ s.idle :=
    h.since wait (mem_of_getElem? hwait) since hwaitSince
  cases event <;> cases wait <;> try (cases hnext; done)
  case watch.entered =>
    cases hnext
    apply h.putWait
    · intro since heq
      exact Nat.le_of_eq (some.inj heq).symm
    · intro since heq
      cases heq
  case checkOperation.watching watched =>
    cases hnext
    have hle : watched ≤ s.idle := hsince watched rfl
    split_ifs with hnone
    · apply h.putWait
      · intro since heq
        exact some.inj heq ▸ hle
      · intro since heq
        cases heq
    · apply h.putWait
      · intro since heq
        exact some.inj heq ▸ hle
      · intro since heq
        exact .inl (isSome_iff_ne_none.mpr fun hop =>
          hnone (isNone_iff_eq_none.mpr hop))
  case checkDrive.checked checked =>
    cases hnext
    have hle : checked ≤ s.idle := hsince checked rfl
    split_ifs with hnone
    · apply h.putWait
      · intro since heq
        cases heq
      · intro since heq
        cases heq
    · apply h.putWait
      · intro since heq
        exact some.inj heq ▸ hle
      · intro since heq
        exact .inr (.inl (isSome_iff_ne_none.mpr fun hact =>
          hnone (isNone_iff_eq_none.mpr hact)))
  case wake.parked =>
    simp only [Lane.waitStep] at hnext
    split_ifs at hnext
    cases hnext
    apply h.putWait
    · intro since heq
      cases heq
    · intro since heq
      cases heq

/-- A reservation is made, committed or given up. -/
theorem Parks.acceptStep {accept : AcceptCall} {event : AcceptEvent}
    (haccept : s.accepts[i]? = some accept) (hwatchful : s.Watchful (.admission i event))
    (hnext : s.acceptStep i accept event = some s') : Parks s' := by
  obtain ⟨opId, phase⟩ := accept
  cases event <;> cases phase <;> try (cases hnext; done)
  case reserve.entered =>
    simp only [Lane.acceptStep] at hnext
    split_ifs at hnext
    · cases hnext
      exact h.of_operation rfl rfl rfl
    · cases hnext
      exact h.of_eq rfl rfl rfl id
  case commit.reserved =>
    cases hnext
    exact h.of_eq rfl rfl rfl id
  case undo.reserved =>
    cases hnext
    by_cases hown : s.operation = some opId
    · rcases hwatchful _ haccept hown with hserved | hrdy
      · exact h.of_served rfl rfl hserved
      · exact ⟨h.since, fun since hpark => .inl (hrdy since hpark)⟩
    · exact h.of_eq rfl rfl (if_neg hown) id

end

/-! ## Runs -/

/-- A new drive call. -/
theorem Joins.addDrive (h : Joins s) (hjoining : ∀ controller, call.phase ≠ .joining controller)
    (hjoined : ∀ controller since, call.phase ≠ .joined controller since) :
    Joins { s with drives := s.drives ++ [call] } := by
  have hdriving (controller : Nat) (hpre : s.Driving controller) :
      Lane.Driving { s with drives := s.drives ++ [call] } controller := by
    obtain ⟨place, found, hfnd, hctl⟩ := hpre
    exact ⟨place, found, getElem?_append_of_some hfnd, hctl⟩
  constructor
  case joining =>
    intro place found controller hfnd hph
    rcases getElem?_append_cases hfnd with hfnd | ⟨-, rfl⟩
    · exact hdriving controller (h.joining place found controller hfnd hph)
    · exact absurd hph (hjoining controller)
  case joined =>
    intro place found controller since hfnd hph
    rcases getElem?_append_cases hfnd with hfnd | ⟨-, rfl⟩
    · exact (h.joined place found controller since hfnd hph).imp_right
        (And.imp_right (hdriving controller))
    · exact absurd hph (hjoined controller since)

theorem Parks.addDrive (h : Parks s) : Parks { s with drives := s.drives ++ [call] } := by
  have hserved (hpre : s.Served) : Served { s with drives := s.drives ++ [call] } := by
    rcases hpre with hact | ⟨place, found, hfnd, hleav⟩
    · exact .inl hact
    · exact .inr ⟨place, found, getElem?_append_of_some hfnd, hleav⟩
  exact h.of_eq rfl rfl rfl hserved

/-- Waits and admissions do not matter to whoever joined a drive. -/
theorem Joins.of_sameDrives (h : Joins s) (hsame : SameDrives s s') : Joins s' := by
  apply h.of_eq hsame.drives
  funext ctl
  rw [doneOf, doneOf, hsame.controllers]

theorem Joins.step {event : Event} (h : Joins s) (hkept : Kept s) (hwatchful : s.Watchful event)
    (hnext : s.step event = some s') : Joins s' := by
  cases event with
  | drive opId =>
    cases hnext
    exact h.addDrive (fun _ heq => by cases heq) (fun _ _ heq => by cases heq)
  | abort =>
    rw [Lane.step] at hnext
    split at hnext
    · cases hnext
    · cases hnext
      exact h.addDrive (fun _ heq => by cases heq) (fun _ _ heq => by cases heq)
  | advance i event =>
    rw [Lane.step] at hnext
    split at hnext
    · cases hnext
    · rename_i call hcall
      exact h.driveStep hkept hcall hwatchful hnext
  | waitForIdle | accept =>
    cases hnext
    exact h.of_eq rfl rfl
  | wait i event =>
    rw [Lane.step] at hnext
    split at hnext
    · cases hnext
    · exact h.of_sameDrives (sameDrives_waitStep hnext)
  | admission i event =>
    rw [Lane.step] at hnext
    split at hnext
    · cases hnext
    · exact h.of_sameDrives (sameDrives_acceptStep hnext)

theorem Parks.step {event : Event} (h : Parks s) (hkept : Kept s) (hwatchful : s.Watchful event)
    (hnext : s.step event = some s') : Parks s' := by
  cases event with
  | drive opId =>
    cases hnext
    exact h.addDrive
  | abort =>
    rw [Lane.step] at hnext
    split at hnext
    · cases hnext
    · cases hnext
      exact h.addDrive
  | advance i event =>
    rw [Lane.step] at hnext
    split at hnext
    · cases hnext
    · rename_i call hcall
      exact h.driveStep hkept hcall hnext
  | accept opId =>
    cases hnext
    exact h.of_eq rfl rfl rfl id
  | waitForIdle =>
    cases hnext
    constructor
    case since =>
      intro phase hph since hsince
      rcases mem_append.mp hph with hph | hph
      · exact h.since phase hph since hsince
      · rw [mem_singleton.mp hph] at hsince
        cases hsince
    case parked =>
      intro since hpark
      rcases mem_append.mp hpark with hpark | hpark
      · exact h.parked since hpark
      · cases mem_singleton.mp hpark
  | wait i event =>
    rw [Lane.step] at hnext
    split at hnext
    · cases hnext
    · rename_i phase hph
      exact h.waitStep hph hnext
  | admission i event =>
    rw [Lane.step] at hnext
    split at hnext
    · cases hnext
    · rename_i accept haccept
      exact h.acceptStep haccept hwatchful hnext

/-- Whoever waits on a quiet lane has been woken. -/
theorem noneStranded (hjoins : Joins s) (hparks : Parks s) : s.NoneStranded := by
  intro hquiet
  constructor
  · intro since hpark
    rcases hparks.parked since hpark with hrdy | hcur | hact | ⟨place, found, hfnd, hleav⟩
    · exact hrdy
    · rw [hquiet.operation] at hcur
      cases hcur
    · rw [hquiet.activeDrive] at hact
      cases hact
    · have hph := hquiet.drives place found hfnd
      cases hcase : found.phase with
      | released | announced =>
        rw [hcase] at hph
        cases hph
      | requesting | entered | joining | joined | installing | looking | working | settling
      | finishing | returned =>
        rw [hcase] at hleav
        cases hleav
  · intro i call ctl since hcall hjnd
    rcases hjoins.joined i call ctl since hcall hjnd with
      hrdy | ⟨-, place, found, hfnd, hctl⟩
    · exact hrdy
    · have hph := hquiet.drives place found hfnd
      cases hcase : found.phase with
      | looking | working | settling | finishing | released =>
        rw [hcase] at hph
        cases hph
      | requesting | entered | joining | joined | installing | announced | returned =>
        rw [hcase] at hctl
        cases hctl

/-- In a watchful run no wait for idle and no joined drive is left behind. -/
theorem noneStranded_of_run (h : machine.Run Watchful s) : s.NoneStranded := by
  have hinvariant : Kept s ∧ Joins s ∧ Parks s := by
    apply h.invariant
    · rintro _ rfl
      refine ⟨kept_start, ⟨?_, ?_⟩, ⟨?_, ?_⟩⟩
      · intro i call ctl hcall
        cases hcall
      · intro i call ctl since hcall
        cases hcall
      · intro phase hphase
        cases hphase
      · intro since hparked
        cases hparked
    · rintro s s' event ⟨hkept, hjoins, hparks⟩ hwatchful hnext
      exact ⟨hkept.step hnext, hjoins.step hkept hwatchful hnext, hparks.step hkept hwatchful hnext⟩
  exact noneStranded hinvariant.2.1 hinvariant.2.2

/-- A check for watchful steps, with no admission undone. -/
def watchfulCheck (s : Lane) : Event → Bool
  | .advance _ .announce => s.drives.all fun call =>
    match call.phase with
    | .joining _ => false
    | _ => true
  | .admission _ .undo => false
  | _ => true

/-- A wait for idle and a second drive wait until the first drive has settled. -/
theorem noneStranded_joined : ∃ s : Lane, s.NoneStranded ∧ s.Quiet ∧
    WaitPhase.parked 0 ∈ s.waits ∧ s.drives[1]? = some ⟨"a", .joined 0 0⟩ := by
  have hstart : machine.Run Watchful {} := .start rfl
  obtain ⟨s, hrun, hs⟩ := hstart.execute watchfulCheck
    [.accept "a", .admission 0 .reserve, .admission 0 .commit, .waitForIdle, .wait 0 .watch,
      .wait 0 .checkOperation, .drive "a", .advance 0 .look, .advance 0 .install, .drive "a",
      .advance 1 .look, .advance 1 .listen, .advance 0 .check, .advance 0 (.settle true),
      .advance 0 .notify, .advance 0 .release, .advance 0 .announce, .advance 0 .leave]
    (fun s => s ==
      { controllers := [⟨"a", 0, 1⟩], idle := 2,
        drives := [⟨"a", .returned (.settled 0)⟩, ⟨"a", .joined 0 0⟩], waits := [.parked 0],
        accepts := [⟨"a", .accepted⟩], settlements := [⟨"a", 0, [0, 1]⟩] })
    (by
      intro s event hcheck
      cases event with
      | advance i event =>
        cases event with
        | announce =>
          intro call ctl res _ _ place other hother hjoining
          have hall := List.all_eq_true.mp hcheck other (mem_of_getElem? hother)
          rw [hjoining] at hall
          cases hall
        | _ => trivial
      | admission i event =>
        cases event with
        | undo => cases hcheck
        | _ => trivial
      | _ => trivial)
    (by decide +kernel)
  obtain rfl := eq_of_beq hs
  refine ⟨_, noneStranded_of_run hrun, ⟨rfl, rfl, ?_, by decide, by decide⟩, by decide, rfl⟩
  intro i call hcall
  have hmem := mem_of_getElem? hcall
  simp only [mem_cons, not_mem_nil, or_false] at hmem
  rcases hmem with rfl | rfl
  · rfl
  · rfl

/-- A wait for idle parks at a reservation that is given up, and nobody wakes it. -/
theorem wait_strands : ¬ ∀ s : Lane, machine.Run (fun _ _ => True) s → s.NoneStranded := by
  intro h
  have hstart : machine.Run (fun _ _ => True) {} := .start rfl
  obtain ⟨s, hrun, hs⟩ := hstart.execute (fun _ _ => true)
    [.accept "a", .admission 0 .reserve, .waitForIdle, .wait 0 .watch, .wait 0 .checkOperation,
      .admission 0 .undo]
    (fun s => s == { waits := [.parked 0], accepts := [⟨"a", .rejected⟩] })
    (fun _ _ _ => trivial)
    (by decide +kernel)
  obtain rfl := eq_of_beq hs
  have hquiet : Quiet { waits := [.parked 0], accepts := [⟨"a", .rejected⟩] } :=
    ⟨rfl, rfl, (fun i call hcall => by cases hcall), by decide, by decide⟩
  exact absurd ((h _ hrun hquiet).1 0 (by decide)) (by decide)

end Lane

end PiOxidized.Harness.Runtime.Waiting
