/-
# Lane memory and the stored lane

Queue writers, cancellations and admissions commit under the guard and bring lane data up to
date afterwards, each in its own time.  The guard orders the commits; nothing orders what
follows them, and a task that finds memory in another state than the one its commit was based
on leaves memory as it is.

Memory ends up with the stored lane as long as every task finds the state its commit was based
on, no admission overwrites a cancellation that was published before it, and a cancellation
works on the operation that is stored as the current one.  A restart reads memory back from
storage.
-/

import PiOxidized.Harness.Runtime.Abort
import PiOxidized.Math.Trail

namespace PiOxidized.Harness.Runtime

open List Option Bool Math
open Session (EntryId)

variable {M : Type} {name : LaneName} {shared shared' : Shared M} {lane lane' : Lane M}

/-! ## Memory and storage -/

/-- The id of the stored current operation. -/
def Stored.currentId (stored : Stored M) (name : LaneName) : Option OperationId :=
  (stored.laneState name).currentOperationId

/-- Lane memory has what is stored of the lane. -/
structure Mirrors (name : LaneName) (stored : Stored M) (data : LaneData) : Prop where
  state : stored.laneStates.get? name = some data.state
  tip : stored.branchTips.get? name = some data.tip
  idle : stored.currentId name = none → data.operation = none
  operation : ∀ id, stored.currentId name = some id → ∃ operation,
    data.operation = some operation ∧ operation.info.operationId = id ∧
      stored.records id = (some operation.info, some operation.state)

def CallRequest.isAppend : CallRequest M → Bool
  | append _ _ => true
  | _ => false

def CallPhase.hasReturned : CallPhase M → Bool
  | .returned _ => true
  | _ => false

/-- The steps of queue writers, cancellations and admissions. -/
def isCallStep : LaneEvent M → Bool
  | .call request => !request.isAppend
  | .advance _ => true
  | _ => false

/-- The operation of a cancellation that is committed and not published. -/
def CallPhase.cancelled : CallPhase M → Option Operation
  | .committed update => update.publication.cancelled
  | _ => none

/-- Whether a committed cancellation of an operation has still to be published. -/
def Lane.publishesCancelled (lane : Lane M) (id : OperationId) : Bool := lane.calls.any fun call =>
    call.phase.cancelled.any fun operation => operation.info.operationId == id

/-- Whether a step takes memory away from what is stored: a commit is published on another
state than its own base, an admission is published over a cancellation, or a cancellation
commits for another operation than the current one. -/
def divergesMemory (name : LaneName) (system : LaneSystem M) : LaneEvent M → Bool
  | .advance index =>
    match system.2.calls[index]? with
    | some ⟨_, .guarded update⟩ =>
      update.publication.cancelled.any fun operation =>
        decide (system.1.stored.currentId name ≠ some operation.info.operationId) ||
          decide (system.1.stored.operationMetas.get? operation.info.operationId ≠
            some operation.info)
    | some ⟨_, .committed update⟩ =>
      (update.publication.states.any fun states => decide (states.1 ≠ system.2.data.state)) ||
        update.publication.admitted.any fun operation =>
          decide (system.1.stored.operationStates.get? operation.info.operationId ≠
            some operation.state) &&
          !system.2.publishesCancelled operation.info.operationId
    | _ => false
  | _ => false

/-! ## What is still to be published -/

/-- The lane states a committed batch leads from and to. -/
def CallPhase.behind : CallPhase M → Option (LaneState × LaneState)
  | .committed update => update.publication.states
  | _ => none

/-- The operation of a batch that is committed and not published. -/
def CallPhase.unpublished : CallPhase M → Option Operation
  | .committed update => update.publication.operation
  | _ => none

/-- The tip of a batch that is committed and not published. -/
def CallPhase.movedTip : CallPhase M → Option (Option EntryId)
  | .committed update => update.publication.movedTip
  | _ => none

/-- The operation a call has reserved the lane for. -/
def CallPhase.owns : CallPhase M → Option OperationId
  | .reserved admission => some admission.operationId
  | .guarded update => update.publication.admitted.map (·.info.operationId)
  | .committed update => update.publication.admitted.map (·.info.operationId)
  | .undoing id _ => some id
  | _ => none

/-- Whether a call has reserved the lane and not committed its operation. -/
def CallPhase.reserves (phase : CallPhase M) : Bool := phase.owns.isSome && !phase.isCommitted

/-- One call at most has reserved the lane, and memory has its operation. -/
def Lane.Owned (lane : Lane M) : Prop :=
  ∀ (index : Nat) (call : Call M) (id : OperationId), lane.calls[index]? = some call →
    call.phase.owns = some id → lane.data.operationId = some id ∧
      ∀ (other : Nat) call', lane.calls[other]? = some call' →
        call'.phase.owns.isSome = true → other = index

/-- What the commits of a lane that nobody drives leave to be published. -/
structure Converging (name : LaneName) (shared : Shared M) (lane : Lane M) : Prop where
  /-- A state is stored, and the unpublished commits lead to it from the remembered one. -/
  state : ∃ state, shared.stored.laneStates.get? name = some state ∧
    Trail lane.data.state state (lane.calls.filterMap fun call => call.phase.behind)
  owned : lane.Owned
  reserving : ∀ call ∈ lane.calls, call.phase.reserves = true → shared.stored.currentId name = none
  idle : shared.stored.currentId name = none → lane.data.operation = none ∨
    ∃ call ∈ lane.calls, call.phase.reserves = true
  current : ∀ id, shared.stored.currentId name = some id → ∃ operation,
    lane.data.operation = some operation ∧ operation.info.operationId = id ∧
      (shared.stored.records id = (some operation.info, some operation.state) ∨
        ∃ call ∈ lane.calls, call.phase.unpublished.isSome = true)
  /-- What is to be published is the current operation. -/
  unpublished : ∀ call ∈ lane.calls, ∀ operation, call.phase.unpublished = some operation →
    shared.stored.currentId name = some operation.info.operationId ∧
      shared.stored.operationMetas.get? operation.info.operationId = some operation.info
  cancelled : ∀ call ∈ lane.calls, ∀ operation, call.phase.cancelled = some operation →
    shared.stored.operationStates.get? operation.info.operationId = some operation.state
  moved : ∀ call ∈ lane.calls, ∀ tip, call.phase.movedTip = some tip →
    shared.stored.branchTips.get? name = some tip
  tip : (∀ call ∈ lane.calls, call.phase.movedTip = none) →
    shared.stored.branchTips.get? name = some lane.data.tip

/-! ## Calls after a step -/

variable {lock : Option Party} {data : LaneData} {next : CallPhase M} {i : Nat}

variable {P : CallPhase M → Prop}

theorem Lane.getElem?_withCall_of_ne {pos : Nat} {call : Call M}
    (h : lane.calls[pos]? = some call) (hplc : pos ≠ i) :
    (lane.withCall i next data lock).calls[pos]? = some call := by
  simp only [Lane.withCall, Lane.setCall, getElem?_modify, if_neg (Ne.symm hplc), h,
    Option.map_eq_map, map_some]

theorem Lane.getElem?_withCall_self {call : Call M} (h : lane.calls[i]? = some call) :
    (lane.withCall i next data lock).calls[i]? = some ⟨call.request, next⟩ := by
  simp only [Lane.withCall, Lane.setCall, getElem?_modify, if_true, h, Option.map_eq_map, map_some]

/-- A call is still there after a step, or it is the one that took the step. -/
theorem mem_withCall_of_mem {call stepped : Call M} (next : CallPhase M) (data : LaneData)
    (lock : Option Party) (hstepped : lane.calls[i]? = some stepped) (h : call ∈ lane.calls) :
    call = stepped ∨ call ∈ (lane.withCall i next data lock).calls := by
  obtain ⟨pos, hplc⟩ := mem_iff_getElem?.mp h
  by_cases hne : pos = i
  · subst hne
    rw [hstepped] at hplc
    exact .inl (some.inj hplc).symm
  · exact .inr (mem_of_getElem? (Lane.getElem?_withCall_of_ne hplc hne))

theorem mem_withCall_self {call : Call M} (h : lane.calls[i]? = some call) :
    ⟨call.request, next⟩ ∈ (lane.withCall i next data lock).calls :=
  mem_of_getElem? (Lane.getElem?_withCall_self h)

/-- What every call had, every call has after a step if the new phase has it. -/
theorem forall_withCall {call : Call M} (hcall : lane.calls[i]? = some call) (hnext : P next)
    (h : ∀ call ∈ lane.calls, P call.phase) :
    ∀ call ∈ (lane.withCall i next data lock).calls, P call.phase := by
  intro member hmem
  obtain rfl | hmem := mem_withCall hcall hmem
  · exact hnext
  · exact h member hmem

/-- What is known of the values of all calls, if the new phase has no value. -/
theorem forall_withCall_of_none {B : Type} {f : CallPhase M → Option B} {Q : B → Prop}
    {call : Call M} (hcall : lane.calls[i]? = some call) (hnext : f next = none)
    (h : ∀ call ∈ lane.calls, ∀ value, f call.phase = some value → Q value) :
    ∀ call ∈ (lane.withCall i next data lock).calls, ∀ value,
      f call.phase = some value → Q value := by
  refine forall_withCall (P := fun phase => ∀ value, f phase = some value → Q value) hcall ?_ h
  rw [hnext]
  exact nofun

/-- What a call had a call has after a step, if the new phase has it where the old one had. -/
theorem exists_withCall {call : Call M} (hcall : lane.calls[i]? = some call)
    (hnext : P call.phase → P next) (h : ∃ call ∈ lane.calls, P call.phase) :
    ∃ call ∈ (lane.withCall i next data lock).calls, P call.phase := by
  obtain ⟨member, hmem, hph⟩ := h
  obtain rfl | hmem := mem_withCall_of_mem next data lock hcall hmem
  · exact ⟨_, mem_withCall_self hcall, hnext hph⟩
  · exact ⟨member, hmem, hph⟩

/-- The unpublished lane states after a step of a call. -/
theorem behind_withCall {call : Call M} (next : CallPhase M) (data : LaneData) (lock : Option Party)
    (hcall : lane.calls[i]? = some call) :
    (call.phase.behind.toList ++ (lane.withCall i next data lock).calls.filterMap
        fun call => call.phase.behind).Perm
      (next.behind.toList ++ lane.calls.filterMap fun call => call.phase.behind) :=
  filterMap_modify_perm (fun call : Call M => call.phase.behind)
    (fun call => { call with phase := next }) hcall

/-! ## Reservations -/

variable {id : OperationId}

/-- A step that keeps or gives up a reservation, with the operation in memory. -/
theorem Lane.Owned.withCall {call : Call M} (h : lane.Owned) (hcall : lane.calls[i]? = some call)
    (howns : next.owns = none ∨ next.owns = call.phase.owns)
    (hdata : data.operationId = lane.data.operationId) :
    (lane.withCall i next data lock).Owned := by
  have hsame (hsome : next.owns.isSome = true) : next.owns = call.phase.owns := by
    obtain hnone | hsame := howns
    · rw [hnone] at hsome
      cases hsome
    · exact hsame
  intro pos member id hmem hid
  obtain ⟨rfl, rfl⟩ | ⟨hplc, hmem⟩ := Lane.getElem?_withCall hcall hmem
  · rw [hsame (by rw [hid]; rfl)] at hid
    obtain ⟨hop, huniq⟩ := h pos call id hcall hid
    refine ⟨hdata.trans hop, fun other call' hcall' hown => ?_⟩
    obtain ⟨rfl, _⟩ | ⟨_, hcall'⟩ := Lane.getElem?_withCall hcall hcall'
    · rfl
    · exact huniq other call' hcall' hown
  · obtain ⟨hop, huniq⟩ := h pos member id hmem hid
    refine ⟨hdata.trans hop, fun other call' hcall' hown => ?_⟩
    obtain ⟨rfl, rfl⟩ | ⟨_, hcall'⟩ := Lane.getElem?_withCall hcall hcall'
    · exact huniq other call hcall (by rw [← hsame hown]; exact hown)
    · exact huniq other call' hcall' hown

/-- A reservation that is given up was the only one. -/
theorem Lane.Owned.release {call : Call M} (h : lane.Owned) (hcall : lane.calls[i]? = some call)
    (howns : call.phase.owns = some id) (hnext : next.owns = none) :
    (lane.withCall i next data lock).Owned := by
  intro pos member other hmem hoth
  obtain ⟨rfl, rfl⟩ | ⟨hplc, hmem⟩ := Lane.getElem?_withCall hcall hmem
  · rw [hnext] at hoth
    cases hoth
  · obtain ⟨_, huniq⟩ := h i call id hcall howns
    exact absurd (huniq pos member hmem (by rw [hoth]; rfl)) hplc

/-- A lane without an operation is not reserved. -/
theorem Lane.Owned.free (h : lane.Owned) (hdata : lane.data.operation = none) {call : Call M}
    (hcall : lane.calls[i]? = some call) : call.phase.owns = none := by
  cases howns : call.phase.owns with
  | none => rfl
  | some id =>
    have hoperation := (h i call id hcall howns).1
    rw [LaneData.operationId, hdata] at hoperation
    cases hoperation

theorem Lane.Owned.reserve {call : Call M} (h : lane.Owned) (hcall : lane.calls[i]? = some call)
    (hfree : lane.data.operation = none) (hnext : next.owns = some id)
    (hdata : data.operationId = some id) :
    (lane.withCall i next data lock).Owned := by
  intro pos member other hmem hoth
  obtain ⟨rfl, rfl⟩ | ⟨_, hmem⟩ := Lane.getElem?_withCall hcall hmem
  · rw [hnext] at hoth
    refine ⟨hdata.trans hoth, fun pos' call' hcall' hown => ?_⟩
    obtain ⟨rfl, _⟩ | ⟨_, hcall'⟩ := Lane.getElem?_withCall hcall hcall'
    · rfl
    · rw [h.free hfree hcall'] at hown
      cases hown
  · rw [h.free hfree hmem] at hoth
    cases hoth

/-! ## Steps that commit and publish nothing -/

variable {phase : CallPhase M}

theorem CallPhase.eq_none_of_not_isCommitted (h : phase.isCommitted = false) :
    phase.behind = none ∧ phase.unpublished = none ∧ phase.cancelled = none ∧
      phase.movedTip = none := by
  cases phase with
  | committed upd => cases h
  | _ => exact ⟨rfl, rfl, rfl, rfl⟩

section

variable (h : Converging name shared lane)

include h

/-- A call that neither commits nor publishes, and keeps its reservation. -/
theorem Converging.quiet {call : Call M} (hcall : lane.calls[i]? = some call)
    (hstored : shared'.stored = shared.stored) (hpre : call.phase.isCommitted = false)
    (haft : next.isCommitted = false) (howns : next.owns = call.phase.owns) :
    Converging name shared' (lane.withCall i next lane.data lock) := by
  obtain ⟨hbeh, hunpub, _, hmoved⟩ := CallPhase.eq_none_of_not_isCommitted hpre
  obtain ⟨hbeh', hunpub', hcan', hmoved'⟩ := CallPhase.eq_none_of_not_isCommitted haft
  have hreserves : next.reserves = call.phase.reserves := by
    rw [CallPhase.reserves, CallPhase.reserves, howns, hpre, haft]
  constructor
  case state =>
    obtain ⟨state, hstate, htrail⟩ := h.state
    rw [hstored]
    refine ⟨state, hstate, htrail.perm ?_⟩
    simpa [hbeh, hbeh'] using behind_withCall next lane.data lock hcall
  case owned => exact h.owned.withCall hcall (.inr howns) rfl
  case reserving =>
    rw [hstored]
    refine forall_withCall (P := fun phase => phase.reserves = true → _) hcall ?_ h.reserving
    rw [hreserves]
    exact h.reserving call (mem_of_getElem? hcall)
  case idle =>
    rw [hstored]
    intro hidle
    exact (h.idle hidle).imp_right
      (exists_withCall (P := fun phase => phase.reserves = true) hcall hreserves.trans)
  case current =>
    rw [hstored]
    intro id hid
    obtain ⟨op, hdata, hop, hrecs⟩ := h.current id hid
    refine ⟨op, hdata, hop, hrecs.imp_right
      (exists_withCall (P := fun phase => phase.unpublished.isSome = true) hcall ?_)⟩
    rw [hunpub]
    exact nofun
  case unpublished =>
    rw [hstored]
    exact forall_withCall_of_none hcall hunpub' h.unpublished
  case cancelled =>
    rw [hstored]
    exact forall_withCall_of_none hcall hcan' h.cancelled
  case moved =>
    rw [hstored]
    exact forall_withCall_of_none hcall hmoved' h.moved
  case tip =>
    rw [hstored]
    intro hnone
    refine h.tip fun member hmember => ?_
    obtain rfl | hmember := mem_withCall_of_mem next lane.data lock hcall hmember
    · exact hmoved
    · exact hnone member hmember

/-- A lane that is reserved has no stored current operation. -/
theorem Converging.currentId_of_free (hfree : lane.data.operation = none) :
    shared.stored.currentId name = none := by
  cases hcur : shared.stored.currentId name with
  | none => rfl
  | some id =>
    obtain ⟨op, hop, _⟩ := h.current id hcur
    rw [hfree] at hop
    cases hop

/-- A step of a call that commits and publishes nothing, and changes at most the remembered
operation while none is stored as current. -/
theorem Converging.free {call : Call M} {op : Option Operation}
    (hcall : lane.calls[i]? = some call) (hpre : call.phase.isCommitted = false)
    (haft : next.isCommitted = false) (hnone : shared.stored.currentId name = none)
    (howned : (lane.withCall i next (lane.data.withOperation op) lock).Owned)
    (hidle : op = none ∨ next.reserves = true) :
    Converging name shared (lane.withCall i next (lane.data.withOperation op) lock) := by
  obtain ⟨hbeh, hunpub, _, hmoved⟩ := CallPhase.eq_none_of_not_isCommitted hpre
  obtain ⟨hbeh', hunpub', hcan', hmoved'⟩ := CallPhase.eq_none_of_not_isCommitted haft
  constructor
  case state =>
    obtain ⟨state, hstate, htrail⟩ := h.state
    refine ⟨state, hstate, htrail.perm ?_⟩
    simpa [hbeh, hbeh'] using behind_withCall next (lane.data.withOperation op) lock hcall
  case owned => exact howned
  case reserving => exact fun _ _ _ => hnone
  case idle =>
    intro _
    exact hidle.imp_right fun hreserves => ⟨_, mem_withCall_self hcall, hreserves⟩
  case current =>
    intro id hid
    rw [hnone] at hid
    cases hid
  case unpublished => exact forall_withCall_of_none hcall hunpub' h.unpublished
  case cancelled => exact forall_withCall_of_none hcall hcan' h.cancelled
  case moved => exact forall_withCall_of_none hcall hmoved' h.moved
  case tip =>
    intro hall
    refine h.tip fun member hmember => ?_
    obtain rfl | hmember := mem_withCall_of_mem next (lane.data.withOperation op) lock hcall hmember
    · exact hmoved
    · exact hall member hmember

theorem Converging.reserve {call : Call M} {admission : Admission M}
    (hcall : lane.calls[i]? = some call) (hpre : call.phase.isCommitted = false)
    (hfree : lane.data.operation = none) :
    Converging name shared (lane.withCall i (.reserved admission)
      (lane.data.withOperation (some (admission.provisional name))) lock) := by
  refine h.free hcall hpre rfl (h.currentId_of_free hfree) ?_ (.inr rfl)
  refine h.owned.reserve hcall hfree rfl ?_
  rw [LaneData.operationId, LaneData.withOperation, map_some, Admission.operationId_provisional]

theorem Converging.undo {call : Call M} {error : HarnessError} {answer : CallAnswer M}
    (hcall : lane.calls[i]? = some call) (hph : call.phase = .undoing id error) :
    Converging name shared
      (lane.withCall i (.returned answer) (undoReservation lane.data id) lock) := by
  have howns : call.phase.owns = some id := by rw [hph]; rfl
  have hcomd : call.phase.isCommitted = false := by rw [hph]; rfl
  have hres : call.phase.reserves = true := by
    rw [CallPhase.reserves, howns, hcomd]
    rfl
  rw [undoReservation, if_pos (h.owned i call id hcall howns).1]
  exact h.free hcall hcomd rfl (h.reserving call (mem_of_getElem? hcall) hres)
    (h.owned.release hcall howns rfl) (.inl rfl)

end

/-! ## Commits -/

variable {p : Publication} {op : Operation} {upd : Update M}

variable {stored : Stored M}

/-- A batch that brings an operation admits it or cancels it. -/
theorem Publication.operation_cases (h : p.operation = some op) :
    p.admitted = some op ∧ p.cancelled = none ∨ p.cancelled = some op ∧ p.admitted = none := by
  cases p with
  | accept base next other tip => exact .inl ⟨h, rfl⟩
  | abort base next other => exact .inr ⟨h, rfl⟩
  | _ => cases h

theorem Publication.operation_of_admitted (h : p.admitted = some op) : p.operation = some op := by
  cases p with
  | accept base next other tip => exact h
  | _ => cases h

theorem Publication.operation_of_cancelled (h : p.cancelled = some op) :
    p.operation = some op := by
  cases p with
  | abort base next other => exact h
  | _ => cases h

theorem Publication.movedTip_eq_none (h : p.admitted = none) : p.movedTip = none := by
  cases p with
  | accept base next op tip => cases h
  | _ => rfl

theorem CallPhase.unpublished_of_movedTip {tip : Option EntryId} (h : phase.movedTip = some tip) :
    ∃ op, phase.unpublished = some op := by
  cases phase with
  | committed upd =>
    cases hpub : upd.publication with
    | accept base next op tip =>
      exact ⟨op, by rw [CallPhase.unpublished, hpub]; rfl⟩
    | _ =>
      rw [CallPhase.movedTip, hpub] at h
      cases h
  | _ => cases h

theorem CallPhase.unpublished_of_cancelled (h : phase.cancelled = some op) :
    phase.unpublished.isSome = true := by
  cases phase with
  | committed upd =>
    rw [CallPhase.unpublished, Publication.operation_of_cancelled h]
    rfl
  | _ => cases h

theorem Ordered.control_of_cancelled {call : Call M} (h : Ordered name shared lane)
    (hcall : call ∈ lane.calls) (hop : call.phase.cancelled = some op) :
    op.state.control.isCancelRequested = true := by
  obtain ⟨i, hidx⟩ := mem_iff_getElem?.mp hcall
  have hsnd := (h.calls i call hidx).1
  cases hph : call.phase with
  | committed upd =>
    rw [hph] at hop
    exact (hsnd.serves_of_committed hph).control_of_abort hop
  | _ =>
    rw [hph] at hop
    cases hop

section

variable {call : Call M} {next : LaneState} (h : Converging name shared lane)
  (hcall : lane.calls[i]? = some call) (hph : call.phase = .guarded upd)

include h hcall hph

/-- The call that admits an operation has reserved the lane for it. -/
theorem owned_of_admitted (hadm : upd.publication.admitted = some op) :
    lane.data.operationId = some op.info.operationId ∧
      ∀ (other : Nat) call', lane.calls[other]? = some call' →
        call'.phase.owns.isSome = true → other = i := by
  refine h.owned i call _ hcall ?_
  rw [hph, CallPhase.owns, hadm]
  rfl

/-- An operation is admitted where there is none. -/
theorem currentId_of_admitted (hadm : upd.publication.admitted = some op) :
    shared.stored.currentId name = none := by
  refine h.reserving call (mem_of_getElem? hcall) ?_
  rw [hph, CallPhase.reserves, CallPhase.owns, isSome_map, hadm]
  rfl

variable (hkps : divergesMemory name (shared, lane) (.advance i) = false)

include hkps

omit h in
/-- Under the condition the operation that is cancelled is the current one. -/
theorem currentId_of_cancelled (hcan : upd.publication.cancelled = some op) :
    shared.stored.currentId name = some op.info.operationId ∧
      shared.stored.operationMetas.get? op.info.operationId = some op.info := by
  have hcall' : lane.calls[i]? = some ⟨call.request, .guarded upd⟩ := by
    rw [hcall, ← hph]
  simpa [divergesMemory, hcall', hcan] using hkps

/-- Memory has the operation that a batch brings. -/
theorem data_of_operation (hop : upd.publication.operation = some op) :
    ∃ current, lane.data.operation = some current ∧
      current.info.operationId = op.info.operationId := by
  obtain ⟨hadm, _⟩ | ⟨hcan, _⟩ := Publication.operation_cases hop
  · exact map_eq_some_iff.mp (owned_of_admitted h hcall hph hadm).1
  · obtain ⟨current, hdata, hsame, _⟩ :=
      h.current _ (currentId_of_cancelled hcall hph hkps hcan).1
    exact ⟨current, hdata, hsame⟩

variable (hid : next.currentOperationId =
  (upd.publication.operation.map (·.info.operationId)).or (shared.stored.currentId name))

include hid

/-- The current operation stays. -/
theorem currentId_of_commit {id : OperationId} (hcur : shared.stored.currentId name = some id) :
    next.currentOperationId = some id := by
  rw [hid]
  cases hop : upd.publication.operation with
  | none => exact hcur
  | some op =>
    obtain ⟨hadm, _⟩ | ⟨hcan, _⟩ := Publication.operation_cases hop
    · rw [currentId_of_admitted h hcall hph hadm] at hcur
      cases hcur
    · exact (currentId_of_cancelled hcall hph hkps hcan).1.symm.trans hcur

/-- There is no operation while another call has the lane reserved. -/
theorem reserving_of_commit {pos : Nat} {member : Call M} (hne : pos ≠ i)
    (hmember : lane.calls[pos]? = some member) (hreserves : member.phase.reserves = true) :
    next.currentOperationId = none := by
  have hnone := h.reserving member (mem_of_getElem? hmember) hreserves
  rw [CallPhase.reserves, and_eq_true] at hreserves
  rw [hid]
  cases hop : upd.publication.operation with
  | none => exact hnone
  | some op =>
    obtain ⟨hadm, _⟩ | ⟨hcan, _⟩ := Publication.operation_cases hop
    · exact absurd ((owned_of_admitted h hcall hph hadm).2 pos member hmember hreserves.1) hne
    · rw [(currentId_of_cancelled hcall hph hkps hcan).1] at hnone
      cases hnone

omit hkps in
/-- Where there is no operation afterwards, memory has none or another call has the lane. -/
theorem idle_of_commit (hnone : next.currentOperationId = none) : lane.data.operation = none ∨
    ∃ member ∈ (lane.withCall i (.committed upd) lane.data lock).calls,
      member.phase.reserves = true := by
  rw [hid, or_eq_none_iff, map_eq_none_iff] at hnone
  refine (h.idle hnone.2).imp_right ?_
  rintro ⟨member, hmember, hreserves⟩
  obtain rfl | hmember := mem_withCall_of_mem (.committed upd) lane.data lock hcall hmember
  · rw [hph, CallPhase.reserves, CallPhase.owns, isSome_map, and_eq_true,
      isSome_iff_exists] at hreserves
    obtain ⟨⟨op, hop⟩, _⟩ := hreserves
    rw [Publication.operation_of_admitted hop] at hnone
    cases hnone.1
  · exact ⟨member, hmember, hreserves⟩

end

section

variable {call : Call M} {phase : CallPhase M} {request : CallRequest M}
  (h : Converging name shared lane) (hcall : lane.calls[i]? = some call)
  (hph : call.phase = .guarded upd) (hear : phase.Early name request)
  (hbuilt : Built name shared.stored phase upd)

include hear hbuilt

/-- What is stored of the operation a batch brings is that operation. -/
theorem records_of_operation (hop : upd.publication.operation = some op)
    (hmeta : upd.publication.cancelled = some op →
      shared.stored.operationMetas.get? op.info.operationId = some op.info) :
    (shared.stored.apply upd.writes).records op.info.operationId =
      (some op.info, some op.state) := by
  cases hpub : upd.publication with
  | accept base next other tip =>
    rw [hpub] at hop
    cases hop
    exact (hbuilt.of_accept hear hpub).2
  | abort base next other =>
    rw [hpub] at hop hmeta
    cases hop
    obtain ⟨_, _, _, _, _, _, _, hstored⟩ := hbuilt.of_abort hear hpub
    rwa [hmeta rfl] at hstored
  | _ =>
    rw [hpub] at hop
    cases hop

include h

/-- A leaf to be published stays stored; a second cancellation finds the flag set. -/
theorem operationStates_of_commit (hord : Ordered name shared lane) {member : Call M}
    (hmember : member ∈ lane.calls) (hop : member.phase.cancelled = some op) :
    (shared.stored.apply upd.writes).operationStates.get? op.info.operationId =
      some op.state := by
  have hleaf := h.cancelled member hmember op hop
  obtain hsame | ⟨_, _, _, _, _, _, hunused, _⟩ | ⟨_, _, _, leaf, _, _, hstored, hcontrol, _⟩ :=
    hbuilt.records hear op.info.operationId
  · exact (Prod.mk.inj hsame).2.trans hleaf
  · rw [Stored.operationIdIsUsed_of_leaf hleaf] at hunused
    cases hunused
  · rw [hleaf] at hstored
    cases hstored
    rw [hord.control_of_cancelled hmember hop] at hcontrol
    cases hcontrol

include hcall hph

/-- The metadata of the current operation stay. -/
theorem operationMetas_of_commit {id : OperationId}
    (hsome : shared.stored.currentId name = some id) :
    (shared.stored.apply upd.writes).operationMetas.get? id =
      shared.stored.operationMetas.get? id := by
  obtain hsame | ⟨_, _, _, _, hpub, _⟩ | ⟨_, _, _, _, _, _, _, _, hrecs⟩ := hbuilt.records hear id
  · exact (Prod.mk.inj hsame).1
  · have hadm := congrArg Publication.admitted hpub
    rw [currentId_of_admitted h hcall hph hadm] at hsome
    cases hsome
  · exact (Prod.mk.inj hrecs).1

end

/-- A commit of a call adds its lane states to what is to be published. -/
theorem Converging.commit {call : Call M} (h : Converging name shared lane)
    (hord : Ordered name shared lane) (hcall : lane.calls[i]? = some call)
    (hph : call.phase = .guarded upd)
    (hcommit : shared.stored.commit upd.writes = .ok stored)
    (hholds : upd.publication.holdsData = false)
    (hkps : divergesMemory name (shared, lane) (.advance i) = false) :
    Converging name { shared with stored := stored, guard := none }
      (lane.withCall i (.committed upd) lane.data lock) := by
  obtain ⟨_, rfl⟩ := Stored.commit_eq_ok hcommit
  have hlock := (hord.calls i call hcall).2
  simp only [Call.Ordered, hph] at hlock
  obtain ⟨_, ⟨phase, hear, hbuilt⟩, _⟩ := hlock
  obtain ⟨next, hstates, hnext, hid⟩ := hbuilt.states hear hholds
  have htips := hbuilt.branchTips hear hholds
  have hcur : (shared.stored.apply upd.writes).currentId name = next.currentOperationId := by
    rw [Stored.currentId, Stored.laneState, hnext]
    rfl
  have hpre : call.phase.isCommitted = false := by rw [hph]; rfl
  obtain ⟨hbeh, hunpub, hcan, hmoved⟩ := CallPhase.eq_none_of_not_isCommitted hpre
  have howns : (CallPhase.committed upd).owns = call.phase.owns := by rw [hph]; rfl
  have hown (op : Operation) (hop : upd.publication.operation = some op) :=
    records_of_operation hear hbuilt hop fun hcan =>
      (currentId_of_cancelled hcall hph hkps hcan).2
  constructor
  case state =>
    obtain ⟨state, hstate, htrail⟩ := h.state
    have hbase : shared.stored.laneState name = state := by rw [Stored.laneState, hstate]; rfl
    refine ⟨next, hnext, htrail.extend ?_⟩
    have hperm := behind_withCall (.committed upd) lane.data lock hcall
    rw [hbeh, CallPhase.behind, hstates, hbase] at hperm
    exact hperm
  case owned => exact h.owned.withCall hcall (.inr howns) rfl
  case reserving =>
    intro member hmember hreserves
    obtain ⟨pos, hposition⟩ := mem_iff_getElem?.mp hmember
    rw [hcur]
    obtain ⟨_, rfl⟩ | ⟨hne, hmember⟩ := Lane.getElem?_withCall hcall hposition
    · rw [CallPhase.reserves, CallPhase.isCommitted, Bool.not_true, Bool.and_false] at hreserves
      cases hreserves
    · exact reserving_of_commit h hcall hph hkps hid hne hmember hreserves
  case idle =>
    rw [hcur]
    exact idle_of_commit h hcall hph hid
  case current =>
    intro id hsome
    rw [hcur, hid] at hsome
    cases hop : upd.publication.operation with
    | some op =>
      -- The batch itself is still to be published.
      rw [hop] at hsome
      obtain rfl : op.info.operationId = id := some.inj hsome
      obtain ⟨current, hdata, hsame⟩ := data_of_operation h hcall hph hkps hop
      exact ⟨current, hdata, hsame, .inr
        ⟨_, mem_withCall_self hcall, by rw [CallPhase.unpublished, hop]; rfl⟩⟩
    | none =>
      rw [hop] at hsome
      obtain ⟨op, hdata, hsame, hstored⟩ := h.current id hsome
      refine ⟨op, hdata, hsame, ?_⟩
      obtain hstored | hpending := hstored
      · refine .inl ?_
        obtain hkept | ⟨_, _, _, _, hpub, _⟩ | ⟨_, _, _, _, hpub, _⟩ := hbuilt.records hear id
        · exact hkept.trans hstored
        all_goals
          rw [hpub] at hop
          cases hop
      · refine .inr (exists_withCall (P := fun phase => phase.unpublished.isSome = true) hcall
          ?_ hpending)
        rw [hunpub]
        exact nofun
  case unpublished =>
    intro member hmember op hop
    rw [hcur]
    obtain rfl | hmember := mem_withCall hcall hmember
    · have hop : upd.publication.operation = some op := hop
      exact ⟨by rw [hid, hop]; rfl, (Prod.mk.inj (hown op hop)).1⟩
    · obtain ⟨hsome, hstored⟩ := h.unpublished member hmember op hop
      exact ⟨currentId_of_commit h hcall hph hkps hid hsome,
        (operationMetas_of_commit h hcall hph hear hbuilt hsome).trans hstored⟩
  case cancelled =>
    intro member hmember op hop
    obtain rfl | hmember := mem_withCall hcall hmember
    · exact (Prod.mk.inj (hown op (Publication.operation_of_cancelled hop))).2
    · exact operationStates_of_commit h hear hbuilt hord hmember hop
  case moved =>
    intro member hmember tip htip
    obtain rfl | hmember := mem_withCall hcall hmember
    · have htip : upd.publication.movedTip = some tip := htip
      rw [htips, htip]
      rfl
    · obtain ⟨op, hop⟩ := CallPhase.unpublished_of_movedTip htip
      have hsome := (h.unpublished member hmember op hop).1
      cases hadm : upd.publication.admitted with
      | some admitted =>
        rw [currentId_of_admitted h hcall hph hadm] at hsome
        cases hsome
      | none =>
        rw [htips, Publication.movedTip_eq_none hadm]
        exact h.moved member hmember tip htip
  case tip =>
    intro hall
    have hnone : upd.publication.movedTip = none := hall _ (mem_withCall_self hcall)
    rw [htips, hnone]
    refine h.tip fun member hmember => ?_
    obtain rfl | hmember := mem_withCall_of_mem (.committed upd) lane.data lock hcall hmember
    · exact hmoved
    · exact hall member hmember

/-! ## Publications -/

variable {data' : LaneData}

section

variable (h : p.apply data = .ok data')

include h

/-- A commit that is published on its own base leaves memory in its next state. -/
theorem Publication.state_of_apply {next : LaneState}
    (hstates : p.states = some (data.state, next)) : data'.state = next := by
  cases p with
  | converge | abort =>
    cases hstates
    cases h
    exact if_pos rfl
  | accept base other op tip =>
    cases hstates
    rw [Publication.apply] at h
    by_cases hid : data.operationId = some op.info.operationId
    · rw [if_pos hid] at h
      cases h
      exact if_pos rfl
    · rw [if_neg hid] at h
      cases h
  | hold held => cases hstates

theorem Publication.tip_of_apply (hholds : p.holdsData = false) :
    data'.tip = p.movedTip.getD data.tip := by
  cases p with
  | converge | abort =>
    cases h
    rfl
  | accept base next op tip =>
    rw [Publication.apply] at h
    by_cases hid : data.operationId = some op.info.operationId
    · rw [if_pos hid] at h
      cases h
      rfl
    · rw [if_neg hid] at h
      cases h
  | hold held => cases hholds

/-- A batch that brings an operation puts it where memory has one of its id. -/
theorem Publication.operation_of_apply (hop : p.operation = some op)
    (hdata : data.operationId = some op.info.operationId) :
    data'.operation = some op := by
  cases p with
  | accept | abort =>
    cases hop
    rw [Publication.apply, if_pos hdata] at h
    cases h
    rfl
  | converge | hold => cases hop

theorem Publication.operation_of_apply_none (hop : p.operation = none)
    (hholds : p.holdsData = false) : data'.operation = data.operation := by
  cases p with
  | converge base next =>
    cases h
    rfl
  | accept | abort => cases hop
  | hold held => cases hholds

end

/-- A publication on its own base takes a call's lane states off what is to be published. -/
theorem Converging.publish {call : Call M} (h : Converging name shared lane)
    (hcall : lane.calls[i]? = some call) (hph : call.phase = .committed upd)
    (happly : upd.publication.apply lane.data = .ok data)
    (hholds : upd.publication.holdsData = false)
    (hkps : divergesMemory name (shared, lane) (.advance i) = false)
    (haft : next.isCommitted = false) (howns : next.owns = none) :
    Converging name shared (lane.withCall i next data lock) := by
  obtain ⟨hbeh', hunpub', hcan', hmoved'⟩ := CallPhase.eq_none_of_not_isCommitted haft
  have hmem := mem_of_getElem? hcall
  have hcall' : lane.calls[i]? = some ⟨call.request, .committed upd⟩ := by
    rw [hcall, ← hph]
  simp only [divergesMemory, hcall', or_eq_false_iff] at hkps
  obtain ⟨hbase, hleaf⟩ := hkps
  have hself (op : Operation) (hop : upd.publication.operation = some op) :
      call.phase.unpublished = some op := by
    rw [hph]
    exact hop
  constructor
  case state =>
    obtain ⟨state, hstate, htrail⟩ := h.state
    refine ⟨state, hstate, ?_⟩
    cases hstates : upd.publication.states with
    | none =>
      cases hpub : upd.publication with
      | hold held =>
        rw [hpub] at hholds
        cases hholds
      | _ =>
        rw [hpub] at hstates
        cases hstates
    | some states =>
      obtain ⟨base, after⟩ := states
      rw [hstates] at hbase
      obtain rfl : base = lane.data.state := by simpa using hbase
      change Trail data.state state _
      rw [Publication.state_of_apply happly hstates]
      apply htrail.advance
      have hperm := behind_withCall next data lock hcall
      rw [hph, hbeh', CallPhase.behind, hstates] at hperm
      exact hperm.symm
  case owned =>
    exact h.owned.withCall hcall (.inl howns) (Publication.operationId_apply happly hholds)
  case reserving =>
    refine forall_withCall (P := fun phase => phase.reserves = true → _) hcall ?_ h.reserving
    rw [CallPhase.reserves, howns]
    rintro ⟨⟩
  case idle =>
    intro hnone
    have hop : upd.publication.operation = none := by
      cases hop : upd.publication.operation with
      | none => rfl
      | some op =>
        have hsome := (h.unpublished call hmem op (hself op hop)).1
        rw [hnone] at hsome
        cases hsome
    refine (h.idle hnone).imp (Publication.operation_of_apply_none happly hop hholds).trans
      (exists_withCall (P := fun phase => phase.reserves = true) hcall ?_)
    rw [hph, CallPhase.reserves, CallPhase.isCommitted, Bool.not_true, Bool.and_false]
    rintro ⟨⟩
  case current =>
    intro id hsome
    obtain ⟨current, hdata, hid, hstored⟩ := h.current id hsome
    cases hop : upd.publication.operation with
    | none =>
      refine ⟨current, (Publication.operation_of_apply_none happly hop hholds).trans hdata,
        hid, hstored.imp_right
          (exists_withCall (P := fun phase => phase.unpublished.isSome = true) hcall ?_)⟩
      rw [hph, CallPhase.unpublished, hop]
      rintro ⟨⟩
    | some op =>
      obtain ⟨hsome', hmeta⟩ := h.unpublished call hmem op (hself op hop)
      obtain rfl : op.info.operationId = id := by
        rw [hsome'] at hsome
        exact some.inj hsome
      refine ⟨op, Publication.operation_of_apply happly hop ?_, rfl, ?_⟩
      · rw [LaneData.operationId, hdata, map_some, hid]
      obtain ⟨hadm, hcan⟩ | ⟨hcan, _⟩ := Publication.operation_cases hop
      · rw [hadm, any_some, and_eq_false_iff] at hleaf
        obtain hleaf | hpend := hleaf
        · have hleaf : shared.stored.operationStates.get? op.info.operationId =
              some op.state := by simpa using hleaf
          exact .inl (Prod.ext hmeta hleaf)
        · -- The cancellation that was stored since is still to be published.
          rw [not_eq_false', Lane.publishesCancelled, List.any_eq_true] at hpend
          obtain ⟨member, hmem, hpend⟩ := hpend
          obtain ⟨cancelled, hpend, _⟩ := (Option.any_eq_true _ _).mp hpend
          obtain rfl | hmem := mem_withCall_of_mem next data lock hcall hmem
          · rw [hph, CallPhase.cancelled, hcan] at hpend
            cases hpend
          · exact .inr ⟨member, hmem, CallPhase.unpublished_of_cancelled hpend⟩
      · -- A cancellation is stored as it is published.
        refine .inl (Prod.ext hmeta (h.cancelled call hmem op ?_))
        rw [hph]
        exact hcan
  case unpublished => exact forall_withCall_of_none hcall hunpub' h.unpublished
  case cancelled => exact forall_withCall_of_none hcall hcan' h.cancelled
  case moved => exact forall_withCall_of_none hcall hmoved' h.moved
  case tip =>
    intro hall
    change shared.stored.branchTips.get? name = some data.tip
    rw [Publication.tip_of_apply happly hholds]
    cases hmoved : upd.publication.movedTip with
    | some tip =>
      refine h.moved call hmem tip ?_
      rw [hph]
      exact hmoved
    | none =>
      refine h.tip fun member hmem => ?_
      obtain rfl | hmem := mem_withCall_of_mem next data lock hcall hmem
      · rw [hph]
        exact hmoved
      · exact hall member hmem

/-! ## Every step -/

/-- A lane that nobody drives and to which nobody appends. -/
structure Undriven (lane : Lane M) : Prop where
  drive : lane.drive = none
  requests : ∀ call ∈ lane.calls, call.request.isAppend = false

variable {request : CallRequest M}

theorem Undriven.step [Inhabited M] {event : LaneEvent M} (h : Undriven lane)
    (hmove : LaneMove name shared lane event shared' lane') (hevent : isCallStep event = true) :
    Undriven lane' := by
  cases hmove with
  | @begin request phase issued hfrs hnodup hissued hph =>
    refine ⟨h.drive, fun member hmem => ?_⟩
    obtain hmem | hmem := mem_append.mp hmem
    · exact h.requests member hmem
    · obtain rfl := mem_singleton.mp hmem
      simpa [isCallStep] using hevent
  | @call i call next shared' data lock hcall hmove =>
    refine ⟨h.drive, fun member hmem => ?_⟩
    obtain rfl | hmem := mem_withCall hcall hmem
    · exact h.requests call (mem_of_getElem? hcall)
    · exact h.requests member hmem
  | startDrive | drive => cases hevent

/-- Only an append is published under the data lock. -/
theorem Update.Serves.holdsData (h : upd.Serves name request) (hreq : request.isAppend = false) :
    upd.publication.holdsData = false := by
  obtain ⟨phase, stored, hear, hbuilt⟩ := h
  cases hholds : upd.publication.holdsData with
  | false => rfl
  | true =>
    rw [hbuilt.eq_holding hholds] at hear
    cases hear
    cases hreq

/-- A batch under the guard is of the operation the call has reserved the lane for. -/
theorem Built.owns (h : Built name stored phase upd) (hear : phase.Early name request) :
    (CallPhase.guarded upd).owns = phase.owns := by
  cases h.batch hear with
  | append id entry data =>
    rw [appendUpdate.eq_def]
    split <;> rfl
  | _ => rfl

theorem afterPublication_quiet (data : LaneData) (answer : CallAnswer M) :
    (afterPublication data answer).isCommitted = false ∧
      (afterPublication data answer).owns = none := by
  rw [afterPublication.eq_def]
  split
  · exact ⟨rfl, rfl⟩
  · exact ⟨rfl, rfl⟩
  · split_ifs
    · exact ⟨rfl, rfl⟩
    · exact ⟨rfl, rfl⟩
  · exact ⟨rfl, rfl⟩

/-- A call that begins changes nothing. -/
theorem Converging.begin {issued : List String} (h : Converging name shared lane)
    (hph : phase = .waiting request ∨ ∃ reason, phase = .returned (.failed reason)) :
    Converging name { shared with issued := issued }
      { lane with calls := lane.calls ++ [⟨request, phase⟩] } := by
  have hquiet : phase.isCommitted = false ∧ phase.owns = none := by
    obtain rfl | ⟨reason, rfl⟩ := hph
    · exact ⟨rfl, rfl⟩
    · exact ⟨rfl, rfl⟩
  obtain ⟨hbeh, hunpub, hcan, hmoved⟩ := CallPhase.eq_none_of_not_isCommitted hquiet.1
  have hres : phase.reserves = false := by rw [CallPhase.reserves, hquiet.2]; rfl
  have hmem {member : Call M} (hmem : member ∈ lane.calls ++ [⟨request, phase⟩]) :
      member ∈ lane.calls ∨ member = ⟨request, phase⟩ :=
    (mem_append.mp hmem).imp_right mem_singleton.mp
  constructor
  case state =>
    obtain ⟨state, hstate, htrail⟩ := h.state
    refine ⟨state, hstate, ?_⟩
    simpa [filterMap_append, hbeh] using htrail
  case owned =>
    intro pos member id hplc howns
    obtain hplc | ⟨_, rfl⟩ := getElem?_append_cases hplc
    · obtain ⟨hdata, huniq⟩ := h.owned pos member id hplc howns
      refine ⟨hdata, fun other member' hoth hsome => ?_⟩
      obtain hoth | ⟨_, rfl⟩ := getElem?_append_cases hoth
      · exact huniq other member' hoth hsome
      · rw [hquiet.2] at hsome
        cases hsome
    · rw [hquiet.2] at howns
      cases howns
  case reserving =>
    intro member hin hsome
    obtain hin | rfl := hmem hin
    · exact h.reserving member hin hsome
    · rw [hres] at hsome
      cases hsome
  case idle =>
    exact fun hnone => (h.idle hnone).imp_right fun ⟨member, hin, hsome⟩ =>
      ⟨member, mem_append_left _ hin, hsome⟩
  case current =>
    intro id hid
    obtain ⟨op, hdata, hop, hstored⟩ := h.current id hid
    exact ⟨op, hdata, hop, hstored.imp_right fun ⟨member, hin, hsome⟩ =>
      ⟨member, mem_append_left _ hin, hsome⟩⟩
  case unpublished =>
    intro member hin op hsome
    obtain hin | rfl := hmem hin
    · exact h.unpublished member hin op hsome
    · rw [hunpub] at hsome
      cases hsome
  case cancelled =>
    intro member hin op hsome
    obtain hin | rfl := hmem hin
    · exact h.cancelled member hin op hsome
    · rw [hcan] at hsome
      cases hsome
  case moved =>
    intro member hin tip hsome
    obtain hin | rfl := hmem hin
    · exact h.moved member hin tip hsome
    · rw [hmoved] at hsome
      cases hsome
  case tip => exact fun hall => h.tip fun member hin => hall member (mem_append_left _ hin)

/-- A step of a call that keeps memory on the way to the stored lane. -/
theorem Converging.call {call : Call M} (h : Converging name shared lane)
    (hord : Ordered name shared lane) (hundriven : Undriven lane)
    (hcall : lane.calls[i]? = some call)
    (hmove : CallMove name shared lane i call.phase next shared' data lock)
    (hkps : divergesMemory name (shared, lane) (.advance i) = false)
    (hfault : shared'.fault = none) :
    Converging name shared' (lane.withCall i next data lock) := by
  have hsnd := (hord.calls i call hcall).1
  have hreq := hundriven.requests call (mem_of_getElem? hcall)
  generalize hph : call.phase = phase at hmove
  have hear (upd : Update M) (hbuilt : Built name shared.stored phase upd) :
      call.phase.Early name call.request := by
    obtain ⟨request, phase⟩ := call
    subst hph
    exact hsnd.early_of_built hbuilt
  cases hmove with
  | @build _ upd hguard hbuilt =>
    subst hph
    refine h.quiet hcall rfl ?_ rfl (hbuilt.owns (hear upd hbuilt))
    cases hph : call.phase with
    | committed upd =>
      rw [hph] at hbuilt
      cases hbuilt
    | _ => rfl
  | answer hrets =>
    refine h.quiet hcall rfl ?_ ?_ ?_
    · rw [hph]
      cases hrets <;> rfl
    · cases hrets <;> rfl
    · rw [hph]
      cases hrets <;> rfl
  | @hold id entry hfree =>
    obtain ⟨request, phase⟩ := call
    dsimp only at hph
    subst hph
    obtain rfl := hsnd.eq_of_waiting
    cases hreq
  | snapshot | refuse =>
    exact h.quiet hcall rfl (by rw [hph]; rfl) rfl (by rw [hph]; rfl)
  | reserve hfree hdata hbegin =>
    rw [(beginAdmission_reserved hdata hbegin).2]
    exact h.reserve hcall (by rw [hph]; rfl) hdata
  | @commit upd stored hcom =>
    have hlock := (hord.calls i call hcall).2
    simp only [Call.Ordered, hph] at hlock
    obtain ⟨_, ⟨phase, hbegun, hbuilt⟩, _⟩ := hlock
    have hsrv : upd.Serves name call.request := ⟨phase, shared.stored, hbegun, hbuilt⟩
    exact h.commit hord hcall hph hcom (hsrv.holdsData hreq) hkps
  | fault hcom => cases hfault
  | @publish upd data hfree happly =>
    obtain ⟨haft, howns⟩ := afterPublication_quiet data upd.answer
    refine h.publish hcall hph happly ?_ hkps haft howns
    exact (hsnd.serves_of_committed hph).holdsData hreq
  | @drop upd reason hfree hadmn hcause =>
    obtain hseal | ⟨error, happly⟩ := hcause
    · rw [hfault] at hseal
      cases hseal
    · -- Memory still has the operation of a reservation.
      cases hpub : upd.publication with
      | accept base next op tip =>
        have howns : call.phase.owns = some op.info.operationId := by
          rw [hph, CallPhase.owns, hpub]
          rfl
        rw [hpub, Publication.apply, if_pos (h.owned i call _ hcall howns).1] at happly
        cases happly
      | _ =>
        rw [hpub] at hadmn
        cases hadmn
  | list | listFails => exact h.quiet hcall rfl (by rw [hph]; rfl) rfl (by rw [hph]; rfl)
  | undo hfree => exact h.undo hcall hph

/-! ## Runs -/

/-- A lane nobody works on, whose memory has what is stored of it. -/
def Settled (name : LaneName) (s : LaneSystem M) : Prop :=
  ∃ shared data, s = (shared, Lane.idle data) ∧ Mirrors name shared.stored data

/-- A settled lane from then on. -/
def settledMachine [Inhabited M] (name : LaneName) : Machine (LaneSystem M) (LaneEvent M) where
  start := Settled name
  step := stepLane name

/-- A fault stays. -/
theorem CallMove.fault_eq_none (h : CallMove name shared lane i phase next shared' data lock)
    (hfault : shared'.fault = none) : shared.fault = none := by
  cases h with
  | fault hcom => cases hfault
  | _ => exact hfault

theorem Converging.of_settled (h : Mirrors name shared.stored data) :
    Converging name shared (.idle data) where
  state := ⟨data.state, h.state, Trail.refl _⟩
  owned := by
    intro i call id hcall
    cases hcall
  reserving call hcall := absurd hcall not_mem_nil
  idle hnone := .inl (h.idle hnone)
  current id hid := by
    obtain ⟨op, hdata, hop, hstored⟩ := h.operation id hid
    exact ⟨op, hdata, hop, .inl hstored⟩
  unpublished call hcall := absurd hcall not_mem_nil
  cancelled call hcall := absurd hcall not_mem_nil
  moved call hcall := absurd hcall not_mem_nil
  tip _ := h.tip

theorem Ordered.idle : Ordered name shared (.idle data) := by
  constructor
  · intro i call hcall
    cases hcall
  · intro drive hdrv
    cases hdrv

theorem Undriven.idle : Undriven (Lane.idle data : Lane M) :=
  ⟨rfl, fun _ hcall => absurd hcall not_mem_nil⟩

/-- When every call has returned, nothing is left to be published. -/
theorem Converging.mirrors (h : Converging name shared lane)
    (hret : ∀ call ∈ lane.calls, call.phase.hasReturned = true) :
    Mirrors name shared.stored lane.data := by
  have hquiet (call : Call M) (hcall : call ∈ lane.calls) :
      call.phase.isCommitted = false ∧ call.phase.reserves = false := by
    have hph := hret call hcall
    cases hans : call.phase with
    | returned answer => exact ⟨rfl, rfl⟩
    | _ =>
      rw [hans] at hph
      cases hph
  constructor
  case state =>
    obtain ⟨state, hstate, htrail⟩ := h.state
    have hbeh : (lane.calls.filterMap fun call => call.phase.behind) = [] :=
      filterMap_eq_nil_iff.mpr fun call hcall =>
        (CallPhase.eq_none_of_not_isCommitted (hquiet call hcall).1).1
    rw [hbeh] at htrail
    rw [htrail.eq_of_nil]
    exact hstate
  case tip =>
    exact h.tip fun call hcall =>
      (CallPhase.eq_none_of_not_isCommitted (hquiet call hcall).1).2.2.2
  case idle =>
    intro hnone
    obtain hfree | ⟨call, hcall, hres⟩ := h.idle hnone
    · exact hfree
    · rw [(hquiet call hcall).2] at hres
      cases hres
  case operation =>
    intro id hid
    obtain ⟨operation, hdata, hop, hstored | ⟨call, hcall, hsome⟩⟩ := h.current id hid
    · exact ⟨operation, hdata, hop, hstored⟩
    · rw [(CallPhase.eq_none_of_not_isCommitted (hquiet call hcall).1).2.1] at hsome
      cases hsome

/-- The steps of queue writers, cancellations and admissions that keep memory on its way. -/
def KeepsMemory (name : LaneName) (system : LaneSystem M) (event : LaneEvent M) : Prop :=
  isCallStep event = true ∧ divergesMemory name system event = false

/-- From a settled lane on, along steps that keep memory on its way, memory has what is stored
of the lane whenever every call has returned without a fault. -/
theorem memory_converges [Inhabited M] {s : LaneSystem M}
    (hrun : (settledMachine name).Run (KeepsMemory name) s) (hfault : s.1.fault = none)
    (hret : ∀ call ∈ s.2.calls, call.phase.hasReturned = true) :
    Mirrors name s.1.stored s.2.data := by
  have hinvariant : Ordered name s.1 s.2 ∧ Undriven s.2 ∧
      (s.1.fault = none → Converging name s.1 s.2) := by
    refine hrun.invariant (P := fun s => Ordered name s.1 s.2 ∧ Undriven s.2 ∧
      (s.1.fault = none → Converging name s.1 s.2)) ?_ ?_
    · rintro _ ⟨shared, data, rfl, hmirrors⟩
      exact ⟨.idle, .idle, fun _ => .of_settled hmirrors⟩
    · rintro ⟨shared, lane⟩ ⟨shared', lane'⟩ event ⟨hord, hundriven, hconverging⟩
        ⟨hevent, hkeeps⟩ hstep
      have hmove : LaneMove name shared lane event shared' lane' := stepLane_moves hstep
      refine ⟨hord.step hmove, hundriven.step hmove hevent, fun hfault => ?_⟩
      cases hmove with
      | begin hfresh hnodup hissued hphase => exact (hconverging hfault).begin hphase
      | call hcall hmove =>
        exact (hconverging (hmove.fault_eq_none hfault)).call hord hundriven hcall hmove
          hkeeps hfault
      | startDrive | drive => cases hevent
  exact (hinvariant.2.2 hfault).mirrors hret

theorem settled_createdLane (config : LaneConfiguration) :
    Settled name (createdLane name config : LaneSystem M) := by
  refine ⟨_, _, rfl, ?_⟩
  have hstored : (createdStored name config : Stored M).laneStates.get? name = some default := by
    simp [createdStored, Dict.get?_insert]
  have hnone : (createdStored name config : Stored M).currentId name = none := by
    rw [Stored.currentId, Stored.laneState, hstored]
    rfl
  constructor
  case state => exact hstored
  case tip => simp [createdStored, Dict.get?_insert]
  case idle => exact fun _ => rfl
  case operation =>
    intro id hid
    rw [hnone] at hid
    cases hid

/-- A message is queued, a run takes it, and the run is cancelled. -/
theorem memory_converges_after_abort :
    ∃ s : LaneSystem Unit, s.2.calls.length = 3 ∧ s.2.data.operation.isSome = true ∧
      Mirrors "main" s.1.stored s.2.data := by
  have hstart : (settledMachine "main").Run (KeepsMemory "main")
      (createdLane "main" plainConfiguration : LaneSystem Unit) := .start (settled_createdLane _)
  obtain ⟨s, hrun, hs⟩ := hstart.execute
    (fun s event => isCallStep event && !divergesMemory "main" s event)
    ([.call (.enqueue "queued" .steer (.other ()))] ++ advances 0 4 ++
      [.call (.acceptRun "op" [("message", .other ())] plainSettings 0)] ++ advances 1 4 ++
      [.call (.requestAbort "op" 5)] ++ advances 2 4)
    (fun s => s.1.fault.isNone && s.2.calls.all (fun call => call.phase.hasReturned) &&
      s.2.calls.length == 3 && s.2.data.operation.isSome)
    (fun _ _ h => by simpa [KeepsMemory] using h) (by decide +kernel)
  simp only [and_eq_true, isNone_iff_eq_none, List.all_eq_true, beq_iff_eq] at hs
  obtain ⟨⟨⟨hfault, hret⟩, hlength⟩, hop⟩ := hs
  exact ⟨s, hlength, hop, memory_converges hrun hfault hret⟩

/-- Two messages are queued; the second commit is published before the first. -/
theorem memory_diverges : ∃ s : LaneSystem Unit,
      (settledMachine "main").Run (fun _ event => isCallStep event = true) s ∧
      s.1.fault = none ∧ (∀ call ∈ s.2.calls, call.phase.hasReturned = true) ∧
      ¬ Mirrors "main" s.1.stored s.2.data := by
  have hstart : (settledMachine "main").Run (fun _ event => isCallStep event = true)
      (createdLane "main" plainConfiguration : LaneSystem Unit) := .start (settled_createdLane _)
  obtain ⟨s, hrun, hs⟩ := hstart.execute (fun _ event => isCallStep event)
    ([.call (.enqueue "first" .steer (.other ())), .call (.enqueue "second" .steer (.other ()))] ++
      advances 0 2 ++ advances 1 4 ++ advances 0 2)
    (fun s => s.1.fault.isNone && s.2.calls.all (fun call => call.phase.hasReturned) &&
      decide (s.1.stored.laneStates.get? "main" ≠ some s.2.data.state))
    (fun _ _ h => h) (by decide +kernel)
  simp only [and_eq_true, isNone_iff_eq_none, List.all_eq_true, decide_eq_true_eq] at hs
  obtain ⟨⟨hfault, hret⟩, hstate⟩ := hs
  exact ⟨s, hrun, hfault, hret, fun hmirrors => hstate hmirrors.state⟩

/-! ## Restarts -/

/-- An operation of a lane, at a leaf of its intent. -/
def Operation.BelongsTo (operation : Operation) (name : LaneName) : Prop :=
  operation.info.lane = name ∧
    operationKind operation.info.intent = stateKind operation.info.intent operation.state

variable {restored : LaneData} {lanes : List (LaneName × LaneData)}

/-- A stored pointer is not followed further. -/
theorem readOpenOperation_eq_ok {attempts : Nat} {state state' : LaneState}
    {tip tip' : Option EntryId} {opened : Option Operation} (hid : stored.currentId name = some id)
    (h : readOpenOperation stored name (attempts + 1) id state tip = .ok (state', tip', opened)) :
    state' = { state with currentOperationId := some id } ∧ tip' = tip ∧
      ∃ op, opened = some op ∧ op.info.operationId = id ∧
        stored.records id = (some op.info, some op.state) ∧ op.BelongsTo name := by
  rw [readOpenOperation] at h
  split at h
  · next info leaf hinfo hleaf =>
    split_ifs at h with hown
    rw [validateStateIntent] at h
    split_ifs at h with hkind
    cases h
    exact ⟨rfl, rfl, _, rfl, hown.1, Prod.ext hinfo hleaf, hown.2, hkind⟩
  · rw [Stored.currentId, Stored.laneState] at hid
    dsimp only at h
    rw [if_pos hid] at h
    cases h

theorem restoreLane_mirrors (h : restoreLane stored name = .ok (some data))
    (htip : (stored.branchTips.get? name).isSome) :
    Mirrors name stored data ∧ ∀ op ∈ data.operation, op.BelongsTo name := by
  obtain ⟨tip, htip⟩ := isSome_iff_exists.mp htip
  rw [restoreLane] at h
  split at h
  · next config state _ hstate =>
    have hcur : stored.currentId name = state.currentOperationId := by
      rw [Stored.currentId, Stored.laneState, hstate, getD_some]
    dsimp only at h
    split at h
    · cases h
    · next state' tip' opened heq =>
      cases h
      rw [htip] at heq
      cases hid : state.currentOperationId with
      | none =>
        rw [hid] at heq hcur
        cases heq
        exact ⟨⟨hstate, htip, fun _ => rfl, by simp [hcur]⟩, by simp⟩
      | some id =>
        rw [hid] at heq hcur
        obtain ⟨rfl, rfl, op, rfl, hop, hrec, hown⟩ := readOpenOperation_eq_ok hcur heq
        refine ⟨⟨?_, htip, by simp [hcur], fun id' h => ?_⟩, by simpa using hown⟩
        · rw [hstate, ← hid]
        · rw [hcur] at h
          cases h
          exact ⟨op, rfl, hop, hrec⟩
  · cases h

theorem restoreLane_of_mem {names : List LaneName} (h : restoreLanes stored names = .ok lanes)
    (hmem : (name, data) ∈ lanes) : restoreLane stored name = .ok (some data) := by
  induction names generalizing lanes with
  | nil =>
    cases h
    cases hmem
  | cons first names ih =>
    rw [restoreLanes] at h
    split at h
    · cases h
    · next found hfound =>
      split at h
      · cases h
      · next rest hrest =>
        cases h
        rcases mem_append.mp hmem with hmem | hmem
        · obtain ⟨data', rfl, ⟨⟩⟩ := map_eq_some_iff.mp (mem_toList.mp hmem)
          exact hfound
        · exact ih hrest hmem

/-- What is stored determines what memory has of it. -/
theorem Mirrors.agree (h : Mirrors name stored data) (h' : Mirrors name stored restored) :
    data = { restored with config := data.config, lastResult := data.lastResult } := by
  obtain ⟨tip, config, state, operation, last⟩ := data
  obtain ⟨tip', config', state', operation', last'⟩ := restored
  obtain rfl := some.inj (h.state.symm.trans h'.state)
  obtain rfl := some.inj (h.tip.symm.trans h'.tip)
  have hop : operation = operation' := by
    cases hid : stored.currentId name with
    | none => exact (h.idle hid).trans (h'.idle hid).symm
    | some id =>
      obtain ⟨⟨info, leaf⟩, hop, _, hrec⟩ := h.operation id hid
      obtain ⟨⟨info', leaf'⟩, hop', _, hrec'⟩ := h'.operation id hid
      rw [hrec] at hrec'
      cases hrec'
      exact hop.trans hop'.symm
  rw [hop]

/-- A restart leaves a settled lane, whose operation belongs to it; memory that had what is
stored of the lane is restored, but for its configuration and its last result. -/
theorem restart_settles (h : restoreSession shared.stored = .ok lanes)
    (hmem : (name, restored) ∈ lanes) (htip : (shared.stored.branchTips.get? name).isSome) :
    Settled name (shared, .idle restored) ∧ (∀ op ∈ restored.operation, op.BelongsTo name) ∧
      ∀ data, Mirrors name shared.stored data →
        data = { restored with config := data.config, lastResult := data.lastResult } := by
  obtain ⟨hmirrors, hown⟩ := restoreLane_mirrors (restoreLane_of_mem h hmem) htip
  exact ⟨⟨_, _, rfl, hmirrors⟩, hown, fun data hdata => hdata.agree hmirrors⟩

/-- A run is accepted, and the process stops: the lane comes back as it was, at the message and
with the open run. -/
theorem restart_settles_accepted : ∃ s : LaneSystem Unit, s.2.data.tip = some "message" ∧
    s.2.data.operation.isSome = true ∧ Settled "main" (s.1, .idle s.2.data) ∧
      ∀ op ∈ s.2.data.operation, op.BelongsTo "main" := by
  have hstart : (settledMachine "main").Run (fun _ _ => True)
      (createdLane "main" plainConfiguration : LaneSystem Unit) := .start (settled_createdLane _)
  obtain ⟨s, -, hs⟩ := hstart.execute (fun _ _ => true) (plainRun ())
    (fun s => decide (s.2.data.tip = some "message" ∧ s.2.data.operation.isSome = true ∧
      (s.1.stored.branchTips.get? "main").isSome = true ∧
      ((s.1.stored.branchTips.entries.map Prod.fst ++ s.1.stored.laneConfigs.entries.map Prod.fst ++
        s.1.stored.laneStates.entries.map Prod.fst).filter fun name => name != "").dedup = ["main"] ∧
      (restoreLanes s.1.stored ["main"]).toOption = some [("main", s.2.data)]))
    (fun _ _ _ => trivial) (by decide +kernel)
  obtain ⟨htip, hop, hstored, hnames, hrestored⟩ := of_decide_eq_true hs
  have h : restoreSession s.1.stored = .ok [("main", s.2.data)] := by
    rw [restoreSession, laneNames, hnames, mergeSort_singleton]
    cases hlanes : restoreLanes s.1.stored ["main"] with
    | error => rw [hlanes] at hrestored; cases hrestored
    | ok lanes => rw [hlanes] at hrestored; cases hrestored; rfl
  obtain ⟨hsettled, hbelongs, -⟩ := restart_settles h (mem_singleton_self _) hstored
  exact ⟨s, htip, hop, hsettled, hbelongs⟩

end PiOxidized.Harness.Runtime
