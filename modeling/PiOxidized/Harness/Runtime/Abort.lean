/-
# A request to abort

A cancellation copies the operation of the lane, waits for the guard, and stores the copy with
the flag set; after the commit it puts the same copy into lane data.  In between it holds no
lock, so whatever is stored of the operation meanwhile is rolled back.

Nothing is, as long as the copy is the stored operation when it is taken, nobody is about to
admit another operation of its id, and the driver stores no leaf of it until the cancellation
is published.  Then the request sets the control flag and nothing else.
-/

import PiOxidized.Harness.Runtime.Driven

namespace PiOxidized.Harness.Runtime

open Option List Math

variable {M : Type} {name : LaneName} {shared shared' : Shared M} {lane lane' : Lane M}

/-! ## Copies -/

/-- The operation a batch cancels. -/
def Publication.cancelled : Publication → Option Operation
  | abort _ _ operation => some operation
  | _ => none

/-- The operation a batch admits. -/
def Publication.admitted : Publication → Option Operation
  | accept _ _ operation _ => some operation
  | _ => none

/-- The operation of a cancellation that is under way. -/
def CallPhase.cancelling : CallPhase M → Option Operation
  | .snapshot operation _ => some operation
  | .guarded update => update.publication.cancelled
  | .committed update => update.publication.cancelled
  | _ => none

/-- Whether a cancellation of an operation is under way. -/
def Lane.cancelling (lane : Lane M) (id : OperationId) : Bool := lane.calls.any fun call =>
    call.phase.cancelling.any fun operation => operation.info.operationId == id

/-- Whether a call is about to admit another operation than the copy under the copy's id; a
reserved run is not complete before it is admitted. -/
def CallPhase.admitsOther (copy : Operation) : CallPhase M → Bool
  | .reserved (.run id _ _ _ _ _) => id == copy.info.operationId
  | .reserved (.prepared operation _ _) =>
    operation.info.operationId == copy.info.operationId && decide (operation ≠ copy)
  | .guarded update =>
    update.publication.admitted.any fun operation =>
      operation.info.operationId == copy.info.operationId && decide (operation ≠ copy)
  | _ => false

/-- Whether what is stored of an operation is the copy, the control flag apart. -/
def Stored.agrees (stored : Stored M) (copy : Operation) : Bool :=
  (stored.operationStates.get? copy.info.operationId).all fun leaf =>
    decide (stored.operationMetas.get? copy.info.operationId = some copy.info) &&
      decide (leaf.withControl .running = copy.state.withControl .running)

/-- Whether the driver has stored a leaf that lane data does not have yet. -/
def Lane.lags (lane : Lane M) (id : OperationId) : Bool := match lane.drive with
  | some ⟨_, .committed publication _ _⟩ => publication.storesLeaf id
  | _ => false

/-- Whether the driver has ended an operation that lane data still has. -/
def Lane.ending (lane : Lane M) (id : OperationId) : Bool := match lane.drive with
  | some ⟨_, .committed publication _ _⟩ => publication.ends id
  | _ => false

/-- Whether a step puts the copy of a cancellation out of date: the copy is not the stored
operation, its id is reserved again, or the driver stores another leaf. -/
def disturbsAbort (system : LaneSystem M) : LaneEvent M → Bool
  | .advance index =>
    match system.2.calls[index]? with
    | some ⟨_, .waiting (.requestAbort id _)⟩ =>
      system.2.data.operation.any fun copy => copy.info.operationId == id &&
        !(system.1.stored.agrees copy && !system.2.lags id &&
          system.2.calls.all fun call => !call.phase.admitsOther copy)
    | some ⟨_, .waiting request⟩ =>
      system.2.data.operation.isNone && request.admittedId.any system.2.cancelling
    | _ => false
  | .drive _ =>
    match system.2.drive with
    | some ⟨_, .guarded publication _ _ _⟩ =>
      publication.base.isSome && publication.operation.any fun operation =>
          system.2.cancelling operation.info.operationId
    | _ => false
  | _ => false

/-! ## What a cancellation relies on -/

/-- A copy that is the stored operation, and that nobody is about to put out of date. -/
structure Current (shared : Shared M) (lane : Lane M) (copy : Operation) : Prop where
  agrees : shared.stored.agrees copy = true
  lags : lane.lags copy.info.operationId = false
  admits : ∀ call ∈ lane.calls, call.phase.admitsOther copy = false

/-- A committed cancellation is stored, or lane data is rid of its operation. -/
structure Cancelled (shared : Shared M) (lane : Lane M) (operation : Operation) : Prop where
  lags : lane.lags operation.info.operationId = false
  stored : shared.stored.records operation.info.operationId =
      (some operation.info, some operation.state) ∨
    lane.data.operationId ≠ some operation.info.operationId ∨
    lane.ending operation.info.operationId = true

/-- What a cancellation relies on in its phase. -/
def CallPhase.Undisturbed (shared : Shared M) (lane : Lane M) : CallPhase M → Prop
  | .snapshot copy _ => Current shared lane copy
  | .guarded update => ∀ operation, update.publication.cancelled = some operation →
      shared.stored.agrees operation = true ∧ lane.lags operation.info.operationId = false
  | .committed update => ∀ operation, update.publication.cancelled = some operation →
      Cancelled shared lane operation
  | _ => True

/-- Every cancellation works on a current copy. -/
def Undisturbed (shared : Shared M) (lane : Lane M) : Prop :=
  ∀ (index : Nat) call, lane.calls[index]? = some call → call.phase.Undisturbed shared lane

/-! ## Agreement -/

variable {stored : Stored M} {copy : Operation}

variable {stored' : Stored M}

theorem Stored.agrees_iff : stored.agrees copy = true ↔
      ∀ leaf, stored.operationStates.get? copy.info.operationId = some leaf →
        stored.operationMetas.get? copy.info.operationId = some copy.info ∧
          leaf.withControl .running = copy.state.withControl .running := by
  simp [Stored.agrees, Option.all_eq_true]

theorem Stored.agrees_of_records (h : stored.agrees copy = true)
    (hrecs : stored'.records copy.info.operationId = stored.records copy.info.operationId) :
    stored'.agrees copy = true := by
  obtain ⟨hmeta, hleaf⟩ := Prod.mk.inj hrecs
  rw [Stored.agrees, hmeta, hleaf]
  exact h

theorem OperationState.withControl_withControl (first second : Control) (leaf : OperationState) :
    (leaf.withControl first).withControl second = leaf.withControl second := by
  cases leaf <;> rfl

/-- Leaves that agree but for the control flag agree with any flag. -/
theorem OperationState.withControl_congr {leaf other : OperationState} {control : Control}
    (h : leaf.withControl control = other.withControl control) (next : Control) :
    leaf.withControl next = other.withControl next := by
  rw [← leaf.withControl_withControl control next, h, other.withControl_withControl]

/-- A copy agrees with what is stored whether it is cancelled or not. -/
theorem Stored.agrees_cancelled (reqAt : Int) :
    stored.agrees (copy.cancelled reqAt) = true ↔ stored.agrees copy = true := by
  have hleaf : (copy.cancelled reqAt).state.withControl .running =
      copy.state.withControl .running := copy.state.withControl_withControl _ _
  rw [Stored.agrees_iff, Stored.agrees_iff, hleaf]
  exact Iff.rfl

/-! ## Moves of calls -/

variable {lock : Option Party} {i : Nat} {data : LaneData} {next phase : CallPhase M}
  {req : CallRequest M}

variable {p : Publication}

/-- A phase that is about to admit another operation came from one that was, or reserved its
id. -/
theorem CallMove.admitsOther (hmove : CallMove name shared lane i phase next shared' data lock)
    (hsnd : Call.Sound name ⟨req, phase⟩) (h : next.admitsOther copy = true) :
    phase.admitsOther copy = true ∨ ∃ other, phase = .waiting other ∧ lane.data.operation = none ∧
        other.admittedId = some copy.info.operationId := by
  cases hmove with
  | @build _ upd hguard hbuilt =>
    cases hbuilt.batch (hsnd.early_of_built hbuilt) with
    | append id entry data =>
      rw [appendUpdate.eq_def] at h
      split at h <;> cases h
    | run =>
      refine .inl ?_
      simp only [CallPhase.admitsOther, runBatch, Publication.admitted, any_some,
        provisionalRun, Bool.and_eq_true] at h
      exact h.1
    | prepared => exact .inl h
    | _ => cases h
  | answer hrets =>
    cases hrets with
    | _ => cases h
  | hold | snapshot | refuse | commit | fault | drop | list | listFails | undo => cases h
  | @reserve req' admission data' hfree hdata hbegin =>
    refine .inr ⟨req', rfl, hdata, ?_⟩
    rw [(beginAdmission_reserved hdata hbegin).1]
    cases admission with
    | run id messages selected sourceTip settings startedAt =>
      rw [beq_iff_eq.mp h]
      rfl
    | prepared op task preparation =>
      rw [CallPhase.admitsOther, Bool.and_eq_true] at h
      rw [← beq_iff_eq.mp h.1]
      rfl
  | @publish upd data hfree happly =>
    rw [afterPublication.eq_def] at h
    split at h
    · cases h
    · cases h
    · split_ifs at h
      · cases h
      · cases h
    · cases h

/-- A batch committed without the data lock leaves lane data with the operation it had. -/
theorem Publication.operationId_apply {data' : LaneData} (h : p.apply data = .ok data')
    (hholds : p.holdsData = false) :
    data'.operationId = data.operationId := by
  cases p with
  | converge base next =>
    cases h
    rfl
  | accept base next op tip =>
    rw [Publication.apply] at h
    by_cases hid : data.operationId = some op.info.operationId
    · rw [if_pos hid] at h
      cases h
      exact hid.symm
    · rw [if_neg hid] at h
      cases h
  | abort base next op =>
    rw [Publication.apply] at h
    by_cases hid : data.operationId = some op.info.operationId
    · rw [if_pos hid] at h
      cases h
      exact hid.symm
    · rw [if_neg hid] at h
      cases h
      rfl
  | hold held => cases hholds

/-- A call leaves lane data with the operation it had, with none, or with one it reserves. -/
theorem CallMove.operationId (hmove : CallMove name shared lane i phase next shared' data lock)
    (hord : Call.Ordered name shared lane i ⟨req, phase⟩) :
    data.operationId = lane.data.operationId ∨ data.operation = none ∨
      ∃ other, phase = .waiting other ∧ lane.data.operation = none ∧
        other.admittedId = data.operationId := by
  cases hmove with
  | @reserve req' admission data' hfree hdata hbegin =>
    obtain ⟨hid, rfl⟩ := beginAdmission_reserved hdata hbegin
    refine .inr (.inr ⟨req', rfl, hdata, ?_⟩)
    rw [hid, LaneData.operationId, LaneData.withOperation, map_some,
      Admission.operationId_provisional]
  | @publish upd data hfree happly =>
    refine .inl ?_
    cases hholds : upd.publication.holdsData with
    | false => exact Publication.operationId_apply happly hholds
    | true =>
      obtain ⟨_, id, entry, _, rfl⟩ := hord hholds
      rw [appendUpdate.eq_def] at happly
      split at happly
      · cases happly
        rfl
      · cases happly
        rfl
  | @undo id error hfree =>
    rw [undoReservation]
    split_ifs
    · exact .inr (.inl rfl)
    · exact .inl rfl
  | _ => exact .inl rfl

/-! ## Steps of others -/

/-- What a step leaves of an operation. -/
structure Leaves (shared : Shared M) (lane : Lane M) (shared' : Shared M) (lane' : Lane M)
    (id : OperationId) : Prop where
  records : shared'.stored.records id = shared.stored.records id
  lags : lane'.lags id = true → lane.lags id = true
  data : lane.data.operationId ≠ some id ∨ lane.ending id = true →
    lane'.data.operationId ≠ some id ∨ lane'.ending id = true

variable {op : Operation} {id : OperationId}

theorem Leaves.lags_eq_false (h : Leaves shared lane shared' lane' id)
    (hlags : lane.lags id = false) : lane'.lags id = false := by
  cases hlags' : lane'.lags id with
  | false => rfl
  | true =>
    rw [h.lags hlags'] at hlags
    cases hlags

theorem Cancelled.kept (h : Cancelled shared lane op)
    (hlvs : Leaves shared lane shared' lane' op.info.operationId) :
    Cancelled shared' lane' op := by
  refine ⟨hlvs.lags_eq_false h.lags, ?_⟩
  obtain hstored | hdata := h.stored
  · exact .inl (hlvs.records.trans hstored)
  · exact .inr (hlvs.data hdata)

/-- A cancellation stays undisturbed by a step that leaves its operation alone. -/
theorem CallPhase.Undisturbed.kept (h : phase.Undisturbed shared lane)
    (hleaves : ∀ op, phase.cancelling = some op →
      Leaves shared lane shared' lane' op.info.operationId)
    (hads : ∀ copy, phase.cancelling = some copy →
      (∀ call ∈ lane.calls, call.phase.admitsOther copy = false) →
        ∀ call ∈ lane'.calls, call.phase.admitsOther copy = false) :
    phase.Undisturbed shared' lane' := by
  cases phase with
  | snapshot copy requestedAt =>
    have hleaves := hleaves copy rfl
    exact ⟨Stored.agrees_of_records h.agrees hleaves.records, hleaves.lags_eq_false h.lags,
      hads copy rfl h.admits⟩
  | guarded upd =>
    intro op hop
    obtain ⟨hagrees, hlags⟩ := h op hop
    have hleaves := hleaves op hop
    exact ⟨Stored.agrees_of_records hagrees hleaves.records, hleaves.lags_eq_false hlags⟩
  | committed upd =>
    intro op hop
    exact (h op hop).kept (hleaves op hop)
  | _ => trivial

theorem Lane.cancelling_of_getElem? {call : Call M} (hcall : lane.calls[i]? = some call)
    (h : call.phase.cancelling = some op) :
    lane.cancelling op.info.operationId = true := by
  rw [Lane.cancelling, List.any_eq_true]
  exact ⟨call, mem_of_getElem? hcall, by simp [h]⟩

/-- The calls of a lane after one of them has moved. -/
theorem mem_withCall {call stepped : Call M} (hstepped : lane.calls[i]? = some stepped)
    (h : call ∈ (lane.withCall i next data lock).calls) :
    call = ⟨stepped.request, next⟩ ∨ call ∈ lane.calls := by
  obtain ⟨pos, hplc⟩ := mem_iff_getElem?.mp h
  obtain ⟨_, rfl⟩ | ⟨_, hcall⟩ := Lane.getElem?_withCall hstepped hplc
  · exact .inl rfl
  · exact .inr (mem_of_getElem? hcall)

/-! ## Commits of calls -/

variable {upd : Update M}

/-- What a cancellation publishes has the flag. -/
theorem Update.Serves.control_of_abort (h : upd.Serves name req)
    (hcan : upd.publication.cancelled = some op) :
    op.state.control.isCancelRequested = true := by
  obtain ⟨phase, stored, hear, hbuilt⟩ := h
  cases hpub : upd.publication with
  | abort base next other =>
    rw [hpub] at hcan
    cases hcan
    obtain ⟨copy, reqAt, _, _, rfl, _⟩ := hbuilt.of_abort hear hpub
    exact copy.control_cancelled reqAt
  | _ =>
    rw [hpub] at hcan
    cases hcan

/-- Agreement is kept where a leaf is replaced by one that agrees. -/
theorem Stored.agrees_of_replaced {other : Operation} {leaf : OperationState}
    (hcopy : stored.agrees copy = true) (hoth : stored.agrees other = true)
    (hid : other.info.operationId = copy.info.operationId)
    (hleaf : stored.operationStates.get? copy.info.operationId = some leaf)
    (hrecs : stored'.records copy.info.operationId =
      (stored.operationMetas.get? copy.info.operationId, some other.state)) :
    stored'.agrees copy = true := by
  obtain ⟨hmeta, hstored⟩ := Prod.mk.inj hrecs
  rw [Stored.agrees_iff] at hcopy hoth ⊢
  rw [hmeta, hstored]
  rintro _ ⟨⟩
  rw [hid] at hoth
  rw [← (hoth leaf hleaf).2]
  exact hcopy leaf hleaf

/-- The commit of a call keeps the copies of the others current. -/
theorem Undisturbed.callCommit {pos : Nat} {stepped call : Call M}
    (h : Undisturbed shared lane) (hord : Ordered name shared lane)
    (hstepped : lane.calls[i]? = some stepped) (hph : stepped.phase = .guarded upd)
    (hcom : shared.stored.commit upd.writes = .ok stored)
    (hcall : lane.calls[pos]? = some call) (hplc : pos ≠ i) :
    call.phase.Undisturbed { shared with stored := stored, guard := none }
      (lane.withCall i (.committed upd) lane.data lane.dataLock) := by
  obtain ⟨_, rfl⟩ := Stored.commit_eq_ok hcom
  obtain ⟨hsnd, hlock⟩ := hord.calls i stepped hstepped
  simp only [Call.Ordered, hph] at hlock
  obtain ⟨hguard, ⟨phase, hear, hbuilt⟩, _⟩ := hlock
  have hcalls {copy : Operation} (hads : ∀ call ∈ lane.calls,
      call.phase.admitsOther copy = false) : ∀ call ∈ (lane.withCall i
        (.committed upd) lane.data lane.dataLock).calls, call.phase.admitsOther copy = false := by
    intro other hoth
    obtain rfl | hoth := mem_withCall hstepped hoth
    · rfl
    · exact hads other hoth
  have hund := h pos call hcall
  obtain ⟨hsnd', hlock'⟩ := hord.calls pos call hcall
  cases hpend : call.phase with
  | snapshot copy reqAt =>
    rw [hpend] at hund
    obtain ⟨hagr, hlags, hads⟩ := hund
    refine ⟨?_, hlags, hcalls hads⟩
    obtain hsame | ⟨base, next, op, tip, hpub, hid, _, hrecs⟩ |
      ⟨base, next, op, leaf, hpub, hid, hleaf, _, hrecs⟩ :=
        hbuilt.records hear copy.info.operationId
    · exact Stored.agrees_of_records hagr hsame
    · -- The admitted operation is the copy.
      have hadm := hads stepped (mem_of_getElem? hstepped)
      simp only [hph, CallPhase.admitsOther, hpub, Publication.admitted,
        any_some, hid, beq_self_eq_true, Bool.true_and, decide_eq_false_iff_not,
        not_not] at hadm
      subst hadm
      obtain ⟨hmeta, hstate⟩ := Prod.mk.inj hrecs
      rw [Stored.agrees_iff]
      dsimp only
      rw [hmeta, hstate]
      rintro _ ⟨⟩
      exact ⟨rfl, rfl⟩
    · have hoth := h i stepped hstepped
      rw [hph] at hoth
      obtain ⟨hagr', _⟩ := hoth op (by rw [hpub]; rfl)
      exact Stored.agrees_of_replaced hagr hagr' hid hleaf hrecs
  | guarded other =>
    simp only [Call.Ordered, hpend] at hlock'
    rw [hguard] at hlock'
    obtain ⟨hguard', _⟩ := hlock'
    simp only [some.injEq, Prod.mk.injEq, Party.call.injEq, true_and] at hguard'
    exact absurd hguard'.symm hplc
  | committed other =>
    intro op hop
    rw [hpend] at hund
    obtain ⟨hlags, hstored⟩ := hund op hop
    refine ⟨hlags, ?_⟩
    obtain hstored | hdata := hstored
    · have hleaf := (Prod.mk.inj hstored).2
      obtain hsame | ⟨base, next, admitted, tip, hpub, hid, hunused, hrecs⟩ |
        ⟨base, next, cancelled, leaf, hpub, hid, hleaf', hctrl, hrecs⟩ :=
          hbuilt.records hear op.info.operationId
      · exact .inl (hsame.trans hstored)
      · rw [Stored.operationIdIsUsed_of_leaf hleaf] at hunused
        cases hunused
      · -- A second cancellation finds the flag set.
        rw [hleaf] at hleaf'
        cases hleaf'
        rw [(hsnd'.serves_of_committed hpend).control_of_abort hop] at hctrl
        cases hctrl
    · exact .inr hdata
  | _ => trivial

/-! ## Every step -/

/-- A cancellation that commits stores its copy. -/
theorem Undisturbed.ownCommit {call : Call M} (h : Undisturbed shared lane)
    (hord : Ordered name shared lane) (hcall : lane.calls[i]? = some call)
    (hph : call.phase = .guarded upd)
    (hcom : shared.stored.commit upd.writes = .ok stored)
    (hop : upd.publication.cancelled = some op) :
    (∃ leaf, shared.stored.operationStates.get? op.info.operationId = some leaf ∧
      leaf.withControl .running = op.state.withControl .running) ∧
      stored.records op.info.operationId = (some op.info, some op.state) := by
  obtain ⟨_, rfl⟩ := Stored.commit_eq_ok hcom
  have hlock := (hord.calls i call hcall).2
  simp only [Call.Ordered, hph] at hlock
  obtain ⟨_, ⟨phase, hear, hbuilt⟩, _⟩ := hlock
  have hundisturbed := h i call hcall
  rw [hph] at hundisturbed
  have hagrees := Stored.agrees_iff.mp (hundisturbed op hop).1
  cases hpub : upd.publication with
  | abort base next other =>
    rw [hpub] at hop
    cases hop
    obtain ⟨_, _, leaf, _, _, hleaf, _, hrecs⟩ := hbuilt.of_abort hear hpub
    obtain ⟨hmeta, hsame⟩ := hagrees leaf hleaf
    rw [hmeta] at hrecs
    exact ⟨⟨leaf, hleaf, hsame⟩, hrecs⟩
  | _ =>
    rw [hpub] at hop
    cases hop

/-- What a batch cancels is the copy it was built from. -/
theorem Built.cancelled (h : Built name stored phase upd) (hear : phase.Early name req)
    (hop : upd.publication.cancelled = some op) :
    ∃ copy reqAt, phase = .snapshot copy reqAt ∧ op = copy.cancelled reqAt := by
  cases hpub : upd.publication with
  | abort base next other =>
    rw [hpub] at hop
    cases hop
    obtain ⟨copy, reqAt, _, hph, hcan, _⟩ := h.of_abort hear hpub
    exact ⟨copy, reqAt, hph, hcan⟩
  | _ =>
    rw [hpub] at hop
    cases hop

/-- No id is reserved while its operation is being cancelled. -/
theorem not_reserves_of_cancelling {call : Call M} {other : CallRequest M}
    (hkps : disturbsAbort (shared, lane) (.advance i) = false)
    (hcall : lane.calls[i]? = some call) (hph : call.phase = .waiting other)
    (hfree : lane.data.operation = none) (hid : other.admittedId = some id) :
    lane.cancelling id = false := by
  have hcall' : lane.calls[i]? = some ⟨call.request, .waiting other⟩ := by
    rw [hcall, ← hph]
  cases other with
  | requestAbort operationId reqAt => cases hid
  | _ => simpa [disturbsAbort, hcall', hfree, hid] using hkps

/-- A step of a call other than a commit leaves the operations being cancelled alone. -/
theorem CallMove.leaves {call : Call M}
    (hmove : CallMove name shared lane i call.phase next shared' data lock)
    (hcall : lane.calls[i]? = some call) (hord : call.Ordered name shared lane i)
    (hstored : shared'.stored = shared.stored)
    (hkps : disturbsAbort (shared, lane) (.advance i) = false)
    (hcan : lane.cancelling id = true) :
    Leaves shared lane shared' (lane.withCall i next data lock) id := by
  refine ⟨by rw [hstored], fun hlags => hlags, ?_⟩
  rintro (hdata | hending)
  · refine .inl ?_
    obtain hsame | hnone | ⟨other, hph, hfree, hid⟩ := hmove.operationId hord
    · exact fun hsome => hdata (hsame.symm.trans hsome)
    · intro hsome
      simp [Lane.withCall, LaneData.operationId, hnone] at hsome
    · intro hsome
      have hsome : data.operationId = some id := hsome
      rw [hsome] at hid
      rw [not_reserves_of_cancelling hkps hcall hph hfree hid] at hcan
      cases hcan
  · exact .inr hending

/-- A step of a call other than a commit keeps the copies of the others current. -/
theorem Undisturbed.others {pos : Nat} {call other : Call M} (h : Undisturbed shared lane)
    (hord : Ordered name shared lane) (hcall : lane.calls[i]? = some call)
    (hmove : CallMove name shared lane i call.phase next shared' data lock)
    (hstored : shared'.stored = shared.stored)
    (hkps : disturbsAbort (shared, lane) (.advance i) = false)
    (hoth : lane.calls[pos]? = some other) :
    other.phase.Undisturbed shared' (lane.withCall i next data lock) := by
  obtain ⟨hsnd, hlock⟩ := hord.calls i call hcall
  apply (h pos other hoth).kept
  · intro op hop
    exact hmove.leaves hcall hlock hstored hkps (Lane.cancelling_of_getElem? hoth hop)
  · intro copy hcopy hads member hmem
    obtain rfl | hmem := mem_withCall hcall hmem
    · cases hads' : next.admitsOther copy with
      | false => rfl
      | true =>
        obtain hph | ⟨req, hph, hfree, hid⟩ := hmove.admitsOther hsnd hads'
        · rw [hads call (mem_of_getElem? hcall)] at hph
          cases hph
        · have hcan := Lane.cancelling_of_getElem? hoth hcopy
          rw [not_reserves_of_cancelling hkps hcall hph hfree hid] at hcan
          cases hcan
    · exact hads member hmem

/-- The copy a cancellation takes is current. -/
theorem current_of_snapshot {call : Call M} {reqAt : Int} (hcall : lane.calls[i]? = some call)
    (hph : call.phase = .waiting (.requestAbort op.info.operationId reqAt))
    (hdata : lane.data.operation = some op)
    (hkps : disturbsAbort (shared, lane) (.advance i) = false) :
    shared.stored.agrees op = true ∧ lane.lags op.info.operationId = false ∧
      ∀ call ∈ lane.calls, call.phase.admitsOther op = false := by
  have hcall' : lane.calls[i]? =
      some ⟨call.request, .waiting (.requestAbort op.info.operationId reqAt)⟩ := by
    rw [hcall, ← hph]
  simp only [disturbsAbort, hcall', hdata, any_some, beq_self_eq_true, Bool.true_and,
    Bool.not_eq_false', Bool.and_eq_true, Bool.not_eq_true', List.all_eq_true] at hkps
  exact ⟨hkps.1.1, hkps.1.2, hkps.2⟩

/-- A step of a call keeps every cancellation undisturbed. -/
theorem Undisturbed.call {call : Call M} (h : Undisturbed shared lane)
    (hord : Ordered name shared lane) (hcall : lane.calls[i]? = some call)
    (hmove : CallMove name shared lane i call.phase next shared' data lock)
    (hkps : disturbsAbort (shared, lane) (.advance i) = false) :
    Undisturbed shared' (lane.withCall i next data lock) := by
  intro pos other hoth
  obtain ⟨rfl, rfl⟩ | ⟨hplc, hsame⟩ := Lane.getElem?_withCall hcall hoth
  · have hsnd := (hord.calls pos call hcall).1
    have hown := h pos call hcall
    generalize hph : call.phase = phase at hmove
    cases hmove with
    | @build _ upd hguard hbuilt =>
      intro op hop
      obtain ⟨req, phase⟩ := call
      subst hph
      obtain ⟨copy, reqAt, hsnapshot, rfl⟩ := hbuilt.cancelled (hsnd.early_of_built hbuilt) hop
      dsimp only at hsnapshot
      subst hsnapshot
      exact ⟨(Stored.agrees_cancelled reqAt).mpr hown.agrees, hown.lags⟩
    | answer hrets => cases hrets <;> trivial
    | hold | reserve | refuse | fault | drop | list | listFails | undo => trivial
    | @snapshot id op reqAt hfree hdata hid hctrl =>
      subst hid
      obtain ⟨hagr, hlags, hads⟩ := current_of_snapshot hcall hph hdata hkps
      refine ⟨hagr, hlags, fun member hmem => ?_⟩
      obtain rfl | hmem := mem_withCall hcall hmem
      · rfl
      · exact hads member hmem
    | @commit upd stored hcom =>
      intro op hop
      rw [hph] at hown
      obtain ⟨_, hstored⟩ := h.ownCommit hord hcall hph hcom hop
      exact ⟨(hown op hop).2, .inl hstored⟩
    | publish hfree happly =>
      rw [afterPublication.eq_def]
      split
      · trivial
      · trivial
      · split_ifs <;> trivial
      · trivial
  · obtain hstored | ⟨upd, stored, hph, hcom, rfl, rfl, rfl, rfl⟩ := hmove.commit_cases
    · exact h.others hord hcall hmove hstored hkps hsame
    · exact h.callCommit hord hcall hph hcom hsame hplc

theorem CallPhase.Undisturbed.lags (h : phase.Undisturbed shared lane)
    (hop : phase.cancelling = some op) :
    lane.lags op.info.operationId = false := by
  cases phase with
  | snapshot copy reqAt =>
    cases hop
    exact Current.lags h
  | guarded upd => exact (h op hop).2
  | committed upd => exact Cancelled.lags (h op hop)
  | _ => cases hop

/-- A phase in which the driver has committed nothing that lane data lacks. -/
def DrivePhase.isCommitted : DrivePhase M → Bool
  | .committed _ _ _ => true
  | _ => false

variable {opts : DriveOptions} {event : LaneEvent M}

theorem Lane.lags_of_not_isCommitted
    (h : ∀ drive, lane.drive = some drive → drive.phase.isCommitted = false) :
    lane.lags id = false := by
  rw [Lane.lags]
  split
  · next opts p perf next hdrv => cases h _ hdrv
  · rfl

theorem Lane.ending_of_not_isCommitted
    (h : ∀ drive, lane.drive = some drive → drive.phase.isCommitted = false) :
    lane.ending id = false := by
  rw [Lane.ending]
  split
  · next opts p perf next hdrv => cases h _ hdrv
  · rfl

/-- A step that neither commits nor publishes leaves every operation alone. -/
theorem Leaves.of_quiet (hstored : shared'.stored = shared.stored) (hdata : lane'.data = lane.data)
    (hpre : ∀ drive, lane.drive = some drive → drive.phase.isCommitted = false)
    (haft : ∀ drive, lane'.drive = some drive → drive.phase.isCommitted = false) :
    Leaves shared lane shared' lane' id where
  records := by rw [hstored]
  lags hlags := by
    rw [Lane.lags_of_not_isCommitted haft] at hlags
    cases hlags
  data := by
    rw [Lane.ending_of_not_isCommitted hpre, hdata]
    rintro (hdata | hending)
    · exact .inl hdata
    · cases hending

/-- A publication of the driver leaves every operation alone whose leaf it does not store. -/
theorem Leaves.of_publish [Inhabited M] {p : Publish M} {perf : Performed M p.Answer}
    {next : p.Answer → Procedure M (DriveStep M)} {after : Option (Drive M)}
    (hdrv : lane.drive = some ⟨opts, .committed p perf next⟩)
    (hord : (DrivePhase.committed p perf next).Ordered name shared lane)
    (haft : ∀ drive, after = some drive → drive.phase.isCommitted = false)
    (hlags : lane.lags id = false) :
    Leaves shared lane shared ⟨perf.publish lane.data, lock, lane.calls, after⟩ id where
  records := rfl
  lags hlags' := by
    rw [Lane.lags_of_not_isCommitted haft] at hlags'
    cases hlags'
  data := by
    obtain ⟨data, stored, hperf, _⟩ := hord
    rintro (hdata | hending)
    · refine .inl ?_
      obtain hsame | hnone | ⟨other, hoth, hsts⟩ := Publish.operationId_publish hperf lane.data
      · exact fun hsome => hdata (hsame.symm.trans hsome)
      · intro hsome
        simp [LaneData.operationId, hnone] at hsome
      · intro hsome
        rw [hoth] at hsome
        cases hsome
        rw [Lane.lags, hdrv] at hlags
        dsimp only at hlags
        rw [hlags] at hsts
        cases hsts
    · rw [Lane.ending, hdrv] at hending
      refine .inl fun hsome => ?_
      simp [LaneData.operationId, Publish.operation_publish_of_ends hperf hending] at hsome

/-- A commit of the driver that stores no leaf of an operation keeps its cancellations
undisturbed. -/
theorem CallPhase.Undisturbed.driveCommit {p : Publish M}
    {perf : Performed M p.Answer} {writes : List (Write M)}
    {next : p.Answer → Procedure M (DriveStep M)} {call : Call M}
    (h : call.phase.Undisturbed shared lane) (hord : Ordered name shared lane)
    (hcall : lane.calls[i]? = some call)
    (hdrv : lane.drive = some ⟨opts, .guarded p perf writes next⟩)
    (hfol : ∃ origin, p.Follows (fun _ => True) origin)
    (hcom : shared.stored.commit writes = .ok stored)
    (hsts : ∀ op, call.phase.cancelling = some op → p.storesLeaf op.info.operationId = false) :
    call.phase.Undisturbed { shared with stored := stored, guard := none }
      ⟨lane.data, lock, lane.calls, some ⟨opts, .committed p perf next⟩⟩ := by
  obtain ⟨_, rfl⟩ := Stored.commit_eq_ok hcom
  obtain ⟨hguard, hwr, data, hperf, _⟩ := hord.drive _ hdrv
  obtain ⟨origin, hfol⟩ := hfol
  have hending (id : OperationId) : lane.ending id = false :=
    Lane.ending_of_not_isCommitted fun drive hsome => by
      rw [hdrv] at hsome
      cases hsome
      rfl
  have hcases (op : Operation) (hop : call.phase.cancelling = some op) :=
    (Publish.records hperf hwr hfol.writes op.info.operationId).resolve_left
      (by rw [hsts op hop]; exact Bool.false_ne_true)
  cases hph : call.phase with
  | snapshot copy reqAt =>
    rw [hph] at h
    have hcopy : call.phase.cancelling = some copy := by rw [hph]; rfl
    have hcur : Current shared lane copy := h
    refine ⟨?_, hsts copy hcopy, hcur.admits⟩
    obtain hsame | ⟨_, hnone, _⟩ := hcases copy hcopy
    · exact Stored.agrees_of_records hcur.agrees hsame
    · obtain ⟨hmeta, hleaf⟩ := Prod.mk.inj hnone
      simp only [Stored.agrees, hleaf, all_none]
  | guarded upd =>
    have hlock := (hord.calls i call hcall).2
    simp only [Call.Ordered, hph] at hlock
    rw [hguard] at hlock
    cases hlock.1
  | committed upd =>
    intro op hop
    have hop' : call.phase.cancelling = some op := by rw [hph]; exact hop
    rw [hph] at h
    refine ⟨hsts op hop', ?_⟩
    obtain hsame | ⟨hends, _⟩ := hcases op hop'
    · refine (h op hop).stored.imp hsame.trans fun hdata => ?_
      exact hdata.elim .inl fun hends => by rw [hending] at hends; cases hends
    · exact .inr (.inr hends)
  | _ => trivial

section

variable (h : Undisturbed shared lane) (hord : Ordered name shared lane)
  (hdrives : lane.DrivesWell fun _ => True)

include h hord hdrives

/-- A step of the drive keeps every cancellation undisturbed. -/
theorem Undisturbed.drive [Inhabited M] {surroundings : Surroundings M} {phase : DrivePhase M}
    {next : Option (DrivePhase M)} (hph : lane.drive = some ⟨opts, phase⟩)
    (hmove : DriveMove name opts shared lane phase next shared' data lock)
    (hkps : disturbsAbort (shared, lane) (.drive surroundings) = false) :
    Undisturbed shared' ⟨data, lock, lane.calls, next.map fun phase => ⟨opts, phase⟩⟩ := by
  intro i call hcall
  have hund := h i call hcall
  -- A move that neither commits nor publishes.
  have hquiet (hstored : shared'.stored = shared.stored) (hdata : data = lane.data)
      (hpre : phase.isCommitted = false)
      (haft : ∀ after, next = some after → after.isCommitted = false) :
      call.phase.Undisturbed shared'
        ⟨data, lock, lane.calls, next.map fun phase => ⟨opts, phase⟩⟩ := by
    refine hund.kept (fun op hop => .of_quiet hstored hdata ?_ ?_) fun _ _ hads => hads
    · intro drive hdrv
      rw [hph] at hdrv
      cases hdrv
      exact hpre
    · intro drive hdrv
      obtain ⟨after, hnext, rfl⟩ := map_eq_some_iff.mp hdrv
      exact haft after hnext
  cases hmove with
  | answer htold => exact hquiet htold.kept.2 rfl rfl (by rintro _ ⟨⟩; rfl)
  | again | lock | approach | build | skip => exact hquiet rfl rfl rfl (by rintro _ ⟨⟩; rfl)
  | finish | refuse | fault => exact hquiet rfl rfl rfl (by rintro _ ⟨⟩)
  | @commit p next perf writes stored hcom =>
    obtain ⟨origin, _, hfol⟩ := hdrives.guarded hph
    refine hund.driveCommit hord hcall hph ⟨origin, hfol⟩ hcom fun op hop => ?_
    have hcall : lane.calls[i]? = some call := hcall
    have hcan := Lane.cancelling_of_getElem? hcall hop
    cases hsts : p.storesLeaf op.info.operationId with
    | false => rfl
    | true =>
      rw [Publish.storesLeaf, Bool.and_eq_true, Option.any_eq_true] at hsts
      obtain ⟨hbase, stepped, hstepped, hid⟩ := hsts
      rw [← beq_iff_eq.mp hid] at hcan
      simp [disturbsAbort, hph, hbase, hstepped, hcan] at hkps
  | publish hfree haft =>
    refine hund.kept (fun op hop =>
      .of_publish hph (hord.drive _ hph) ?_ (hund.lags hop))
      fun _ _ hads => hads
    intro drive hdrv
    obtain ⟨after, hnext, rfl⟩ := map_eq_some_iff.mp hdrv
    obtain ⟨rfl, _⟩ | ⟨rfl, _⟩ := haft
    · cases hnext
    · cases hnext
      rfl

/-- A step that disturbs no cancellation keeps every cancellation undisturbed. -/
theorem Undisturbed.step [Inhabited M] (hmove : LaneMove name shared lane event shared' lane')
    (hkps : disturbsAbort (shared, lane) event = false) : Undisturbed shared' lane' := by
  cases hmove with
  | @begin req phase issued hfrs hnodup hissued hph =>
    intro i call hcall
    obtain hcall | ⟨_, rfl⟩ := getElem?_append_cases hcall
    · refine (h i call hcall).kept (fun op _ => ⟨rfl, id, id⟩) fun copy _ hads member hmem => ?_
      obtain hmem | hmem := mem_append.mp hmem
      · exact hads member hmem
      · obtain rfl := mem_singleton.mp hmem
        obtain rfl | ⟨reason, rfl⟩ := hph
        · rfl
        · rfl
    · obtain rfl | ⟨reason, rfl⟩ := hph
      · trivial
      · trivial
  | call hcall hmove => exact h.call hord hcall hmove hkps
  | startDrive hdrv =>
    intro i call hcall
    refine (h i call hcall).kept (fun op _ => .of_quiet rfl rfl ?_ ?_) fun _ _ hads => hads
    · intro drive hsome
      rw [hdrv] at hsome
      cases hsome
    · rintro drive ⟨⟩
      rfl
  | drive hph hmove => exact h.drive hord hdrives hph hmove hkps

end

/-- Along a run that disturbs no cancellation, every cancellation works on a current copy. -/
theorem undisturbed_of_run [Inhabited M] {s : LaneSystem M}
    (h : (laneMachine name).Run (fun s event => disturbsAbort s event = false) s) :
    Undisturbed s.1 s.2 := by
  have hinvariant : Ordered name s.1 s.2 ∧ (s.2.DrivesWell fun _ => True) ∧
      Undisturbed s.1 s.2 := by
    refine h.invariant (P := fun s => Ordered name s.1 s.2 ∧ (s.2.DrivesWell fun _ => True) ∧
      Undisturbed s.1 s.2) ?_ ?_
    · intro s hsta
      have hrun : (laneMachine name).Run (fun _ _ => True) s := .start hsta
      refine ⟨ordered_of_run hrun, drivesWell_of_run hrun, ?_⟩
      obtain ⟨config, rfl⟩ := hsta
      intro i call hcall
      cases hcall
    · rintro t t' event ⟨hord, hdrives, hund⟩ hkps hstep
      have hmove := stepLane_moves hstep
      exact ⟨hord.step hmove, hdrives.step (fun _ _ => trivial) hmove,
        hund.step hord hdrives hmove hkps⟩
  exact hinvariant.2.2

/-! ## What a cancellation stores and publishes -/

/-- Whether the batch of a call has been committed. -/
def CallPhase.isCommitted : CallPhase M → Bool
  | .committed _ => true
  | _ => false

/-- The operation of the cancellation whose batch a step commits. -/
def storedCancellation (s : LaneSystem M) : LaneEvent M → LaneSystem M → Option Operation
  | .advance index, s' =>
    match s.2.calls[index]? with
    | some ⟨_, .guarded update⟩ =>
      if s'.2.calls[index]?.any fun call => call.phase.isCommitted then
        update.publication.cancelled
      else none
    | _ => none
  | _, _ => none

/-- The operation of the cancellation that a step publishes, into lane data that still has the
operation. -/
def publishedCancellation (s : LaneSystem M) : LaneEvent M → Option Operation
  | .advance index =>
    match s.2.calls[index]? with
    | some ⟨_, .committed update⟩ =>
      update.publication.cancelled.filter fun operation =>
        decide (s.2.data.operationId = some operation.info.operationId)
    | _ => none
  | _ => none

theorem storedCancellation_eq_some
    (h : storedCancellation (shared, lane) event (shared', lane') = some op) :
    ∃ i call upd call', event = .advance i ∧ lane.calls[i]? = some call ∧
      call.phase = .guarded upd ∧ upd.publication.cancelled = some op ∧
      lane'.calls[i]? = some call' ∧ call'.phase.isCommitted = true := by
  rw [storedCancellation.eq_def] at h
  split at h
  · next _ i =>
      split at h
      · next req upd hcall =>
          split_ifs at h with hcomd
          obtain ⟨call', hcall', hph'⟩ := (any_eq_true _ _).mp hcomd
          exact ⟨i, _, upd, call', rfl, hcall, rfl, h, hcall', hph'⟩
      · cases h
  · cases h

theorem publishedCancellation_eq_some (h : publishedCancellation (shared, lane) event = some op) :
    ∃ i call upd, event = .advance i ∧ lane.calls[i]? = some call ∧
      call.phase = .committed upd ∧ upd.publication.cancelled = some op ∧
      lane.data.operationId = some op.info.operationId := by
  rw [publishedCancellation.eq_def] at h
  split at h
  · next i =>
      split at h
      · next req upd hcall =>
          obtain ⟨hcan, hdata⟩ := filter_eq_some_iff.mp h
          exact ⟨i, _, upd, rfl, hcall, rfl, hcan, of_decide_eq_true hdata⟩
      · cases h
  · cases h

theorem OperationState.withControl_control (leaf : OperationState) :
    leaf.withControl leaf.control = leaf := by
  cases leaf <;> rfl

/-- While the end of an operation is stored but not published, the driver has the data lock. -/
theorem Ordered.dataLock_of_ending (h : Ordered name shared lane) (hending : lane.ending id = true) :
    lane.dataLock = some .drive := by
  rw [Lane.ending] at hending
  split at hending
  · next opts p perf next hdrv =>
      obtain ⟨data, stored, hperf, hheld⟩ := h.drive _ hdrv
      refine (hheld ?_).1
      cases p with
      | settle | navigation => rfl
      | _ => cases hending
  · cases hending

/-- Only a batch that cancels nothing is published under the data lock. -/
theorem Publication.holdsData_of_cancelled (h : p.cancelled = some op) : p.holdsData = false := by
  cases p with
  | abort base next op => rfl
  | _ => cases h

/-- In a state that a run reaches without disturbing a cancellation, a request to abort stores
the stored leaf with another control flag, and publishes the operation that is stored. -/
theorem abort_sets_control [Inhabited M] {s s' : LaneSystem M} {event : LaneEvent M}
    (hrun : (laneMachine name).Run (fun s event => disturbsAbort s event = false) s)
    (hstep : (laneMachine name).step s event = some s') (op : Operation) :
    (storedCancellation s event s' = some op → ∃ leaf control,
      s.1.stored.operationStates.get? op.info.operationId = some leaf ∧
      s'.1.stored.operationStates.get? op.info.operationId = some (leaf.withControl control)) ∧
    (publishedCancellation s event = some op → s'.2.data.operation = some op ∧
      s'.1.stored.records op.info.operationId = (some op.info, some op.state)) := by
  have hundisturbed := undisturbed_of_run hrun
  have hord := ordered_of_run hrun
  obtain ⟨shared, lane⟩ := s
  obtain ⟨shared', lane'⟩ := s'
  have hmove := stepLane_moves hstep
  constructor
  · intro hstores
    obtain ⟨i, call, upd, call', rfl, hcall, hphase, hcan, hcall', hcommitted⟩ :=
      storedCancellation_eq_some hstores
    cases hmove with
    | @call _ stepped next shared' data lock hstepped hmove =>
      rw [hcall] at hstepped
      cases hstepped
      rw [hphase] at hmove
      cases hmove with
      | commit hcommit =>
        obtain ⟨⟨leaf, hleaf, hsame⟩, hstored⟩ :=
          hundisturbed.ownCommit hord hcall hphase hcommit hcan
        refine ⟨leaf, op.state.control, hleaf, (Prod.mk.inj hstored).2.trans ?_⟩
        rw [OperationState.withControl_congr hsame, op.state.withControl_control]
      | fault hcommit =>
        obtain ⟨_, rfl⟩ | ⟨hindex, _⟩ := Lane.getElem?_withCall hcall hcall'
        · cases hcommitted
        · exact absurd rfl hindex
      | build hguard hbuilt => cases hbuilt
      | answer hreturns => cases hreturns
  · intro hpublishes
    obtain ⟨i, call, upd, rfl, hcall, hphase, hcan, hdata⟩ :=
      publishedCancellation_eq_some hpublishes
    cases hmove with
    | @call _ stepped next shared' data lock hstepped hmove =>
      rw [hcall] at hstepped
      cases hstepped
      have hstored := hundisturbed i call hcall
      rw [hphase] at hstored hmove
      cases hmove with
      | publish hfree happly =>
        rw [Publication.holdsData_of_cancelled hcan] at hfree
        have hfree := hfree.resolve_left Bool.false_ne_true
        constructor
        · cases hpub : upd.publication with
          | abort base next other =>
            rw [hpub] at hcan happly
            cases hcan
            rw [Publication.apply, if_pos hdata] at happly
            cases happly
            rfl
          | _ =>
            rw [hpub] at hcan
            cases hcan
        · obtain hsame | hother | hending := (hstored op hcan).stored
          · exact hsame
          · exact absurd hdata hother
          · rw [hord.dataLock_of_ending hending] at hfree
            cases hfree
      | drop hfree hadmission hcause =>
        cases hpub : upd.publication with
        | accept base next other tip =>
          rw [hpub] at hcan
          cases hcan
        | _ =>
          rw [hpub] at hadmission
          cases hadmission
      | build hguard hbuilt => cases hbuilt
      | answer hreturns => cases hreturns

/-- A run is cancelled before it is driven: the cancellation is stored, and then published. -/
theorem abort_sets_control_of_plain_run : ∃ (s s' t : LaneSystem Unit) (operation : Operation),
      storedCancellation s (.advance 1) s' = some operation ∧
      (∃ leaf control, s.1.stored.operationStates.get? operation.info.operationId = some leaf ∧
        s'.1.stored.operationStates.get? operation.info.operationId =
          some (leaf.withControl control)) ∧
      publishedCancellation s' (.advance 1) = some operation ∧
      t.2.data.operation = some operation ∧ t.1.stored.records operation.info.operationId =
        (some operation.info, some operation.state) := by
  have hstart : (laneMachine "main").Run (fun s event => disturbsAbort s event = false)
      (createdLane "main" plainConfiguration : LaneSystem Unit) := .start ⟨_, rfl⟩
  obtain ⟨s, hrun, hs⟩ := hstart.execute (fun s event => !disturbsAbort s event)
    (plainRun () ++ [.call (.requestAbort "op" 5)] ++ advances 1 2)
    (fun s => !disturbsAbort s (.advance 1) &&
      ((laneMachine "main").step s (.advance 1)).any fun s' =>
        ((laneMachine "main").step s' (.advance 1)).isSome &&
          (storedCancellation s (.advance 1) s').any fun (operation : Operation) =>
            decide (publishedCancellation s' (.advance 1) = some operation))
    (fun _ _ h => by simpa using h) (by decide +kernel)
  simp only [Bool.and_eq_true, Bool.not_eq_true', Option.any_eq_true, isSome_iff_exists,
    decide_eq_true_eq] at hs
  obtain ⟨hquiet, s', hstep, ⟨t, hpublish⟩, operation, hstored, hpublished⟩ := hs
  exact ⟨s, s', t, operation, hstored, (abort_sets_control hrun hstep operation).1 hstored,
    hpublished, (abort_sets_control (hrun.step _ hquiet hstep) hpublish operation).2 hpublished⟩

/-- A copy taken before the driver stores its first checkpoint replaces the checkpoint. -/
theorem abort_rolls_back : ∃ (s s' : LaneSystem Unit) (operation : Operation),
      (laneMachine "main").Run (fun _ _ => True) s ∧
      (laneMachine "main").step s (.advance 1) = some s' ∧
      storedCancellation s (.advance 1) s' = some operation ∧
      ∃ leaf leaf', s.1.stored.operationStates.get? operation.info.operationId = some leaf ∧
        s'.1.stored.operationStates.get? operation.info.operationId = some leaf' ∧
        ∀ control, leaf' ≠ leaf.withControl control := by
  have hstart : (laneMachine "main").Run (fun _ _ => True)
      (createdLane "main" plainConfiguration : LaneSystem Unit) := .start ⟨_, rfl⟩
  obtain ⟨s, hrun, hs⟩ := hstart.execute (fun _ _ => true)
    (plainRun () ++ [.call (.requestAbort "op" 5), .advance 1, .startDrive ⟨"op", false, false⟩] ++
      plainDrive 8 ++ [.advance 1])
    (fun s => ((laneMachine "main").step s (.advance 1)).any fun s' =>
      (storedCancellation s (.advance 1) s').any fun (operation : Operation) =>
        (s.1.stored.operationStates.get? operation.info.operationId).any
          fun (leaf : OperationState) =>
            (s'.1.stored.operationStates.get? operation.info.operationId).any
              fun (leaf' : OperationState) =>
                decide (leaf'.withControl .running ≠ leaf.withControl .running))
    (fun _ _ _ => trivial) (by decide +kernel)
  obtain ⟨s', hstep, hs'⟩ := (any_eq_true _ _).mp hs
  obtain ⟨operation, hop, hleaves⟩ := (any_eq_true _ _).mp hs'
  obtain ⟨leaf, hleaf, hleaves⟩ := (any_eq_true _ _).mp hleaves
  obtain ⟨leaf', hleaf', hne⟩ := (any_eq_true _ _).mp hleaves
  refine ⟨s, s', operation, hrun, hstep, hop, leaf, leaf', hleaf, hleaf', ?_⟩
  rintro control rfl
  rw [OperationState.withControl_withControl] at hne
  exact of_decide_eq_true hne rfl

end PiOxidized.Harness.Runtime
