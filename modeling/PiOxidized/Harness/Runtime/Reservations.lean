/-
# Reservations

What an admission relies on between its reservation and its publication: the lane remembers
its operation, or its id is taken and it will be refused.  A batch under the guard has found
its id free, so nobody else on the lane stands for the same id, and once it is committed its
operation is the stored one until it is settled.
-/

import PiOxidized.Harness.Runtime.Admissions

namespace PiOxidized.Harness.Runtime

open List Option Math
open Session (EntryId SessionError)

variable {M : Type} {name : LaneName} {shared shared' : Shared M} {lane lane' : Lane M}

/-! ## Batches that admit and batches that settle -/

variable {stored : Stored M} {writes : List (Write M)}

/-- A batch that touches no lane state of a lane leaves its current operation alone. -/
theorem Stored.currentId_apply
    (h : ∀ other value, Write.laneState other value ∈ writes → other ≠ name) :
    (stored.apply writes).currentId name = stored.currentId name := by
  apply Stored.apply_frame fun s => s.currentId name
  intro write hwrt s
  cases write with
  | laneState other value =>
    have hne : (name == other) = false := beq_eq_false_iff_ne.mpr (h other value hwrt).symm
    simp only [Stored.currentId, Stored.laneState, Stored.applyWrite, Dict.get?_insert, hne,
      Bool.false_eq_true, if_false]
  | _ => rfl

/-- What a batch that admits an operation does to the stored values. -/
structure AdmitsId (name : LaneName) (stored stored' : Stored M) (id : OperationId) : Prop where
  free : stored.operationIdIsUsed id = false
  current : stored'.currentId name = some id
  others : ∀ other, other ≠ name → stored'.currentId other = stored.currentId other
  used : stored'.operationIdIsUsed id = true
  keeps : ∀ other, stored.operationIdIsUsed other = true → stored'.operationIdIsUsed other = true
  operations : ∀ (other : OperationId) (info : OperationMeta),
    stored'.operationMetas.get? other = some info →
      other = id ∧ info.lane = name ∨ stored.operationMetas.get? other = some info

/-- What a batch that settles an operation does to the stored values. -/
structure SettlesId (name : LaneName) (stored stored' : Stored M) (id : OperationId) : Prop where
  current : stored'.currentId name = none
  others : ∀ other, other ≠ name → stored'.currentId other = stored.currentId other
  used : stored'.operationIdIsUsed id = true
  keeps : ∀ other, stored.operationIdIsUsed other = true → stored'.operationIdIsUsed other = true
  operations : ∀ (other : OperationId) (info : OperationMeta),
    stored'.operationMetas.get? other = some info →
      other ≠ id ∧ stored.operationMetas.get? other = some info

variable {id : OperationId} {p : Publish M} {upd : Update M} {phase : CallPhase M}
  {request : CallRequest M}

variable {performed : Performed M p.Answer}

variable {op : Operation}

/-- A call that asks for an admission builds the batch of one. -/
theorem Built.of_admits (h : Built name stored phase upd) (hear : phase.Early name request)
    (hads : request.admits = true) :
    ∃ (admission : Admission M) (data data' : LaneData), phase = .reserved admission ∧
      admission.update name stored = .ok upd ∧
      beginAdmission name data request = (data', .reserved admission) := by
  cases h with
  | enqueue | cancel | hold | abort =>
    cases hear
    cases hads
  | admission h =>
    cases hear with
    | reserved hdata hbegin => exact ⟨_, _, _, rfl, h, hbegin⟩

/-- An operation that a request reserves belongs to the lane of the request. -/
theorem beginAdmission_lane {data data' : LaneData} {task : String}
    {prep : Option (DurableStructuralPreparation M)}
    (h : beginAdmission name data request = (data', .reserved (.prepared op task prep))) :
    op.info.lane = name := by
  cases request with
  | acceptRun opId messages settings startedAt =>
    rw [beginAdmission] at h
    split at h
    · cases h
    · cases h
    · cases h
  | acceptCompaction opId customInstructions prep settings startedAt =>
    rw [beginAdmission.eq_def] at h
    simp only at h
    split at h
    · cases h
    · cases h
    · cases h
    · cases h
      rfl
  | acceptNavigation opId target summarize label customInstructions prep settings
      startedAt =>
      rw [beginAdmission] at h
      split at h
      · cases h
      · cases h
      · cases h
        rfl
  | enqueue | cancelQueued | append | requestAbort => cases h

/-- The batch of an admission admits its operation. -/
theorem Built.admitsId (h : Built name stored phase upd) (hear : phase.Early name request)
    (hads : request.admits = true) :
    ∃ (op : Operation) (base next : LaneState) (tip : Option (Option EntryId)),
      upd.publication = .accept base next op tip ∧
      AdmitsId name stored (stored.apply upd.writes) op.info.operationId := by
  obtain ⟨adm, data, data', rfl, hupd, hbegin⟩ := h.of_admits hear hads
  have haccept : ∃ (op : Operation) (base next : LaneState)
      (tip : Option (Option EntryId)), upd.publication = .accept base next op tip ∧
        op.info.lane = name := by
    cases adm with
    | run opId messages selected sourceTip settings startedAt =>
      obtain ⟨_, pending, _, rfl⟩ := runUpdate_eq_ok hupd
      exact ⟨_, _, _, _, rfl, rfl⟩
    | prepared op task prep =>
      obtain ⟨_, rfl⟩ := preparedUpdate_eq_ok hupd
      exact ⟨_, _, _, _, rfl, beginAdmission_lane hbegin⟩
  have hstates : ∀ other value, Write.laneState other value ∈ upd.writes → other = name := by
    intro other value hwrt
    cases adm with
    | run opId messages selected sourceTip settings startedAt =>
      obtain ⟨_, pending, _, rfl⟩ := runUpdate_eq_ok hupd
      simp only [runBatch, mem_append] at hwrt
      rcases hwrt with hwrt | hwrt | hwrt
      · rcases mem_drainWrites hwrt with ⟨_, heq⟩ | ⟨_, heq⟩
        · cases heq
        · cases heq
      · obtain ⟨_, heq⟩ := mem_messageWrites hwrt
        cases heq
      · simp only [mem_cons, not_mem_nil, or_false, reduceCtorEq, false_or,
          Write.laneState.injEq] at hwrt
        exact hwrt.1
    | prepared op task prep =>
      obtain ⟨_, rfl⟩ := preparedUpdate_eq_ok hupd
      simp only [preparedBatch, mem_append, mem_cons, not_mem_nil, or_false,
        mem_toList, map_eq_some_iff, reduceCtorEq, false_or, and_false,
        exists_false, Write.laneState.injEq] at hwrt
      exact hwrt.1
  obtain ⟨op, base, next, tip, hpub, hlane⟩ := haccept
  obtain ⟨hfree, hrecs⟩ := h.of_accept hear hpub
  have hop : (stored.apply upd.writes).operationMetas.get?
      op.info.operationId = some op.info := (Prod.mk.inj hrecs).1
  refine ⟨op, base, next, tip, hpub, ?_⟩
  constructor
  case free => exact hfree
  case current =>
    obtain ⟨last, hstates, hlast, hcur⟩ := h.states hear (by rw [hpub]; rfl)
    rw [Stored.currentId, Stored.laneState, hlast, getD_some, hcur, hpub]
    rfl
  case others =>
    intro other hne
    apply Stored.currentId_apply
    intro lane value hwrt
    rw [hstates lane value hwrt]
    exact hne.symm
  case used =>
    rw [Stored.operationIdIsUsed_eq_true, hop]
    exact .inl rfl
  case keeps =>
    exact fun other hused => Stored.operationIdIsUsed_apply hused (h.removes hear other)
  case operations =>
    intro other info hinfo
    rcases h.records hear other with hsame | ⟨base', next', op', tip', hpub', hid, -, hrecs'⟩ |
      ⟨base', next', op', leaf, hpub', -⟩
    · exact .inr ((Prod.mk.inj hsame).1.symm.trans hinfo)
    · rw [hpub] at hpub'
      cases hpub'
      apply Or.inl
      obtain rfl := some.inj ((Prod.mk.inj hrecs').1.symm.trans hinfo)
      exact ⟨hid.symm, hlane⟩
    · rw [hpub] at hpub'
      cases hpub'

theorem Publish.ends_unique {id' : OperationId} (h : p.ends id = true)
    (h' : p.ends id' = true) : id' = id := by
  cases p with
  | settle | navigation =>
    exact (beq_iff_eq.mp h').symm.trans (beq_iff_eq.mp h)
  | _ => cases h

theorem Publish.holdsData_of_ends (h : p.ends id = true) : p.holdsData = true := by
  cases p with
  | settle | navigation => rfl
  | _ => cases h

/-- The lane states the end of an operation writes. -/
theorem Publish.laneState_of_ends {data : LaneData} (h : p.perform name data stored = .ok performed)
    (hwr : performed.writes = some writes) (hends : p.ends id = true) :
    (∀ other value, Write.laneState other value ∈ writes → other = name) ∧
      (stored.apply writes).currentId name = none := by
  cases p with
  | settle op status error endedAt =>
    cases h
    cases hwr
    constructor
    · intro other value hwrt
      rcases mem_cons.mp hwrt with heq | hwrt
      · exact (Write.laneState.inj heq).1
      · rcases mem_cons.mp hwrt with heq | hwrt
        · cases heq
        · rcases mem_operationCleanupWrites hwrt with heq | heq | ⟨_, heq⟩ | ⟨_, heq⟩
          · cases heq
          · cases heq
          · cases heq
          · cases heq
    · have hrest (s : Stored M) : (s.apply (operationCleanupWrites stored
          op.info.operationId)).currentId name = s.currentId name := by
        apply Stored.currentId_apply
        intro other value hwrt
        rcases mem_operationCleanupWrites hwrt with heq | heq | ⟨_, heq⟩ | ⟨_, heq⟩
        · cases heq
        · cases heq
        · cases heq
        · cases heq
      rw [Stored.apply_cons, Stored.apply_cons, hrest]
      simp [Stored.currentId, Stored.laneState, Stored.applyWrite, Dict.get?_insert,
        LaneState.settled]
  | navigation op target label endedAt =>
    rw [Publish.perform.eq_def] at h
    dsimp only at h
    split at h
    · cases h
    · cases h
      cases hwr
      constructor
      · intro other value hwrt
        simp only [mem_cons, mem_append, mem_toList, bind_eq_some_iff,
          map_eq_some_iff, not_mem_nil, or_false, reduceCtorEq, false_or, and_false,
          exists_false, Write.laneState.injEq] at hwrt
        exact hwrt.1
      · simp [Stored.currentId, Stored.laneState, Stored.applyWrite, Dict.get?_insert,
          LaneState.settled]
  | _ => cases hends

theorem Publish.extraWrites_of_ends (h : p.ends id = true) : p.extraWrites = [] := by
  cases p with
  | settle | navigation => rfl
  | _ => cases h

theorem Publish.storesLeaf_of_ends (h : p.ends id = true) (other : OperationId) :
    p.storesLeaf other = false := by
  cases p with
  | settle | navigation => rfl
  | _ => cases h

/-- The batch of the end of an operation settles it. -/
theorem Publish.settlesId {data : LaneData} (h : p.perform name data stored = .ok performed)
    (hwr : performed.writes = some writes) (hends : p.ends id = true) :
    SettlesId name stored (stored.apply writes) id := by
  have hextra : ∀ write ∈ p.extraWrites,
      ∃ id task prep, write = Write.operationPreparation id task prep := by
    rw [Publish.extraWrites_of_ends hends]
    intro write hwrt
    cases hwrt
  obtain ⟨hstates, hcur⟩ := Publish.laneState_of_ends h hwr hends
  obtain ⟨hrecs, hret⟩ := Publish.records_of_ends h hwr hends
  constructor
  case current => exact hcur
  case others =>
    intro other hne
    apply Stored.currentId_apply
    intro lane value hwrt
    rw [hstates lane value hwrt]
    exact hne.symm
  case used => exact Stored.operationIdIsUsed_eq_true.mpr (.inr (.inr hret))
  case keeps =>
    exact fun other hused => Publish.operationIdIsUsed_of_perform h hwr hextra hused
  case operations =>
    intro other info hinfo
    have hne : other ≠ id := by
      rintro rfl
      have hnone := (Prod.mk.inj hrecs).1
      rw [hinfo] at hnone
      cases hnone
    refine ⟨hne, ?_⟩
    rcases Publish.records h hwr hextra other with hleaf | hsame | ⟨hoth, -⟩
    · rw [Publish.storesLeaf_of_ends hends] at hleaf
      cases hleaf
    · exact (Prod.mk.inj hsame).1.symm.trans hinfo
    · exact absurd (Publish.ends_unique hends hoth) hne

/-! ## What a lane relies on -/

/-- Whether the batch of a call is built. -/
def CallPhase.isFirm : CallPhase M → Bool
  | .guarded _ => true
  | .committed _ => true
  | _ => false

/-- A drive that settles an operation and returns. -/
inductive DrivePhase.Ends (id : OperationId) : DrivePhase M → Prop
  | running {publication : Publish M} {next : publication.Answer → Procedure M (DriveStep M)}
      (hends : publication.ends id = true)
      (hnext : ∀ answer, ∃ record, next answer = .done (.settled record)) :
      Ends id (.running (.ask (.publish publication) next))
  | publishing {publication : Publish M} {next : publication.Answer → Procedure M (DriveStep M)}
      (hends : publication.ends id = true)
      (hnext : ∀ answer, ∃ record, next answer = .done (.settled record)) :
      Ends id (.publishing publication next)
  | guarded {publication : Publish M} {performed : Performed M publication.Answer}
      {writes : List (Write M)} {next : publication.Answer → Procedure M (DriveStep M)}
      (hends : publication.ends id = true)
      (hnext : ∀ answer, ∃ record, next answer = .done (.settled record)) :
      Ends id (.guarded publication performed writes next)
  | committed {publication : Publish M} {performed : Performed M publication.Answer}
      {next : publication.Answer → Procedure M (DriveStep M)}
      (hends : publication.ends id = true)
      (hnext : ∀ answer, ∃ record, next answer = .done (.settled record)) :
      Ends id (.committed publication performed next)
  | ended (record : OperationResultRecord) : Ends id (.running (.done (.settled record)))

/-- What the admissions and the settlement of one lane rely on. -/
structure Fits (name : LaneName) (shared : Shared M) (lane : Lane M) : Prop where
  ordered : Ordered name shared lane
  admits : ∀ (index : Nat) call, lane.calls[index]? = some call → call.request.admits = true
  ending : ∀ drive, lane.drive = some drive → ∃ id, drive.phase.Ends id
  /-- A reservation is remembered, or its id is taken and no batch is built of it. -/
  kept : ∀ (index : Nat) (call : Call M) (id : OperationId), lane.calls[index]? = some call →
    call.phase.owns = some id → lane.data.operationId = some id ∨
      (shared.stored.operationIdIsUsed id = true ∧ call.phase.isFirm = false)
  /-- Two calls stand for one id only if it is taken, and not by one of them. -/
  twins : ∀ (index other : Nat) (call call' : Call M) (id : OperationId),
    lane.calls[index]? = some call → lane.calls[other]? = some call' →
      call.phase.owns = some id → call'.phase.owns = some id → other = index ∨
          (shared.stored.operationIdIsUsed id = true ∧ call.phase.isCommitted = false)
  committed : ∀ (index : Nat) (call : Call M) (id : OperationId),
    lane.calls[index]? = some call → call.phase.isCommitted = true →
      call.phase.owns = some id → shared.stored.currentId name = some id
  current : ∀ id, shared.stored.currentId name = some id →
    lane.data.operationId = some id ∧ shared.stored.operationIdIsUsed id = true
  /-- Nobody holds a reservation for the stored operation. -/
  apart : ∀ id, shared.stored.currentId name = some id → ∀ (index : Nat) call,
    lane.calls[index]? = some call → call.phase.reserves = true → call.phase.owns ≠ some id
  /-- What is remembered is stored, reserved, about to be forgotten, or left by a fault. -/
  memory : ∀ id, lane.data.operationId = some id → shared.stored.currentId name = some id ∨
      (∃ (index : Nat) (call : Call M), lane.calls[index]? = some call ∧
        call.phase.reserves = true ∧ call.phase.owns = some id) ∨
      (∃ drive, lane.drive = some drive ∧ drive.phase.isCommitted = true) ∨
      shared.fault.isSome = true
  ended : ∀ (drive : Drive M) (id : OperationId), lane.drive = some drive →
    drive.phase.isCommitted = true → drive.phase.Ends id →
      shared.stored.operationIdIsUsed id = true ∧ shared.stored.currentId name = none ∧
        ∀ other, lane.data.operationId = some other → other = id
  single : ∀ (id : OperationId) (info : OperationMeta),
    shared.stored.operationMetas.get? id = some info → info.lane = name →
      shared.stored.currentId name = some id

variable {i : Nat} {call : Call M} {next : CallPhase M} {data : LaneData} {lock : Option Party}

section

variable (h : Fits name shared lane) (hcall : lane.calls[i]? = some call)

include h hcall

/-- A batch of a call under the guard. -/
theorem Fits.guarded (hph : call.phase = .guarded upd) : shared.guard = some (name, .call i) ∧
      ∃ (op : Operation) (base next : LaneState) (tip : Option (Option EntryId)),
        upd.publication = .accept base next op tip ∧
          AdmitsId name shared.stored (shared.stored.apply upd.writes) op.info.operationId := by
  have hord := (h.ordered.calls i call hcall).2
  rw [Call.Ordered, hph] at hord
  obtain ⟨hguard, ⟨phase, hear, hbuilt⟩, -⟩ := hord
  exact ⟨hguard, hbuilt.admitsId hear (h.admits i call hcall)⟩

/-- An admission that is committed and not published. -/
theorem Fits.isAdmission (hph : call.phase = .committed upd) :
    ∃ (op : Operation) (base next : LaneState) (tip : Option (Option EntryId)),
      upd.publication = .accept base next op tip := by
  obtain ⟨phase, stored, hear, hbuilt⟩ := (h.ordered.calls i call hcall).1.serves_of_committed hph
  obtain ⟨op, base, next, tip, hpub, -⟩ := hbuilt.admitsId hear (h.admits i call hcall)
  exact ⟨op, base, next, tip, hpub⟩

/-- A guarded batch has its id in memory, and nobody else has it. -/
theorem Fits.alone (hph : call.phase = .guarded upd) (howns : call.phase.owns = some id) :
    lane.data.operationId = some id ∧ shared.stored.operationIdIsUsed id = false ∧
      ∀ (other : Nat) call', lane.calls[other]? = some call' →
        call'.phase.owns = some id → other = i := by
  obtain ⟨-, op, base, next, tip, hpub, hads⟩ := h.guarded hcall hph
  have hid : op.info.operationId = id := by
    rw [hph, CallPhase.owns, hpub] at howns
    exact some.inj howns
  have hfree : shared.stored.operationIdIsUsed id = false := hid ▸ hads.free
  refine ⟨?_, hfree, ?_⟩
  · rcases h.kept i call id hcall howns with hmemo | ⟨hused, -⟩
    · exact hmemo
    · rw [hfree] at hused
      cases hused
  · intro other call' hcall' howns'
    rcases h.twins i other call call' id hcall hcall' howns howns' with heq | ⟨hused, -⟩
    · exact heq
    · rw [hfree] at hused
      cases hused

end

/-! ## Steps of calls -/

theorem CallPhase.reserves_of_owns (howns : phase.owns = some id)
    (hcom : phase.isCommitted = false) :
    phase.reserves = true := by
  rw [CallPhase.reserves, howns, hcom]
  rfl

theorem CallPhase.not_isCommitted_of_reserves (h : phase.reserves = true) :
    phase.isCommitted = false := by
  rw [CallPhase.reserves, Bool.and_eq_true] at h
  simpa using h.2

section

variable (h : Fits name shared lane)

include h

/-- A call goes on without a commit; it keeps what it owns or gives it up. -/
theorem Fits.goOn (hcall : lane.calls[i]? = some call)
    (hord : Ordered name shared' (lane.withCall i next data lock))
    (hstored : shared'.stored = shared.stored)
    (hfault : shared.fault.isSome = true → shared'.fault.isSome = true)
    (hdata : data.operationId = lane.data.operationId) (hnext : next.isCommitted = false)
    (howns : next.owns = none ∨ (next.owns = call.phase.owns ∧ call.phase.isCommitted = false))
    (hfirm : ∀ id, next.owns = some id → next.isFirm = true → lane.data.operationId = some id)
    (hleft : ∀ id, next.owns = none → call.phase.owns = some id → lane.data.operationId = some id →
        shared.stored.currentId name = some id ∨ shared'.fault.isSome = true) :
    Fits name shared' (lane.withCall i next data lock) := by
  have hsame (id : OperationId) (hid : next.owns = some id) : call.phase.owns = some id := by
    rcases howns with hnone | ⟨heq, -⟩
    · rw [hnone] at hid
      cases hid
    · exact heq.symm.trans hid
  constructor
  case ordered => exact hord
  case admits =>
    intro pos member hmem
    rcases Lane.getElem?_withCall hcall hmem with ⟨rfl, rfl⟩ | ⟨-, hmem⟩
    · exact h.admits pos call hcall
    · exact h.admits pos member hmem
  case ending => exact h.ending
  case kept =>
    rw [hstored]
    intro pos member id hmem hid
    show data.operationId = some id ∨ _
    rw [hdata]
    rcases Lane.getElem?_withCall hcall hmem with ⟨rfl, rfl⟩ | ⟨-, hmem⟩
    · rcases h.kept pos call id hcall (hsame id hid) with hmemo | ⟨hused, -⟩
      · exact .inl hmemo
      · cases hisFirm : next.isFirm with
        | true => exact .inl (hfirm id hid hisFirm)
        | false => exact .inr ⟨hused, rfl⟩
    · exact h.kept pos member id hmem hid
  case twins =>
    rw [hstored]
    intro pos other member member' id hmem hmem' hid hid'
    rcases Lane.getElem?_withCall hcall hmem with ⟨rfl, rfl⟩ | ⟨-, hpre⟩
    · rcases Lane.getElem?_withCall hcall hmem' with ⟨rfl, rfl⟩ | ⟨-, hpre'⟩
      · exact .inl rfl
      · rcases h.twins pos other call member' id hcall hpre' (hsame id hid) hid' with
          heq | ⟨hused, -⟩
        · exact .inl heq
        · exact .inr ⟨hused, hnext⟩
    · rcases Lane.getElem?_withCall hcall hmem' with ⟨rfl, rfl⟩ | ⟨-, hpre'⟩
      · exact h.twins pos other member call id hpre hcall hid (hsame id hid')
      · exact h.twins pos other member member' id hpre hpre' hid hid'
  case committed =>
    rw [hstored]
    intro pos member id hmem hcom hid
    rcases Lane.getElem?_withCall hcall hmem with ⟨rfl, rfl⟩ | ⟨-, hmem⟩
    · rw [hnext] at hcom
      cases hcom
    · exact h.committed pos member id hmem hcom hid
  case current =>
    rw [hstored]
    intro id hid
    exact (h.current id hid).imp_left hdata.trans
  case apart =>
    rw [hstored]
    intro id hid pos member hmem hres hown
    rcases Lane.getElem?_withCall hcall hmem with ⟨rfl, rfl⟩ | ⟨-, hmem⟩
    · rcases howns with hnone | ⟨heq, hcom⟩
      · rw [hnone] at hown
        cases hown
      · rw [heq] at hown
        exact h.apart id hid pos call hcall (CallPhase.reserves_of_owns hown hcom) hown
    · exact h.apart id hid pos member hmem hres hown
  case memory =>
    rw [hstored]
    intro id hid
    rcases h.memory id (hdata.symm.trans hid) with hcur | ⟨pos, member, hmem, hres, hown⟩ |
      hdrv | hseal
    · exact .inl hcur
    · by_cases hplc : pos = i
      · subst hplc
        obtain rfl := some.inj (hmem.symm.trans hcall)
        rcases howns with hnone | ⟨heq, -⟩
        · rcases hleft id hnone hown (hdata.symm.trans hid) with hcur | hseal
          · exact .inl hcur
          · exact .inr (.inr (.inr hseal))
        · exact .inr (.inl ⟨pos, _, Lane.getElem?_withCall_self hcall,
            CallPhase.reserves_of_owns (heq.trans hown) hnext, heq.trans hown⟩)
      · exact .inr (.inl ⟨pos, member, Lane.getElem?_withCall_of_ne hmem hplc, hres, hown⟩)
    · exact .inr (.inr (.inl hdrv))
    · exact .inr (.inr (.inr (hfault hseal)))
  case ended =>
    rw [hstored]
    intro drive id hdrv hcom hends
    obtain ⟨hused, hnone, honly⟩ := h.ended drive id hdrv hcom hends
    exact ⟨hused, hnone, fun other hoth => honly other (hdata.symm.trans hoth)⟩
  case single =>
    rw [hstored]
    exact h.single

/-- An admission is committed. -/
theorem Fits.commit (hcall : lane.calls[i]? = some call) (hph : call.phase = .guarded upd)
    (hcommit : shared.stored.commit upd.writes = .ok stored) (hshared : shared'.stored = stored)
    (hord : Ordered name shared' (lane.withCall i (.committed upd) lane.data lock)) :
    Fits name shared' (lane.withCall i (.committed upd) lane.data lock) := by
  obtain ⟨-, op, base, last, tip, hpub, hads⟩ := h.guarded hcall hph
  obtain ⟨-, rfl⟩ := Stored.commit_eq_ok hcommit
  rw [← hshared] at hads
  obtain ⟨id, hid⟩ : ∃ id, op.info.operationId = id := ⟨_, rfl⟩
  rw [hid] at hads
  have hguarded : (CallPhase.guarded upd).owns = some id := by
    rw [CallPhase.owns, hpub, ← hid]
    rfl
  have hown : (CallPhase.committed upd).owns = some id := hguarded
  have howns : call.phase.owns = some id := by
    rw [hph]
    exact hguarded
  obtain ⟨hmemo, hfree, halone⟩ := h.alone hcall hph howns
  -- Every other call stands for another id.
  have hoth (pos : Nat) (member : Call M) (hmem : lane.calls[pos]? = some member)
      (hne : pos ≠ i) : member.phase.owns ≠ some id := by
    intro howner
    exact hne (halone pos member hmem howner)
  constructor
  case ordered => exact hord
  case admits =>
    intro pos member hmem
    rcases Lane.getElem?_withCall hcall hmem with ⟨rfl, rfl⟩ | ⟨-, hpre⟩
    · exact h.admits pos call hcall
    · exact h.admits pos member hpre
  case ending => exact h.ending
  case kept =>
    intro pos member owned hmem howner
    rcases Lane.getElem?_withCall hcall hmem with ⟨rfl, rfl⟩ | ⟨-, hpre⟩
    · obtain rfl := some.inj (hown.symm.trans howner)
      exact .inl hmemo
    · exact (h.kept pos member owned hpre howner).imp_right (And.imp_left (hads.keeps owned))
  case twins =>
    intro pos other member member' owned hmem hmem' howner howner'
    rcases Lane.getElem?_withCall hcall hmem with ⟨rfl, rfl⟩ | ⟨hne, hpre⟩
    · obtain rfl := some.inj (hown.symm.trans howner)
      rcases Lane.getElem?_withCall hcall hmem' with ⟨rfl, rfl⟩ | ⟨hne', hpre'⟩
      · exact .inl rfl
      · exact absurd howner' (hoth other member' hpre' hne')
    · rcases Lane.getElem?_withCall hcall hmem' with ⟨rfl, rfl⟩ | ⟨-, hpre'⟩
      · obtain rfl := some.inj (hown.symm.trans howner')
        exact absurd howner (hoth pos member hpre hne)
      · exact (h.twins pos other member member' owned hpre hpre' howner howner').imp_right
          (And.imp_left (hads.keeps owned))
  case committed =>
    intro pos member owned hmem hcom howner
    rcases Lane.getElem?_withCall hcall hmem with ⟨rfl, rfl⟩ | ⟨hne, hpre⟩
    · obtain rfl := some.inj (hown.symm.trans howner)
      exact hads.current
    · -- Another committed call would have its own id in memory.
      have hfirm : member.phase.isFirm = true := by
        cases hmemberPhase : member.phase with
        | committed => rfl
        | _ =>
          rw [hmemberPhase] at hcom
          cases hcom
      rcases h.kept pos member owned hpre howner with hrem | ⟨-, hnot⟩
      · obtain rfl := some.inj (hmemo.symm.trans hrem)
        exact absurd howner (hoth pos member hpre hne)
      · rw [hfirm] at hnot
        cases hnot
  case current =>
    intro owned howned
    obtain rfl := some.inj (hads.current.symm.trans howned)
    exact ⟨hmemo, hads.used⟩
  case apart =>
    intro owned howned pos member hmem hres
    obtain rfl := some.inj (hads.current.symm.trans howned)
    rcases Lane.getElem?_withCall hcall hmem with ⟨rfl, rfl⟩ | ⟨hne, hpre⟩
    · cases CallPhase.not_isCommitted_of_reserves hres
    · exact hoth pos member hpre hne
  case memory =>
    intro owned howned
    obtain rfl := some.inj (hmemo.symm.trans howned)
    exact .inl hads.current
  case ended =>
    intro drive owned hdrv hcom hends
    obtain ⟨hused, -, honly⟩ := h.ended drive owned hdrv hcom hends
    rw [← honly id hmemo, hfree] at hused
    cases hused
  case single =>
    intro other info hinfo hlane
    rcases hads.operations other info hinfo with ⟨rfl, -⟩ | hpre
    · exact hads.current
    · obtain ⟨hrem, hused⟩ := h.current other (h.single other info hpre hlane)
      obtain rfl := some.inj (hmemo.symm.trans hrem)
      rw [hfree] at hused
      cases hused

/-- Nothing is committed and unpublished by a drive while lane data is free. -/
theorem Fits.not_isCommitted (hlock : lane.dataLock = none) (drive : Drive M)
    (hdrv : lane.drive = some drive) : drive.phase.isCommitted = false := by
  obtain ⟨id, hends⟩ := h.ending drive hdrv
  have hheld := h.ordered.drive drive hdrv
  obtain ⟨options, phase⟩ := drive
  cases hends with
  | committed hends hanswers =>
    obtain ⟨_, _, _, hheld⟩ := hheld
    rw [(hheld (Publish.holdsData_of_ends hends)).1] at hlock
    cases hlock
  | running | publishing | guarded | ended => rfl

/-- A call reserves a lane that remembers no operation. -/
theorem Fits.reserve (hcall : lane.calls[i]? = some call) (hlock : lane.dataLock = none)
    (hfree : lane.data.operation = none) (hnext : next.owns = some id)
    (hcom : next.isCommitted = false) (hdata : data.operationId = some id)
    (hord : Ordered name shared (lane.withCall i next data lock)) :
    Fits name shared (lane.withCall i next data lock) := by
  have hnone : lane.data.operationId = none := by
    rw [LaneData.operationId, hfree]
    rfl
  -- Whoever stands for an id stands for one that is taken.
  have htkn (pos : Nat) (member : Call M) (owned : OperationId)
      (hmemb : lane.calls[pos]? = some member) (hown : member.phase.owns = some owned) :
      shared.stored.operationIdIsUsed owned = true ∧ member.phase.isFirm = false := by
    rcases h.kept pos member owned hmemb hown with hremembered | htkn
    · rw [hnone] at hremembered
      cases hremembered
    · exact htkn
  have hcur : shared.stored.currentId name = none := by
    cases hid : shared.stored.currentId name with
    | none => rfl
    | some owned =>
      have hremembered := (h.current owned hid).1
      rw [hnone] at hremembered
      cases hremembered
  have hpending (pos : Nat) (member : Call M) (owned : OperationId)
      (hmemb : lane.calls[pos]? = some member) (hown : member.phase.owns = some owned) :
      member.phase.isCommitted = false := by
    have hnot := (htkn pos member owned hmemb hown).2
    cases hph : member.phase with
    | committed =>
      rw [hph] at hnot
      cases hnot
    | _ => rfl
  constructor
  case ordered => exact hord
  case admits =>
    intro pos member hmemb
    rcases Lane.getElem?_withCall hcall hmemb with ⟨rfl, rfl⟩ | ⟨-, hpre⟩
    · exact h.admits pos call hcall
    · exact h.admits pos member hpre
  case ending => exact h.ending
  case kept =>
    intro pos member owned hmemb hown
    rcases Lane.getElem?_withCall hcall hmemb with ⟨rfl, rfl⟩ | ⟨-, hpre⟩
    · obtain rfl := some.inj (hnext.symm.trans hown)
      exact .inl hdata
    · exact .inr (htkn pos member owned hpre hown)
  case twins =>
    intro pos other member member' owned hmemb hmemb' hown hown'
    rcases Lane.getElem?_withCall hcall hmemb with ⟨rfl, rfl⟩ | ⟨-, hpre⟩
    · rcases Lane.getElem?_withCall hcall hmemb' with ⟨rfl, rfl⟩ | ⟨-, hpre'⟩
      · exact .inl rfl
      · exact .inr ⟨(htkn other member' owned hpre' hown').1, hcom⟩
    · exact .inr ⟨(htkn pos member owned hpre hown).1, hpending pos member owned hpre hown⟩
  case committed =>
    intro pos member owned hmemb hmemCom hown
    rcases Lane.getElem?_withCall hcall hmemb with ⟨rfl, rfl⟩ | ⟨-, hpre⟩
    · rw [hcom] at hmemCom
      cases hmemCom
    · rw [hpending pos member owned hpre hown] at hmemCom
      cases hmemCom
  case current =>
    rw [hcur]
    intro owned howned
    cases howned
  case apart =>
    rw [hcur]
    intro owned howned
    cases howned
  case memory =>
    intro owned howned
    obtain rfl := some.inj (hdata.symm.trans howned)
    exact .inr (.inl ⟨i, _, Lane.getElem?_withCall_self hcall,
      CallPhase.reserves_of_owns hnext hcom, hnext⟩)
  case ended =>
    intro drive owned hdrv hdriveCommitted
    rw [h.not_isCommitted hlock drive hdrv] at hdriveCommitted
    cases hdriveCommitted
  case single => exact h.single

/-- A reservation is given up. -/
theorem Fits.undo {error : HarnessError} (hcall : lane.calls[i]? = some call)
    (hph : call.phase = .undoing id error) (hlock : lane.dataLock = none)
    (howns : next.owns = none) (hnext : next.isCommitted = false)

    (hord : Ordered name shared (lane.withCall i next (undoReservation lane.data id) lock)) :
    Fits name shared (lane.withCall i next (undoReservation lane.data id) lock) := by
  have hown : call.phase.owns = some id := by
    rw [hph]
    rfl
  by_cases hmemo : lane.data.operationId = some id
  · have hdata : (undoReservation lane.data id).operationId = none := by
      rw [undoReservation, if_pos hmemo]
      rfl
    have hcur : shared.stored.currentId name = none := by
      cases hid : shared.stored.currentId name with
      | none => rfl
      | some owned =>
        obtain rfl := some.inj (hmemo.symm.trans (h.current owned hid).1)
        exact absurd hown (h.apart id hid i call hcall (by rw [hph]; rfl))
    -- Whoever else stands for an id stands for one that is taken.
    have htkn (pos : Nat) (member : Call M) (owned : OperationId)
        (hne : pos ≠ i) (hmem : lane.calls[pos]? = some member)
        (howner : member.phase.owns = some owned) :
        shared.stored.operationIdIsUsed owned = true ∧ member.phase.isFirm = false := by
      rcases h.kept pos member owned hmem howner with hrem | htkn
      · obtain rfl := some.inj (hmemo.symm.trans hrem)
        rcases h.twins pos i member call id hmem hcall howner hown with heq | ⟨hused, hnot⟩
        · exact absurd heq.symm hne
        · refine ⟨hused, ?_⟩
          cases hmemberPhase : member.phase with
          | guarded upd =>
            rw [(h.alone hmem hmemberPhase howner).2.1] at hused
            cases hused
          | committed upd =>
            rw [hmemberPhase] at hnot
            cases hnot
          | _ => rfl
      · exact htkn
    constructor
    case ordered => exact hord
    case admits =>
      intro pos member hmem
      rcases Lane.getElem?_withCall hcall hmem with ⟨rfl, rfl⟩ | ⟨-, hpre⟩
      · exact h.admits pos call hcall
      · exact h.admits pos member hpre
    case ending => exact h.ending
    case kept =>
      intro pos member owned hmem howner
      rcases Lane.getElem?_withCall hcall hmem with ⟨rfl, rfl⟩ | ⟨hne, hpre⟩
      · rw [howns] at howner
        cases howner
      · exact .inr (htkn pos member owned hne hpre howner)
    case twins =>
      intro pos other member member' owned hmem hmem' howner howner'
      rcases Lane.getElem?_withCall hcall hmem with ⟨rfl, rfl⟩ | ⟨-, hpre⟩
      · rw [howns] at howner
        cases howner
      · rcases Lane.getElem?_withCall hcall hmem' with ⟨rfl, rfl⟩ | ⟨-, hpre'⟩
        · rw [howns] at howner'
          cases howner'
        · exact h.twins pos other member member' owned hpre hpre' howner howner'
    case committed =>
      intro pos member owned hmem hcom howner
      rcases Lane.getElem?_withCall hcall hmem with ⟨rfl, rfl⟩ | ⟨-, hpre⟩
      · rw [hnext] at hcom
        cases hcom
      · exact h.committed pos member owned hpre hcom howner
    case current =>
      rw [hcur]
      intro owned howned
      cases howned
    case apart =>
      rw [hcur]
      intro owned howned
      cases howned
    case memory =>
      intro owned howned
      cases hdata.symm.trans howned
    case ended =>
      intro drive owned hdrv hcom
      rw [h.not_isCommitted hlock drive hdrv] at hcom
      cases hcom
    case single => exact h.single
  · have hdata : undoReservation lane.data id = lane.data := if_neg hmemo
    apply h.goOn hcall hord rfl (fun hseal => hseal) (congrArg LaneData.operationId hdata) hnext
      (.inl howns)
    · intro owned howner
      rw [howns] at howner
      cases howner
    · intro owned _ howner hrem
      obtain rfl := some.inj (hown.symm.trans howner)
      exact absurd hrem hmemo

end

/-- The batch of an admission is for the operation it reserved. -/
theorem Admission.owns_of_update {adm : Admission M} (h : adm.update name stored = .ok upd) :
    (CallPhase.guarded upd).owns = some adm.operationId := by
  cases adm with
  | run opId messages selected sourceTip settings startedAt =>
    obtain ⟨_, pending, _, rfl⟩ := runUpdate_eq_ok h
    rfl
  | prepared op task prep =>
    obtain ⟨_, rfl⟩ := preparedUpdate_eq_ok h
    rfl

/-- A published admission leaves the operation it admitted. -/
theorem Publication.operationId_of_accept {base last : LaneState} {tip : Option (Option EntryId)}
    {data' : LaneData} (h : Publication.apply data (.accept base last op tip) = .ok data') :
    data.operationId = some op.info.operationId ∧ data'.operationId = data.operationId := by
  rw [Publication.apply] at h
  by_cases hcur : data.operationId = some op.info.operationId
  · rw [if_pos hcur] at h
    cases h
    exact ⟨hcur, hcur.symm⟩
  · rw [if_neg hcur] at h
    cases h

theorem afterPublication_owns (answer : CallAnswer M) : (afterPublication data answer).owns = none ∧
      (afterPublication data answer).isCommitted = false := by
  rw [afterPublication.eq_def]
  split
  · exact ⟨rfl, rfl⟩
  · exact ⟨rfl, rfl⟩
  · split_ifs
    · exact ⟨rfl, rfl⟩
    · exact ⟨rfl, rfl⟩
  · exact ⟨rfl, rfl⟩

/-- A call that waits stands for no operation. -/
theorem CallPhase.Returns.owns (h : phase.Returns next) :
    phase.owns = none ∧ next.owns = none ∧ next.isCommitted = false := by
  cases h with
  | missing | waiting | snapshot | found => exact ⟨rfl, rfl, rfl⟩

/-- A step of a call. -/
theorem Fits.callMove (h : Fits name shared lane) (hcall : lane.calls[i]? = some call)
    (hmove : CallMove name shared lane i call.phase next shared' data lock)
    (hord : Ordered name shared' (lane.withCall i next data lock)) :
    Fits name shared' (lane.withCall i next data lock) := by
  have hsame (hseal : shared.fault.isSome = true) : shared.fault.isSome = true := hseal
  have hnever {owned : OperationId} {motive : Prop}
      (hsome : (none : Option OperationId) = some owned) : motive := by
    cases hsome
  -- A call that owns nothing before and after.
  have hquiet {phase : CallPhase M} (hph : call.phase = phase) (hpre : phase.owns = none)
      (hafter : next.owns = none) (hnext : next.isCommitted = false)
      (hdata : data.operationId = lane.data.operationId)
      (hstored : shared'.stored = shared.stored)
      (hfault : shared.fault.isSome = true → shared'.fault.isSome = true) :
      Fits name shared' (lane.withCall i next data lock) := by
    apply h.goOn hcall hord hstored hfault hdata hnext (.inl hafter)
    · exact fun owned howner => hnever (hafter.symm.trans howner)
    · exact fun owned _ howner => hnever (hpre.symm.trans (hph ▸ howner))
  generalize hph : call.phase = phase at hmove
  cases hmove with
  | @build _ upd hguard hbuilt =>
    have hsound := (h.ordered.calls i call hcall).1
    obtain ⟨request, phase'⟩ := call
    obtain rfl : phase' = phase := hph
    have hear := hsound.early_of_built hbuilt
    obtain ⟨adm, _, _, hresd, hupd, -⟩ := hbuilt.of_admits hear (h.admits i _ hcall)
    obtain ⟨op, base, last, tip, hpub, hads⟩ := hbuilt.admitsId hear (h.admits i _ hcall)
    subst hresd
    have hown : (CallPhase.guarded upd).owns = some adm.operationId := Admission.owns_of_update hupd
    apply h.goOn hcall hord rfl hsame rfl rfl (.inr ⟨hown, rfl⟩)
    · intro owned howner _
      obtain rfl := some.inj (hown.symm.trans howner)
      have hid : op.info.operationId = adm.operationId := by
        rw [CallPhase.owns, hpub] at hown
        exact some.inj hown
      rcases h.kept i _ _ hcall rfl with hrem | ⟨hused, -⟩
      · exact hrem
      · rw [← hid, hads.free] at hused
        cases hused
    · intro owned hnone
      rw [hown] at hnone
      cases hnone
  | answer hrets =>
    obtain ⟨hpre, hafter, hnext⟩ := hrets.owns
    exact hquiet hph hpre hafter hnext rfl rfl hsame
  | hold | snapshot | list | listFails => exact hquiet hph rfl rfl rfl rfl rfl hsame
  | @reserve request adm data' hlock hdata hbegin =>
    obtain ⟨-, rfl⟩ := beginAdmission_reserved hdata hbegin
    have hid : (lane.data.withOperation (some (adm.provisional name))).operationId =
        some adm.operationId := by
      rw [LaneData.operationId, LaneData.withOperation, map_some, Admission.operationId_provisional]
    exact h.reserve hcall hlock hdata rfl rfl hid hord
  | @refuse adm error href =>
    apply h.goOn hcall hord rfl hsame rfl rfl (.inr ⟨by rw [hph]; rfl, by rw [hph]; rfl⟩)
    · intro owned _ hfirm
      cases hfirm
    · intro owned hnone
      cases hnone
  | commit hcom => exact h.commit hcall hph hcom rfl hord
  | @fault upd error reason hcom =>
    apply h.goOn hcall hord rfl (fun _ => rfl) rfl rfl (.inl rfl)
    · exact fun owned howner => hnever howner
    · exact fun owned _ _ _ => .inr rfl
  | @publish upd data' hlock happly =>
    obtain ⟨op, base, last, tip, hpub⟩ := h.isAdmission hcall hph
    rw [hpub] at happly
    obtain ⟨hcur, hdata⟩ := Publication.operationId_of_accept happly
    obtain ⟨hafter, hnext⟩ : (afterPublication data upd.answer).owns = none ∧
        (afterPublication data upd.answer).isCommitted = false :=
      afterPublication_owns upd.answer
    apply h.goOn hcall hord rfl hsame hdata hnext (.inl hafter)
    · exact fun owned howner => hnever (hafter.symm.trans howner)
    · intro owned _ howner _
      exact .inl (h.committed i call owned hcall (by rw [hph]; rfl) howner)
  | @drop upd reason hlock hadmn hcause =>
    apply h.goOn hcall hord rfl hsame rfl rfl (.inl rfl)
    · exact fun owned howner => hnever howner
    · intro owned _ howner _
      exact .inl (h.committed i call owned hcall (by rw [hph]; rfl) howner)
  | @undo id error hlock => exact h.undo hcall hph hlock rfl rfl hord

/-! ## Steps of the drive -/

variable {drive : Option (Drive M)}

/-- The drive goes on without a commit. -/
theorem Fits.driveOn (h : Fits name shared lane)
    (hord : Ordered name shared' ⟨lane.data, lock, lane.calls, drive⟩)
    (hstored : shared'.stored = shared.stored)
    (hfault : shared.fault.isSome = true → shared'.fault.isSome = true)
    (hpre : ∀ drive, lane.drive = some drive → drive.phase.isCommitted = false)
    (haft : ∀ next, drive = some next → next.phase.isCommitted = false ∧
      ∃ id, next.phase.Ends id) :
    Fits name shared' ⟨lane.data, lock, lane.calls, drive⟩ := by
  constructor
  case ordered => exact hord
  case admits => exact h.admits
  case ending => exact fun next hnext => (haft next hnext).2
  case kept =>
    rw [hstored]
    exact h.kept
  case twins =>
    rw [hstored]
    exact h.twins
  case committed =>
    rw [hstored]
    exact h.committed
  case current =>
    rw [hstored]
    exact h.current
  case apart =>
    rw [hstored]
    exact h.apart
  case memory =>
    rw [hstored]
    intro id hid
    rcases h.memory id hid with hcur | hresd | ⟨drive', hdrv', hcom⟩ | hseal
    · exact .inl hcur
    · exact .inr (.inl hresd)
    · rw [hpre drive' hdrv'] at hcom
      cases hcom
    · exact .inr (.inr (.inr (hfault hseal)))
  case ended =>
    intro next id hnext hcom
    rw [(haft next hnext).1] at hcom
    cases hcom
  case single =>
    rw [hstored]
    exact h.single

/-- The settlement of an operation is committed, with no admission to be published. -/
theorem Fits.settle (h : Fits name shared lane) (hsets : SettlesId name shared.stored stored id)
    (hshared : shared'.stored = stored)
    (hnone : ∀ call ∈ lane.calls, call.phase.isCommitted = false)
    (honly : ∀ other, lane.data.operationId = some other → other = id)
    (hdrv : ∃ next, drive = some next ∧ next.phase.isCommitted = true ∧ next.phase.Ends id)
    (huniq : ∀ next, drive = some next → ∀ other, next.phase.Ends other → other = id)
    (hord : Ordered name shared' ⟨lane.data, lock, lane.calls, drive⟩) :
    Fits name shared' ⟨lane.data, lock, lane.calls, drive⟩ := by
  rw [← hshared] at hsets
  constructor
  case ordered => exact hord
  case admits => exact h.admits
  case ending =>
    intro next hnext
    obtain ⟨next', hnext', -, hends⟩ := hdrv
    obtain rfl := some.inj (hnext.symm.trans hnext')
    exact ⟨id, hends⟩
  case kept =>
    exact fun i call owned hcall hown =>
      (h.kept i call owned hcall hown).imp_right (And.imp_left (hsets.keeps owned))
  case twins =>
    exact fun i other call call' owned hcall hcall' hown hown' =>
      (h.twins i other call call' owned hcall hcall' hown hown').imp_right
        (And.imp_left (hsets.keeps owned))
  case committed =>
    intro i call owned hcall hcom
    rw [hnone call (mem_of_getElem? hcall)] at hcom
    cases hcom
  case current =>
    rw [hsets.current]
    intro owned howned
    cases howned
  case apart =>
    rw [hsets.current]
    intro owned howned
    cases howned
  case memory =>
    intro owned _
    obtain ⟨next, hnext, hcom, -⟩ := hdrv
    exact .inr (.inr (.inl ⟨next, hnext, hcom⟩))
  case ended =>
    intro next owned hnext _ hends
    obtain rfl := huniq next hnext owned hends
    exact ⟨hsets.used, hsets.current, honly⟩
  case single =>
    intro other info hinfo hlane
    obtain ⟨hne, hpre⟩ := hsets.operations other info hinfo
    exact absurd (honly other (h.current other (h.single other info hpre hlane)).1) hne

/-- The lane forgets the operation whose settlement is committed. -/
theorem Fits.forget {before : Drive M} (h : Fits name shared lane)
    (hdrv : lane.drive = some before) (hcom : before.phase.isCommitted = true)
    (hends : before.phase.Ends id) (hdata : data.operation = none)
    (haft : ∀ next, drive = some next → next.phase.isCommitted = false ∧
      ∃ id, next.phase.Ends id) (hord : Ordered name shared ⟨data, lock, lane.calls, drive⟩) :
    Fits name shared ⟨data, lock, lane.calls, drive⟩ := by
  obtain ⟨hused, hnone, honly⟩ := h.ended before id hdrv hcom hends
  have hemp : data.operationId = none := by
    rw [LaneData.operationId, hdata]
    rfl
  refine { h with
      ordered := ?ordered, ending := ?ending, kept := ?kept, current := ?current,
      memory := ?memory, ended := ?ended }
  case ordered => exact hord
  case ending => exact fun next hnext => (haft next hnext).2
  case kept =>
    intro i call owned hcall hown
    rcases h.kept i call owned hcall hown with hrem | htkn
    · obtain rfl := honly owned hrem
      refine .inr ⟨hused, ?_⟩
      cases hph : call.phase with
      | guarded upd =>
        have hfree := (h.alone hcall hph hown).2.1
        rw [hused] at hfree
        cases hfree
      | committed upd =>
        have hcur := h.committed i call _ hcall (by rw [hph]; rfl) hown
        rw [hnone] at hcur
        cases hcur
      | _ => rfl
    · exact .inr htkn
  case current =>
    rw [hnone]
    intro owned howned
    cases howned
  case memory =>
    intro owned howned
    cases hemp.symm.trans howned
  case ended =>
    intro next owned hnext hnextCommitted
    rw [(haft next hnext).1] at hnextCommitted
    cases hnextCommitted

/-- What a drive is told is never the answer to a publication. -/
theorem Answered.not_publish {answer : p.Answer} :
    ¬ Answered shared lane (.publish p) answer shared' := by
  rintro (⟨hread, -⟩ | ⟨surroundings, hread⟩)
  · cases hread
  · cases hread

/-- The end of an operation commits something. -/
theorem Publish.writes_of_ends (h : p.perform name data stored = .ok performed)
    (hends : p.ends id = true) :
    performed.writes ≠ none := by
  cases p with
  | settle op status error endedAt =>
    cases h
    rintro ⟨⟩
  | navigation op target label endedAt =>
    rw [Publish.perform.eq_def] at h
    dsimp only at h
    split at h
    · cases h
    · cases h
      rintro ⟨⟩
  | _ => cases hends

theorem DrivePhase.Ends.publication_ends {next : p.Answer → Procedure M (DriveStep M)}
    (h : (DrivePhase.committed p performed next).Ends id) :
    p.ends id = true := by
  cases h with
  | committed hends hnext => exact hends

/-- A step of a drive that settles. -/
theorem Fits.driveMove [Inhabited M] {options : DriveOptions} {phase : DrivePhase M}
    {next : Option (DrivePhase M)} (h : Fits name shared lane)
    (hdrv : lane.drive = some ⟨options, phase⟩)
    (hmove : DriveMove name options shared lane phase next shared' data lock)
    (hcare : ∀ p performed writes next, phase = .guarded p performed writes next →
        (∀ call ∈ lane.calls, call.phase.isCommitted = false) ∧
          ∀ id, lane.data.operationId = some id → p.ends id = true)
    (hord : Ordered name shared' ⟨data, lock, lane.calls, next.map fun phase => ⟨options, phase⟩⟩) :
    Fits name shared' ⟨data, lock, lane.calls, next.map fun phase => ⟨options, phase⟩⟩ := by
  obtain ⟨id, hends⟩ := h.ending _ hdrv
  have hsame (hseal : shared.fault.isSome = true) : shared.fault.isSome = true := hseal
  have honly (drive : Drive M) (hoth : lane.drive = some drive) : drive.phase = phase := by
    rw [← some.inj (hdrv.symm.trans hoth)]
  have hgone (drive : Drive M)
      (hdone : (none : Option (DrivePhase M)).map (fun phase => (⟨options, phase⟩ : Drive M)) =
        some drive) : drive.phase.isCommitted = false ∧ ∃ id, drive.phase.Ends id := by
    cases hdone
  cases hmove with
  | answer htold =>
    cases hends with
    | running hends hnext => exact absurd htold Answered.not_publish
  | again => cases hends
  | finish | refuse =>
    apply h.driveOn hord rfl hsame _ hgone
    intro drive hoth
    rw [honly drive hoth]
    rfl
  | lock hlock hholds =>
    cases hends with
    | running hends hnext =>
      apply h.driveOn hord rfl hsame
      · intro drive hoth
        rw [honly drive hoth]
        rfl
      · intro drive hoth
        cases hoth
        exact ⟨rfl, id, .publishing hends hnext⟩
  | approach hholds =>
    cases hends with
    | running hends hnext =>
      rw [Publish.holdsData_of_ends hends] at hholds
      cases hholds
  | build hguard hperf hwr =>
    cases hends with
    | publishing hends hnext =>
      apply h.driveOn hord rfl hsame
      · intro drive hoth
        rw [honly drive hoth]
        rfl
      · intro drive hoth
        cases hoth
        exact ⟨rfl, id, .guarded hends hnext⟩
  | skip hperf hwr =>
    cases hends with
    | publishing hends hnext => exact absurd hwr (Publish.writes_of_ends hperf hends)
  | @commit p next performed writes stored hcom =>
    obtain ⟨hnone, hrem⟩ := hcare p performed writes next rfl
    obtain ⟨-, hwr, data', hperf, -⟩ := h.ordered.drive _ hdrv
    obtain ⟨-, rfl⟩ := Stored.commit_eq_ok hcom
    cases hends with
    | guarded hends hnext =>
      apply h.settle (Publish.settlesId hperf hwr hends) rfl hnone
      · exact fun other hoth => Publish.ends_unique hends (hrem other hoth)
      · exact ⟨_, rfl, rfl, .committed hends hnext⟩
      · intro after haft other hoth
        cases haft
        exact Publish.ends_unique hends hoth.publication_ends
      · exact hord
  | fault hcom =>
    apply h.driveOn hord rfl (fun _ => rfl) _ hgone
    intro drive hoth
    rw [honly drive hoth]
    rfl
  | @publish p next performed after hlock haft =>
    obtain ⟨data', stored, hperf, -⟩ := h.ordered.drive _ hdrv
    have hdata : (performed.publish lane.data).operation = none :=
      Publish.operation_publish_of_ends hperf hends.publication_ends lane.data
    apply h.forget hdrv rfl hends hdata _ hord
    rcases haft with ⟨rfl, -⟩ | ⟨rfl, -⟩
    · exact hgone
    · intro drive hoth
      cases hoth
      cases hends with
      | committed hends hnext =>
        obtain ⟨record, hrec⟩ := hnext performed.answer
        refine ⟨rfl, id, ?_⟩
        dsimp only
        rw [hrec]
        exact .ended record

end PiOxidized.Harness.Runtime
