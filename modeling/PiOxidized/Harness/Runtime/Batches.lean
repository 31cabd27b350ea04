/-
# What a batch changes

A batch writes one value after the other, so a part of the stored values changes only through
the writes that are meant for it.  Which leaves a batch stores is read off the publication or
the call that has built it.
-/

import PiOxidized.Harness.Runtime.Locks
import PiOxidized.Harness.Runtime.Publications
import PiOxidized.Math.Fallible

namespace PiOxidized.Harness.Runtime

open List Math
open Agent (ToolResultMessage)
open Session (EntryId SessionError)

variable {M : Type} {name : LaneName} {stored stored' : Stored M} {writes : List (Write M)}

/-! ## Application -/

variable {id : OperationId} {leaf : OperationState}

@[simp]
theorem Stored.apply_nil : stored.apply [] = stored := rfl

@[simp]
theorem Stored.apply_cons (write : Write M) :
    stored.apply (write :: writes) = (stored.applyWrite write).apply writes := rfl

@[simp]
theorem Stored.apply_append (more : List (Write M)) :
    stored.apply (writes ++ more) = (stored.apply writes).apply more :=
  foldl_append

theorem Stored.commit_eq_ok (h : stored.commit writes = .ok stored') :
    stored.validate [] [] writes = .ok () ∧ stored' = stored.apply writes := by
  rw [Stored.commit] at h
  cases hval : stored.validate [] [] writes with
  | error error =>
    rw [hval] at h
    cases h
  | ok _ =>
    rw [hval] at h
    cases h
    exact ⟨rfl, rfl⟩

/-- A part that no write of a batch touches stays as it is. -/
theorem Stored.apply_frame {B : Type*} (part : Stored M → B)
    (h : ∀ write ∈ writes, ∀ s : Stored M, part (s.applyWrite write) = part s) :
    part (stored.apply writes) = part stored := by
  induction writes generalizing stored with
  | nil => rfl
  | cons write writes ih =>
    rw [Stored.apply_cons, ih fun w hw => h w (mem_cons_of_mem _ hw)]
    exact h write mem_cons_self stored

/-- A leaf that is stored after a batch is one of the batch or was stored before. -/
theorem Stored.operationState_of_apply
    (h : (stored.apply writes).operationStates.get? id = some leaf) :
    Write.operationState id leaf ∈ writes ∨ stored.operationStates.get? id = some leaf := by
  induction writes generalizing stored with
  | nil => exact .inr h
  | cons write writes ih =>
    obtain hwrt | hstored := ih h
    · exact .inl (mem_cons_of_mem _ hwrt)
    · cases write with
      | operationState other value =>
        rw [Stored.applyWrite, Dict.get?_insert] at hstored
        split_ifs at hstored with hid
        · cases hstored
          obtain rfl := beq_iff_eq.mp hid
          exact .inl mem_cons_self
        · exact .inr hstored
      | deleteOperationState other =>
        rw [Stored.applyWrite, Dict.get?_erase] at hstored
        split_ifs at hstored
        exact .inr hstored
      | _ => exact .inr hstored

/-! ## The writes of a batch -/

variable {write : Write M} {pend : List (InboxItem × PendingEntry M)}
  {messages : List (EntryId × AgentMessage M)} {parent : Option EntryId}

theorem mem_drainWrites (h : write ∈ drainWrites parent pend) :
    (∃ entry, write = .entry entry) ∨ ∃ id, write = .deletePendingEntry id := by
  induction pend generalizing parent with
  | nil => cases h
  | cons value pend ih =>
    obtain ⟨item, payload⟩ := value
    rw [drainWrites, mem_cons, mem_cons] at h
    obtain rfl | rfl | h := h
    · exact .inl ⟨_, rfl⟩
    · exact .inr ⟨_, rfl⟩
    · exact ih h

theorem mem_messageWrites (h : write ∈ messageWrites parent messages) :
    ∃ entry, write = .entry entry := by
  induction messages generalizing parent with
  | nil => cases h
  | cons value messages ih =>
    obtain ⟨id, message⟩ := value
    rw [messageWrites, mem_cons] at h
    obtain rfl | h := h
    · exact ⟨_, rfl⟩
    · exact ih h

theorem mem_toolResultWrites {batch : ToolBatch} {terminate : Bool} {index : Nat}
    {last : Option EntryId} {results : List (ToolResultMessage M)}
    (hress : toolResultWrites id batch terminate index parent results = .ok (writes, last))
    (h : write ∈ writes) :
    (∃ entry, write = .entry entry) ∨ ∃ entry, write = .deletePendingToolOutput id entry := by
  induction results generalizing index parent writes last with
  | nil =>
    cases hress
    cases h
  | cons res results ih =>
    rw [toolResultWrites] at hress
    cases hcall : batch.calls[index]? with
    | none =>
      rw [hcall] at hress
      cases hress
    | some call =>
      rw [hcall] at hress
      dsimp only at hress
      obtain ⟨⟨restWrites, restLast⟩, hrest, hress⟩ := bind_ok hress
      cases hress
      rw [mem_cons, mem_cons] at h
      obtain rfl | rfl | h := h
      · exact .inl ⟨_, rfl⟩
      · exact .inr ⟨_, rfl⟩
      · exact ih hrest h

theorem mem_operationCleanupWrites (h : write ∈ operationCleanupWrites stored id) :
    write = .deleteOperationMeta id ∨ write = .deleteOperationState id ∨
      (∃ task, write = .deleteOperationPreparation id task) ∨
      ∃ entry, write = .deletePendingToolOutput id entry := by
  simp only [operationCleanupWrites, mem_cons, mem_append, mem_map] at h
  obtain rfl | rfl | ⟨value, _, rfl⟩ | ⟨value, _, rfl⟩ := h
  · exact .inl rfl
  · exact .inr (.inl rfl)
  · exact .inr (.inr (.inl ⟨_, rfl⟩))
  · exact .inr (.inr (.inr ⟨_, rfl⟩))

theorem mem_summaryUsageWrites {generation : SummaryGenerationScope} {req : SummaryRequestRef}
    {usage : Option Session.Usage} (h : write ∈ summaryUsageWrites generation req usage) :
    ∃ row, write = .usage row := by
  cases usage with
  | none => cases h
  | some usage => exact ⟨_, mem_singleton.mp h⟩

/-! ## Kinds of writes -/

/-- Whether a write is one of the records of an open operation. -/
def Write.isRecord : Write M → Bool
  | operationMeta _ _ => true
  | operationState _ _ => true
  | deleteOperationMeta _ => true
  | deleteOperationState _ => true
  | _ => false

/-- Whether a write belongs to no open operation and stores no result. -/
def Write.isLoose : Write M → Bool
  | operationMeta _ _ => false
  | operationState _ _ => false
  | operationResult _ _ => false
  | operationPreparation _ _ _ => false
  | pendingToolOutput _ _ _ => false
  | deleteOperationMeta _ => false
  | deleteOperationState _ => false
  | _ => true

theorem Write.isRecord_of_isLoose (h : write.isLoose = true) : write.isRecord = false := by
  cases write <;> first | rfl | cases h

theorem isLoose_messageWrites (h : write ∈ messageWrites parent messages) :
    write.isLoose = true := by
  obtain ⟨entry, rfl⟩ := mem_messageWrites h
  rfl

/-! ## Batches of calls -/

variable {req : CallRequest M} {phase : CallPhase M} {upd : Update M}

/-- The batch of a call, with what building it has checked. -/
inductive CallBatch (name : LaneName) (stored : Stored M) : CallPhase M → Update M → Prop
  | enqueue (id : EntryId) (kind : InboxItemKind) (message : AgentMessage M) :
      CallBatch name stored (.waiting (.enqueue id kind message))
        (enqueueUpdate name stored id kind message)
  | cancel (id : EntryId) :
      CallBatch name stored (.waiting (.cancelQueued id)) (cancelBatch name stored id)
  | append (id : EntryId) (entry : PendingEntry M) (data : LaneData) :
      CallBatch name stored (.holding (appendUpdate name data id entry))
        (appendUpdate name data id entry)
  | run {id : OperationId} {messages : List (EntryId × AgentMessage M)} {selected : List InboxItem}
      {sourceTip : Option EntryId} {settings : RunSettings} {startedAt : Int}
      (pending : List (InboxItem × PendingEntry M)) (hused : stored.operationIdIsUsed id = false) :
      CallBatch name stored (.reserved (.run id messages selected sourceTip settings startedAt))
        (runBatch name stored id messages (stillQueued (stored.laneState name).inbox selected)
          pending sourceTip settings startedAt)
  | prepared {operation : Operation} {task : String}
      {preparation : Option (DurableStructuralPreparation M)}
      (hused : stored.operationIdIsUsed operation.info.operationId = false) :
      CallBatch name stored (.reserved (.prepared operation task preparation))
        (preparedBatch name stored operation task preparation)
  | abort {operation : Operation} {requestedAt : Int} {leaf : OperationState}
      (pending : List (InboxItem × PendingEntry M))
      (hleaf : stored.operationStates.get? operation.info.operationId = some leaf)
      (hcontrol : leaf.control.isCancelRequested = false) :
      CallBatch name stored (.snapshot operation requestedAt)
        (abortBatch name stored operation requestedAt pending)

theorem Built.batch (h : Built name stored phase upd) (hearly : phase.Early name req) :
    CallBatch name stored phase upd := by
  cases h with
  | enqueue id kind message => exact .enqueue id kind message
  | @cancel id _ h =>
    rw [(cancelUpdate_eq_some h).1]
    exact .cancel id
  | hold upd =>
    cases hearly with
    | holding id entry data => exact .append id entry data
  | @admission admission _ h =>
    cases admission with
    | run id messages selected sourceTip settings startedAt =>
      obtain ⟨hused, pend, _, rfl⟩ := runUpdate_eq_ok h
      exact .run pend hused
    | prepared op task prep =>
      obtain ⟨hused, rfl⟩ := preparedUpdate_eq_ok h
      exact .prepared hused
  | abort h =>
    obtain ⟨leaf, pend, hleaf, hctrl, _, rfl⟩ := abortUpdate_eq_ok h
    exact .abort pend hleaf hctrl

theorem holdsData_appendUpdate {data : LaneData} {id : EntryId} {entry : PendingEntry M} :
    (appendUpdate name data id entry).publication.holdsData = true := by
  rw [appendUpdate.eq_def]
  split <;> rfl

/-- The operation the batch of a call brings. -/
def Publication.operation : Publication → Option Operation
  | accept _ _ operation _ => some operation
  | abort _ _ operation => some operation
  | _ => none

/-- What a write of a call comes from. -/
inductive Update.Wrote (stored : Stored M) (update : Update M) : Write M → Prop
  | loose {write : Write M} (h : write.isLoose = true) : Wrote stored update write
  | accepted {base next : LaneState} {operation : Operation} {tip : Option (Option EntryId)}
      {write : Write M} (h : update.publication = .accept base next operation tip)
      (hused : stored.operationIdIsUsed operation.info.operationId = false)
      (hwrite : write = .operationMeta operation.info.operationId operation.info ∨
        write = .operationState operation.info.operationId operation.state ∨
        ∃ task preparation,
          write = .operationPreparation operation.info.operationId task preparation) :
      Wrote stored update write
  | cancelled {base next : LaneState} {operation : Operation} {leaf : OperationState}
      (h : update.publication = .abort base next operation)
      (hleaf : stored.operationStates.get? operation.info.operationId = some leaf) :
      Wrote stored update (.operationState operation.info.operationId operation.state)

/-- A call writes records of the operation it admits or cancels only. -/
theorem Built.wrote (h : Built name stored phase upd) (hearly : phase.Early name req)
    (hwrt : write ∈ upd.writes) : upd.Wrote stored write := by
  cases h.batch hearly with
  | enqueue id kind message =>
    simp only [enqueueUpdate, mem_cons, not_mem_nil, or_false] at hwrt
    obtain rfl | rfl := hwrt <;> exact .loose rfl
  | cancel id =>
    simp only [cancelBatch, mem_cons, not_mem_nil, or_false] at hwrt
    obtain rfl | rfl := hwrt <;> exact .loose rfl
  | append id entry data =>
    rw [appendUpdate.eq_def] at hwrt
    split at hwrt
    all_goals
      simp only [mem_cons, not_mem_nil, or_false] at hwrt
      obtain rfl | rfl := hwrt <;> exact .loose rfl
  | run pend hused =>
    simp only [runBatch, mem_append] at hwrt
    obtain hwrt | hwrt | hwrt := hwrt
    · obtain ⟨_, rfl⟩ | ⟨_, rfl⟩ := mem_drainWrites hwrt <;> exact .loose rfl
    · exact .loose (isLoose_messageWrites hwrt)
    · simp only [mem_cons, not_mem_nil, or_false] at hwrt
      obtain rfl | rfl | rfl | rfl := hwrt
      · exact .accepted rfl hused (.inl rfl)
      · exact .accepted rfl hused (.inr (.inl rfl))
      · exact .loose rfl
      · exact .loose rfl
  | prepared hused =>
    simp only [preparedBatch, mem_append, mem_cons, not_mem_nil, or_false,
      Option.mem_toList, Option.map_eq_some_iff] at hwrt
    obtain (rfl | rfl | rfl) | ⟨value, _, rfl⟩ := hwrt
    · exact .accepted rfl hused (.inl rfl)
    · exact .accepted rfl hused (.inr (.inl rfl))
    · exact .loose rfl
    · exact .accepted rfl hused (.inr (.inr ⟨_, _, rfl⟩))
  | @abort op reqAt _ pend hleaf hctrl =>
    simp only [abortBatch, mem_append, mem_map, mem_cons, not_mem_nil,
      or_false] at hwrt
    obtain ⟨value, _, rfl⟩ | rfl | rfl := hwrt
    · exact .loose rfl
    · exact @Update.Wrote.cancelled _ _ _ _ _ (op.cancelled reqAt) _ rfl hleaf
    · exact .loose rfl

/-! ## The records of one operation -/

/-- What is stored of an operation that is open. -/
def Stored.records (stored : Stored M) (id : OperationId) :
    Option OperationMeta × Option OperationState :=
  (stored.operationMetas.get? id, stored.operationStates.get? id)

/-- Whether a write is one of an operation's records. -/
def Write.touches (id : OperationId) : Write M → Bool
  | operationMeta other _ => other == id
  | operationState other _ => other == id
  | deleteOperationMeta other => other == id
  | deleteOperationState other => other == id
  | _ => false

theorem Stored.records_applyWrite (h : write.touches id = false) (stored : Stored M) :
    (stored.applyWrite write).records id = stored.records id := by
  cases write with
  | operationMeta other | operationState other =>
    have hne : (id == other) = false := by rw [← h, Write.touches, BEq.comm]
    simp only [Stored.records, Stored.applyWrite, Dict.get?_insert, hne, Bool.false_eq_true,
      if_false]
  | deleteOperationMeta other | deleteOperationState other =>
    have hne : (id == other) = false := by rw [← h, Write.touches, BEq.comm]
    simp only [Stored.records, Stored.applyWrite, Dict.get?_erase, hne, Bool.false_eq_true,
      if_false]
  | _ => rfl

/-- A batch without a record of an operation leaves its records alone. -/
theorem Stored.records_apply (h : ∀ write ∈ writes, write.touches id = false) :
    (stored.apply writes).records id = stored.records id :=
  Stored.apply_frame (fun s => s.records id) fun write hwrt s =>
    Stored.records_applyWrite (h write hwrt) s

theorem Write.touches_of_not_isRecord (h : write.isRecord = false) (id : OperationId) :
    write.touches id = false := by
  cases write <;> first | rfl | cases h

/-! ### Records and the batch of a call -/

theorem Operation.control_cancelled (op : Operation) (reqAt : Int) :
    (op.cancelled reqAt).state.control.isCancelRequested = true := by
  rw [Operation.cancelled, OperationState.control_withControl]
  rfl

attribute [local simp] Stored.applyWrite Dict.get?_insert Stored.records

/-- The batch of a cancellation replaces the leaf of its operation. -/
theorem records_abortBatch {op : Operation} {reqAt : Int} :
    (stored.apply (abortBatch name stored op reqAt pend).writes).records op.info.operationId =
      (stored.operationMetas.get? op.info.operationId, some (op.cancelled reqAt).state) := by
  have hdeletes : (stored.apply
      (pend.map fun value => Write.deletePendingEntry value.1.entryId)).records
        op.info.operationId = stored.records op.info.operationId := by
    refine Stored.records_apply fun write hwrt => ?_
    obtain ⟨value, _, rfl⟩ := mem_map.mp hwrt
    rfl
  have hmeta := congrArg Prod.fst hdeletes
  simp only [Stored.records] at hmeta
  simp [abortBatch, hmeta, Operation.cancelled]

/-- The batch of an admitted run stores its operation. -/
theorem records_runBatch {selected : List InboxItem} {sourceTip : Option EntryId}
    {settings : RunSettings} {startedAt : Int} :
    (stored.apply (runBatch name stored id messages selected pend sourceTip settings
        startedAt).writes).records id =
      (some (provisionalRun name id sourceTip settings startedAt
          (drainedMessageIds pend ++ messages.map Prod.fst)).info,
        some (.starting (operationScope settings))) := by
  simp [runBatch, provisionalRun]

/-- The batch of any other admission stores its operation. -/
theorem records_preparedBatch {op : Operation} {task : String}
    {prep : Option (DurableStructuralPreparation M)} :
    (stored.apply (preparedBatch name stored op task prep).writes).records
        op.info.operationId = (some op.info, some op.state) := by
  cases prep with
  | none | some => simp [preparedBatch]

section

variable (h : Built name stored phase upd) (hearly : phase.Early name req)

include h hearly

/-- A batch that admits stores its operation under a free id. -/
theorem Built.of_accept {base next : LaneState} {op : Operation} {tip : Option (Option EntryId)}
    (hpub : upd.publication = .accept base next op tip) :
    stored.operationIdIsUsed op.info.operationId = false ∧
      (stored.apply upd.writes).records op.info.operationId = (some op.info, some op.state) := by
  cases h.batch hearly with
  | enqueue | cancel | abort => cases hpub
  | append => cases holdsData_appendUpdate.symm.trans (congrArg Publication.holdsData hpub)
  | run pend hused =>
    cases hpub
    exact ⟨hused, records_runBatch⟩
  | prepared hused =>
    cases hpub
    exact ⟨hused, records_preparedBatch⟩

/-- A batch that cancels was built from a copy, on a stored leaf without the flag. -/
theorem Built.of_abort {base next : LaneState} {op : Operation}
    (hpub : upd.publication = .abort base next op) :
    ∃ copy reqAt leaf, phase = .snapshot copy reqAt ∧ op = copy.cancelled reqAt ∧
      stored.operationStates.get? op.info.operationId = some leaf ∧
      leaf.control.isCancelRequested = false ∧
      (stored.apply upd.writes).records op.info.operationId =
        (stored.operationMetas.get? op.info.operationId, some op.state) := by
  cases h.batch hearly with
  | enqueue | cancel | run | prepared => cases hpub
  | append => cases holdsData_appendUpdate.symm.trans (congrArg Publication.holdsData hpub)
  | abort pend hleaf hctrl =>
    cases hpub
    exact ⟨_, _, _, rfl, rfl, hleaf, hctrl, records_abortBatch⟩

/-- A call stores a leaf under an id that is free, or as a cancellation. -/
theorem Built.leaf_cases (hleaf : Write.operationState id leaf ∈ upd.writes) :
    stored.operationIdIsUsed id = false ∨ ∃ op reqAt, phase = .snapshot op reqAt ∧
        op.info.operationId = id ∧ leaf = (op.cancelled reqAt).state := by
  cases h.wrote hearly hleaf with
  | loose h => cases h
  | accepted _ hused hwrt =>
    obtain hwrt | hwrt | ⟨_, _, hwrt⟩ := hwrt <;> cases hwrt
    exact .inl hused
  | cancelled hpub =>
    obtain ⟨copy, reqAt, _, hph, rfl, -⟩ := h.of_abort hearly hpub
    exact .inr ⟨copy, reqAt, hph, rfl, rfl⟩

end

attribute [local simp] Write.touches

/-- What the batch of a call makes of the records of an operation. -/
theorem Built.records (h : Built name stored phase upd) (hearly : phase.Early name req)
    (id : OperationId) :
    (stored.apply upd.writes).records id = stored.records id ∨
      (∃ base next op tip, upd.publication = .accept base next op tip ∧
        op.info.operationId = id ∧ stored.operationIdIsUsed id = false ∧
        (stored.apply upd.writes).records id = (some op.info, some op.state)) ∨
      ∃ base next op leaf, upd.publication = .abort base next op ∧
        op.info.operationId = id ∧ stored.operationStates.get? id = some leaf ∧
        leaf.control.isCancelRequested = false ∧
        (stored.apply upd.writes).records id = (stored.operationMetas.get? id, some op.state) := by
  by_cases hoth : ∀ op, upd.publication.operation = some op → op.info.operationId ≠ id
  · refine .inl (Stored.records_apply fun write hwrt => ?_)
    cases h.wrote hearly hwrt with
    | loose h => exact Write.touches_of_not_isRecord (Write.isRecord_of_isLoose h) id
    | accepted hpub _ hwrt =>
      have hne := hoth _ (by rw [hpub]; rfl)
      obtain rfl | rfl | ⟨_, _, rfl⟩ := hwrt <;> simp [hne]
    | cancelled hpub =>
      have hne := hoth _ (by rw [hpub]; rfl)
      simp [hne]
  · push Not at hoth
    obtain ⟨op, hbrought, rfl⟩ := hoth
    cases hpub : upd.publication with
    | accept base next admitted tip =>
      rw [hpub] at hbrought
      cases hbrought
      obtain ⟨hused, hrecs⟩ := h.of_accept hearly hpub
      exact .inr (.inl ⟨_, _, _, _, rfl, rfl, hused, hrecs⟩)
    | abort base next cancelled =>
      rw [hpub] at hbrought
      cases hbrought
      obtain ⟨_, _, leaf, _, _, hleaf, hctrl, hrecs⟩ := h.of_abort hearly hpub
      exact .inr (.inr ⟨_, _, _, leaf, rfl, rfl, hleaf, hctrl, hrecs⟩)
    | converge | hold =>
      rw [hpub] at hbrought
      cases hbrought

/-! ### The lane of a call -/

/-- The lane states the batch of a call leads from and to. -/
def Publication.states : Publication → Option (LaneState × LaneState)
  | converge base next => some (base, next)
  | accept base next _ _ => some (base, next)
  | abort base next _ => some (base, next)
  | hold _ => none

/-- The tip the batch of a call moves its branch to. -/
def Publication.movedTip : Publication → Option (Option EntryId)
  | accept _ _ _ tip => tip
  | _ => none

section

variable (h : Built name stored phase upd) (hearly : phase.Early name req)
  (hholds : upd.publication.holdsData = false)

include h hearly hholds

/-- The batch of a call leads on from the stored lane state, unless it was built from lane
data. -/
theorem Built.states : ∃ next, upd.publication.states = some (stored.laneState name, next) ∧
      (stored.apply upd.writes).laneStates.get? name = some next ∧
      next.currentOperationId = (upd.publication.operation.map (·.info.operationId)).or
        (stored.laneState name).currentOperationId := by
  cases h.batch hearly with
  | append => cases holdsData_appendUpdate.symm.trans hholds
  | enqueue => exact ⟨_, rfl, by simp [enqueueUpdate], rfl⟩
  | cancel => exact ⟨_, rfl, by simp [cancelBatch], rfl⟩
  | run => exact ⟨_, rfl, by simp [runBatch], rfl⟩
  | @prepared _ _ prep =>
    refine ⟨_, rfl, ?_, rfl⟩
    cases prep with
    | none | some => simp [preparedBatch]
  | abort => exact ⟨_, rfl, by simp [abortBatch], rfl⟩

/-- The batch of a call moves the branch to the tip it publishes, or leaves it alone. -/
theorem Built.branchTips : (stored.apply upd.writes).branchTips.get? name =
      upd.publication.movedTip.or (stored.branchTips.get? name) := by
  cases h.batch hearly with
  | append => cases holdsData_appendUpdate.symm.trans hholds
  | enqueue | cancel => rfl
  | run => simp [runBatch, Publication.movedTip]
  | @prepared _ _ prep => cases prep <;> rfl
  | abort pend =>
    refine congrArg (fun tips => Dict.get? tips name) ?_
    apply Stored.apply_frame Stored.branchTips
    simp only [abortBatch, mem_append, mem_map, mem_cons, not_mem_nil, or_false]
    rintro write (⟨value, _, rfl⟩ | rfl | rfl) s
    · rfl
    · rfl
    · rfl

end

/-! ### Batches of the driver -/

/-- The leaf a publication's next leaf is made from. -/
def Publish.base : Publish M → Option OperationState
  | transition operation _ _ _ => some operation.state
  | runFollowUp operation _ _ _ => some operation.state
  | assistant _ commit => some commit.pending
  | toolResults operation _ _ _ => some operation.state
  | compaction operation generation _ _ =>
    (compactionCheckpoint operation generation).map fun _ => operation.state
  | branchSummary operation _ _ _ _ _ _ _ => some operation.state
  | _ => none

variable {p : Publish M}

theorem Publish.Stores.base_eq {base next : OperationState} (h : p.Stores base next) :
    p.base = some base := by
  cases h with
  | compaction op generation req res hnext => rw [Publish.base, hnext]; rfl
  | _ => rfl

/-- Whether a publication stores a leaf of an operation. -/
def Publish.storesLeaf (publication : Publish M) (id : OperationId) : Bool :=
  publication.base.isSome &&
    publication.operation.any fun operation => operation.info.operationId == id

/-- Whether a publication ends an operation. -/
def Publish.ends (publication : Publish M) (id : OperationId) : Bool := match publication with
  | settle operation _ _ _ => operation.info.operationId == id
  | navigation operation _ _ _ => operation.info.operationId == id
  | _ => false

/-- What a record written by the driver comes from. -/
inductive Publish.Records (publication : Publish M) : Write M → Prop
  | leaf {operation : Operation} {base leaf : OperationState}
      (hoperation : publication.operation = some operation)
      (hstores : publication.Stores base leaf) :
      Records publication (.operationState operation.info.operationId leaf)
  | deleteMeta {id : OperationId} (h : publication.ends id = true) :
      Records publication (.deleteOperationMeta id)
  | deleteState {id : OperationId} (h : publication.ends id = true) :
      Records publication (.deleteOperationState id)

/-- What a write of the driver comes from. -/
inductive Publish.Written (publication : Publish M) : Write M → Prop
  | record {write : Write M} (h : publication.Records write) : Written publication write
  | extra {write : Write M} (h : write ∈ publication.extraWrites) : Written publication write
  | result {id : OperationId} {record : OperationResultRecord} (h : publication.ends id = true) :
      Written publication (.operationResult id record)
  | output {id : OperationId} {entry : EntryId} {value : StagedToolResult M}
      (h : publication = .stageToolOutput id entry value) :
      Written publication (.pendingToolOutput id entry value)
  | loose {write : Write M} (h : write.isLoose = true) : Written publication write

variable {data : LaneData}

variable {performed : Performed M p.Answer}

section

variable (h : p.perform name data stored = .ok performed) (hwrites : performed.writes = some writes)

include h hwrites

/-- What the driver writes comes from its publication. -/
theorem Publish.written_of_perform (hwrt : write ∈ writes) : p.Written write := by
  cases p with
  | transition op purpose state extra =>
    obtain ⟨⟨⟩, -, h⟩ := bind_ok h
    cases h
    cases hwrites
    rw [mem_append, mem_singleton] at hwrt
    obtain hwrt | rfl := hwrt
    · exact .extra hwrt
    · exact .record (.leaf rfl (.transition op purpose state extra))
  | injectedMessages messages =>
    cases h
    cases hwrites
    rw [mem_append, mem_singleton] at hwrt
    obtain hwrt | rfl := hwrt
    · exact .loose (isLoose_messageWrites hwrt)
    · exact .loose rfl
  | runFollowUp op entryId message state =>
    obtain ⟨⟨⟩, -, h⟩ := bind_ok h
    cases h
    cases hwrites
    simp only [mem_cons, not_mem_nil, or_false] at hwrt
    obtain rfl | rfl | rfl := hwrt
    · exact .loose rfl
    · exact .loose rfl
    · exact .record (.leaf rfl (.runFollowUp op entryId message state))
  | assistant op commit =>
    cases h
    cases hwrites
    simp only [mem_cons, not_mem_nil, or_false] at hwrt
    obtain rfl | rfl | rfl | rfl := hwrt
    · exact .loose rfl
    · exact .loose rfl
    · exact .record (.leaf rfl (.assistant op commit))
    · exact .loose rfl
  | toolResults op batch results terminate =>
    obtain ⟨⟨resultWrites, parent⟩, hress, h⟩ := bind_ok h
    cases parent with
    | none => cases h
    | some trigger =>
      cases h
      cases hwrites
      rw [mem_append, mem_cons, mem_singleton] at hwrt
      obtain hwrt | rfl | rfl := hwrt
      · obtain ⟨_, rfl⟩ | ⟨_, rfl⟩ := mem_toolResultWrites hress hwrt
        · exact .loose rfl
        · exact .loose rfl
      · exact .record (.leaf rfl (.toolResults op batch results terminate trigger))
      · exact .loose rfl
  | drainInbox op projectors =>
    rw [Publish.perform] at h
    split at h
    · cases h
      cases hwrites
    · split at h
      · cases h
      · cases h
        cases hwrites
        rw [mem_append, mem_cons, mem_singleton] at hwrt
        obtain hwrt | rfl | rfl := hwrt
        · obtain ⟨_, rfl⟩ | ⟨_, rfl⟩ := mem_drainWrites hwrt
          · exact .loose rfl
          · exact .loose rfl
        · exact .loose rfl
        · exact .loose rfl
  | settle op status error endedAt =>
    have hends : (Publish.settle op status error endedAt : Publish M).ends
        op.info.operationId = true := beq_self_eq_true _
    cases h
    cases hwrites
    rw [mem_cons, mem_cons] at hwrt
    obtain rfl | rfl | hwrt := hwrt
    · exact .loose rfl
    · exact .result hends
    · obtain rfl | rfl | ⟨_, rfl⟩ | ⟨_, rfl⟩ := mem_operationCleanupWrites hwrt
      · exact .record (.deleteMeta hends)
      · exact .record (.deleteState hends)
      · exact .loose rfl
      · exact .loose rfl
  | navigation op target label endedAt =>
    have hends : (Publish.navigation op target label endedAt : Publish M).ends
        op.info.operationId = true := beq_self_eq_true _
    rw [Publish.perform.eq_def] at h
    dsimp only at h
    split at h
    · cases h
    · cases h
      cases hwrites
      simp only [mem_cons, mem_append, Option.mem_toList, Option.bind_eq_some_iff,
        Option.map_eq_some_iff, not_mem_nil, or_false] at hwrt
      obtain rfl | ⟨_, _, _, _, rfl⟩ | rfl | rfl | rfl | rfl := hwrt
      · exact .loose rfl
      · exact .loose rfl
      · exact .loose rfl
      · exact .result hends
      · exact .record (.deleteMeta hends)
      · exact .record (.deleteState hends)
  | compaction op generation req res =>
    cases h
    cases hwrites
    simp only [mem_cons, mem_append, Option.mem_toList, Option.map_eq_some_iff] at hwrt
    obtain rfl | rfl | hwrt | ⟨next, hnext, rfl⟩ := hwrt
    · exact .loose rfl
    · exact .loose rfl
    · obtain ⟨_, rfl⟩ := mem_summaryUsageWrites hwrt
      exact .loose rfl
    · exact .record (.leaf rfl (.compaction op generation req res hnext))
  | branchSummary op oldTip fromId generation req res target label =>
    cases h
    cases hwrites
    simp only [mem_cons] at hwrt
    obtain rfl | rfl | rfl | hwrt := hwrt
    · exact .loose rfl
    · exact .loose rfl
    · exact .record (.leaf rfl (.branchSummary op oldTip fromId generation req res target label))
    · obtain ⟨_, rfl⟩ := mem_summaryUsageWrites hwrt
      exact .loose rfl
  | stageToolOutput operationId entryId value =>
    cases h
    cases hwrites
    rw [mem_singleton] at hwrt
    subst hwrt
    exact .output rfl

section

variable
  (hextra : ∀ write ∈ p.extraWrites, ∃ id task prep, write = .operationPreparation id task prep)

include hextra

/-- A record that the driver writes is made by its publication, for the publication's
operation. -/
theorem Publish.records_of_perform (hwrt : write ∈ writes) (hrec : write.isRecord = true) :
    p.Records write := by
  cases Publish.written_of_perform h hwrites hwrt with
  | record h => exact h
  | extra h =>
    obtain ⟨_, _, _, rfl⟩ := hextra _ h
    cases hrec
  | result | output => cases hrec
  | loose h =>
    rw [Write.isRecord_of_isLoose h] at hrec
    cases hrec

/-- A leaf that the driver writes is made by its publication. -/
theorem Publish.leaf_of_perform (hleaf : Write.operationState id leaf ∈ writes) :
    ∃ op base, p.operation = some op ∧ op.info.operationId = id ∧ p.Stores base leaf := by
  cases Publish.records_of_perform h hwrites hextra hleaf rfl with
  | leaf hop hsts => exact ⟨_, _, hop, rfl, hsts⟩

end

end

attribute [local simp] Publish.storesLeaf

theorem Publish.storesLeaf_of_stores {op : Operation} {base : OperationState}
    (hop : p.operation = some op) (hsts : p.Stores base leaf) :
    p.storesLeaf op.info.operationId = true := by
  simp [hop, hsts.base_eq]

/-- The records of an operation and the record of its end. -/
def Stored.history (stored : Stored M) (id : OperationId) :
    (Option OperationMeta × Option OperationState) × Option OperationResultRecord :=
  (stored.records id, stored.operationResults.get? id)

attribute [local simp] Dict.get?_erase

/-- What is cleaned up beside the records of an operation. -/
theorem history_cleanup (stored : Stored M) (id : OperationId) (s : Stored M) :
    (s.apply (operationCleanupWrites stored id)).history id =
      ((none, none), s.operationResults.get? id) := by
  have hrest (t : Stored M) : (t.apply
      ((stored.preparations.entries.filter fun value => value.1.1 == id).map
          (fun value => Write.deleteOperationPreparation id value.1.2) ++
        (stored.toolOutputs.entries.filter fun value => value.1.1 == id).map
          (fun value => Write.deletePendingToolOutput id value.1.2))).history id =
      t.history id := by
    refine Stored.apply_frame (fun s => s.history id) fun write hwrt s => ?_
    simp only [mem_append, mem_map] at hwrt
    obtain ⟨value, _, rfl⟩ | ⟨value, _, rfl⟩ := hwrt
    · rfl
    · rfl
  rw [operationCleanupWrites, Stored.apply_cons, Stored.apply_cons, hrest]
  simp [Stored.history]

section

variable (h : p.perform name data stored = .ok performed) (hwrites : performed.writes = some writes)

include h hwrites

/-- The end of an operation removes its records and leaves a result. -/
theorem Publish.records_of_ends (hends : p.ends id = true) :
    (stored.apply writes).records id = (none, none) ∧
      (stored.apply writes).operationResults.contains id = true := by
  cases p with
  | settle op status error endedAt =>
    obtain rfl : op.info.operationId = id := beq_iff_eq.mp hends
    cases h
    cases hwrites
    have hhistory := history_cleanup stored op.info.operationId
      ((stored.applyWrite (.laneState name (data.state.settled op.info.operationId))
        ).applyWrite (.operationResult op.info.operationId
          (resultRecord op status error data.tip endedAt)))
    rw [Stored.history, Prod.mk.injEq] at hhistory
    refine ⟨hhistory.1, ?_⟩
    rw [Dict.contains, Stored.apply_cons, Stored.apply_cons, hhistory.2]
    simp
  | navigation op target label endedAt =>
    obtain rfl : op.info.operationId = id := beq_iff_eq.mp hends
    rw [Publish.perform.eq_def] at h
    dsimp only at h
    split at h
    · cases h
    · cases h
      cases hwrites
      simp [Dict.contains]
  | _ => cases hends

/-- What the batch of a publication makes of the records of an operation. -/
theorem Publish.records (hextra : ∀ write ∈ p.extraWrites,
      ∃ id task prep, write = .operationPreparation id task prep) (id : OperationId) :
    p.storesLeaf id = true ∨ (stored.apply writes).records id = stored.records id ∨
      p.ends id = true ∧ (stored.apply writes).records id = (none, none) ∧
        (stored.apply writes).operationResults.contains id = true := by
  by_cases hends : p.ends id = true
  · exact .inr (.inr ⟨hends, Publish.records_of_ends h hwrites hends⟩)
  by_cases hsts : p.storesLeaf id = true
  · exact .inl hsts
  refine .inr (.inl (Stored.records_apply fun write hwrt => ?_))
  cases hrec : write.isRecord with
  | false => exact Write.touches_of_not_isRecord hrec id
  | true =>
    cases Publish.records_of_perform h hwrites hextra hwrt hrec with
    | @leaf op base leaf hop hleaf =>
      have hne : op.info.operationId ≠ id := by
        rintro rfl
        exact hsts (Publish.storesLeaf_of_stores hop hleaf)
      simpa using hne
    | @deleteMeta other hoth | @deleteState other hoth =>
      have hne : other ≠ id := by
        rintro rfl
        exact hends hoth
      simpa using hne

end

/-! ### Ids that are taken -/

/-- An operation that is stored has taken its id. -/
theorem Stored.operationIdIsUsed_of_leaf (h : stored.operationStates.get? id = some leaf) :
    stored.operationIdIsUsed id = true := by
  simp [Stored.operationIdIsUsed, Dict.contains, h]

/-- Whether a write removes a record of an operation. -/
def Write.removes (id : OperationId) : Write M → Bool
  | deleteOperationMeta other => other == id
  | deleteOperationState other => other == id
  | _ => false

theorem Stored.operationIdIsUsed_eq_true : stored.operationIdIsUsed id = true ↔
      (stored.operationMetas.get? id).isSome = true ∨
        (stored.operationStates.get? id).isSome = true ∨
        (stored.operationResults.get? id).isSome = true := by
  rw [Stored.operationIdIsUsed, Bool.or_eq_true, Bool.or_eq_true, or_assoc]
  exact Iff.rfl

theorem Stored.operationIdIsUsed_applyWrite (h : stored.operationIdIsUsed id = true)
    (hkps : write.removes id = false) :
    (stored.applyWrite write).operationIdIsUsed id = true := by
  rw [Stored.operationIdIsUsed_eq_true] at h ⊢
  cases write with
  | operationMeta other value =>
    simp only [Stored.applyWrite, Dict.get?_insert]
    split_ifs
    · exact .inl rfl
    · exact h
  | operationState other value =>
    simp only [Stored.applyWrite, Dict.get?_insert]
    split_ifs
    · exact .inr (.inl rfl)
    · exact h
  | operationResult other value =>
    simp only [Stored.applyWrite, Dict.get?_insert]
    split_ifs
    · exact .inr (.inr rfl)
    · exact h
  | deleteOperationMeta other | deleteOperationState other =>
    have hne : (id == other) = false := by rw [← hkps, Write.removes, BEq.comm]
    simpa only [Stored.applyWrite, Dict.get?_erase, hne, Bool.false_eq_true, if_false] using h
  | _ => exact h

/-- An id stays taken by a batch that removes no record of it. -/
theorem Stored.operationIdIsUsed_apply (h : stored.operationIdIsUsed id = true)
    (hkps : ∀ write ∈ writes, write.removes id = false) :
    (stored.apply writes).operationIdIsUsed id = true := by
  induction writes generalizing stored with
  | nil => exact h
  | cons write writes ih =>
    exact ih (Stored.operationIdIsUsed_applyWrite h (hkps write mem_cons_self))
      fun w hw => hkps w (mem_cons_of_mem _ hw)

/-- No batch of a call removes a record. -/
theorem Built.removes (h : Built name stored phase upd) (hearly : phase.Early name req)
    (id : OperationId) :
    ∀ write ∈ upd.writes, write.removes id = false := by
  intro write hwrt
  cases h.wrote hearly hwrt with
  | loose h => cases write <;> first | rfl | cases h
  | accepted _ _ hwrt => obtain rfl | rfl | ⟨_, _, rfl⟩ := hwrt <;> rfl
  | cancelled => rfl

/-- An id stays taken by what the driver commits; the end of an operation leaves a result. -/
theorem Publish.operationIdIsUsed_of_perform (h : p.perform name data stored = .ok performed)
    (hwrites : performed.writes = some writes) (hextra : ∀ write ∈ p.extraWrites,
      ∃ id task prep, write = .operationPreparation id task prep)
    (hused : stored.operationIdIsUsed id = true) :
    (stored.apply writes).operationIdIsUsed id = true := by
  by_cases hends : p.ends id = true
  · have hret := (Publish.records_of_ends h hwrites hends).2
    exact Stored.operationIdIsUsed_eq_true.mpr (.inr (.inr hret))
  · refine Stored.operationIdIsUsed_apply hused fun write hwrt => ?_
    cases hremoves : write.removes id with
    | false => rfl
    | true =>
      have hrec : write.isRecord = true := by
        cases write <;> first | rfl | cases hremoves
      cases Publish.records_of_perform h hwrites hextra hwrt hrec with
      | leaf hop hsts => cases hremoves
      | deleteMeta hoth | deleteState hoth =>
        obtain rfl := beq_iff_eq.mp hremoves
        exact absurd hoth hends

/-! ## Lane data after a publication -/

/-- Two lanes' data that remember operations of one id. -/
theorem LaneData.operationId_map (data : LaneData) (state : OperationState) :
    (data.operation.map fun cur => { cur with state := state }).map
      (·.info.operationId) = data.operationId := by
  rw [LaneData.operationId, Option.map_map]
  rfl

attribute [local simp] Publish.base Publish.operation

/-- What a publication of the driver makes of the remembered operation. -/
theorem Publish.operationId_publish (h : p.perform name data stored = .ok performed)
    (cur : LaneData) :
    (performed.publish cur).operationId = cur.operationId ∨
      (performed.publish cur).operation = none ∨
      ∃ id, (performed.publish cur).operationId = some id ∧ p.storesLeaf id = true := by
  cases p with
  | transition op | runFollowUp op =>
    obtain ⟨⟨⟩, -, h⟩ := bind_ok h
    cases h
    exact .inr (.inr ⟨op.info.operationId, rfl, by
      simp⟩)
  | injectedMessages | stageToolOutput =>
    cases h
    exact .inl rfl
  | assistant op commit =>
    cases h
    refine .inl ?_
    dsimp only [LaneData.operationId]
    split_ifs
    · exact cur.operationId_map commit.nextState
    · rfl
  | toolResults op batch results terminate =>
    obtain ⟨⟨resultWrites, parent⟩, hress, h⟩ := bind_ok h
    cases parent with
    | none => cases h
    | some trigger =>
      cases h
      exact .inr (.inr ⟨op.info.operationId, rfl, by
        simp⟩)
  | drainInbox op projectors =>
    rw [Publish.perform] at h
    split at h
    · cases h
      exact .inl rfl
    · split at h
      · cases h
      · cases h
        exact .inl rfl
  | settle op status error endedAt =>
    cases h
    exact .inr (.inl rfl)
  | navigation op target label endedAt =>
    rw [Publish.perform.eq_def] at h
    dsimp only at h
    split at h
    · cases h
    · cases h
      exact .inr (.inl rfl)
  | compaction op generation req res =>
    cases h
    cases hnext : compactionCheckpoint op generation with
    | none => exact .inl (by simp [LaneData.operationId])
    | some next =>
      exact .inr (.inr ⟨op.info.operationId, by simp [LaneData.operationId], by
        simp [hnext]⟩)
  | branchSummary op oldTip fromId generation req res target label =>
    cases h
    exact .inr (.inr ⟨op.info.operationId, rfl, by
      simp⟩)

/-- The end of an operation leaves the lane without one. -/
theorem Publish.operation_publish_of_ends (h : p.perform name data stored = .ok performed)
    (hends : p.ends id = true) (cur : LaneData) :
    (performed.publish cur).operation = none := by
  cases p with
  | settle op status error endedAt =>
    cases h
    rfl
  | navigation op target label endedAt =>
    rw [Publish.perform.eq_def] at h
    dsimp only at h
    split at h
    · cases h
    · cases h
      rfl
  | _ => cases hends

end PiOxidized.Harness.Runtime
