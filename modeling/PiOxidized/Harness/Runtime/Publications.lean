/-
# What the driver publishes

Every procedure publishes for the operation it was started with, or for a copy it has read
since, and what it stores next is made from such a copy: the control flag of the copy is taken
over as it is, and the leaf is one the operation's intent can be at.

Once it has settled the operation it works on, it publishes nothing before it reads the lane
again; and what it keeps in storage until then, it keeps for operations it has read.

This is proved procedure by procedure, whatever a procedure is told.
-/

import PiOxidized.Harness.Runtime.Dispatch
import PiOxidized.Harness.Runtime.Restore

namespace PiOxidized.Harness.Runtime

open List Math
open Agent (ToolResultMessage)
open Session (EntryId)

variable {M : Type}

/-! ## Leaves of an intent -/

/-- Whether a summary is made in the middle of a run. -/
def SummaryTask.resumes (task : SummaryTask) : Bool := match task.boundary with
  | .resumeCheckpoint _ => true
  | _ => false

/-- The task of a leaf that belongs to the generation of a summary. -/
def OperationState.summaryTask : OperationState → Option SummaryTask
  | summaryDeciding _ task => some task
  | summaryReady _ generation _ => some generation.task
  | summaryEffectPending _ generation _ _ _ => some generation.task
  | summaryRetryWait _ generation _ => some generation.task
  | _ => none

/-- The leaves an operation can reach; a run is compacted at leaves of its own. -/
def OperationIntent.Admits : OperationIntent → OperationState → Prop
  | run _, leaf => leaf.isNavigation = false
  | compaction _, leaf => ∃ task, leaf.summaryTask = some task ∧ task.resumes = false
  | navigation _ summarize _ _, leaf =>
    leaf.isNavigation = true ∨
      summarize = true ∧ ∃ task, leaf.summaryTask = some task ∧ task.resumes = false

variable {intent : OperationIntent}

variable {leaf next : OperationState} {task : SummaryTask}

theorem OperationState.isSummary_eq (leaf : OperationState) :
    leaf.isSummary = leaf.summaryTask.isSome := by
  cases leaf <;> rfl

/-- A leaf that is neither a summary nor a navigation belongs to a run. -/
theorem OperationIntent.Admits.of_run (h : intent.Admits leaf) (hsum : leaf.isSummary = false)
    (hnavigation : leaf.isNavigation = false) (hnext : next.isNavigation = false) :
    intent.Admits next := by
  rw [OperationState.isSummary_eq] at hsum
  have hnone : leaf.summaryTask = none := by simpa using hsum
  cases intent with
  | run ids => exact hnext
  | compaction instructions =>
    obtain ⟨task, htask, _⟩ := h
    rw [hnone] at htask
    cases htask
  | navigation target summarize label instructions =>
    obtain h | ⟨_, task, htask, _⟩ := h
    · rw [hnavigation] at h
      cases h
    · rw [hnone] at htask
      cases htask

/-- A leaf of one summary leads to the others. -/
theorem OperationIntent.Admits.of_summary (h : intent.Admits leaf)
    (hleaf : leaf.summaryTask = some task) (hnext : next.summaryTask = some task) :
    intent.Admits next := by
  have hnavigation : leaf.isNavigation = false := by
    cases leaf <;> first | rfl | cases hleaf
  have hnavigation' : next.isNavigation = false := by
    cases next <;> first | rfl | cases hnext
  cases intent with
  | run ids => exact hnavigation'
  | compaction instructions =>
    obtain ⟨other, hoth, hresumes⟩ := h
    rw [hleaf] at hoth
    cases hoth
    exact ⟨task, hnext, hresumes⟩
  | navigation target summarize label instructions =>
    obtain h | ⟨hsummarize, other, hoth, hresumes⟩ := h
    · rw [hnavigation] at h
      cases h
    · rw [hleaf] at hoth
      cases hoth
      exact .inr ⟨hsummarize, task, hnext, hresumes⟩

/-- A summary in the middle of a run belongs to a run. -/
theorem OperationIntent.Admits.of_resumes (h : intent.Admits leaf)
    (hleaf : leaf.summaryTask = some task) (hresumes : task.resumes = true)
    (hnext : next.isNavigation = false) : intent.Admits next := by
  have hnavigation : leaf.isNavigation = false := by
    cases leaf <;> first | rfl | cases hleaf
  cases intent with
  | run ids => exact hnext
  | compaction instructions =>
    obtain ⟨other, hoth, hoth'⟩ := h
    rw [hleaf] at hoth
    cases hoth
    rw [hresumes] at hoth'
    cases hoth'
  | navigation target summarize label instructions =>
    obtain h | ⟨_, other, hoth, hoth'⟩ := h
    · rw [hnavigation] at h
      cases h
    · rw [hleaf] at hoth
      cases hoth
      rw [hresumes] at hoth'
      cases hoth'

/-! ## What a publication stores -/

/-- The operation a publication is made for. -/
def Publish.operation : Publish M → Option Operation
  | transition operation _ _ _ => some operation
  | injectedMessages _ => none
  | runFollowUp operation _ _ _ => some operation
  | assistant operation _ => some operation
  | toolResults operation _ _ _ => some operation
  | drainInbox operation _ => some operation
  | settle operation _ _ _ => some operation
  | navigation operation _ _ _ => some operation
  | compaction operation _ _ _ => some operation
  | branchSummary operation _ _ _ _ _ _ _ => some operation
  | stageToolOutput _ _ _ => none

/-- The leaf a publication stores, and the leaf it is made from. -/
inductive Publish.Stores : Publish M → OperationState → OperationState → Prop
  | transition (operation : Operation) (purpose : String) (state : OperationState)
      (writes : List (Write M)) :
      Stores (.transition operation purpose state writes) operation.state state
  | runFollowUp (operation : Operation) (id : EntryId) (message : AgentMessage M)
      (state : OperationState) :
      Stores (.runFollowUp operation id message state) operation.state state
  | assistant (operation : Operation) (commit : AssistantCommit M) :
      Stores (.assistant operation commit) commit.pending commit.nextState
  | toolResults (operation : Operation) (batch : ToolBatch)
      (results : List (ToolResultMessage M)) (terminate : Bool) (trigger : EntryId) :
      Stores (.toolResults operation batch results terminate) operation.state
        (toolResultsState operation batch terminate trigger)
  | compaction (operation : Operation) (generation : SummaryGenerationScope)
      (request : SummaryRequestRef) (result : SummaryResult M) {next : OperationState}
      (h : compactionCheckpoint operation generation = some next) :
      Stores (.compaction operation generation request result) operation.state next
  | branchSummary (operation : Operation) (oldTip fromId : Option EntryId)
      (generation : SummaryGenerationScope) (request : SummaryRequestRef)
      (result : SummaryResult M) (target : Option EntryId) (label : Option String) :
      Stores (.branchSummary operation oldTip fromId generation request result target label)
        operation.state (.navigationReadyToCommit operation.state.scope target label)

/-- What a transition writes beside its leaf. -/
def Publish.extraWrites : Publish M → List (Write M)
  | transition _ _ _ writes => writes
  | _ => []

/-- A leaf made from a copy of the operation an origin has. -/
structure Carries (origin : Operation) (base next : OperationState) : Prop where
  control : next.control = base.control
  intent : origin.info.intent.Admits origin.state → origin.info.intent.Admits next

/-- What a procedure started with an operation can publish; the operations it works on are that
one or have been read since. -/
structure Publish.Follows (Good : Operation → Prop) (origin : Operation)
    (publication : Publish M) : Prop where
  operation : ∀ operation, publication.operation = some operation → Good operation
  stores : ∀ base next, publication.Stores base next → Carries origin base next
  writes : ∀ write ∈ publication.extraWrites,
    ∃ id task preparation, write = .operationPreparation id task preparation

/-- The operation a write keeps something for, its result aside. -/
def Write.keptFor : Write M → Option OperationId
  | operationMeta id _ => some id
  | operationState id _ => some id
  | operationPreparation id _ _ => some id
  | pendingToolOutput id _ _ => some id
  | _ => none

/-- The operations a publication keeps something for. -/
def Publish.keepsFor : Publish M → List OperationId
  | transition operation _ _ writes =>
    operation.info.operationId :: writes.filterMap Write.keptFor
  | runFollowUp operation _ _ _ => [operation.info.operationId]
  | assistant operation _ => [operation.info.operationId]
  | toolResults operation _ _ _ => [operation.info.operationId]
  | compaction operation _ _ _ => [operation.info.operationId]
  | branchSummary operation _ _ _ _ _ _ _ => [operation.info.operationId]
  | stageToolOutput id _ _ => [id]
  | _ => []

/-- Whether a publication settles its operation. -/
def Publish.settles : Publish M → Bool
  | settle _ _ _ _ => true
  | navigation _ _ _ _ => true
  | _ => false

/-! ## Rules

The state of the rules says whether the operation has been settled since the lane was read. -/

/-- What is kept is kept for good operations. -/
def Publish.Keeps (Good : Operation → Prop) (publication : Publish M) : Prop :=
  ∀ id ∈ publication.keepsFor, ∃ operation, Good operation ∧ operation.info.operationId = id

/-- Only what is allowed is published, and nothing after a settlement; the operations that are
read are good. -/
def publishing (Good : Operation → Prop) (Allowed : Publish M → Prop) :
    Program.Rules (Request M) Request.Answer Bool
  | .publish publication, K, closed =>
    closed = false ∧ (Allowed publication ∧ publication.Keeps Good) ∧
      ∀ answer, K answer publication.settles
  | .operation, K, closed =>
    ∀ answer : Option Operation × Option OperationId,
      (∀ operation, answer.1 = some operation → Good operation) → K answer closed
  | _, K, closed => ∀ answer, K answer closed

theorem publishing_mono {Good : Operation → Prop} {Allowed Allowed' : Publish M → Prop}
    (h : ∀ p, Allowed p → Allowed' p) :
    (publishing Good Allowed).Entails (publishing Good Allowed') := by
  intro question K K' closed hK hneeds
  cases question with
  | publish p =>
    exact ⟨hneeds.1, ⟨h _ hneeds.2.1.1, hneeds.2.1.2⟩, fun ans => hK _ _ (hneeds.2.2 ans)⟩
  | operation => exact fun ans hans => hK _ _ (hneeds ans hans)
  | _ => exact fun ans => hK _ _ (hneeds ans)

/-- A procedure that publishes as its operation allows. -/
abbrev Publishes {V : Type} (Good : Operation → Prop) (origin : Operation)
    (procedure : Procedure M V) (closed : Bool) (Q : V → Bool → Prop) : Prop :=
  procedure.wp (publishing Good fun publication => publication.Follows Good origin) Q
    (fun _ _ => True) closed

/-- Nothing has been settled yet. -/
abbrev Unsettled {V : Type} : V → Bool → Prop := fun _ closed => closed = false

abbrev Whatever {V : Type} : V → Bool → Prop := fun _ _ => True

section Procedures

variable {V T : Type} {Good : Operation → Prop} {origin op : Operation} {closed : Bool}
  {Q : V → Bool → Prop} {R : T → Bool → Prop} {procedure : Procedure M V}

theorem publishing_bind {Allowed : Publish M → Prop} {f : V → Procedure M T}
    (h : procedure.wp (publishing Good Allowed) Q (fun _ _ => True) closed)
    (hf : ∀ res closed, Q res closed →
      (f res).wp (publishing Good Allowed) R (fun _ _ => True) closed) :
    (procedure >>= f).wp (publishing Good Allowed) R (fun _ _ => True) closed := by
  rw [Program.wp_bind]
  exact Program.wp_mono (publishing_mono fun _ h => h) hf (fun _ _ _ => trivial) h

theorem Publishes.bind {f : V → Procedure M T} (h : Publishes Good origin procedure closed Q)
    (hf : ∀ res closed, Q res closed → Publishes Good origin (f res) closed R) :
    Publishes Good origin (procedure >>= f) closed R :=
  publishing_bind h hf

/-- A procedure that settles nothing, and what follows it. -/
theorem Publishes.andThen {f : V → Procedure M T}
    (h : Publishes Good origin procedure closed Unsettled)
    (hf : ∀ res, Publishes Good origin (f res) false R) :
    Publishes Good origin (procedure >>= f) closed R :=
  h.bind fun res _ hshut => hshut ▸ hf res

/-! ## Single steps -/

theorem publishes_consult {question : Question} {f : question.Answer M → Procedure M V}
    (hf : ∀ ans, Publishes Good origin (f ans) closed Q) :
    Publishes Good origin (consult question >>= f) closed Q := hf

/-- Questions that are neither publications nor about the current operation. -/
def Request.isPlain : Request M → Bool
  | .publish _ => false
  | .operation => false
  | _ => true

variable {f : Unit → Procedure M V} {id : EntryId} {text : String}

theorem publishes_request {question : Request M} {f : question.Answer → Procedure M V}
    (h : question.isPlain = true) (hf : ∀ ans, Publishes Good origin (f ans) closed Q) :
    Publishes Good origin (request question >>= f) closed Q := by
  cases question with
  | publish | operation => cases h
  | _ => exact hf

/-- A publication for an operation that keeps nothing beside it. -/
theorem publishes_publish {p : Publish M} {f : p.Answer → Procedure M V}
    (hop : p.operation = some op) (hwr : p.extraWrites = [])
    (hgood : Good op)
    (hsts : ∀ base next, p.Stores base next → Carries origin base next)
    (hf : ∀ ans, Publishes Good origin (f ans) p.settles Q) :
    Publishes Good origin (publish p >>= f) false Q := by
  refine ⟨rfl, ⟨⟨?_, hsts, by simp [hwr]⟩, ?_⟩, hf⟩
  · intro other hoth
    exact Option.some.inj (hop.symm.trans hoth) ▸ hgood
  · intro id hid
    refine ⟨op, hgood, ?_⟩
    cases p <;> cases hop <;> simp_all [Publish.keepsFor, Publish.extraWrites]

theorem publishes_orFail {ans : Except HarnessError T} {f : T → Procedure M V}
    (hf : ∀ res, ans = .ok res → Publishes Good origin (f res) closed Q) :
    Publishes Good origin (orFail ans >>= f) closed Q := by
  cases ans with
  | ok res => exact hf res rfl
  | error error => trivial

theorem publishes_transition {state : OperationState} (hgood : Good op)
    (hcarries : Carries origin op.state state)
    (hf : Publishes Good origin (f ()) false Q) :
    Publishes Good origin (transition op state >>= f) false Q := by
  refine publishes_publish rfl rfl hgood ?_ fun _ => hf
  rintro _ _ ⟨⟩
  exact hcarries

theorem publishes_settle {status : TerminalStatus} {error : Option OperationError}
    {f : OperationResultRecord → Procedure M V} (hgood : Good op)
    (hf : ∀ record, Publishes Good origin (f record) true Q) :
    Publishes Good origin (settle op status error >>= f) false Q :=
  publishes_consult fun _ => publishes_publish rfl rfl hgood (by rintro _ _ ⟨⟩) hf

theorem publishes_settleFailure {code : String} {Q : DriveStep M → Bool → Prop}
    (hgood : Good op) (hQ : ∀ record, Q (.settled record) true) :
    Publishes Good origin (settleFailure op code text) false Q :=
  publishes_settle hgood hQ

theorem publishes_currentOperation {f : Option Operation → Procedure M V}
    (hf : ∀ cur, (∀ op, cur = some op → Good op) → Publishes Good origin (f cur) closed Q) :
    Publishes Good origin (currentOperation >>= f) closed Q :=
  fun ans hans => hf ans.1 hans

theorem publishes_boundaryCancelled {f : Bool → Procedure M V}
    (hf : ∀ cancelled, Publishes Good origin (f cancelled) closed Q) :
    Publishes Good origin (boundaryCancelled >>= f) closed Q := by
  refine publishes_consult fun cancelled => ?_
  cases cancelled with
  | true => exact hf true
  | false => exact publishes_currentOperation fun cur _ => hf _

theorem publishes_requireEntry (hf : Publishes Good origin (f ()) closed Q) :
    Publishes Good origin (requireEntry id text >>= f) closed Q := by
  refine publishes_request rfl fun entry => ?_
  cases entry with
  | none => trivial
  | some entry => exact hf

theorem publishes_requireEntries {ids : List EntryId} (hf : Publishes Good origin (f ()) closed Q) :
    Publishes Good origin (requireEntries text ids >>= f) closed Q := by
  induction ids with
  | nil => exact hf
  | cons id ids ih =>
    refine publishes_request rfl fun entry => ?_
    cases entry with
    | none => trivial
    | some entry => exact ih

theorem publishes_withNewIds {X : Type} {items : List X} :
    Publishes Good origin (withNewIds items : Procedure M _) false Unsettled := by
  induction items with
  | nil => rfl
  | cons item items ih => exact publishes_request rfl fun id => ih.andThen fun _ => rfl

/-! ## Responses -/

/-- A leaf of a run that keeps a control flag. -/
def RunLeaf (control : Control) (leaf : OperationState) : Prop :=
  leaf.control = control ∧ leaf.isNavigation = false

variable {calls : List (Nat × Agent.ToolCall M)} {pend : OperationState} {msg : AssistantMessage M}

variable {next : ResponseTransition}

theorem publishes_errorResponseContext :
    Publishes Good origin (errorResponseContext pend : Procedure M _) false Unsettled := by
  cases pend with
  | assistantEffectPending scope context attempt response usage limit window => rfl
  | deferredEffectPending deferred response usage =>
    exact publishes_consult fun policy => publishes_orFail fun _ _ => rfl
  | _ => trivial

theorem lengthResponseState_runLeaf (h : lengthResponseState pend id = .ok next) :
    RunLeaf pend.control next.nextState := by
  cases pend with
  | assistantEffectPending scope context attempt response usage limit window =>
    simp only [lengthResponseState] at h
    split_ifs at h
    · cases h
      exact ⟨rfl, rfl⟩
    · cases h
      exact ⟨rfl, rfl⟩
  | deferredEffectPending deferred response usage =>
    cases h
    exact ⟨rfl, rfl⟩
  | _ => cases h

theorem deferredResponseState_runLeaf (h : deferredResponseState pend msg id = .ok next) :
    RunLeaf pend.control next.nextState := by
  cases hdeferred : msg.deferred with
  | none =>
    simp only [deferredResponseState, hdeferred] at h
    cases h
  | some handle =>
    simp only [deferredResponseState, hdeferred] at h
    cases pend with
    | assistantEffectPending | deferredEffectPending =>
      cases h
      exact ⟨rfl, rfl⟩
    | _ => cases h

theorem publishes_assistantResponseState :
    Publishes Good origin (assistantResponseState pend msg calls id) false
      fun next closed => RunLeaf pend.control next.nextState ∧ closed = false := by
  rw [assistantResponseState.eq_def]
  split
  · refine publishes_errorResponseContext.andThen fun context => ?_
    by_cases hattempt : pendingAttempt pend < context.retryPolicy.maxAttempts
    · rw [if_pos hattempt]
      exact publishes_consult fun now => publishes_orFail fun retry _ => ⟨⟨rfl, rfl⟩, rfl⟩
    · rw [if_neg hattempt]
      exact ⟨⟨rfl, rfl⟩, rfl⟩
  · cases h : lengthResponseState pend id with
    | error error => trivial
    | ok next => exact ⟨lengthResponseState_runLeaf h, rfl⟩
  · cases h : deferredResponseState pend msg id with
    | error error => trivial
    | ok next => exact ⟨deferredResponseState_runLeaf h, rfl⟩
  · split_ifs
    · exact ⟨⟨rfl, rfl⟩, rfl⟩
    · exact publishes_orFail fun _ _ => publishes_withNewIds.andThen fun _ => ⟨⟨rfl, rfl⟩, rfl⟩
  · exact ⟨⟨rfl, rfl⟩, rfl⟩

/-- A leaf that only runs have. -/
def OperationState.BelongsToRun (leaf : OperationState) : Prop :=
  leaf.isSummary = false ∧ leaf.isNavigation = false

theorem RunLeaf.carries {base next : OperationState} (h : RunLeaf base.control next)
    (horigin : origin.state.BelongsToRun) : Carries origin base next where
  control := h.1
  intent hads := hads.of_run horigin.1 horigin.2 h.2

/-- A response settles its run only if the run fails with it. -/
theorem publishes_commitAssistant {commit : AssistantCommit M} (hgood : Good op)
    (hcarries : Carries origin commit.pending commit.nextState) :
    Publishes Good origin (commitAssistant op commit) false
      fun _ closed => closed = true → commit.status = .failed := by
  refine publishes_publish rfl rfl hgood ?_ fun _ => publishes_requireEntry ?_
  · rintro _ _ ⟨⟩
    exact hcarries
  · split_ifs with hfail
    · exact publishes_settle (f := pure) hgood fun _ _ => hfail.1
    · exact publishes_consult fun _ hshut => by cases hshut

theorem publishes_publishResponse (hgood : Good op) (horigin : origin.state.BelongsToRun) :
    Publishes Good origin (publishResponse op pend msg) false Whatever := by
  refine publishes_orFail fun responseId _ => publishes_orFail fun usageId _ => ?_
  apply publishes_assistantResponseState.bind
  rintro next _ ⟨hnext, rfl⟩
  refine (publishes_commitAssistant hgood (hnext.carries horigin)).bind fun record closed _ => ?_
  split_ifs
  · trivial
  · split <;> trivial
  · refine publishes_currentOperation fun cur _ => ?_
    cases cur with
    | none => trivial
    | some cur => dsimp only; split <;> trivial
  · trivial

/-! ## Aborts and interruptions -/

variable {context : GenerationContext}

theorem publishes_recoveredAssistant :
    Publishes Good origin (recoveredAssistant context : Procedure M _) false Unsettled := by
  refine publishes_consult fun frames => publishes_orFail fun received _ => ?_
  cases received with
  | none =>
    refine publishes_consult fun now => ?_
    cases context.configuration.model.api with
    | some api => rfl
    | none => exact publishes_consult fun _ => rfl
  | some received => exact publishes_consult fun _ => rfl

theorem publishes_recoverAssistantEffect (hgood : Good op)
    (horigin : op.state.isAssistantEffectPending = true → origin.state.BelongsToRun) :
    Publishes Good origin (recoverAssistantEffect op : Procedure M _) false Whatever := by
  rw [recoverAssistantEffect.eq_def]
  split
  · next scope context attempt responseId usageId limit window hstate =>
      have hrun := horigin (by rw [hstate]; rfl)
      refine publishes_recoveredAssistant.andThen fun response => ?_
      cases response with
      | none => exact publishes_settleFailure hgood fun _ => trivial
      | some response =>
        refine (publishes_commitAssistant hgood ?_).bind fun _ closed hshut => ?_
        · exact RunLeaf.carries ⟨rfl, rfl⟩ hrun
        · cases closed with
          | true => cases hshut rfl
          | false => exact publishes_settle hgood fun _ => trivial
  · trivial

theorem publishes_reconcileAbort (hgood : Good op)
    (horigin : op.state.isAssistantEffectPending = true → origin.state.BelongsToRun) :
    Publishes Good origin (reconcileAbort op : Procedure M _) false Whatever := by
  rw [reconcileAbort]
  split_ifs
  · exact publishes_consult fun _ => publishes_recoverAssistantEffect hgood horigin
  · exact publishes_consult fun _ => publishes_settle hgood fun _ => trivial
  · exact publishes_recoverAssistantEffect hgood horigin
  · exact publishes_settle hgood fun _ => trivial

theorem publishes_publishToCurrent {what : String} (hgood : Good op)
    (horigin : origin.state.BelongsToRun) :
    Publishes Good origin (publishToCurrent op what msg) false Whatever := by
  refine publishes_currentOperation fun cur hcur => ?_
  cases cur with
  | none => trivial
  | some pend =>
    dsimp only
    split_ifs
    · exact publishes_orFail fun _ _ => publishes_settle (hcur pend rfl) fun _ => trivial
    · exact publishes_publishResponse hgood horigin

/-! ## Runs -/

variable {trigger : EntryId} {final : Bool}

variable {leaf : OperationState} {used : Bool}

/-- A leaf of a run made from the operation at hand. -/
theorem carries_scope (horigin : origin.state.BelongsToRun)
    (hscope : leaf.scope = op.state.scope) (hleaf : leaf.isNavigation = false) :
    Carries origin op.state leaf := by
  apply RunLeaf.carries _ horigin
  exact ⟨by rw [OperationState.control, hscope, OperationState.control], hleaf⟩

theorem publishes_injectMessages :
    Publishes Good origin (injectMessages op : Procedure M _) false Unsettled := by
  rw [injectMessages.eq_def]
  split
  · refine publishes_consult fun ans => publishes_orFail fun messages _ => ?_
    cases messages with
    | none => rfl
    | some messages =>
      refine publishes_withNewIds.andThen fun messages => ?_
      refine ⟨rfl, ⟨⟨by rintro _ ⟨⟩, by rintro _ _ ⟨⟩, ?_⟩, ?_⟩, fun _ => rfl⟩
      · exact fun _ hwrt => absurd hwrt not_mem_nil
      · exact fun _ hid => absurd hid not_mem_nil
  · rfl

theorem publishes_generationContext :
    Publishes Good origin (generationContext op trigger used : Procedure M _) false Unsettled :=
  publishes_request rfl fun _ => publishes_consult fun _ => publishes_orFail fun _ _ => rfl

theorem publishes_drainedTrigger {drained : InboxDrain M} :
    Publishes Good origin (drainedTrigger drained trigger) false Unsettled := by
  rw [drainedTrigger.eq_def]
  split
  · rfl
  · refine publishes_request rfl fun tip => ?_
    cases tip with
    | none => trivial
    | some tip => rfl

variable {attempt : U64}

theorem publishes_fault : Publishes Good origin (do
      let error ← request (.fault text)
      Program.fail error : Procedure M V) closed Q :=
  publishes_request rfl fun _ => trivial

section

variable (hgood : Good op) (horigin : origin.state.BelongsToRun)

include hgood horigin

theorem publishes_startRun :
    Publishes Good origin (startRun op : Procedure M _) false Whatever := by
  refine publishes_injectMessages.andThen fun _ => publishes_request rfl fun tip => ?_
  cases tip with
  | none => trivial
  | some trigger =>
    exact publishes_transition hgood (carries_scope horigin rfl rfl) trivial

theorem publishes_renewAssistantReady :
    Publishes Good origin (renewAssistantReady op trigger used : Procedure M _) false Whatever :=
  publishes_generationContext.andThen fun _ =>
    publishes_transition hgood (carries_scope horigin rfl rfl) trivial

/-- A compaction settles its run only in place of going on. -/
theorem publishes_maybeStartCompaction {force : Bool} :
    Publishes Good origin (maybeStartCompaction op trigger force : Procedure M _) false
      fun step closed => step = none → closed = false := by
  have hfailure (code msg : String) : Publishes Good origin (do
      let step ← settleFailure op code msg
      pure (some step) : Procedure M (Option (DriveStep M))) false
        fun step closed => step = none → closed = false :=
    (publishes_settleFailure (Q := Whatever) hgood fun _ => trivial).bind
      fun _ _ _ hnone => by cases hnone
  rw [maybeStartCompaction]
  split_ifs
  · refine publishes_consult fun choice => ?_
    cases choice with
    | modelUnavailable => exact publishes_request rfl fun configuration => hfailure _ _
    | skip => exact fun _ => rfl
    | failed code msg => exact hfailure code msg
    | error error => trivial
    | prepared prep =>
      refine ⟨rfl, ⟨⟨?_, ?_, ?_⟩, ?_⟩, fun _ _ => rfl⟩
      · rintro _ ⟨⟩
        exact hgood
      · rintro _ _ ⟨⟩
        exact carries_scope horigin rfl rfl
      · exact fun write hwrt => ⟨_, _, prep, mem_singleton.mp hwrt⟩
      · intro id hid
        simp only [Publish.keepsFor, filterMap_cons, Write.keptFor, filterMap_nil,
          mem_cons, not_mem_nil, or_false, or_self] at hid
        exact ⟨op, hgood, hid.symm⟩
  · exact fun _ => rfl

theorem publishes_appendRunFollowUp {followUp : AgentMessage M} :
    Publishes Good origin (appendRunFollowUp op followUp) false Whatever := by
  refine publishes_request rfl fun id => publishes_generationContext.andThen fun context => ?_
  refine publishes_publish rfl rfl hgood ?_ fun _ => publishes_requireEntry trivial
  rintro _ _ ⟨⟩
  exact carries_scope horigin rfl rfl

omit horigin in
theorem publishes_completeRun :
    Publishes Good origin (completeRun op final : Procedure M _) false Whatever := by
  refine publishes_request rfl fun tip => ?_
  cases tip with
  | none => trivial
  | some tip =>
    dsimp only
    split_ifs
    · trivial
    · exact publishes_settle hgood fun _ => trivial

omit horigin in
theorem publishes_drainInbox {projectors : List String} {f : InboxDrain M → Procedure M V}
    (hf : ∀ drained, Publishes Good origin (f drained) false Q) :
    Publishes Good origin (publish (.drainInbox op projectors) >>= f) false Q :=
  publishes_publish rfl rfl hgood (by rintro _ _ ⟨⟩) hf

theorem publishes_finishAfterHook {followUp : Option (AgentMessage M)} :
    Publishes Good origin (finishAfterHook op final followUp) false Whatever := by
  refine publishes_boundaryCancelled fun cancelled => ?_
  cases cancelled with
  | true => trivial
  | false =>
    refine publishes_consult fun projectors => publishes_drainInbox hgood fun redrain => ?_
    cases redrain.trigger with
    | some trigger => exact publishes_renewAssistantReady hgood horigin
    | none =>
      dsimp only
      split
      · exact publishes_appendRunFollowUp hgood horigin
      · exact publishes_completeRun hgood

theorem publishes_finishRunBoundary :
    Publishes Good origin (finishRunBoundary op final : Procedure M _) false Whatever := by
  refine publishes_boundaryCancelled fun cancelled => ?_
  cases cancelled with
  | true => trivial
  | false =>
    refine publishes_consult fun hook => ?_
    cases hook with
    | answered followUp => exact publishes_finishAfterHook hgood horigin
    | aborted => exact publishes_reconcileAbort hgood fun _ => horigin
    | failed error => trivial

theorem publishes_compactOrRenew (force : Bool) : Publishes Good origin (do
      match ← maybeStartCompaction op trigger force with
      | some step => pure step
      | none => renewAssistantReady op trigger used : Procedure M (DriveStep M)) false
      Whatever := by
  refine (publishes_maybeStartCompaction hgood horigin).bind fun step closed hshut => ?_
  cases step with
  | some step => trivial
  | none =>
    rw [hshut rfl]
    exact publishes_renewAssistantReady hgood horigin

theorem publishes_continueRun :
    Publishes Good origin (continueRun op trigger used : Procedure M _) false Whatever := by
  rw [continueRun]
  split_ifs
  · refine publishes_request rfl fun entry => ?_
    cases entry with
    | none => trivial
    | some entry => exact publishes_compactOrRenew hgood horigin _
  · exact publishes_compactOrRenew hgood horigin false

theorem publishes_checkpoint :
    Publishes Good origin (checkpoint op : Procedure M _) false Whatever := by
  rw [checkpoint.eq_def]
  split
  · refine publishes_consult fun projectors => publishes_drainInbox hgood fun drained => ?_
    refine publishes_drainedTrigger.andThen fun trigger => ?_
    split
    · exact publishes_continueRun hgood horigin
    · split
      · exact publishes_renewAssistantReady hgood horigin
      · exact publishes_finishRunBoundary hgood horigin
  · trivial

/-! ## Generation -/

theorem publishes_providerFailure :
    Publishes Good origin (providerFailure op context attempt text : Procedure M _) false
      Whatever := by
  refine publishes_boundaryCancelled fun cancelled => ?_
  cases cancelled with
  | true => exact publishes_reconcileAbort hgood fun _ => horigin
  | false =>
    rw [if_neg Bool.false_ne_true]
    split_ifs
    · refine publishes_consult fun now => publishes_orFail fun retry _ => ?_
      exact publishes_transition hgood (carries_scope horigin rfl rfl) trivial
    · exact publishes_settleFailure hgood fun _ => trivial

theorem publishes_requestResponse {model : ModelLimits} :
    Publishes Good origin (requestResponse op context attempt model : Procedure M _) false
      Whatever := by
  refine publishes_request rfl fun responseId => publishes_request rfl fun usageId => ?_
  refine publishes_transition hgood (carries_scope horigin rfl rfl) ?_
  refine publishes_consult fun ans => ?_
  cases ans with
  | response msg => exact publishes_publishToCurrent hgood horigin
  | aborted => exact publishes_reconcileAbort hgood fun _ => horigin
  | closed msg => trivial
  | fault msg => exact publishes_fault
  | preparation error text => exact publishes_settleFailure hgood fun _ => trivial
  | provider msg => exact publishes_providerFailure hgood horigin

theorem publishes_generation :
    Publishes Good origin (generation op : Procedure M _) false Whatever := by
  rw [generation.eq_def]
  split
  · refine publishes_consult fun model => ?_
    cases model with
    | none => exact publishes_settleFailure hgood fun _ => trivial
    | some model =>
      refine publishes_consult fun context => publishes_orFail fun _ _ => ?_
      refine publishes_consult fun hook => ?_
      cases hook with
      | aborted => exact publishes_reconcileAbort hgood fun _ => horigin
      | failed error => trivial
      | answered _ => exact publishes_requestResponse hgood horigin
  · trivial

end

/-- A retry keeps the scope of the leaf that waited. -/
theorem publishes_resume {wait : Bool} {notBefore : Int} {next : OperationState}
    (hgood : Good op) (hcarries : Carries origin op.state next)
    (horigin : op.state.isAssistantEffectPending = false) :
    Publishes Good origin (do
      if wait then do
        let cancelled ← consult .retryTimer
        if cancelled then reconcileAbort op
        else do
          transition op next
          pure .proceed
      else pure (.waitingRetry notBefore) : Procedure M (DriveStep M)) false Whatever := by
  split_ifs
  · refine publishes_consult fun cancelled => ?_
    cases cancelled with
    | true =>
      refine publishes_reconcileAbort hgood fun hpend => ?_
      rw [horigin] at hpend
      cases hpend
    | false => exact publishes_transition hgood hcarries trivial
  · trivial

theorem publishes_retryWait {wait : Bool} (hgood : Good origin) :
    Publishes Good origin (retryWait origin wait : Procedure M _) false Whatever := by
  rw [retryWait.eq_def]
  dsimp only
  split
  · next scope context retry hstate =>
      refine publishes_resume hgood ?_ (by rw [hstate]; rfl)
      rw [hstate]
      exact ⟨rfl, fun hads => hads.of_run (by rw [hstate]; rfl) (by rw [hstate]; rfl) rfl⟩
  · next scope generation retry hstate =>
      refine publishes_resume hgood ?_ (by rw [hstate]; rfl)
      rw [hstate]
      exact ⟨rfl, fun hads => hads.of_summary (by rw [hstate]; rfl) rfl⟩
  · trivial

/-! ## Deferred responses -/

variable {deferred : DeferredScope}

theorem publishes_deferredHandle :
    Publishes Good origin (deferredHandle deferred : Procedure M M) false Unsettled := by
  refine publishes_request rfl fun entry => ?_
  cases entry with
  | none => trivial
  | some entry =>
    dsimp only
    cases assistantMessage entry with
    | none => trivial
    | some msg =>
      dsimp only
      cases msg.deferred with
      | none => trivial
      | some handle => rfl

theorem publishes_pollDeferred (hgood : Good op)
    (hscope : deferred.scope = op.state.scope) (horigin : origin.state.BelongsToRun) :
    Publishes Good origin (pollDeferred op deferred : Procedure M _) false Whatever := by
  refine publishes_consult fun hook => ?_
  cases hook with
  | aborted => exact publishes_reconcileAbort hgood fun _ => horigin
  | failed error => trivial
  | answered _ =>
    refine publishes_request rfl fun responseId => publishes_request rfl fun usageId => ?_
    refine publishes_transition hgood (carries_scope horigin hscope rfl) ?_
    refine publishes_consult fun ans => ?_
    cases ans with
    | response msg => exact publishes_publishToCurrent hgood horigin
    | aborted => exact publishes_reconcileAbort hgood fun _ => horigin
    | closed | preparation => trivial
    | fault | provider => exact publishes_fault

theorem publishes_requireDeferredModel (hf : Publishes Good origin (f ()) closed Q) :
    Publishes Good origin (requireDeferredModel deferred >>= f) closed Q := by
  refine publishes_consult fun model => ?_
  cases model with
  | none => trivial
  | some model => exact hf

theorem publishes_deferredSuspended {poll : Bool} (hgood : Good op)
    (horigin : origin.state.BelongsToRun) :
    Publishes Good origin (deferredSuspended op poll : Procedure M _) false Whatever := by
  rw [deferredSuspended.eq_def]
  split
  · next deferred hstate =>
      refine publishes_deferredHandle.andThen fun handle => ?_
      split_ifs
      · refine publishes_requireDeferredModel ?_
        exact publishes_pollDeferred hgood (by rw [hstate]; rfl) horigin
      · exact publishes_requireDeferredModel trivial
      · trivial
  · trivial

theorem publishes_recoverDeferredEffect {poll : Bool} (hgood : Good op)
    (horigin : origin.state.BelongsToRun) :
    Publishes Good origin (recoverDeferredEffect op poll : Procedure M _) false Whatever := by
  rw [recoverDeferredEffect.eq_def]
  split
  · next deferred response usage hstate =>
      refine publishes_deferredHandle.andThen fun handle => ?_
      split_ifs
      · refine publishes_requireDeferredModel ?_
        exact publishes_pollDeferred hgood (by rw [hstate]; rfl) horigin
      · trivial
  · trivial

/-! ## Tools -/

variable {batch : ToolBatch} {call : Agent.ToolCall M} {terminate : Bool} {record : ToolCall}

variable {results : List (ToolResultMessage M)}

theorem publishes_finishTool [Inhabited M] {outcome : ToolOutcome M} :
    Publishes Good origin (finishTool call outcome) false Unsettled :=
  publishes_orFail fun _ _ => publishes_consult fun _ => rfl

theorem publishes_stageToolOutput {entry : EntryId} {value : StagedToolResult M}
    (hgood : Good op) (hf : Publishes Good origin (f ()) false Q) :
    Publishes Good origin
      (publish (.stageToolOutput op.info.operationId entry value) >>= f) false Q := by
  refine ⟨rfl, ⟨⟨by rintro _ ⟨⟩, by rintro _ _ ⟨⟩, ?_⟩, ?_⟩, fun _ => hf⟩
  · exact fun _ hwrt => absurd hwrt not_mem_nil
  · exact fun _ hid => ⟨op, hgood, (mem_singleton.mp hid).symm⟩

section

variable (hgood : Good op) (horigin : origin.state.BelongsToRun)

include hgood horigin

/-- A tool call settles its operation only in place of a result. -/
theorem publishes_runSequentialTool [Inhabited M] {index : Nat} :
    Publishes Good origin (runSequentialTool op batch index record call) false
      fun outcome closed => (∃ res terminate, outcome.1 = .ready res terminate) →
        closed = false := by
  have htools (batch : ToolBatch) : Carries origin op.state (toolsState op batch) :=
    RunLeaf.carries ⟨rfl, rfl⟩ horigin
  have hrecover : Publishes Good origin (recoverSequentialTool op record call) false
      fun outcome closed => (∃ res terminate, outcome = .ready res terminate) → closed = false := by
    refine publishes_request rfl fun staged => ?_
    cases staged with
    | none => exact publishes_settle hgood fun _ ⟨_, _, hrdy⟩ => by cases hrdy
    | some staged => exact publishes_consult fun _ _ => rfl
  rw [runSequentialTool]
  split_ifs
  · refine publishes_transition hgood (htools _) ?_
    refine publishes_request rfl fun _ => publishes_request rfl fun finished => ?_
    refine publishes_finishTool.andThen fun executed => publishes_stageToolOutput hgood ?_
    exact publishes_transition hgood (htools _) fun _ => rfl
  · exact hrecover.bind fun _ _ hshut => hshut

theorem publishes_commitToolResults :
    Publishes Good origin (commitToolResults op batch results terminate) false Whatever := by
  refine publishes_publish rfl rfl hgood ?_ fun _ => publishes_requireEntries trivial
  rintro _ _ ⟨⟩
  exact RunLeaf.carries ⟨rfl, rfl⟩ horigin

theorem publishes_sequentialTools [Inhabited M] :
    Publishes Good origin (sequentialTools op calls batch results terminate) false Whatever := by
  induction calls generalizing batch results terminate with
  | nil => exact publishes_commitToolResults hgood horigin
  | cons entry calls ih =>
    obtain ⟨source, call⟩ := entry
    rw [sequentialTools]
    cases batch.indexOf source with
    | none => trivial
    | some index =>
      dsimp only
      cases batch.calls[index]? with
      | none => trivial
      | some record =>
        refine (publishes_runSequentialTool hgood horigin).bind fun outcome closed hshut => ?_
        obtain ⟨⟨res, callTerminate⟩ | settled, batch⟩ := outcome
        · rw [hshut ⟨res, callTerminate, rfl⟩]
          exact ih
        · trivial

end

theorem publishes_startTools : Publishes Good origin (startTools batch calls) false Unsettled := by
  induction calls with
  | nil => rfl
  | cons entry calls ih =>
    obtain ⟨source, call⟩ := entry
    rw [startTools]
    cases batch.indexOf source with
    | none => trivial
    | some index =>
      dsimp only
      cases batch.calls[index]? with
      | none => trivial
      | some record => exact publishes_request rfl fun _ => ih.andThen fun _ => rfl

/-- The end of a call settles its operation only in place of a result. -/
theorem publishes_commitParallelToolResult {running : RunningTool M} {executed : ExecutedTool M}
    (hgood : Good op) (horigin : origin.state.BelongsToRun) :
    Publishes Good origin (commitParallelToolResult op batch running executed) false
      fun res closed => (∃ batch msg terminate, res = .ready batch msg terminate) →
        closed = false := by
  have hstep (cur : Operation) (hcur : Good cur) : Publishes Good origin (do
        let step ← reconcileAbort cur
        pure (.step step) : Procedure M (ParallelToolResult M)) false
        fun res closed =>
          (∃ batch msg terminate, res = .ready batch msg terminate) → closed = false :=
    (publishes_reconcileAbort hcur fun _ => horigin).bind
      fun _ _ _ ⟨_, _, _, hrdy⟩ => by cases hrdy
  refine publishes_boundaryCancelled fun cancelled => ?_
  cases cancelled with
  | true => exact hstep op hgood
  | false =>
    refine publishes_stageToolOutput hgood (publishes_currentOperation fun cur hcur => ?_)
    cases cur with
    | none => trivial
    | some cur =>
      have hgood' := hcur cur rfl
      dsimp only
      split_ifs
      · exact hstep cur hgood'
      · exact publishes_transition hgood' (RunLeaf.carries ⟨rfl, rfl⟩ horigin) fun _ => rfl

theorem publishes_finishParallelTools {results : List (Option (ToolResultMessage M))}
    (horigin : origin.state.BelongsToRun) :
    Publishes Good origin (finishParallelTools op batch results terminate) false Whatever := by
  rw [finishParallelTools]
  cases results.mapM id with
  | none => trivial
  | some results =>
    refine publishes_currentOperation fun cur hcur => ?_
    cases cur with
    | none => trivial
    | some cur =>
      have hgood := hcur cur rfl
      refine publishes_boundaryCancelled fun cancelled => ?_
      cases cancelled with
      | true => exact publishes_reconcileAbort hgood fun _ => horigin
      | false => exact publishes_commitToolResults hgood horigin

theorem publishes_collectTools [Inhabited M] {outstanding : Nat} {running : List (RunningTool M)}
    {results : List (Option (ToolResultMessage M))} (hgood : Good op)
    (horigin : origin.state.BelongsToRun) :
    Publishes Good origin (collectTools op outstanding running batch results terminate)
      false Whatever := by
  induction outstanding generalizing running batch results terminate with
  | zero => exact publishes_finishParallelTools horigin
  | succ outstanding ih =>
    refine publishes_request rfl fun finished => ?_
    obtain ⟨id, outcome⟩ := finished
    dsimp only
    split
    · trivial
    · refine publishes_finishTool.andThen fun executed => ?_
      refine (publishes_commitParallelToolResult hgood horigin).bind fun res closed hshut => ?_
      cases res with
      | step step => trivial
      | ready batch msg callTerminate =>
        rw [hshut ⟨batch, msg, callTerminate, rfl⟩]
        exact ih

theorem publishes_tools [Inhabited M] (hgood : Good op) (horigin : origin.state.BelongsToRun) :
    Publishes Good origin (tools op : Procedure M _) false Whatever := by
  rw [tools.eq_def]
  split
  · refine publishes_request rfl fun entry => ?_
    cases entry with
    | none => trivial
    | some entry =>
      dsimp only
      cases assistantMessage entry with
      | none => trivial
      | some assistant =>
        refine publishes_consult fun modes => ?_
        split_ifs
        · refine publishes_orFail fun batch _ =>
            publishes_transition hgood (RunLeaf.carries ⟨rfl, rfl⟩ horigin) ?_
          exact publishes_startTools.andThen fun running => publishes_collectTools hgood horigin
        · exact publishes_sequentialTools hgood horigin
  · trivial

/-! ## Summaries and navigations -/

variable {generation : SummaryGenerationScope}

variable {reserved : SummaryRequestRef} {res : SummaryResult M} {task : SummaryTask}

theorem publishes_navigation (hgood : Good op) :
    Publishes Good origin (navigation op : Procedure M _) false Whatever := by
  have hfinish (target : Option EntryId) (label : Option String) : Publishes Good origin (do
      let now ← consult .now
      let record ← publish (.navigation op target label now)
      pure (.settled record) : Procedure M (DriveStep M)) false Whatever :=
    publishes_consult fun now =>
      publishes_publish rfl rfl hgood (by rintro _ _ ⟨⟩) fun _ => trivial
  rw [navigation.eq_def]
  dsimp only
  split
  · exact hfinish _ _
  · refine publishes_request rfl fun entry => ?_
    cases entry with
    | none => trivial
    | some entry => exact hfinish _ _
  · trivial

theorem publishes_loadStructuralPreparation {task : String} :
    Publishes Good origin (loadStructuralPreparation op task : Procedure M _) false Unsettled := by
  refine publishes_request rfl fun prep => ?_
  cases prep with
  | none => trivial
  | some prep => rfl

/-- A leaf of the summary the origin is at. -/
theorem carries_summary (hscope : leaf.scope = op.state.scope)
    (horigin : origin.state.summaryTask = some task) (hleaf : leaf.summaryTask = some task) :
    Carries origin op.state leaf where
  control := by rw [OperationState.control, hscope, OperationState.control]
  intent hads := hads.of_summary horigin hleaf

theorem publishes_startSummaryGeneration (hgood : Good op)
    (horigin : origin.state.summaryTask = some task) :
    Publishes Good origin (startSummaryGeneration op task : Procedure M _) false Whatever := by
  refine publishes_loadStructuralPreparation.andThen fun prep => ?_
  split_ifs
  · refine publishes_consult fun configuration => publishes_consult fun model => ?_
    cases model with
    | none => exact publishes_settleFailure hgood fun _ => trivial
    | some model =>
      refine publishes_request rfl fun id => publishes_consult fun ans => ?_
      refine publishes_orFail fun policy _ => ?_
      exact publishes_transition hgood (carries_summary rfl horigin rfl) trivial
  · trivial

section

variable (hgood : Good op) (horigin : origin.state.summaryTask = some generation.task)

include hgood horigin

theorem publishes_ensureSummaryRequest :
    Publishes Good origin (ensureSummaryRequest op generation attempt : Procedure M _)
      false Unsettled := by
  rw [ensureSummaryRequest]
  cases op.state.summaryRequest with
  | some reserved => rfl
  | none =>
    refine publishes_request rfl fun usageId => ?_
    split_ifs
    · exact publishes_transition hgood (carries_summary rfl horigin rfl) rfl
    · trivial

theorem publishes_summaryFailure {code : String}
    (hpend : op.state.isAssistantEffectPending = false) :
    Publishes Good origin
      (summaryFailure op generation attempt code text : Procedure M _) false Whatever := by
  refine publishes_boundaryCancelled fun cancelled => ?_
  cases cancelled with
  | true =>
    refine publishes_reconcileAbort hgood fun hpend' => ?_
    rw [hpend] at hpend'
    cases hpend'
  | false =>
    rw [if_neg Bool.false_ne_true]
    split_ifs
    · refine publishes_consult fun now => publishes_orFail fun retry _ => ?_
      exact publishes_transition hgood (carries_summary rfl horigin rfl) trivial
    · exact publishes_settleFailure hgood fun _ => trivial

theorem publishes_commitCompaction :
    Publishes Good origin (commitCompaction op generation reserved res) false Whatever := by
  refine publishes_publish rfl rfl hgood ?_ fun _ => publishes_requireEntry ?_
  · intro base next hsts
    cases hsts with | compaction _ _ _ _ hnext =>
    rw [compactionCheckpoint.eq_def] at hnext
    split at hnext
    · next resumeAfter hbdry =>
        cases hnext
        refine ⟨rfl, fun hads => hads.of_resumes horigin ?_ rfl⟩
        rw [SummaryTask.resumes, hbdry]
    · cases hnext
  · split
    · trivial
    · exact publishes_settle hgood fun _ => trivial

end

theorem publishes_commitBranchSummary (hgood : Good origin) :
    Publishes Good origin (commitBranchSummary origin generation reserved res) false Whatever := by
  rw [commitBranchSummary.eq_def]
  split
  · next target label instructions hintent =>
      have hrest (tip fromId : Option EntryId) : Publishes Good origin (do
          publish (.branchSummary origin tip fromId generation reserved res target label)
          requireEntry generation.summaryContext.resultEntryId
            "branch summary entry was not committed"
          pure .proceed : Procedure M (DriveStep M)) false Whatever := by
        refine publishes_publish rfl rfl hgood ?_ fun _ => publishes_requireEntry trivial
        rintro _ _ ⟨⟩
        refine ⟨rfl, fun _ => ?_⟩
        rw [hintent]
        exact .inl rfl
      refine publishes_request rfl fun tip => ?_
      split
      · exact publishes_consult fun ans => publishes_orFail fun ancestor _ => hrest _ _
      · exact hrest _ _
  · trivial

theorem publishes_summarize (hgood : Good origin)
    (horigin : origin.state.summaryTask = some generation.task) :
    Publishes Good origin (summarize origin generation attempt : Procedure M _) false Whatever := by
  have hpend : origin.state.isAssistantEffectPending = false := by
    cases hstate : origin.state <;> rw [hstate] at horigin <;> first | rfl | cases horigin
  refine publishes_loadStructuralPreparation.andThen fun prep => ?_
  refine (publishes_ensureSummaryRequest hgood horigin).andThen fun reserved => ?_
  refine publishes_consult fun model => ?_
  cases model with
  | none => trivial
  | some model =>
    refine publishes_consult fun ans => ?_
    cases ans with
    | error failure => exact publishes_summaryFailure hgood horigin hpend
    | ok res =>
      cases prep with
      | compaction payload => exact publishes_commitCompaction hgood horigin
      | branchSummary payload => exact publishes_commitBranchSummary hgood

theorem publishes_structural (hgood : Good origin) :
    Publishes Good origin (structural origin : Procedure M _) false Whatever := by
  rw [structural.eq_def]
  split
  · next scope task hstate =>
      exact publishes_startSummaryGeneration hgood (by rw [hstate]; rfl)
  · next scope generation attempt hstate =>
      exact publishes_summarize hgood (by rw [hstate]; rfl)
  · next scope generation attempt request usageIds hstate =>
      exact publishes_summarize hgood (by rw [hstate]; rfl)
  · trivial

/-! ## Dispatch -/

variable {opts : DriveOptions}

theorem publishes_dispatchState [Inhabited M] (hgood : Good origin) :
    Publishes Good origin (dispatchState origin opts : Procedure M _) false Whatever := by
  have hrun {leaf : OperationState} (hstate : origin.state = leaf)
      (hleaf : leaf.BelongsToRun) : origin.state.BelongsToRun := hstate ▸ hleaf
  rw [dispatchState.eq_def]
  split <;> rename_i hstate
  · exact publishes_startRun hgood (hrun hstate ⟨rfl, rfl⟩)
  · exact publishes_checkpoint hgood (hrun hstate ⟨rfl, rfl⟩)
  · exact publishes_generation hgood (hrun hstate ⟨rfl, rfl⟩)
  · exact publishes_recoverAssistantEffect hgood fun _ => hrun hstate ⟨rfl, rfl⟩
  · exact publishes_retryWait hgood
  · exact publishes_retryWait hgood
  · exact publishes_tools hgood (hrun hstate ⟨rfl, rfl⟩)
  · exact publishes_deferredSuspended hgood (hrun hstate ⟨rfl, rfl⟩)
  · exact publishes_recoverDeferredEffect hgood (hrun hstate ⟨rfl, rfl⟩)
  · exact publishes_structural hgood
  · exact publishes_structural hgood
  · exact publishes_structural hgood
  · exact publishes_navigation hgood

theorem publishes_requireProgress {before : OperationState} :
    Publishes Good origin (requireProgress before : Procedure M _) closed Whatever := by
  refine publishes_currentOperation fun cur _ => ?_
  cases cur with
  | none => trivial
  | some cur =>
    dsimp only
    split_ifs <;> trivial

/-- A drive that has read an operation publishes as that operation allows. -/
theorem publishes_driveOperation [Inhabited M] (hgood : Good origin) :
    Publishes Good origin (driveOperation origin opts : Procedure M _) false Whatever := by
  rw [driveOperation]
  split_ifs
  · exact publishes_reconcileAbort hgood fun hpend => by
      cases hstate : origin.state <;> rw [hstate] at hpend <;>
        first | exact ⟨rfl, rfl⟩ | cases hpend
  · refine (publishes_dispatchState hgood).bind fun step closed _ => ?_
    cases step with
    | proceed => exact publishes_requireProgress.bind fun _ _ _ => trivial
    | _ => trivial

end Procedures

/-! ## Rounds -/

/-- What a drive can ask: publications of operations that are good. -/
def Request.Drives (Good : Operation → Prop) : Request M → Prop
  | .publish publication => ∃ origin, Good origin ∧ publication.Follows Good origin
  | _ => True

/-- What a drive can be told: the remembered operation is a good one. -/
def Told (Good : Operation → Prop) : (question : Request M) → question.Answer → Prop
  | .operation, (current, _) => ∀ operation, current = some operation → Good operation
  | _, _ => True

/-- A drive that publishes as its operations allow. -/
abbrev DrivesWell {V : Type} (Good : Operation → Prop) (procedure : Procedure M V) : Prop :=
  procedure.Asks (Request.Drives Good) (Told Good) fun _ => True

/-- Every round of a drive publishes as the operations it has read allow, and ends with its
settlement. -/
theorem publishes_driveRound [Inhabited M] {Good : Operation → Prop} {name : LaneName}
    {opts : DriveOptions} {first : Bool} :
    (driveRound name opts first : Procedure M _).wp
      (publishing Good fun p => (Request.publish p).Drives Good) Whatever
      (fun _ _ => True) false := by
  intro sealed
  cases sealed with
  | some error => trivial
  | none =>
    refine publishing_bind (Q := fun op closed => closed = false ∧ Good op) ?_ ?_
    · rintro ⟨cur, last⟩ hans
      cases cur with
      | none => trivial
      | some op =>
        dsimp only [Program.bind]
        split_ifs
        · exact ⟨rfl, hans op rfl⟩
        · trivial
    · rintro op _ ⟨rfl, hgood⟩
      have hdrv : (driveOperation op opts : Procedure M _).wp
          (publishing Good fun p => (Request.publish p).Drives Good) Whatever
          (fun _ _ => True) false :=
        Program.wp_mono (publishing_mono fun _ hfol => ⟨op, hgood, hfol⟩)
          (fun _ _ h => h) (fun _ _ h => h) (publishes_driveOperation hgood)
      cases first with
      | false => exact hdrv
      | true =>
        refine publishing_bind (Q := Unsettled) ?_ fun _ _ hshut => hshut ▸ hdrv
        rw [runBeforeDrive]
        split_ifs
        · rfl
        · intro hook
          cases hook with
          | ok _ => rfl
          | error error => trivial

/-- Every round of a drive publishes as the operations it has read allow. -/
theorem drivesWell_driveRound [Inhabited M] (Good : Operation → Prop) (name : LaneName)
    (opts : DriveOptions) (first : Bool) :
    DrivesWell Good (driveRound name opts first : Procedure M _) := by
  refine Program.asks_of_wp (fun question K closed hneeds => ?_)
    (@publishes_driveRound M _ Good name opts first)
  cases question with
  | publish p => exact ⟨hneeds.2.1.1, fun ans _ => ⟨_, hneeds.2.2 ans⟩⟩
  | operation => exact ⟨trivial, fun ans hans => ⟨_, hneeds ans hans⟩⟩
  | _ => exact ⟨trivial, fun ans _ => ⟨_, hneeds ans⟩⟩

end PiOxidized.Harness.Runtime
