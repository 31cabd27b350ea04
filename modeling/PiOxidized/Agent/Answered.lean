/-
# Every call of a batch is answered

A position of the log is untouched, open or closed.  The slots of a batch, ready or
pending, say which, and every step moves the two together.  A batch that returns has
closed each call it started; a sequential batch starts no call after one at whose end
the token had fired.
-/

import PiOxidized.Agent.Schedule
import PiOxidized.Math.Slots

namespace PiOxidized.Agent

open List Option Math

variable {R : Type}

/-! ## The log of one call -/

/-- Whether an event starts or ends an execution. -/
def AgentEvent.isExecution : AgentEvent R → Bool
  | toolExecutionStart _ _ _ => true
  | toolExecutionEnd _ _ _ _ => true
  | _ => false

/-- The starts and ends that were emitted for one position. -/
def lifecycle (log : List (Nat × AgentEvent R)) (position : Nat) : List (AgentEvent R) :=
  (log.filter fun entry => entry.1 == position && entry.2.isExecution).map Prod.snd

theorem lifecycle_append (log more : List (Nat × AgentEvent R)) (position : Nat) :
    lifecycle (log ++ more) position = lifecycle log position ++ lifecycle more position := by
  rw [lifecycle, filter_append, map_append]
  rfl

/-- Events that start and end nothing. -/
def Silent (events : List (Nat × AgentEvent R)) : Prop :=
  ∀ entry ∈ events, entry.2.isExecution = false

variable {event : AgentEvent R}

theorem Silent.append {events more : List (Nat × AgentEvent R)} (h : Silent events)
    (hmore : Silent more) : Silent (events ++ more) := by
  intro entry hent
  rcases mem_append.mp hent with hent | hent
  · exact h entry hent
  · exact hmore entry hent

theorem Silent.lifecycle_eq_nil {events : List (Nat × AgentEvent R)} (h : Silent events)
    (pos : Nat) : lifecycle events pos = [] := by
  rw [lifecycle, map_eq_nil_iff, filter_eq_nil_iff]
  intro entry hent
  simp [h entry hent]

theorem lifecycle_singleton_ne {pos other : Nat} (h : pos ≠ other) :
    lifecycle [(pos, event)] other = [] := by
  simp [lifecycle, h]

theorem lifecycle_singleton {pos : Nat} (h : event.isExecution = true) :
    lifecycle [(pos, event)] pos = [event] := by
  simp [lifecycle, h]

/-- The call of a slot. -/
def ParallelSlot.toolCall : ParallelSlot R → ToolCall R
  | ready finalized => finalized.toolCall
  | pending call => call

/-- What was emitted for the call of a slot. -/
def ParallelSlot.events : ParallelSlot R → List (AgentEvent R)
  | ready finalized => [toolExecutionStart finalized.toolCall, toolExecutionEnd finalized]
  | pending call => [toolExecutionStart call]

/-- The slots tell what was emitted for each of the first calls, and nothing was emitted
for the others. -/
structure Records (calls : List (ToolCall R)) (log : List (Nat × AgentEvent R))
    (slots : List (ParallelSlot R)) : Prop where
  call : ∀ (i : Nat) slot, slots[i]? = some slot → calls[i]? = some slot.toolCall
  kept : ∀ (i : Nat) slot, slots[i]? = some slot → lifecycle log i = slot.events
  rest : ∀ i : Nat, slots.length ≤ i → lifecycle log i = []

namespace Records

variable {calls : List (ToolCall R)} {log events : List (Nat × AgentEvent R)}
  {slots : List (ParallelSlot R)}

theorem nil (calls : List (ToolCall R)) : Records calls [] [] where
  call := by
    intro i slot h
    cases h
  kept := by
    intro i slot h
    cases h
  rest := by
    intro i _
    rfl

section

variable (h : Records calls log slots)

include h

/-- Progress updates and result messages leave the records as they are. -/
theorem silent (hevs : Silent events) : Records calls (log ++ events) slots where
  call := h.call
  kept := by
    intro i slot hslot
    rw [lifecycle_append, hevs.lifecycle_eq_nil, append_nil]
    exact h.kept i slot hslot
  rest := by
    intro i hi
    rw [lifecycle_append, hevs.lifecycle_eq_nil, append_nil]
    exact h.rest i hi

/-- The next call starts. -/
theorem start {call : ToolCall R} (hcall : calls[slots.length]? = some call) :
    Records calls (log ++ [(slots.length, toolExecutionStart call)])
      (slots ++ [.pending call]) where
  call := by
    exact forall_concat h.call hcall
  kept := by
    intro i slot hslot
    rw [lifecycle_append]
    rcases getElem?_append_cases hslot with hslot | ⟨rfl, rfl⟩
    · obtain ⟨hlt, -⟩ := List.getElem?_eq_some_iff.mp hslot
      rw [lifecycle_singleton_ne (by omega), List.append_nil]
      exact h.kept i slot hslot
    · rw [h.rest slots.length le_rfl, lifecycle_singleton rfl]
      rfl
  rest := by
    intro i hi
    rw [length_append, length_singleton] at hi
    rw [lifecycle_append, h.rest i (by omega), lifecycle_singleton_ne (by omega)]
    rfl

/-- An open call ends. -/
theorem settle {i : Nat} {fin : FinalizedOutcome R}
    (hslot : slots[i]? = some (.pending fin.toolCall)) :
    Records calls (log ++ [(i, toolExecutionEnd fin)]) (slots.set i (.ready fin)) where
  call := by
    intro j slot hj
    rcases getElem?_set_cases hj with ⟨rfl, rfl⟩ | ⟨-, hj⟩
    · exact h.call j (.pending fin.toolCall) hslot
    · exact h.call j slot hj
  kept := by
    intro j slot hj
    rw [lifecycle_append]
    rcases getElem?_set_cases hj with ⟨rfl, rfl⟩ | ⟨hne, hj⟩
    · rw [h.kept j _ hslot, lifecycle_singleton rfl]
      rfl
    · rw [lifecycle_singleton_ne hne.symm, append_nil]
      exact h.kept j slot hj
  rest := by
    intro j hj
    rw [length_set] at hj
    obtain ⟨hlt, -⟩ := List.getElem?_eq_some_iff.mp hslot
    rw [lifecycle_append, h.rest j hj, lifecycle_singleton_ne (by omega)]
    rfl

theorem length_le : slots.length ≤ calls.length := by
  by_contra hlt
  have hslot := getElem?_eq_getElem (Nat.lt_of_not_le hlt)
  obtain ⟨hbound, -⟩ := List.getElem?_eq_some_iff.mp (h.call _ _ hslot)
  exact absurd hbound (Nat.lt_irrefl _)

end

end Records

/-! ## What a phase keeps -/

/-- A preparation that is decided hands on its own call. -/
def Preparing.IsFor (call : ToolCall R) : Preparing R → Prop
  | decided (.prepared prepared) => prepared.toolCall = call
  | _ => True

/-- Every stage is at the same call. -/
def Stage.IsFor (call : ToolCall R) : Stage R → Prop
  | preparing stage => stage.IsFor call
  | executing prepared _ _ => prepared.toolCall = call
  | finalizing prepared _ => prepared.toolCall = call
  | settled finalized => finalized.toolCall = call

/-- A worker comes to an outcome of its own call. -/
def ParallelWorker.IsOwn (worker : ParallelWorker R) : Prop :=
  ∀ finalized : FinalizedOutcome R, worker.state = .finished (.ok finalized) →
    finalized.toolCall = worker.job.prepared.toolCall

/-- A joined worker came to an outcome of its own call. -/
def ParallelJoined.IsOwn (joined : ParallelJoined R) : Prop :=
  ∀ finalized : FinalizedOutcome R, joined.result = some (.ok finalized) →
    finalized.toolCall = joined.job.prepared.toolCall

/-- Jobs stand for different open slots. -/
structure Queued (slots : List (ParallelSlot R)) (jobs : List (ParallelJob R)) : Prop where
  open_ : ∀ job ∈ jobs, slots[job.index]? = some (.pending job.prepared.toolCall)
  nodup : (jobs.map ParallelJob.index).Nodup

/-- The messages hand on the outcomes, in order. -/
def Replied : List (FinalizedOutcome R) → List (ToolResultMessage R) → Prop :=
  List.Forall₂ fun finalized message => ∃ now : Int, message = toolResultMessage finalized now

/-- How many calls of a batch are answered: all of them, or in a sequential batch those up
to the first at whose end the token had fired. -/
def answeredCount (mode : ToolExecutionMode) (count : Nat) (cancelledAt : Option Nat) : Nat :=
  match mode, cancelledAt with
  | .sequential, some settled => min count (settled + 1)
  | _, _ => count

namespace Schedule

variable (tools : List AgentTool) (config : AgentLoopConfig) (calls : List (ToolCall R))

/-- A sequential batch has closed the calls before the one it is at, and its token did not
fire before the last of them ended. -/
structure InSequential (log : List (Nat × AgentEvent R)) (cancelledAt : Option Nat)
    (finalizedCalls : List (FinalizedOutcome R)) (messages : List (ToolResultMessage R))
    (stage : Stage R) : Prop where
  mode : batchMode tools config calls = .sequential
  records : ∃ call : ToolCall R,
    Records calls log (finalizedCalls.map .ready ++ [.pending call]) ∧ stage.IsFor call
  replied : Replied finalizedCalls messages
  fired : ∀ settled : Nat, cancelledAt = some settled → settled = finalizedCalls.length

/-- A preflight has a slot for every call before the one it is at, and a job for each open
one. -/
structure InPreflight (log : List (Nat × AgentEvent R)) (slots : List (ParallelSlot R))
    (jobs : List (ParallelJob R)) (stage : Preparing R) : Prop where
  mode : batchMode tools config calls = .parallel
  records : ∃ call : ToolCall R, Records calls log (slots ++ [.pending call]) ∧ stage.IsFor call
  queued : Queued slots jobs

/-- A parallel batch has a slot for every call, and workers and jobs for open ones. -/
structure InCollecting (log : List (Nat × AgentEvent R)) (batch : ParallelBatch R) : Prop where
  mode : batchMode tools config calls = .parallel
  length : batch.slots.length = calls.length
  records : Records calls log batch.slots
  queued : Queued batch.slots (batch.joined.toList.map ParallelJoined.job ++
    (batch.workers.map ParallelWorker.job ++ batch.jobs))
  own : ∀ worker ∈ batch.workers, worker.IsOwn
  joined : ∀ joined ∈ batch.joined, joined.IsOwn

/-- A batch that returned has closed the calls it answers and started no other. -/
def InReturned (log : List (Nat × AgentEvent R)) (cancelledAt : Option Nat)
    (batch : ExecutedToolCallBatch R) : Prop :=
  ∃ finalizedCalls : List (FinalizedOutcome R),
    Records calls log (finalizedCalls.map .ready) ∧ Replied finalizedCalls batch.messages ∧
      finalizedCalls.length = answeredCount (batchMode tools config calls) calls.length cancelledAt

/-- The invariant of a batch. -/
def Kept (s : Schedule R) : Prop := match s.phase with
  | .sequential finalizedCalls messages stage =>
    InSequential tools config calls s.log s.cancelledAt finalizedCalls messages stage
  | .preflight slots jobs stage => InPreflight tools config calls s.log slots jobs stage
  | .collecting batch => InCollecting tools config calls s.log batch
  | .returned batch => InReturned tools config calls s.log s.cancelledAt batch
  | .unwound => True

end Schedule

/-! ## Slots -/

section

variable {calls : List (ToolCall R)} {log : List (Nat × AgentEvent R)}
  {slots : List (ParallelSlot R)} {jobs : List (ParallelJob R)}

theorem silent_update (pos : Nat) (call : ToolCall R) (update : AgentToolResult R) :
    Silent [(pos, toolExecutionUpdate call update)] := by
  intro entry hent
  rw [mem_singleton.mp hent]
  rfl

theorem silent_emitParallelUpdate (slots : List (ParallelSlot R))
    (update : Nat × AgentToolResult R) : Silent (emitParallelUpdate slots update) := by
  rw [emitParallelUpdate]
  split
  · intro entry hent
    cases hent
  · exact silent_update _ _ _
  · exact silent_update _ _ _

theorem silent_toolResultEvents (pos : Nat) (msg : ToolResultMessage R) :
    Silent ((toolResultEvents msg).map (pos, ·)) := by
  intro entry hent
  obtain ⟨event, hevent, rfl⟩ := mem_map.mp hent
  rcases mem_pair.mp hevent with rfl | rfl
  · rfl
  · rfl

/-- Answering one slot leaves the jobs of the other slots open. -/
theorem Queued.set {i : Nat} {slot : ParallelSlot R} (h : Queued slots jobs)
    (hi : ∀ job ∈ jobs, job.index ≠ i) : Queued (slots.set i slot) jobs where
  open_ := by
    intro job hjob
    rw [getElem?_set_ne (hi job hjob).symm]
    exact h.open_ job hjob
  nodup := h.nodup

theorem Queued.sublist {fewer : List (ParallelJob R)} (h : Queued slots jobs)
    (hfewer : List.Sublist fewer jobs) : Queued slots fewer where
  open_ := fun job hjob => h.open_ job (hfewer.subset hjob)
  nodup := h.nodup.sublist (hfewer.map _)

theorem Queued.perm {others : List (ParallelJob R)} (h : Queued slots jobs)
    (hperm : jobs.Perm others) : Queued slots others where
  open_ := fun job hjob => h.open_ job (hperm.mem_iff.mpr hjob)
  nodup := (hperm.map _).nodup_iff.mp h.nodup

variable [Inhabited R]

theorem Records.settlePending (h : Records calls log slots) (i : Nat) (msg : String) :
    Records calls (log ++ (settlePending slots i msg).2) (settlePending slots i msg).1 := by
  rw [Agent.settlePending]
  split
  · rename_i call hslot
    exact h.settle hslot
  · rw [append_nil]
    exact h

theorem length_settlePending (slots : List (ParallelSlot R)) (i : Nat) (msg : String) :
    (settlePending slots i msg).1.length = slots.length := by
  rw [settlePending]
  split
  · exact length_set
  · rfl

/-- An answered slot stays answered. -/
theorem settlePending_ready {i j : Nat} {msg : String} {fin : FinalizedOutcome R}
    (h : slots[j]? = some (.ready fin)) :
    (settlePending slots i msg).1[j]? = some (.ready fin) := by
  rw [settlePending]
  split
  · rename_i call hslot
    have hne : i ≠ j := by
      rintro rfl
      rw [h] at hslot
      cases hslot
    rw [getElem?_set_ne hne]
    exact h
  · exact h

theorem settlePending_self {i : Nat} (h : i < slots.length) (msg : String) :
    ∃ fin : FinalizedOutcome R, (settlePending slots i msg).1[i]? = some (.ready fin) := by
  rw [settlePending]
  split
  · exact ⟨_, getElem?_set_self h⟩
  · rename_i hpend
    rw [getElem?_eq_getElem h] at hpend ⊢
    cases hslot : slots[i] with
    | ready fin => exact ⟨fin, rfl⟩
    | pending call => exact absurd (congrArg some hslot) (hpend call)

/-- Answering the first slots closes them and keeps the records. -/
theorem Records.settleRange (h : Records calls log slots) (msg : String) (n : Nat) :
    let settled := (range n).foldl (settleNext msg) (slots, [])
    Records calls (log ++ settled.2) settled.1 ∧ settled.1.length = slots.length ∧
      ∀ i < n, i < slots.length →
        ∃ fin : FinalizedOutcome R, settled.1[i]? = some (.ready fin) := by
  induction n with
  | zero =>
    refine ⟨?_, rfl, fun i hi => absurd hi (Nat.not_lt_zero i)⟩
    rw [range_zero, foldl_nil, append_nil]
    exact h
  | succ n ih =>
    rw [range_succ, foldl_append, foldl_cons, foldl_nil]
    generalize (range n).foldl (settleNext msg) (slots, []) = settled at ih ⊢
    obtain ⟨hrecs, hlen, hrdy⟩ := ih
    refine ⟨?_, ?_, ?_⟩
    · rw [settleNext, ← append_assoc]
      exact hrecs.settlePending n msg
    · rw [settleNext, length_settlePending]
      exact hlen
    · intro i hi hbound
      rcases Nat.lt_succ_iff_lt_or_eq.mp hi with hlt | rfl
      · obtain ⟨fin, hfinalized⟩ := hrdy i hlt hbound
        exact ⟨fin, settlePending_ready hfinalized⟩
      · exact settlePending_self (hlen ▸ hbound) msg

omit [Inhabited R] in
/-- Slots that are all answered are a list of outcomes. -/
theorem exists_finalizedCalls (h : ∀ i < slots.length,
      ∃ fin : FinalizedOutcome R, slots[i]? = some (.ready fin)) :
    ∃ done : List (FinalizedOutcome R), slots = done.map .ready := by
  induction slots with
  | nil => exact ⟨[], rfl⟩
  | cons slot slots ih =>
    obtain ⟨first, hfst⟩ := h 0 (Nat.succ_pos _)
    obtain ⟨rest, rfl⟩ := ih fun i hi => h (i + 1) (Nat.succ_lt_succ hi)
    exact ⟨first :: rest, by rw [map_cons, some.inj hfst]⟩

theorem Records.settleAllPending (h : Records calls log slots) (msg : String) :
    ∃ done : List (FinalizedOutcome R), (settleAllPending slots msg).1 = done.map .ready ∧
        done.length = slots.length ∧
        Records calls (log ++ (settleAllPending slots msg).2) (done.map .ready) := by
  obtain ⟨hrecs, hlen, hrdy⟩ := h.settleRange msg slots.length
  obtain ⟨done, heq⟩ := exists_finalizedCalls fun i hi =>
    hrdy i (hlen ▸ hi) (hlen ▸ hi)
  rw [heq, length_map] at hlen
  rw [heq] at hrecs
  exact ⟨done, heq, hlen, hrecs⟩

/-- The results of answered slots: one message each, and nothing more ends. -/
theorem emitResultsFrom_ready (clock : Nat → Int) (pos : Nat) (done : List (FinalizedOutcome R)) :
    Replied done (emitResultsFrom clock pos (done.map .ready)).2.1 ∧
      Silent (emitResultsFrom clock pos (done.map .ready)).2.2 := by
  induction done generalizing pos with
  | nil =>
    refine ⟨.nil, ?_⟩
    intro entry hent
    cases hent
  | cons fin done ih =>
    obtain ⟨hrepd, hsil⟩ := ih (pos + 1)
    refine ⟨.cons ⟨clock pos, rfl⟩ hrepd, ?_⟩
    exact (silent_toolResultEvents pos _).append hsil

theorem isFor_admitPrepared (cancelled : Bool) (call : ToolCall R) (args : R) :
    (admitPrepared cancelled call args).IsFor call := by
  rw [admitPrepared]
  split_ifs
  · trivial
  · rfl

theorem isFor_prepareToolCall (tools : List AgentTool) (call : ToolCall R) :
    (prepareToolCall tools call).IsFor call := by
  rw [prepareToolCall]
  split
  · trivial
  · trivial

theorem isFor_validateArguments (cfg : AgentLoopConfig) (cancelled : Bool)
    (call : ToolCall R) (ans : Except String R) :
    (validateArguments cfg cancelled call ans).IsFor call := by
  cases ans with
  | error msg => trivial
  | ok args =>
    rw [validateArguments]
    split_ifs
    · trivial
    · exact isFor_admitPrepared cancelled call args

theorem isFor_beforeToolCall (cancelled : Bool) (call : ToolCall R) (args : R)
    (ans : Except String (Option BeforeToolCallResult)) :
    (beforeToolCall cancelled call args ans).IsFor call := by
  rw [beforeToolCall.eq_def]
  split
  · trivial
  · exact isFor_admitPrepared cancelled call args
  · split_ifs
    · trivial
    · exact isFor_admitPrepared cancelled call args

theorem toolCall_finalize (prepared : PreparedToolCall R) (executed : ExecutedOutcome R)
    (ans : Except String (Option (AfterToolCallResult R))) :
    (finalizeExecutedToolCall prepared executed ans).toolCall = prepared.toolCall := by
  rw [finalizeExecutedToolCall.eq_def]
  split
  · rfl
  · rfl
  · rfl

end

/-! ## Steps -/

namespace Schedule

section

variable [Inhabited R] {tools : List AgentTool} {config : AgentLoopConfig}
  {calls : List (ToolCall R)} {s s' : Schedule R} {done : List (FinalizedOutcome R)}
  {msgs : List (ToolResultMessage R)} {slots : List (ParallelSlot R)}
  {jobs : List (ParallelJob R)} {batch : ParallelBatch R}

variable {prepared : PreparedToolCall R} {fin : FinalizedOutcome R}
  {updates : List (AgentToolResult R)} {log : List (Nat × AgentEvent R)} {i : Nat}

variable {event : ScheduleEvent R} {cancelled : Bool}

theorem Kept.nextSequential (hmode : batchMode tools config calls = .sequential)
    (hrecs : Records calls s.log (done.map .ready))
    (hrepd : Replied done msgs)
    (hfired : ∀ settled : Nat, s.cancelledAt = some settled → settled = done.length) :
    Kept tools config calls (s.nextSequential tools calls done msgs) := by
  rw [Schedule.nextSequential]
  split
  · rename_i call hcall
    rw [← length_map ParallelSlot.ready] at hcall
    have hstart := hrecs.start hcall
    rw [length_map] at hstart
    exact ⟨hmode, ⟨call, hstart, isFor_prepareToolCall tools call⟩, hrepd, hfired⟩
  · rename_i hnone
    have hge := getElem?_eq_none_iff.mp hnone
    have hle := hrecs.length_le
    rw [length_map] at hle
    refine ⟨done, hrecs, hrepd, ?_⟩
    rw [hmode]
    change _ = answeredCount .sequential calls.length s.cancelledAt
    cases hcan : s.cancelledAt with
    | none => exact Nat.le_antisymm hle hge
    | some settled =>
      rw [answeredCount, hfired settled hcan]
      omega

theorem Kept.nextPreflight (hmode : batchMode tools config calls = .parallel)
    (hrecs : Records calls s.log slots) (hq : Queued slots jobs) :
    Kept tools config calls (s.nextPreflight tools calls slots jobs) := by
  rw [Schedule.nextPreflight]
  split
  · rename_i call hcall
    exact ⟨hmode, ⟨call, hrecs.start hcall, isFor_prepareToolCall tools call⟩, hq⟩
  · rename_i hnone
    refine ⟨hmode, Nat.le_antisymm hrecs.length_le (getElem?_eq_none_iff.mp hnone), hrecs, ?_, ?_,
      fun _ hnone => by cases hnone⟩
    · have hjobs : (spawnWorkers slots jobs).workers.map ParallelWorker.job ++
          (spawnWorkers slots jobs).jobs = jobs := by
        simp [spawnWorkers, Function.comp_def]
      change Queued slots ([] ++ _)
      rw [nil_append, hjobs]
      exact hq
    · intro worker hwork fin hfin
      obtain ⟨job, -, rfl⟩ := mem_map.mp hwork
      cases hfin

theorem Kept.start (cancelled : Bool) :
    Kept tools config calls (executeToolCalls tools config calls cancelled) := by
  rw [executeToolCalls]
  split
  · rename_i hmode
    apply Kept.nextSequential hmode (Records.nil calls) .nil
    intro settled hset
    cases cancelled with
    | false => cases hset
    | true => exact (some.inj hset).symm
  · rename_i hmode
    exact Kept.nextPreflight hmode (Records.nil calls) ⟨nofun, nodup_nil⟩

omit [Inhabited R] in
/-- The call that stands last in the records is the call at its position. -/
theorem eq_of_records {call other : ToolCall R} (h : Records calls log (slots ++ [.pending call]))
    (hoth : calls[slots.length]? = some other) : other = call := by
  have hcall := h.call slots.length (.pending call) getElem?_concat_length
  rw [hoth] at hcall
  exact some.inj hcall

omit [Inhabited R] in
/-- The call that stands last in the records ends. -/
theorem settleLast (h : Records calls log (slots ++ [.pending fin.toolCall])) :
    Records calls (log ++ [(slots.length, toolExecutionEnd fin)]) (slots ++ [.ready fin]) := by
  have hsettle := h.settle (i := slots.length) getElem?_concat_length
  rw [set_append_right _ _ le_rfl, Nat.sub_self, set_cons_zero] at hsettle
  exact hsettle

theorem Kept.place (h : Kept tools config calls s) (hnext : s.place tools calls = some s') :
    Kept tools config calls s' := by
  rw [Schedule.place] at hnext
  split at hnext
  · rename_i done msgs prep hph
    rw [Kept, hph] at h
    obtain ⟨call, hrecs, hfor⟩ := h.records
    split at hnext
    · rename_i outcome
      obtain ⟨other, hoth, rfl⟩ := map_eq_some_iff.mp hnext
      rw [← length_map ParallelSlot.ready] at hoth
      exact ⟨h.mode, ⟨call, hrecs, eq_of_records hrecs hoth⟩, h.replied, h.fired⟩
    · cases hnext
      exact ⟨h.mode, ⟨call, hrecs, hfor⟩, h.replied, h.fired⟩
  · rename_i slots jobs prep hph
    rw [Kept, hph] at h
    obtain ⟨call, hrecs, hfor⟩ := h.records
    have hkeep : ∀ slot : ParallelSlot R, Queued (slots ++ [slot]) jobs := by
      intro slot
      exact ⟨fun job hjob => getElem?_append_of_some (h.queued.open_ job hjob), h.queued.nodup⟩
    split at hnext
    · rename_i outcome
      obtain ⟨other, hoth, rfl⟩ := map_eq_some_iff.mp hnext
      obtain rfl := eq_of_records hrecs hoth
      exact Kept.nextPreflight h.mode (settleLast hrecs) (hkeep _)
    · rename_i prepared
      cases hnext
      have hcall : prepared.toolCall = call := hfor
      subst hcall
      refine Kept.nextPreflight h.mode hrecs ⟨?_, ?_⟩
      · intro job hjob
        rcases mem_append.mp hjob with hjob | hjob
        · exact (hkeep _).open_ job hjob
        · rw [mem_singleton.mp hjob]
          exact getElem?_concat_length
      · rw [map_append, map_singleton, nodup_append]
        refine ⟨h.queued.nodup, pairwise_singleton _ _, ?_⟩
        intro i hidx other hoth
        obtain ⟨job, hjob, rfl⟩ := mem_map.mp hidx
        obtain ⟨hlt, -⟩ := List.getElem?_eq_some_iff.mp (h.queued.open_ job hjob)
        rw [List.mem_singleton.mp hoth]
        exact Nat.ne_of_lt hlt
  · cases hnext

omit [Inhabited R] in
/-- An answer to a preparation is about the call of the preparation. -/
theorem Kept.prepareWith {ans : ToolCall R → Preparing R → Option (Preparing R)}
    (h : Kept tools config calls s)
    (hans : ∀ (call : ToolCall R) (stage next : Preparing R),
      stage.IsFor call → ans call stage = some next → next.IsFor call)
    (hnext : s.prepareWith calls ans = some s') : Kept tools config calls s' := by
  rw [Schedule.prepareWith] at hnext
  split at hnext
  · rename_i done msgs stage hph
    rw [Kept, hph] at h
    obtain ⟨call, hrecs, hfor⟩ := h.records
    obtain ⟨other, hoth, hnext⟩ := bind_eq_some_iff.mp hnext
    obtain ⟨next, heq, rfl⟩ := map_eq_some_iff.mp hnext
    rw [← length_map ParallelSlot.ready] at hoth
    obtain rfl := eq_of_records hrecs hoth
    exact ⟨h.mode, ⟨other, hrecs, hans other stage next hfor heq⟩, h.replied, h.fired⟩
  · rename_i slots jobs stage hph
    rw [Kept, hph] at h
    obtain ⟨call, hrecs, hfor⟩ := h.records
    obtain ⟨other, hoth, hnext⟩ := bind_eq_some_iff.mp hnext
    obtain ⟨next, heq, rfl⟩ := map_eq_some_iff.mp hnext
    obtain rfl := eq_of_records hrecs hoth
    exact ⟨h.mode, ⟨other, hrecs, hans other stage next hfor heq⟩, h.queued⟩
  · cases hnext

omit [Inhabited R] in
theorem Kept.executeSequential
    {step : Worker R (ExecutedOutcome R) → Option (Worker R (ExecutedOutcome R))}
    (h : Kept tools config calls s) (hnext : s.executeSequential step = some s') :
    Kept tools config calls s' := by
  rw [Schedule.executeSequential] at hnext
  split at hnext
  · rename_i done msgs prepared worker updates hph
    rw [Kept, hph] at h
    obtain ⟨next, -, rfl⟩ := map_eq_some_iff.mp hnext
    exact ⟨h.mode, h.records, h.replied, h.fired⟩
  · cases hnext

omit [Inhabited R] in
/-- A step of a worker that comes to an outcome of its own call. -/
theorem Kept.executeParallel {step : PreparedToolCall R → Worker R (FinalizedOutcome R) →
      Option (Worker R (FinalizedOutcome R))} (h : Kept tools config calls s)
    (hstep : ∀ (prepared : PreparedToolCall R) (worker : Worker R (FinalizedOutcome R))
      (fin : FinalizedOutcome R),
      step prepared worker = some (.finished (.ok fin)) →
        fin.toolCall = prepared.toolCall) (hnext : s.executeParallel i step = some s') :
    Kept tools config calls s' := by
  rw [Schedule.executeParallel] at hnext
  split at hnext
  · rename_i batch hph
    rw [Kept, hph] at h
    obtain ⟨worker, hwork, hnext⟩ := bind_eq_some_iff.mp hnext
    obtain ⟨next, heq, rfl⟩ := map_eq_some_iff.mp hnext
    refine ⟨h.mode, h.length, h.records, ?_, ?_, h.joined⟩
    · have hjobs : (batch.workers.set i { worker with state := next }).map
          ParallelWorker.job = batch.workers.map ParallelWorker.job :=
        map_set_of_eq ParallelWorker.job hwork rfl
      rw [hjobs]
      exact h.queued
    · intro other hoth fin hfin
      rcases mem_or_eq_of_mem_set hoth with hoth | rfl
      · exact h.own other hoth fin hfin
      · have hnextFinished : next = .finished (.ok fin) := hfin
        subst hnextFinished
        exact hstep worker.job.prepared worker.state fin heq
  · cases hnext

theorem Kept.joinSequential {worker : Worker R (ExecutedOutcome R)}
    (joined : Except Unit (ExecutedOutcome R))
    (h : InSequential tools config calls s.log s.cancelledAt done msgs
      (.executing prepared worker updates)) :
    Kept tools config calls (s.joinSequential config done msgs prepared updates joined) := by
  obtain ⟨call, hrecs, hfor⟩ := h.records
  have hsil : Silent (updates.map fun update =>
      (done.length, toolExecutionUpdate prepared.toolCall update)) := by
    intro entry hent
    obtain ⟨update, -, rfl⟩ := mem_map.mp hent
    rfl
  refine ⟨h.mode, ⟨call, hrecs.silent hsil, ?_⟩, h.replied, h.fired⟩
  split_ifs
  · exact hfor
  · exact (toolCall_finalize _ _ _).trans hfor

/-- A joined worker closes its slot and no other, and a lost one closes none. -/
theorem settleJoined_spec {joined : ParallelJoined R} {others : List (ParallelJob R)}
    (hrecs : Records calls log slots) (hq : Queued slots (joined.job :: others))
    (hown : joined.IsOwn) :
    Records calls (log ++ (joined.settle slots).2) (joined.settle slots).1 ∧
      (joined.settle slots).1.length = slots.length ∧ Queued (joined.settle slots).1 others := by
  have hslot := hq.open_ joined.job mem_cons_self
  have hoth := hq.sublist (sublist_cons_self joined.job others)
  have hne : ∀ job ∈ others, job.index ≠ joined.job.index := by
    intro job hjob heq
    have hdistinct := hq.nodup
    rw [map_cons, nodup_cons] at hdistinct
    exact hdistinct.1 (heq ▸ mem_map_of_mem hjob)
  rw [ParallelJoined.settle]
  cases hres : joined.result with
  | none =>
    rw [append_nil]
    exact ⟨hrecs, rfl, hoth⟩
  | some res =>
    cases res with
    | ok fin =>
      rw [← hown fin hres] at hslot
      exact ⟨hrecs.settle hslot, length_set, hoth.set hne⟩
    | error _ =>
      refine ⟨hrecs.settlePending _ _, length_settlePending _ _ _, ?_⟩
      simp only [settleWorker, settlePending, hslot]
      exact hoth.set hne

theorem Kept.settleJoined {joined : ParallelJoined R}
    (h : InCollecting tools config calls s.log batch) (hjoined : batch.joined = some joined) :
    Kept tools config calls (s.settleJoined batch (joined.settle batch.slots)) := by
  have hq := h.queued
  rw [hjoined] at hq
  obtain ⟨hrecs, hlen, hothers⟩ := settleJoined_spec h.records hq (h.joined joined hjoined)
  have hslots := hlen.trans h.length
  have hnone : ∀ joined ∈ (none : Option (ParallelJoined R)), joined.IsOwn := by
    intro _ hmem
    cases hmem
  rw [Schedule.settleJoined]
  cases hjobs : batch.jobs with
  | nil =>
    rw [hjobs] at hothers
    refine ⟨h.mode, hslots, hrecs, ?_, h.own, hnone⟩
    simp only
    exact hothers
  | cons job jobs =>
    rw [hjobs] at hothers
    simp only
    split_ifs with hstop
    · refine ⟨h.mode, hslots, hrecs, ?_, h.own, hnone⟩
      simp only
      exact hothers
    · refine ⟨h.mode, hslots, hrecs, ?_, ?_, hnone⟩
      · rw [map_append, append_assoc]
        exact hothers
      · refine forall_mem_concat h.own ?_
        intro fin hfin
        cases hfin

omit [Inhabited R] in
/-- Taking a worker out leaves the others and the jobs. -/
theorem perm_eraseIdx {worker : ParallelWorker R} (h : batch.workers[i]? = some worker) :
    (batch.workers.map ParallelWorker.job ++ batch.jobs).Perm
      (worker.job :: ((batch.workers.eraseIdx i).map ParallelWorker.job ++ batch.jobs)) := by
  obtain ⟨hlt, rfl⟩ := List.getElem?_eq_some_iff.mp h
  have hperm := (getElem_cons_eraseIdx_perm hlt).symm.map ParallelWorker.job
  exact hperm.append_right batch.jobs

omit [Inhabited R] in
/-- The job of a worker that is joined, or lost, stays queued until it is recorded. -/
theorem Kept.joinParallel {worker : ParallelWorker R}
    {res : Option (Except Unit (FinalizedOutcome R))}
    (h : InCollecting tools config calls s.log batch) (hwork : batch.workers[i]? = some worker)
    (hown : ∀ fin, res = some (.ok fin) → fin.toolCall = worker.job.prepared.toolCall)
    (hnext : s.joinParallel batch i worker.job res = some s') : Kept tools config calls s' := by
  rw [Schedule.joinParallel] at hnext
  split_ifs at hnext with hnone
  cases hnext
  have hq := h.queued
  rw [isNone_iff_eq_none.mp hnone] at hq
  refine ⟨h.mode, h.length, h.records, hq.perm (perm_eraseIdx hwork), ?_, ?_⟩
  · intro other hoth
    exact h.own other (mem_of_mem_eraseIdx hoth)
  · intro joined hjoined
    cases hjoined
    exact hown

theorem Kept.finishParallel (clock : Nat → Int) (h : InCollecting tools config calls s.log batch) :
    Kept tools config calls (s.finishParallel batch clock) := by
  rw [Schedule.finishParallel]
  generalize (if (batch.stopping || s.isCancelled) = true then "Operation aborted"
    else "Tool execution ended without a result") = msg
  obtain ⟨done, hslots, hlen, hrecs⟩ := h.records.settleAllPending msg
  obtain ⟨hrepd, hsil⟩ := emitResultsFrom_ready clock 0 done
  refine ⟨done, ?_, ?_, ?_⟩
  · have hall := hrecs.silent hsil
    simp only [emitSourceOrderedResults, hslots]
    rw [append_assoc] at hall
    exact hall
  · change Replied done (emitResultsFrom clock 0 (settleAllPending batch.slots msg).1).2.1
    rw [hslots]
    exact hrepd
  · rw [h.mode, hlen]
    exact h.length

theorem Kept.settleSequential (now : Int)
    (h : InSequential tools config calls s.log s.cancelledAt done msgs (.settled fin)) :
    Kept tools config calls (s.settleSequential tools calls done msgs fin now) := by
  obtain ⟨call, hrecs, hfor⟩ := h.records
  have hcall : fin.toolCall = call := hfor
  subst hcall
  have hended := settleLast hrecs
  rw [length_map] at hended
  have hlog := hended.silent (silent_toolResultEvents done.length (toolResultMessage fin now))
  have hrdy : done.map ParallelSlot.ready ++ [.ready fin] = (done ++ [fin]).map .ready := by
    rw [map_append, map_singleton]
  rw [hrdy, append_assoc] at hlog
  have hrepd : Replied (done ++ [fin]) (msgs ++ [toolResultMessage fin now]) :=
    rel_append h.replied (.cons ⟨now, rfl⟩ .nil)
  rw [Schedule.settleSequential]
  split_ifs with hcan
  · obtain ⟨settled, hset⟩ := isSome_iff_exists.mp hcan
    refine ⟨done ++ [fin], hlog, hrepd, ?_⟩
    have hle := hrecs.length_le
    have hfired := h.fired settled hset
    rw [length_append, length_map, length_singleton] at hle
    rw [h.mode, length_append, length_singleton]
    change _ = answeredCount .sequential calls.length s.cancelledAt
    have hat : s.cancelledAt = some settled := hset
    rw [hat, answeredCount]
    omega
  · apply Kept.nextSequential h.mode hlog hrepd
    intro settled hset
    have hat : s.cancelledAt = some settled := hset
    exact absurd (isSome_iff_exists.mpr ⟨settled, hat⟩) hcan

omit [Inhabited R] in
theorem Kept.cancel (h : Kept tools config calls s) (hnext : s.cancel = some s') :
    Kept tools config calls s' := by
  rw [Schedule.cancel] at hnext
  split at hnext
  · rename_i done msgs stage hph
    rw [Kept, hph] at h
    cases hnext
    have hkept : InSequential tools config calls s.log
        (some (s.cancelledAt.getD done.length)) done msgs stage := by
      refine ⟨h.mode, h.records, h.replied, ?_⟩
      intro settled hset
      rw [← some.inj hset]
      cases hfired : s.cancelledAt with
      | none => rfl
      | some before => exact h.fired before hfired
    rw [Kept]
    simp only [hph]
    exact hkept
  · rename_i slots jobs stage hph
    cases hnext
    rw [Kept, hph] at h
    rw [Kept]
    simp only [hph]
    exact h
  · rename_i batch hph
    cases hnext
    rw [Kept, hph] at h
    rw [Kept]
    simp only [hph]
    exact h
  · cases hnext

theorem toolCall_look {worker : Worker R (FinalizedOutcome R)}
    (h : Worker.look cancelled (.error prepared.toolCall "Operation aborted") worker =
      some (.finished (.ok fin))) : fin.toolCall = prepared.toolCall := by
  cases worker with
  | spawned =>
    rw [Worker.look] at h
    split_ifs at h
    · cases h
      rfl
    · cases h
  | _ => cases h

theorem toolCall_giveUp {worker : Worker R (FinalizedOutcome R)}
    (h : Worker.giveUp cancelled (.error prepared.toolCall "Operation aborted") worker =
      some (.finished (.ok fin))) : fin.toolCall = prepared.toolCall := by
  rw [Worker.giveUp.eq_def] at h
  split at h
  · cases h
  · split_ifs at h
    cases h
    rfl

theorem toolCall_executedParallel {ans : Answer (Except String (AgentToolResult R))}
    {worker : Worker R (FinalizedOutcome R)}
    (h : Worker.executedParallel cfg prepared ans worker =
      some (.finished (.ok fin))) : fin.toolCall = prepared.toolCall := by
  cases worker with
  | running =>
    cases ans with
    | returns res =>
      rw [Worker.executedParallel] at h
      split_ifs at h
      · cases h
      · cases h
        rfl
    | panics => cases h
  | _ => cases h

theorem toolCall_hooked {ans : Answer (Except String (Option (AfterToolCallResult R)))}
    {worker : Worker R (FinalizedOutcome R)}
    (h : Worker.hooked prepared ans worker = some (.finished (.ok fin))) :
    fin.toolCall = prepared.toolCall := by
  cases worker with
  | finalizing executed =>
    cases ans with
    | returns after =>
      cases h
      exact toolCall_finalize _ _ _
    | panics => cases h
  | _ => cases h

omit [Inhabited R] in
/-- A step of whichever worker there is. -/
theorem Kept.worker {first : Worker R (ExecutedOutcome R) → Option (Worker R (ExecutedOutcome R))}
    {second : PreparedToolCall R → Worker R (FinalizedOutcome R) →
      Option (Worker R (FinalizedOutcome R))} (h : Kept tools config calls s)
    (hsnd : ∀ (prepared : PreparedToolCall R) (worker : Worker R (FinalizedOutcome R))
      (fin : FinalizedOutcome R),
      second prepared worker = some (.finished (.ok fin)) → fin.toolCall = prepared.toolCall)
    (hnext : (s.executeSequential first <|> s.executeParallel i second) = some s') :
    Kept tools config calls s' := by
  rcases (orElse_eq_some _ _ _).mp hnext with hnext | ⟨-, hnext⟩
  · exact h.executeSequential hnext
  · exact h.executeParallel hsnd hnext

theorem Kept.step (h : Kept tools config calls s)
    (hnext : s.step tools config calls event = some s') : Kept tools config calls s' := by
  cases event with
  | cancel => exact h.cancel hnext
  | validate ans =>
    cases ans with
    | returns ans =>
      refine h.prepareWith ?_ hnext
      intro call stage next _ hans
      split at hans
      · cases hans
        exact isFor_validateArguments _ _ _ _
      · cases hans
    | panics =>
      obtain ⟨before, -, rfl⟩ := map_eq_some_iff.mp hnext
      trivial
  | before ans =>
    cases ans with
    | returns ans =>
      refine h.prepareWith ?_ hnext
      intro call stage next _ hans
      split at hans
      · cases hans
        exact isFor_beforeToolCall _ _ _ _
      · cases hans
    | panics =>
      obtain ⟨before, -, rfl⟩ := map_eq_some_iff.mp hnext
      trivial
  | place => exact h.place hnext
  | admission i => exact h.worker (fun _ _ _ => toolCall_look) hnext
  | execute i ans => exact h.worker (fun _ _ _ => toolCall_executedParallel) hnext
  | progress i update =>
    rw [Schedule.step] at hnext
    split at hnext
    · rename_i hph
      cases hnext
      rw [Kept, hph] at h
      exact ⟨h.mode, h.records, h.replied, h.fired⟩
    · rename_i hph
      cases hnext
      rw [Kept, hph] at h
      exact { h with }
    · cases hnext
  | after i ans =>
    rw [Schedule.step] at hnext
    split at hnext
    · rename_i hph
      rw [Kept, hph] at h
      obtain ⟨call, hrecs, hfor⟩ := h.records
      split at hnext
      · cases hnext
        exact ⟨h.mode, ⟨call, hrecs, (toolCall_finalize _ _ _).trans hfor⟩, h.replied, h.fired⟩
      · cases hnext
        trivial
    · exact h.executeParallel (fun _ _ _ => toolCall_hooked) hnext
  | abort i =>
    rw [Schedule.step] at hnext
    split at hnext
    · rename_i hph
      split_ifs at hnext
      cases hnext
      rw [Kept, hph] at h
      exact ⟨h.mode, h.records, h.replied, h.fired⟩
    · exact h.worker (fun _ _ _ => toolCall_giveUp) hnext
  | forward =>
    rw [Schedule.step] at hnext
    split at hnext
    · rename_i hph
      cases hnext
      rw [Kept, hph] at h
      obtain ⟨call, hrecs, hfor⟩ := h.records
      exact ⟨h.mode, ⟨call, hrecs.silent (silent_update _ _ _), hfor⟩, h.replied, h.fired⟩
    · rename_i hph
      split at hnext
      · split_ifs at hnext
        cases hnext
        rw [Kept, hph] at h
        exact { h with records := h.records.silent (silent_emitParallelUpdate _ _) }
      · cases hnext
    · cases hnext
  | join i =>
    rw [Schedule.step] at hnext
    split at hnext
    · rename_i hph
      cases hnext
      rw [Kept, hph] at h
      exact Kept.joinSequential _ h
    · rename_i batch hph
      rw [Kept, hph] at h
      split at hnext
      · rename_i job res hwork
        refine Kept.joinParallel h hwork ?_ hnext
        rintro fin ⟨⟩
        exact h.own _ (mem_of_getElem? hwork) fin rfl
      · cases hnext
    · cases hnext
  | lose i =>
    rw [Schedule.step] at hnext
    split at hnext
    · rename_i hph
      cases hnext
      rw [Kept, hph] at h
      exact Kept.joinSequential _ h
    · rename_i batch hph
      rw [Kept, hph] at h
      obtain ⟨worker, hwork, hnext⟩ := bind_eq_some_iff.mp hnext
      refine Kept.joinParallel h hwork ?_ hnext
      rintro fin ⟨⟩
    · cases hnext
  | drained =>
    rw [Schedule.step] at hnext
    split at hnext
    · rename_i batch hph
      rw [Kept, hph] at h
      split at hnext
      · rename_i joined hjoined hnil
        cases hnext
        have hq := h.queued
        rw [hjoined] at hq
        refine { h with queued := hq, joined := ?_ }
        rintro _ ⟨⟩
        exact h.joined joined hjoined
      · cases hnext
    · cases hnext
  | settleWorker =>
    rw [Schedule.step] at hnext
    split at hnext
    · rename_i batch hph
      rw [Kept, hph] at h
      split at hnext
      · rename_i joined hjoined
        split_ifs at hnext
        cases hnext
        exact Kept.settleJoined h hjoined
      · cases hnext
    · cases hnext
  | settle now =>
    rw [Schedule.step] at hnext
    split at hnext
    · rename_i hph
      cases hnext
      rw [Kept, hph] at h
      exact Kept.settleSequential now h
    · cases hnext
  | stop =>
    rw [Schedule.step] at hnext
    split at hnext
    · rename_i hph
      split_ifs at hnext
      cases hnext
      rw [Kept, hph] at h
      exact { h with }
    · cases hnext
  | finish clock =>
    rw [Schedule.step] at hnext
    split at hnext
    · rename_i hph
      split_ifs at hnext
      cases hnext
      rw [Kept, hph] at h
      exact Kept.finishParallel clock h
    · cases hnext

theorem Run.kept {condition : Schedule R → ScheduleEvent R → Prop}
    (h : (machine tools config calls).Run condition s) : Kept tools config calls s := by
  apply h.invariant
  · rintro s ⟨cancelled, rfl⟩
    exact Kept.start cancelled
  · intro s s' event hkept _ hnext
    exact hkept.step hnext

/-! ## Every batch can return -/

omit [Inhabited R] in
/-- A step that waits for no tool and no hook after a call. -/
def Unaided (event : ScheduleEvent R) : Prop := match event with
  | .execute _ _ => False
  | .after _ _ => False
  | .lose _ => False
  | _ => True

variable (tools config calls) in
/-- The batch can return without an answer of a tool or of a hook after a call. -/
def CanReturn (s : Schedule R) : Prop := ∃ (s' : Schedule R) (batch : ExecutedToolCallBatch R),
    (machine tools config calls).Follows (fun _ event => Unaided event) s s' ∧
      s'.phase = .returned batch

theorem CanReturn.head (hnext : s.step tools config calls event = some s') (hevent : Unaided event)
    (h : CanReturn tools config calls s') :
    CanReturn tools config calls s := by
  obtain ⟨last, batch, hfol, hretd⟩ := h
  exact ⟨last, batch, .head ⟨event, hevent, hnext⟩ hfol, hretd⟩

theorem canReturn_returned {res : ExecutedToolCallBatch R}
    (hph : s.phase = .returned res) : CanReturn tools config calls s :=
  ⟨s, res, .refl, hph⟩

theorem canReturn_settled (hcan : s.isCancelled = true)
    (hph : s.phase = .sequential done msgs (.settled fin)) :
    CanReturn tools config calls s := by
  have hnext : s.step tools config calls (.settle 0) =
      some (s.settleSequential tools calls done msgs fin 0) := by
    rw [Schedule.step, hph]
  apply CanReturn.head hnext trivial
  have hretd : ∃ batch : ExecutedToolCallBatch R,
      (s.settleSequential tools calls done msgs fin 0).phase = .returned batch := by
    rw [Schedule.settleSequential]
    exact ⟨_, congrArg Schedule.phase (if_pos hcan)⟩
  obtain ⟨batch, hbat⟩ := hretd
  exact canReturn_returned hbat

theorem canReturn_finalizing {executed : ExecutedOutcome R} (hcan : s.isCancelled = true)
    (hph : s.phase = .sequential done msgs (.finalizing prepared executed)) :
    CanReturn tools config calls s := by
  have hnext : s.step tools config calls (.abort 0) = some (s.goto (.sequential done msgs
        (.settled (.error prepared.toolCall "Operation aborted")))) := by
    rw [Schedule.step, hph]
    exact if_pos hcan
  apply CanReturn.head hnext trivial
  exact canReturn_settled hcan rfl

theorem canReturn_finished {res : Except Unit (ExecutedOutcome R)}
    (hcan : s.isCancelled = true) (hph : s.phase =
      .sequential done msgs (.executing prepared (.finished res) updates)) :
    CanReturn tools config calls s := by
  have hnext : s.step tools config calls (.join 0) =
      some (s.joinSequential config done msgs prepared updates res) := by
    rw [Schedule.step, hph]
  apply CanReturn.head hnext trivial
  have hjnd : (s.joinSequential config done msgs prepared updates res).isCancelled = true := hcan
  cases haft : config.afterToolCall with
  | false =>
    apply canReturn_settled hjnd
    simp only [Schedule.joinSequential, haft]
    rfl
  | true =>
    apply canReturn_finalizing hjnd
    simp only [Schedule.joinSequential, haft]
    rfl

omit [Inhabited R] in
/-- A worker is through, or gives up when the token has fired. -/
theorem Worker.finished_or_giveUp {B : Type} (worker : Worker R B) (aborted : B) :
    (∃ res : Except Unit B, worker = .finished res) ∨
      worker.giveUp true aborted = some (.finished (.ok aborted)) := by
  cases worker with
  | finished res => exact .inl ⟨res, rfl⟩
  | _ => exact .inr rfl

theorem canReturn_executing {worker : Worker R (ExecutedOutcome R)} (hcan : s.isCancelled = true)
    (hph : s.phase = .sequential done msgs (.executing prepared worker updates)) :
    CanReturn tools config calls s := by
  rcases Worker.finished_or_giveUp worker (.error "Operation aborted") with ⟨res, rfl⟩ | hgiveUp
  · exact canReturn_finished hcan hph
  · have hnext : s.step tools config calls (.abort 0) = some (s.goto (.sequential done msgs
          (.executing prepared (.finished (.ok (.error "Operation aborted"))) updates))) := by
      rw [Schedule.step, hph]
      simp only [Schedule.executeSequential, hph, hcan, hgiveUp, map_some]
      rfl
    apply CanReturn.head hnext trivial
    exact canReturn_finished hcan rfl

/-- The queue of a channel that is read runs empty. -/
theorem canReturn_drain (hcan : s.isCancelled = true) (hph : s.phase = .collecting batch)
    (hrecv : batch.receives = true)
    (h : ∀ s : Schedule R, s.isCancelled = true →
      s.phase = .collecting { batch with updates := [] } → CanReturn tools config calls s) :
    CanReturn tools config calls s := by
  generalize hupds : batch.updates = updates
  induction updates generalizing s batch with
  | nil =>
    apply h s hcan
    rw [hph, ← hupds]
  | cons update updates ih =>
    have hnext : s.step tools config calls .forward = some ((s.emit
        (emitParallelUpdate batch.slots update)).goto
          (.collecting { batch with updates := updates })) := by
      rw [Schedule.step, hph]
      simp only [hupds, hrecv, if_true]
    apply CanReturn.head hnext trivial
    apply @ih _ { batch with updates := updates } _ rfl hrecv h rfl
    exact hcan

omit [Inhabited R] in
/-- Once the token has fired no job is spawned in place of a joined worker. -/
theorem exists_settleJoined (batch : ParallelBatch R) (hcan : s.isCancelled = true)
    (settled : List (ParallelSlot R) × List (Nat × AgentEvent R)) :
    ∃ next : ParallelBatch R, (s.settleJoined batch settled).phase = .collecting next ∧
      next.joined = none ∧ next.workers = batch.workers := by
  rw [Schedule.settleJoined]
  cases hjobs : batch.jobs with
  | nil => exact ⟨_, rfl, rfl, rfl⟩
  | cons job jobs =>
    simp only [hcan, Bool.or_true, if_true]
    exact ⟨_, rfl, rfl, rfl⟩

/-- A joined worker is recorded once the channel is empty. -/
theorem canReturn_joined {joined : ParallelJoined R} (hcan : s.isCancelled = true)
    (hph : s.phase = .collecting batch) (hjoined : batch.joined = some joined)
    (h : ∀ (s : Schedule R) (next : ParallelBatch R), s.isCancelled = true →
      s.phase = .collecting next → next.joined = none → next.workers = batch.workers →
        CanReturn tools config calls s) : CanReturn tools config calls s := by
  have hdrained : ∀ (s : Schedule R) (current : ParallelBatch R) (joined : ParallelJoined R),
      s.isCancelled = true → s.phase = .collecting current → current.joined = some joined →
        joined.drained = true → current.workers = batch.workers →
          CanReturn tools config calls s := by
    intro s current joined hcan hph hjoined hdrained hworkers
    have hnext : s.step tools config calls .settleWorker =
        some (s.settleJoined current (joined.settle current.slots)) := by
      rw [Schedule.step, hph]
      simp only [hjoined, hdrained, if_true]
    apply CanReturn.head hnext trivial
    obtain ⟨next, hnextPhase, hnone, hnextWorkers⟩ := exists_settleJoined current hcan
      (joined.settle current.slots)
    exact h _ next (by exact hcan) hnextPhase hnone (hnextWorkers.trans hworkers)
  cases hflag : joined.drained with
  | true => exact hdrained s batch joined hcan hph hjoined hflag rfl
  | false =>
    apply canReturn_drain hcan hph
    · simp only [ParallelBatch.receives, hjoined, hflag, Bool.not_false]
    · intro s hcan hph
      have hnext : s.step tools config calls .drained = some (s.goto (.collecting
          { batch with updates := [], joined := some { joined with drained := true } })) := by
        rw [Schedule.step, hph]
        simp only [hjoined]
      apply CanReturn.head hnext trivial
      exact hdrained _ _ _ (by exact hcan) rfl rfl rfl rfl

theorem canReturn_workers (hcan : s.isCancelled = true) (hph : s.phase = .collecting batch)
    (hnone : batch.joined = none) : CanReturn tools config calls s := by
  generalize hworkers : batch.workers = workers
  induction workers generalizing s batch with
  | nil =>
    apply canReturn_drain hcan hph
    · simp only [ParallelBatch.receives, hnone, hworkers, isEmpty_nil, Bool.or_true]
    · intro s hcan hph
      have hnext : s.step tools config calls (.finish fun _ => 0) =
          some (s.finishParallel { batch with updates := [] } fun _ => 0) := by
        rw [Schedule.step, hph]
        simp only [hnone, hworkers]
        rfl
      apply CanReturn.head hnext trivial
      exact canReturn_returned rfl
  | cons worker workers ih =>
    -- The first worker gives up if it is still at work, and is joined.
    have hjoin : ∀ (s : Schedule R) (batch : ParallelBatch R) (job : ParallelJob R)
        (res : Except Unit (FinalizedOutcome R)), s.isCancelled = true →
        s.phase = .collecting batch → batch.joined = none →
        batch.workers = { job := job, state := .finished res } :: workers →
        CanReturn tools config calls s := by
      intro s batch job res hcan hph hnone hworkers
      have hnext : s.step tools config calls (.join 0) = some (s.goto (.collecting { batch with
          workers := workers
          joined := some { job := job, result := some res, drained := false } })) := by
        rw [Schedule.step, hph]
        simp only [hworkers, getElem?_cons_zero, Schedule.joinParallel, hnone]
        rfl
      apply CanReturn.head hnext trivial
      apply canReturn_joined (by exact hcan) rfl rfl
      intro s next hcan hph hnone hnextWorkers
      exact ih hcan hph hnone hnextWorkers
    obtain ⟨job, state⟩ := worker
    rcases Worker.finished_or_giveUp state (.error job.prepared.toolCall "Operation aborted")
      with ⟨res, rfl⟩ | hgiveUp
    · exact hjoin s batch job res hcan hph hnone hworkers
    · have hnext : s.step tools config calls (.abort 0) =
          some (s.goto (.collecting { batch with workers :=
            { job := job, state := .finished (.ok (.error job.prepared.toolCall
              "Operation aborted")) } :: workers })) := by
        rw [Schedule.step, hph]
        simp only [Schedule.executeSequential, Schedule.executeParallel, hph, hworkers,
          getElem?_cons_zero, bind_some, hcan, hgiveUp, map_some,
          set_cons_zero]
        rfl
      apply CanReturn.head hnext trivial
      exact hjoin _ _ job _ (by exact hcan) rfl hnone rfl

theorem canReturn_collecting (hcan : s.isCancelled = true)
    (hph : s.phase = .collecting batch) : CanReturn tools config calls s := by
  cases hjoined : batch.joined with
  | none => exact canReturn_workers hcan hph hjoined
  | some joined =>
    apply canReturn_joined hcan hph hjoined
    intro s next hcan hph hnone _
    exact canReturn_workers hcan hph hnone

/-- The answers a preparation waits for decide it. -/
theorem canReturn_sequential (hkept : Kept tools cfg calls s) (hcan : s.isCancelled = true)
    {stage : Stage R} (hph : s.phase = .sequential done msgs stage) :
    CanReturn tools cfg calls s := by
  rw [Kept, hph] at hkept
  obtain ⟨call, hrecs, -⟩ := hkept.records
  have hcall := hrecs.call done.length (.pending call) (by
    rw [← length_map ParallelSlot.ready]
    exact getElem?_concat_length)
  rw [ParallelSlot.toolCall] at hcall
  have hdecided : ∀ (s : Schedule R) (prep : Preparation R), s.isCancelled = true →
      s.phase = .sequential done msgs (.preparing (.decided prep)) →
      CanReturn tools cfg calls s := by
    intro s prep hcan hph
    cases prep with
    | immediate outcome =>
      have hnext : s.step tools cfg calls .place = some (s.goto (.sequential done msgs (.settled
            { toolCall := call, result := outcome.result, isError := outcome.isError }))) := by
        rw [Schedule.step, Schedule.place, hph]
        simp only [hcall, map_some]
      apply CanReturn.head hnext trivial
      exact canReturn_settled hcan rfl
    | prepared prepared =>
      have hnext : s.step tools cfg calls .place =
          some (s.goto (.sequential done msgs (.executing prepared .spawned []))) := by
        rw [Schedule.step, Schedule.place, hph]
      apply CanReturn.head hnext trivial
      exact canReturn_executing hcan rfl
  cases stage with
  | preparing stage =>
    cases stage with
    | validating =>
      have hnext : s.step tools cfg calls (.validate (.returns (.error ""))) =
          some (s.goto (.sequential done msgs
            (.preparing (.decided (.immediate (.error "")))))) := by
        rw [Schedule.step, Schedule.prepareWith, hph]
        simp only [hcall, bind_some]
        rfl
      apply CanReturn.head hnext trivial
      exact hdecided _ _ (by exact hcan) rfl
    | hooking args =>
      have hnext : s.step tools cfg calls (.before (.returns (.error ""))) =
          some (s.goto (.sequential done msgs
            (.preparing (.decided (.immediate (.error "")))))) := by
        rw [Schedule.step, Schedule.prepareWith, hph]
        simp only [hcall, bind_some]
        rfl
      apply CanReturn.head hnext trivial
      exact hdecided _ _ (by exact hcan) rfl
    | decided prep => exact hdecided s prep hcan hph
  | executing prepared worker updates => exact canReturn_executing hcan hph
  | finalizing prepared executed => exact canReturn_finalizing hcan hph
  | settled fin => exact canReturn_settled hcan hph

/-- After a slot for its call a preflight is at the next call or done. -/
theorem canReturn_nextPreflight
    (h : ∀ (s : Schedule R) (jobs : List (ParallelJob R)) (stage : Preparing R),
      Kept tools cfg calls s → s.isCancelled = true → s.phase = .preflight slots jobs stage →
        CanReturn tools cfg calls s)
    (hkept : Kept tools cfg calls (s.nextPreflight tools calls slots jobs))
    (hcan : s.isCancelled = true) :
    CanReturn tools cfg calls (s.nextPreflight tools calls slots jobs) := by
  cases hcall : calls[slots.length]? with
  | some call =>
    have hat : s.nextPreflight tools calls slots jobs =
        (s.emit [(slots.length, toolExecutionStart call)]).goto
          (.preflight slots jobs (prepareToolCall tools call)) := by
      rw [Schedule.nextPreflight, hcall]
    rw [hat] at hkept ⊢
    exact h _ jobs _ hkept hcan rfl
  | none =>
    have hat : s.nextPreflight tools calls slots jobs =
        s.goto (.collecting (spawnWorkers slots jobs)) := by
      rw [Schedule.nextPreflight, hcall]
    rw [hat]
    exact canReturn_collecting (by exact hcan) rfl

theorem canReturn_preflight (remaining : Nat) {stage : Preparing R}
    (hkept : Kept tools cfg calls s) (hcan : s.isCancelled = true)
    (hph : s.phase = .preflight slots jobs stage)
    (hremaining : calls.length ≤ slots.length + remaining) : CanReturn tools cfg calls s := by
  induction remaining generalizing s slots jobs stage with
  | zero =>
    rw [Kept, hph] at hkept
    obtain ⟨call, hrecs, -⟩ := hkept.records
    have hle := hrecs.length_le
    rw [length_append, length_singleton] at hle
    omega
  | succ remaining ih =>
    have hat := hkept
    rw [Kept, hph] at hat
    obtain ⟨call, hrecs, -⟩ := hat.records
    have hcall := hrecs.call slots.length (.pending call) getElem?_concat_length
    rw [ParallelSlot.toolCall] at hcall
    have hmore : ∀ (slot : ParallelSlot R) (s : Schedule R) (jobs : List (ParallelJob R))
        (stage : Preparing R), Kept tools cfg calls s → s.isCancelled = true →
        s.phase = .preflight (slots ++ [slot]) jobs stage → CanReturn tools cfg calls s := by
      intro slot s jobs stage hkept hcan hph
      apply ih hkept hcan hph
      rw [length_append, length_singleton]
      omega
    have hdecided : ∀ (s : Schedule R) (prep : Preparation R),
        Kept tools cfg calls s → s.isCancelled = true →
        s.phase = .preflight slots jobs (.decided prep) →
        CanReturn tools cfg calls s := by
      intro s prep hkept hcan hph
      cases prep with
      | immediate outcome =>
        have hnext : s.step tools cfg calls .place = some ((s.emit [(slots.length, toolExecutionEnd
              { toolCall := call, result := outcome.result, isError := outcome.isError })]
              ).nextPreflight tools calls (slots ++ [.ready
                { toolCall := call, result := outcome.result, isError := outcome.isError }])
              jobs) := by
          rw [Schedule.step, Schedule.place, hph]
          simp only [hcall, map_some]
        apply CanReturn.head hnext trivial
        exact canReturn_nextPreflight (hmore _) (hkept.step hnext) (by exact hcan)
      | prepared prepared =>
        have hnext : s.step tools cfg calls .place =
            some (s.nextPreflight tools calls (slots ++ [.pending prepared.toolCall])
              (jobs ++ [{ index := slots.length, prepared := prepared }])) := by
          rw [Schedule.step, Schedule.place, hph]
        apply CanReturn.head hnext trivial
        exact canReturn_nextPreflight (hmore _) (hkept.step hnext) hcan
    cases stage with
    | validating =>
      have hnext : s.step tools cfg calls (.validate (.returns (.error ""))) =
          some (s.goto (.preflight slots jobs (.decided (.immediate (.error ""))))) := by
        rw [Schedule.step, Schedule.prepareWith, hph]
        simp only [hcall, bind_some]
        rfl
      apply CanReturn.head hnext trivial
      exact hdecided _ _ (hkept.step hnext) (by exact hcan) rfl
    | hooking args =>
      have hnext : s.step tools cfg calls (.before (.returns (.error ""))) =
          some (s.goto (.preflight slots jobs (.decided (.immediate (.error ""))))) := by
        rw [Schedule.step, Schedule.prepareWith, hph]
        simp only [hcall, bind_some]
        rfl
      apply CanReturn.head hnext trivial
      exact hdecided _ _ (hkept.step hnext) (by exact hcan) rfl
    | decided prep => exact hdecided s prep hkept hcan hph

/-- From wherever a batch stands, unless a panic unwound it, firing the token lets it return. -/
theorem canReturn (hkept : Kept tools cfg calls s) (hph : s.phase ≠ .unwound) :
    CanReturn tools cfg calls s := by
  cases hat : s.phase with
  | returned batch => exact canReturn_returned hat
  | unwound => exact absurd hat hph
  | sequential done msgs stage =>
    have hnext : s.step tools cfg calls .cancel =
        some { s with cancelledAt := some (s.cancelledAt.getD done.length) } := by
      rw [Schedule.step, Schedule.cancel, hat]
    exact .head hnext trivial (canReturn_sequential (hkept.step hnext) rfl hat)
  | preflight slots jobs stage =>
    have hnext : s.step tools cfg calls .cancel =
        some { s with cancelledAt := some (s.cancelledAt.getD 0) } := by
      rw [Schedule.step, Schedule.cancel, hat]
    exact .head hnext trivial
      (canReturn_preflight calls.length (hkept.step hnext) rfl hat (Nat.le_add_left _ _))
  | collecting batch =>
    have hnext : s.step tools cfg calls .cancel =
        some { s with cancelledAt := some (s.cancelledAt.getD 0) } := by
      rw [Schedule.step, Schedule.cancel, hat]
    exact .head hnext trivial (canReturn_collecting rfl hat)

end

/-- The batch answers its first calls, each with one result, one start and one end, and starts
no other call. -/
structure Answers (tools : List AgentTool) (config : AgentLoopConfig) (calls : List (ToolCall R))
    (s : Schedule R) (batch : ExecutedToolCallBatch R) : Prop where
  count : batch.messages.length =
    answeredCount (batchMode tools config calls) calls.length s.cancelledAt
  answered : ∀ i < batch.messages.length, ∃ (finalized : FinalizedOutcome R) (now : Int),
    calls[i]? = some finalized.toolCall ∧
      batch.messages[i]? = some (toolResultMessage finalized now) ∧
        lifecycle s.log i = [toolExecutionStart finalized.toolCall, toolExecutionEnd finalized]
  silent : ∀ i : Nat, batch.messages.length ≤ i → lifecycle s.log i = []

/-- A batch that returned answers its calls, and every batch that no panic outside of a
worker unwound can return, without the help of a tool. -/
theorem Run.answers [Inhabited R] {tools : List AgentTool} {cfg : AgentLoopConfig}
    {content : List (AssistantContent R)} {s : Schedule R}
    (h : (machine tools cfg (toolCallsFromMessage content)).Run (fun _ _ => True) s) :
    (∀ batch : ExecutedToolCallBatch R, s.phase = .returned batch →
        Answers tools cfg (toolCallsFromMessage content) s batch) ∧
      (s.phase ≠ .unwound → CanReturn tools cfg (toolCallsFromMessage content) s) := by
  have hkept := Run.kept h
  refine ⟨?_, fun hphase => canReturn hkept hphase⟩
  intro batch hphase
  rw [Kept, hphase] at hkept
  obtain ⟨done, hrecs, hreplied, hcount⟩ := hkept
  have hlen := hreplied.length_eq
  refine ⟨hlen.symm.trans hcount, ?_, ?_⟩
  · intro i hi
    have hbound : i < done.length := hlen ▸ hi
    obtain ⟨now, hnow⟩ := (forall₂_iff_get.mp hreplied).2 i hbound hi
    have hslot : (done.map ParallelSlot.ready)[i]? = some (.ready done[i]) := by
      rw [getElem?_map, getElem?_eq_getElem hbound, map_some]
    refine ⟨_, now, hrecs.call i _ hslot, ?_, hrecs.kept i _ hslot⟩
    rw [getElem?_eq_getElem hi]
    exact congrArg some hnow
  · intro i hi
    apply hrecs.rest
    rw [length_map, hlen]
    exact hi

/-- Two calls of one tool. -/
def twoCalls : List (AssistantContent Unit) :=
  [.toolCall { id := "c1", name := "run", arguments := () }, .text "then",
    .toolCall { id := "c2", name := "run", arguments := () }]

/-- The token fires while the tool of the first call runs. -/
def cancelFirst : List (ScheduleEvent Unit) :=
  [.validate (.returns (.ok ())), .place, .admission 0, .cancel, .abort 0, .join 0, .settle 0]

/-- A cancelled sequential batch leaves its second call without a result. -/
theorem sequential_leaves_calls : ¬ ∀ (tools : List AgentTool) (cfg : AgentLoopConfig)
    (content : List (AssistantContent Unit)) (s : Schedule Unit)
    (batch : ExecutedToolCallBatch Unit),
    (machine tools cfg (toolCallsFromMessage content)).Run (fun _ _ => True) s →
      s.phase = .returned batch → batch.messages.map ToolResultMessage.toolCallId =
          (toolCallsFromMessage content).map ToolCall.id := by
  intro hall
  have hstart : (machine [⟨"run", none⟩] ⟨.sequential, false, false⟩
      (toolCallsFromMessage twoCalls)).Run (fun _ _ => True)
      (executeToolCalls [⟨"run", none⟩] ⟨.sequential, false, false⟩
        (toolCallsFromMessage twoCalls) false) := .start ⟨false, rfl⟩
  obtain ⟨s, hrun, hs⟩ := hstart.execute (fun _ _ => true) cancelFirst (fun s => match s.phase with
      | .returned batch => batch.messages.map ToolResultMessage.toolCallId == ["c1"]
      | _ => false)
    (fun _ _ _ => trivial) (by decide +kernel)
  cases hphase : s.phase with
  | returned batch =>
    rw [hphase] at hs
    have hids := hall _ _ _ s batch hrun hphase
    rw [eq_of_beq hs] at hids
    exact absurd hids (by decide)
  | _ =>
    rw [hphase] at hs
    cases hs

/-- The second of two parallel calls is through first, and the first one panics. -/
def secondFirst : List (ScheduleEvent Unit) :=
  [.validate (.returns (.ok ())), .place, .validate (.returns (.ok ())), .place, .admission 0,
    .admission 1, .execute 1 (.returns (.ok (errorToolResult "done"))), .join 1, .drained,
    .settleWorker, .execute 0 .panics, .join 0, .drained, .settleWorker, .finish fun _ => 0]

theorem answers_secondFirst : ∃ (s : Schedule Unit) (batch : ExecutedToolCallBatch Unit),
    s.phase = .returned batch ∧ batch.messages.map ToolResultMessage.isError = [true, false] ∧
        Answers [⟨"run", none⟩] ⟨.parallel, false, false⟩ (toolCallsFromMessage twoCalls) s
          batch := by
  have hstart : (machine [⟨"run", none⟩] ⟨.parallel, false, false⟩
      (toolCallsFromMessage twoCalls)).Run (fun _ _ => True)
      (executeToolCalls [⟨"run", none⟩] ⟨.parallel, false, false⟩
        (toolCallsFromMessage twoCalls) false) := .start ⟨false, rfl⟩
  obtain ⟨s, hrun, hs⟩ := hstart.execute (fun _ _ => true) secondFirst (fun s => match s.phase with
      | .returned batch => batch.messages.map ToolResultMessage.isError == [true, false]
      | _ => false)
    (fun _ _ _ => trivial) (by decide +kernel)
  cases hphase : s.phase with
  | returned batch =>
    rw [hphase] at hs
    exact ⟨s, batch, hphase, eq_of_beq hs, (Run.answers hrun).1 batch hphase⟩
  | _ =>
    rw [hphase] at hs
    cases hs

end Schedule

end PiOxidized.Agent
