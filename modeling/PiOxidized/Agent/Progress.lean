/-
# Progress stays inside the execution

An update is sent through the handle of its call and queued with those of the other calls of a
parallel batch.  The handle refuses what comes after the tool has returned or was given up, but not
what comes after it has panicked.  As long as nothing comes from a call that has panicked once the
queue was drained behind its worker, every update is emitted between the start and the end of its
call.
-/

import PiOxidized.Agent.Answered

namespace PiOxidized.Agent

open List Option Math Bool

variable {R : Type}

def AgentEvent.update? : AgentEvent R → Option (AgentToolResult R)
  | toolExecutionUpdate _ _ _ update => some update
  | _ => none

/-- The updates that were emitted, each with the position of its call. -/
def emitted (log : List (Nat × AgentEvent R)) : List (Nat × AgentToolResult R) :=
  log.filterMap fun entry => entry.2.update?.map fun update => (entry.1, update)

/-- Every update is emitted for a call that has started and has not ended. -/
def Inside (calls : List (ToolCall R)) (log : List (Nat × AgentEvent R)) : Prop :=
  ∀ (n position : Nat) (event : AgentEvent R) (update : AgentToolResult R),
    log[n]? = some (position, event) → event.update? = some update →
      ∃ call, calls[position]? = some call ∧ event = toolExecutionUpdate call update ∧
        lifecycle (log.take n) position = [toolExecutionStart call]

/-- The updates that are queued. -/
def Schedule.queued (s : Schedule R) : List (Nat × AgentToolResult R) := match s.phase with
  | .collecting batch => batch.updates
  | _ => []

/-- Whether the call of a position is open and what is queued for it comes before its end: once the
queue was drained behind a worker, the outcome of the worker comes first. -/
def ParallelBatch.awaits (batch : ParallelBatch R) (index : Nat) : Bool :=
  (batch.slots[index]? matches some (.pending _)) && !batch.joined.any fun joined =>
    joined.drained && joined.result.isSome && decide (joined.job.index = index)

/-- The position of the call whose tool a worker of a parallel batch waits for. -/
def ParallelWorker.running? (worker : ParallelWorker R) : Option Nat :=
  if worker.state matches .running then some worker.job.index else none

def Schedule.workers (s : Schedule R) : List (ParallelWorker R) := match s.phase with
  | .collecting batch => batch.workers
  | _ => []

/-- A parallel batch, the positions of the calls whose handles were left open, and the updates that
were accepted. -/
structure Progress (R : Type) where
  schedule : Schedule R
  leftOpen : List Nat := []
  sent : List (Nat × AgentToolResult R) := []

namespace Progress

/-- A handle accepts while its tool runs.  It stops when the tool has returned or is given up, and
is left open by a tool that panics. -/
def accepts (p : Progress R) (index : Nat) : Bool :=
  p.schedule.workers.any (·.running? = some index) || p.leftOpen.contains index

def leaves (p : Progress R) : ScheduleEvent R → List Nat
  | .execute index .panics | .lose index =>
    p.leftOpen ++ (p.schedule.workers[index]?.bind ParallelWorker.running?).toList
  | _ => p.leftOpen

/-- The runs of a parallel batch whose tools, and what they have left running, send updates. -/
def machine [Inhabited R] (tools : List AgentTool) (config : AgentLoopConfig)
    (calls : List (ToolCall R)) : Machine (Progress R) (ScheduleEvent R) where
  start p := batchMode tools config calls = .parallel ∧ ∃ cancelled : Bool,
    p = { schedule := Schedule.executeToolCalls tools config calls cancelled }
  step p event := match event with
    | .progress index update =>
      if p.accepts index then
        -- Nobody receives what is sent after the batch has returned.
        some { p with
          schedule := (p.schedule.step tools config calls event).getD p.schedule
          sent := p.sent ++ [(index, update)] }
      else some p
    | _ => (p.schedule.step tools config calls event).map fun s =>
      { p with schedule := s, leftOpen := p.leaves event }

/-- What is sent for a call whose handle was left open comes before the queue is drained for the
answer of the call, or finds the queue full. -/
def careful (p : Progress R) : ScheduleEvent R → Bool
  | .progress index _ =>
    match p.schedule.phase with
    | .collecting batch =>
      !p.leftOpen.contains index || parallelToolUpdateCapacity ≤ batch.updates.length ||
        batch.awaits index
    | _ => true
  | _ => true

end Progress

/-! ## What is emitted -/

variable {calls : List (ToolCall R)} {log events : List (Nat × AgentEvent R)}
  {slots : List (ParallelSlot R)}

/-- Events that are no updates. -/
def Updateless (events : List (Nat × AgentEvent R)) : Prop :=
  ∀ entry ∈ events, entry.2.update? = none

theorem updateless_nil : Updateless ([] : List (Nat × AgentEvent R)) :=
  fun _ hmem => (not_mem_nil hmem).elim

theorem Updateless.append {more : List (Nat × AgentEvent R)} (h : Updateless events)
    (hmore : Updateless more) : Updateless (events ++ more) := by
  intro entry hent
  exact (mem_append.mp hent).elim (h entry) (hmore entry)

theorem updateless_singleton {pos : Nat} {event : AgentEvent R} (h : event.update? = none) :
    Updateless [(pos, event)] := by
  intro entry hent
  rw [mem_singleton.mp hent]
  exact h

theorem Updateless.emitted_eq_nil (h : Updateless events) : emitted events = [] := by
  rw [emitted, filterMap_eq_nil_iff]
  intro entry hent
  rw [h entry hent]
  rfl

theorem emitted_append (log events : List (Nat × AgentEvent R)) :
    emitted (log ++ events) = emitted log ++ emitted events :=
  filterMap_append

theorem Inside.concat (h : Inside calls log) {pos : Nat} {event : AgentEvent R}
    (hevent : ∀ upd, event.update? = some upd →
      ∃ call, calls[pos]? = some call ∧ event = toolExecutionUpdate call upd ∧
        lifecycle log pos = [toolExecutionStart call]) :
    Inside calls (log ++ [(pos, event)]) := by
  intro n pos event upd hn hupd
  rcases getElem?_append_cases hn with hn | ⟨rfl, heq⟩
  · obtain ⟨hlt, -⟩ := List.getElem?_eq_some_iff.mp hn
    rw [take_append_of_le_length hlt.le]
    exact h n pos event upd hn hupd
  · cases heq
    rw [take_left]
    exact hevent upd hupd

theorem Inside.append (h : Inside calls log) (hevs : Updateless events) :
    Inside calls (log ++ events) := by
  induction events generalizing log with
  | nil =>
    rw [append_nil]
    exact h
  | cons entry events ih =>
    rw [← singleton_append, ← append_assoc]
    refine ih (h.concat ?_) fun other hoth => hevs other (mem_cons_of_mem _ hoth)
    intro upd hupd
    rw [hevs entry mem_cons_self] at hupd
    cases hupd

/-- Whether the call of a position is open. -/
def IsOpen (slots : List (ParallelSlot R)) (i : Nat) : Prop :=
  ∃ call, slots[i]? = some (.pending call)

theorem emitParallelUpdate_of_open {call : ToolCall R} {i : Nat} (upd : AgentToolResult R)
    (h : slots[i]? = some (.pending call)) :
    emitParallelUpdate slots (i, upd) = [(i, toolExecutionUpdate call upd)] := by
  rw [emitParallelUpdate, h]

/-- An update of an open call is emitted inside of it. -/
theorem Inside.update (h : Inside calls log) (hrecs : Records calls log slots)
    {upd : Nat × AgentToolResult R} (hopen : IsOpen slots upd.1) :
    Inside calls (log ++ emitParallelUpdate slots upd) := by
  obtain ⟨call, hcall⟩ := hopen
  have hemit := emitParallelUpdate_of_open upd.2 hcall
  rw [hemit]
  apply h.concat
  intro other hoth
  cases hoth
  exact ⟨call, hrecs.call _ _ hcall, rfl, hrecs.kept _ _ hcall⟩

/-- What belongs to no call is not emitted at all. -/
theorem emitted_emitParallelUpdate (slots : List (ParallelSlot R))
    (upd : Nat × AgentToolResult R) : (emitted (emitParallelUpdate slots upd)).Sublist [upd] := by
  rw [emitParallelUpdate]
  split
  · exact nil_sublist _
  · exact .refl _
  · exact .refl _

theorem updateless_toolResultEvents (pos : Nat) (message : ToolResultMessage R) :
    Updateless ((toolResultEvents message).map (pos, ·)) := by
  intro entry hent
  obtain ⟨event, hevent, rfl⟩ := mem_map.mp hent
  rcases mem_pair.mp hevent with rfl | rfl
  · rfl
  · rfl

section

variable [Inhabited R]

theorem updateless_settlePending (slots : List (ParallelSlot R)) (i : Nat) (message : String) :
    Updateless (settlePending slots i message).2 := by
  rw [settlePending]
  split
  · exact updateless_singleton rfl
  · exact updateless_nil

theorem updateless_settleWorker (slots : List (ParallelSlot R)) (i : Nat)
    (result : Except Unit (FinalizedOutcome R)) : Updateless (settleWorker slots i result).2 := by
  cases result with
  | ok finalized => exact updateless_singleton rfl
  | error _ => exact updateless_settlePending slots i _

theorem updateless_settle (joined : ParallelJoined R) (slots : List (ParallelSlot R)) :
    Updateless (joined.settle slots).2 := by
  rw [ParallelJoined.settle]
  split
  · exact updateless_settleWorker _ _ _
  · exact updateless_nil

/-- A worker that is recorded closes no slot but its own. -/
theorem getElem?_settle {joined : ParallelJoined R} {i : Nat}
    (h : joined.result.isSome = true → joined.job.index ≠ i) (slots : List (ParallelSlot R)) :
    (joined.settle slots).1[i]? = slots[i]? := by
  rw [ParallelJoined.settle]
  cases hres : joined.result with
  | none => rfl
  | some res =>
    have hne := h (by rw [hres]; rfl)
    cases res with
    | ok fin => exact getElem?_set_ne hne
    | error _ =>
      simp only [settleWorker, settlePending]
      split
      · exact getElem?_set_ne hne
      · rfl

theorem updateless_settleAllPending (slots : List (ParallelSlot R)) (message : String) :
    Updateless (settleAllPending slots message).2 := by
  have hfold : ∀ (indices : List Nat) (state : List (ParallelSlot R) × List (Nat × AgentEvent R)),
      Updateless state.2 → Updateless (indices.foldl (settleNext message) state).2 := by
    intro indices
    induction indices with
    | nil => exact fun _ hsilent => hsilent
    | cons i indices ih =>
      intro state hsilent
      exact ih _ (hsilent.append (updateless_settlePending _ _ _))
  exact hfold _ _ updateless_nil

theorem updateless_emitResultsFrom (clock : Nat → Int) (pos : Nat)
    (slots : List (ParallelSlot R)) : Updateless (emitResultsFrom clock pos slots).2.2 := by
  induction slots generalizing pos with
  | nil => exact updateless_nil
  | cons slot slots ih =>
    refine (Updateless.append ?_ (updateless_toolResultEvents _ _)).append (ih _)
    cases slot with
    | ready finalized => exact updateless_nil
    | pending call => exact updateless_singleton rfl

end

/-! ## What every step keeps -/

variable {tools : List AgentTool} {cfg : AgentLoopConfig} {event : ScheduleEvent R}
  {s s' : Schedule R} {batch next : ParallelBatch R} {i : Nat}

namespace Schedule

/-- A step emits an update of the queue, or events that are none; it starts no worker in excess, and
what stays in the queue still comes before the ends of its calls. -/
structure Emits (slots : List (ParallelSlot R)) (s s' : Schedule R) : Prop where
  log : (∃ update, s.queued = update :: s'.queued ∧
      s'.log = s.log ++ emitParallelUpdate slots update) ∨
    s'.queued = s.queued ∧ ∃ events, s'.log = s.log ++ events ∧ Updateless events
  next : ∀ next, s'.phase = .collecting next →
    next.workers.length + next.joined.toList.length ≤ maxParallelToolCalls ∧
      (next.updates = [] ∨ ∃ batch, s.phase = .collecting batch ∧
        ∀ i, batch.awaits i = true → next.awaits i = true)

/-- The batch moves on, and emits no update. -/
theorem emits_of_queue_eq (hph : s.phase = .collecting batch) (hlog : s'.log = s.log ++ events)
    (hevs : Updateless events) (hph' : s'.phase = .collecting next)
    (hupds : next.updates = batch.updates)
    (hawaits : ∀ i, batch.awaits i = true → next.awaits i = true)
    (hlen : next.workers.length + next.joined.toList.length ≤ maxParallelToolCalls) :
    Emits slots s s' where
  log := by
    refine .inr ⟨?_, events, hlog, hevs⟩
    simp only [queued, hph, hph', hupds]
  next := by
    intro other hoth
    rw [hph'] at hoth
    cases hoth
    exact ⟨hlen, .inr ⟨batch, hph, hawaits⟩⟩

theorem emits_executeParallel (hph : s.phase = .collecting batch)
    (hlen : batch.workers.length + batch.joined.toList.length ≤ maxParallelToolCalls)
    {step : PreparedToolCall R → Worker R (FinalizedOutcome R) →
      Option (Worker R (FinalizedOutcome R))} (hstep : s.executeParallel i step = some s') :
    Emits slots s s' := by
  rw [executeParallel, hph] at hstep
  obtain ⟨worker, hwork, hstep⟩ := bind_eq_some_iff.mp hstep
  obtain ⟨state, -, rfl⟩ := map_eq_some_iff.mp hstep
  refine emits_of_queue_eq hph (append_nil _).symm updateless_nil rfl rfl (fun _ h => h) ?_
  rw [length_set]
  exact hlen

/-- A worker is joined, or lost, and the queue is drained for it. -/
theorem emits_joinParallel (hph : s.phase = .collecting batch)
    (hlen : batch.workers.length + batch.joined.toList.length ≤ maxParallelToolCalls)
    (hlt : i < batch.workers.length) {job : ParallelJob R}
    {res : Option (Except Unit (FinalizedOutcome R))}
    (hstep : s.joinParallel batch i job res = some s') : Emits slots s s' := by
  rw [joinParallel] at hstep
  split_ifs at hstep
  cases hstep
  refine emits_of_queue_eq hph (append_nil _).symm updateless_nil rfl rfl ?_ ?_
  · intro pos hawaits
    rw [ParallelBatch.awaits, and_eq_true] at hawaits ⊢
    exact ⟨hawaits.1, rfl⟩
  · have herased := length_eraseIdx_of_lt hlt
    simp only [herased, toList_some, length_singleton]
    omega

variable [Inhabited R]

/-- The worker that was joined is recorded; another one may take its place. -/
theorem emits_settleJoined (hph : s.phase = .collecting batch) {joined : ParallelJoined R}
    (hjoined : batch.joined = some joined) (hdrained : joined.drained = true)
    (hlen : batch.workers.length + batch.joined.toList.length ≤ maxParallelToolCalls) :
    Emits slots s (s.settleJoined batch (joined.settle batch.slots)) := by
  have hnext : ∃ next, (s.settleJoined batch (joined.settle batch.slots)).phase =
      .collecting next ∧ next.updates = batch.updates ∧ next.joined = none ∧
        next.slots = (joined.settle batch.slots).1 ∧
          next.workers.length ≤ batch.workers.length + 1 := by
    rw [settleJoined]
    cases batch.jobs with
    | nil => exact ⟨_, rfl, rfl, rfl, rfl, Nat.le_succ _⟩
    | cons job jobs =>
      simp only
      split_ifs
      · exact ⟨_, rfl, rfl, rfl, rfl, Nat.le_succ _⟩
      · refine ⟨_, rfl, rfl, rfl, rfl, ?_⟩
        rw [length_append, length_singleton]
  obtain ⟨next, hcollecting, hupds, hnone, hslots, hbound⟩ := hnext
  refine emits_of_queue_eq hph rfl (updateless_settle _ _) hcollecting hupds ?_ ?_
  · intro pos hawaits
    simp only [ParallelBatch.awaits, hjoined, hdrained, Option.any_some, Bool.true_and,
      Bool.and_eq_true, Bool.not_eq_true', Bool.and_eq_false_iff,
      decide_eq_false_iff_not] at hawaits
    obtain ⟨hopen, hother⟩ := hawaits
    have hne : joined.result.isSome = true → joined.job.index ≠ pos := by
      intro hsome
      rcases hother with hlost | hne
      · rw [hsome] at hlost
        cases hlost
      · exact hne
    simp only [ParallelBatch.awaits, hnone, hslots, getElem?_settle hne, any_none,
      Bool.not_false, Bool.and_true]
    exact hopen
  · rw [hjoined] at hlen
    rw [hnone]
    exact hbound.trans hlen

theorem emits_finishParallel (hph : s.phase = .collecting batch) (hnil : batch.updates = [])
    (clock : Nat → Int) : Emits slots s (s.finishParallel batch clock) := by
  rw [finishParallel]
  generalize (if (batch.stopping || s.isCancelled) = true then "Operation aborted"
    else "Tool execution ended without a result") = message
  constructor
  · refine .inr ⟨?_, (settleAllPending batch.slots message).2 ++
      (emitResultsFrom clock 0 (settleAllPending batch.slots message).1).2.2, rfl, ?_⟩
    · simp only [queued, hph, hnil]
      rfl
    · exact (updateless_settleAllPending _ _).append (updateless_emitResultsFrom _ _ _)
  · intro next hnext
    cases hnext

theorem emits_nextPreflight (hlog : s'.log = s.log ++ events) (hevs : Updateless events)
    (hq : s.queued = []) (jobs : List (ParallelJob R)) (others : List (ParallelSlot R)) :
    Emits others s (s'.nextPreflight tools calls slots jobs) := by
  rw [nextPreflight]
  split
  · rename_i call hcall
    refine ⟨.inr ⟨hq.symm, events ++ [(slots.length, toolExecutionStart call)], ?_, ?_⟩, ?_⟩
    · rw [← append_assoc, ← hlog]
      rfl
    · exact hevs.append (updateless_singleton rfl)
    · intro next hnext
      cases hnext
  · refine ⟨.inr ⟨hq.symm, events, hlog, hevs⟩, ?_⟩
    intro next hnext
    cases hnext
    rw [spawnWorkers, length_map]
    exact ⟨length_take_le _ _, .inl rfl⟩

theorem emits_preflight {jobs : List (ParallelJob R)} {stage : Preparing R}
    (hph : s.phase = .preflight slots jobs stage) (others : List (ParallelSlot R))
    (hstep : s.step tools cfg calls event = some s') : Emits others s s' := by
  have hq : s.queued = [] := by
    rw [queued, hph]
  have hstays : ∀ cancelledAt phase, (∀ next, phase ≠ .collecting next) →
      Emits others s { cancelledAt := cancelledAt, log := s.log, phase := phase } := by
    intro cancelledAt phase hoth
    refine ⟨.inr ⟨?_, [], (append_nil _).symm, updateless_nil⟩,
      fun next heq => (hoth next heq).elim⟩
    rw [hq, queued]
    split
    · exact (hoth _ ‹_›).elim
    · rfl
  have hanswers : ∀ {ans : ToolCall R → Preparing R → Option (Preparing R)} {next},
      s.prepareWith calls ans = some next →
        ∃ stage, next = s.goto (.preflight slots jobs stage) := by
    intro ans next hnext
    rw [prepareWith, hph] at hnext
    obtain ⟨call, -, hnext⟩ := bind_eq_some_iff.mp hnext
    obtain ⟨stage, -, rfl⟩ := map_eq_some_iff.mp hnext
    exact ⟨stage, rfl⟩
  cases event with
  | cancel =>
    rw [step, cancel, hph] at hstep
    cases hstep
    exact hstays _ _ (by rintro _ ⟨⟩)
  | validate ans | before ans =>
    cases ans with
    | returns ans =>
      obtain ⟨stage, rfl⟩ := hanswers hstep
      exact hstays _ _ (by rintro _ ⟨⟩)
    | panics =>
      obtain ⟨before, hpre, rfl⟩ := map_eq_some_iff.mp hstep
      obtain ⟨stage, rfl⟩ := hanswers hpre
      exact hstays _ _ (by rintro _ ⟨⟩)
  | place =>
    rw [step, place, hph] at hstep
    cases stage with
    | decided preparation =>
      cases preparation with
      | immediate outcome =>
        obtain ⟨call, -, rfl⟩ := map_eq_some_iff.mp hstep
        have hended : Updateless
            [(slots.length, toolExecutionEnd ⟨call, outcome.result, outcome.isError⟩)] :=
          updateless_singleton rfl
        exact emits_nextPreflight rfl hended hq _ others
      | prepared prepared =>
        cases hstep
        exact emits_nextPreflight (append_nil _).symm updateless_nil hq _ others
    | _ => cases hstep
  | _ => simp [executeSequential, executeParallel, hph] at hstep

theorem emits_collecting (hph : s.phase = .collecting batch)
    (hlen : batch.workers.length + batch.joined.toList.length ≤ maxParallelToolCalls)
    (hevent : ∀ i upd, event ≠ .progress i upd)
    (hstep : s.step tools cfg calls event = some s') : Emits batch.slots s s' := by
  have hparallel : ∀ {i first second}, (s.executeSequential first <|>
      s.executeParallel i second) = some s' → Emits batch.slots s s' := by
    intro i first second hstep
    rcases (orElse_eq_some _ _ _).mp hstep with hfst | ⟨-, hsnd⟩
    · rw [executeSequential, hph] at hfst
      cases hfst
    · exact emits_executeParallel hph hlen hsnd
  cases event with
  | progress i upd => exact (hevent i upd rfl).elim
  | admission i | execute i ans => exact hparallel hstep
  | after i ans =>
    rw [step, hph] at hstep
    exact emits_executeParallel hph hlen hstep
  | abort i =>
    rw [step, hph] at hstep
    exact hparallel hstep
  | cancel =>
    rw [step, cancel, hph] at hstep
    cases hstep
    exact emits_of_queue_eq hph (append_nil _).symm updateless_nil rfl rfl (fun _ h => h) hlen
  | stop =>
    rw [step, hph] at hstep
    simp only at hstep
    split_ifs at hstep
    cases hstep
    exact emits_of_queue_eq hph (append_nil _).symm updateless_nil rfl rfl (fun _ h => h) hlen
  | forward =>
    rw [step, hph] at hstep
    simp only at hstep
    split at hstep
    · rename_i upd updates hupds
      split_ifs at hstep
      cases hstep
      refine ⟨.inl ⟨upd, ?_, rfl⟩, ?_⟩
      · simp only [queued, hph, hupds]
        rfl
      · intro next hnext
        cases hnext
        exact ⟨hlen, .inr ⟨batch, hph, fun _ h => h⟩⟩
    · cases hstep
  | join i =>
    rw [step, hph] at hstep
    simp only at hstep
    split at hstep
    · rename_i job result hwork
      exact emits_joinParallel hph hlen (List.getElem?_eq_some_iff.mp hwork).1 hstep
    · cases hstep
  | lose i =>
    rw [step, hph] at hstep
    obtain ⟨worker, hwork, hstep⟩ := bind_eq_some_iff.mp hstep
    exact emits_joinParallel hph hlen (List.getElem?_eq_some_iff.mp hwork).1 hstep
  | drained =>
    rw [step, hph] at hstep
    simp only at hstep
    split at hstep
    · rename_i joined hjoined hnil
      cases hstep
      refine ⟨.inr ⟨?_, [], (append_nil _).symm, updateless_nil⟩, ?_⟩
      · simp only [queued, hph]
        rfl
      · intro next hnext
        cases hnext
        rw [hjoined] at hlen
        exact ⟨hlen, .inl hnil⟩
    · cases hstep
  | settleWorker =>
    rw [step, hph] at hstep
    simp only at hstep
    split at hstep
    · rename_i joined hjoined
      split_ifs at hstep with hdrained
      cases hstep
      exact emits_settleJoined hph hjoined hdrained hlen
    · cases hstep
  | finish clock =>
    rw [step, hph] at hstep
    simp only at hstep
    split_ifs at hstep with hdone
    cases hstep
    rw [and_eq_true] at hdone
    exact emits_finishParallel hph (isEmpty_iff.mp hdone.2) clock
  | validate ans | before ans => cases ans <;> simp [prepareWith, hph] at hstep
  | _ => simp [place, hph] at hstep

/-- A batch that has returned, or that a panic has unwound, goes no further. -/
theorem step_eq_none {phase : Phase R} (hph : s.phase = phase)
    (hidle : phase matches .returned _ | .unwound) : s.step tools cfg calls event = none := by
  cases phase with
  | returned _ | unwound =>
    cases event with
    | validate ans | before ans | after i ans =>
      cases ans <;> simp [prepareWith, executeParallel, hph]
    | _ => simp [cancel, place, executeSequential, executeParallel, hph]
  | _ => cases hidle

end Schedule

theorem isOpen_of_awaits (h : batch.awaits i = true) : IsOpen batch.slots i := by
  rw [ParallelBatch.awaits, and_eq_true] at h
  obtain ⟨hopen, -⟩ := h
  split at hopen
  · exact ⟨_, ‹_›⟩
  · cases hopen

/-- The call of a worker is open, and is not the one that was joined. -/
theorem Schedule.InCollecting.awaits (h : Schedule.InCollecting tools cfg calls log batch)
    {worker : ParallelWorker R} (hwork : worker ∈ batch.workers) :
    batch.awaits worker.job.index = true := by
  have hjob : worker.job ∈ batch.workers.map ParallelWorker.job ++ batch.jobs :=
    mem_append_left _ (List.mem_map_of_mem hwork)
  have hopen := h.queued.open_ worker.job (mem_append_right _ hjob)
  have hdistinct := h.queued.nodup
  rw [map_append, nodup_append] at hdistinct
  rw [ParallelBatch.awaits, hopen, Bool.and_eq_true, Bool.not_eq_true', Option.any_eq_false]
  refine ⟨rfl, fun joined hjoined => ?_⟩
  rw [Bool.and_eq_false_iff, decide_eq_false_iff_not]
  right
  refine hdistinct.2.2 joined.job.index ?_ _ (mem_map_of_mem hjob)
  rw [hjoined]
  exact mem_singleton_self _

namespace Progress

variable {p p' : Progress R}

/-- The invariant of a batch whose tools send updates. -/
structure Sound (tools : List AgentTool) (config : AgentLoopConfig) (calls : List (ToolCall R))
    (p : Progress R) : Prop where
  mode : batchMode tools config calls = .parallel
  kept : Schedule.Kept tools config calls p.schedule
  inside : Inside calls p.schedule.log
  order : (emitted p.schedule.log ++ p.schedule.queued).Sublist p.sent
  batch : ∀ batch, p.schedule.phase = .collecting batch →
    batch.workers.length + batch.joined.toList.length ≤ maxParallelToolCalls ∧
      ∀ update ∈ batch.updates, batch.awaits update.1 = true

theorem Sound.emits (h : Sound tools cfg calls p) (hkept : Schedule.Kept tools cfg calls s)
    (hrecs : Records calls p.schedule.log slots)
    (hopen : ∀ upd ∈ p.schedule.queued, IsOpen slots upd.1)
    (hemits : Schedule.Emits slots p.schedule s) (leftOpen : List Nat) :
    Sound tools cfg calls { p with schedule := s, leftOpen := leftOpen } := by
  have horder := h.order
  have hqueued : s.queued ⊆ p.schedule.queued := by
    rcases hemits.log with ⟨upd, hque, -⟩ | ⟨hque, -⟩
    · rw [hque]
      exact subset_cons_self _ _
    · rw [hque]
      exact List.Subset.refl _
  refine { mode := h.mode, kept := hkept, inside := ?_, order := ?_, batch := ?_ }
  · rcases hemits.log with ⟨upd, hque, hlog⟩ | ⟨-, events, hlog, hevs⟩
    · rw [hlog]
      exact h.inside.update hrecs (hopen upd (hque ▸ mem_cons_self))
    · rw [hlog]
      exact h.inside.append hevs
  · rcases hemits.log with ⟨upd, hque, hlog⟩ | ⟨hque, events, hlog, hevs⟩
    · rw [hque, ← singleton_append] at horder
      rw [hlog, emitted_append, append_assoc]
      exact (((emitted_emitParallelUpdate _ _).append_right _).append_left _).trans horder
    · rw [hlog, emitted_append, hevs.emitted_eq_nil, append_nil, hque]
      exact horder
  · intro next hph
    obtain ⟨hlen, hkeeps⟩ := hemits.next next hph
    refine ⟨hlen, fun upd hmem => ?_⟩
    rcases hkeeps with hnil | ⟨batch, hbatch, hawaits⟩
    · rw [hnil] at hmem
      cases hmem
    · rw [Schedule.queued, Schedule.queued, hph, hbatch] at hqueued
      exact hawaits _ ((h.batch batch hbatch).2 upd (hqueued hmem))

theorem Sound.queued (h : Sound tools cfg calls p) (hph : p.schedule.phase = .collecting batch) :
    ∀ upd ∈ p.schedule.queued, IsOpen batch.slots upd.1 := by
  rw [Schedule.queued, hph]
  intro upd hmem
  exact isOpen_of_awaits ((h.batch batch hph).2 upd hmem)

theorem Sound.not_sequential (h : Sound tools cfg calls p) {finalizedCalls messages stage} :
    p.schedule.phase ≠ .sequential finalizedCalls messages stage := by
  intro hph
  have hkept := h.kept
  rw [Schedule.Kept, hph] at hkept
  have hmode := hkept.mode
  rw [h.mode] at hmode
  cases hmode

variable [Inhabited R]

/-- An update is accepted and queued, or nobody receives it. -/
theorem Sound.send (h : Sound tools cfg calls p) {upd : AgentToolResult R}
    (haccepts : p.accepts i = true) (hcare : p.careful (.progress i upd) = true) :
    Sound tools cfg calls { p with
      schedule := (p.schedule.step tools cfg calls (.progress i upd)).getD p.schedule
      sent := p.sent ++ [(i, upd)] } := by
  have hmore := h.order.trans (sublist_append_left p.sent [(i, upd)])
  cases hph : p.schedule.phase with
  | sequential => exact (h.not_sequential hph).elim
  | preflight | returned _ | unwound =>
    have hstep : p.schedule.step tools cfg calls (.progress i upd) = none := by
      rw [Schedule.step, hph]
    rw [hstep, getD_none]
    exact { h with order := hmore }
  | collecting batch =>
    have hkept := h.kept
    obtain ⟨hlen, hque⟩ := h.batch batch hph
    have hstep : p.schedule.step tools cfg calls (.progress i upd) =
        some (p.schedule.goto (.collecting { batch with updates :=
          if batch.updates.length < parallelToolUpdateCapacity then
            batch.updates ++ [(i, upd)] else batch.updates })) := by
      rw [Schedule.step, hph]
    have hnext := h.kept.step hstep
    rw [Schedule.Kept, hph] at hkept
    rw [hstep, getD_some]
    by_cases hroom : batch.updates.length < parallelToolUpdateCapacity
    · rw [if_pos hroom] at hnext ⊢
      -- A tool that is at work is the tool of an open call, whose worker was not joined.
      have hawaits : batch.awaits i = true := by
        simp only [careful, hph, Nat.not_le_of_lt hroom, decide_false, Bool.or_false,
          Bool.or_eq_true, Bool.not_eq_true'] at hcare
        rcases hcare with hshut | hawaits
        · simp only [accepts, Schedule.workers, hph, hshut, Bool.or_false, List.any_eq_true,
            decide_eq_true_eq, ParallelWorker.running?, ite_none_right_eq_some,
            Option.some.injEq] at haccepts
          obtain ⟨worker, hmem, -, rfl⟩ := haccepts
          exact hkept.awaits hmem
        · exact hawaits
      refine { mode := h.mode, kept := hnext, inside := h.inside, order := ?_, batch := ?_ }
      · have horder := h.order
        rw [Schedule.queued, hph] at horder
        change (emitted p.schedule.log ++ (batch.updates ++ _)).Sublist _
        rw [← append_assoc]
        exact horder.append_right _
      · intro next heq
        cases heq
        refine ⟨hlen, fun other hoth => ?_⟩
        rcases mem_append.mp hoth with hoth | hoth
        · exact hque other hoth
        · rw [mem_singleton.mp hoth]
          exact hawaits
    · rw [if_neg hroom] at hnext ⊢
      rw [Schedule.queued, hph] at hmore
      refine { mode := h.mode, kept := hnext, inside := h.inside, order := hmore, batch := ?_ }
      intro next heq
      cases heq
      exact ⟨hlen, hque⟩

theorem Sound.step (h : Sound tools cfg calls p) (hcare : p.careful event = true)
    (hstep : (machine tools cfg calls).step p event = some p') :
    Sound tools cfg calls p' := by
  by_cases hprogress : ∃ i upd, event = .progress i upd
  · obtain ⟨i, upd, rfl⟩ := hprogress
    simp only [machine] at hstep
    split_ifs at hstep with haccepts
    · cases hstep
      exact h.send haccepts hcare
    · cases hstep
      exact h
  · have hstep : (p.schedule.step tools cfg calls event).map (fun s =>
        { p with schedule := s, leftOpen := p.leaves event }) = some p' := by
      cases event with
      | progress i upd => exact (hprogress ⟨i, upd, rfl⟩).elim
      | _ => exact hstep
    obtain ⟨s, hnext, rfl⟩ := map_eq_some_iff.mp hstep
    have hkept := h.kept
    rw [Schedule.Kept] at hkept
    cases hph : p.schedule.phase with
    | sequential => exact (h.not_sequential hph).elim
    | preflight slots jobs stage =>
      rw [hph] at hkept
      obtain ⟨call, hrecs, -⟩ := hkept.records
      refine h.emits (h.kept.step hnext) hrecs ?_ (Schedule.emits_preflight hph _ hnext) _
      rw [Schedule.queued, hph]
      exact fun _ hmem => (not_mem_nil hmem).elim
    | collecting batch =>
      rw [hph] at hkept
      refine h.emits (h.kept.step hnext) hkept.records (h.queued hph) ?_ _
      exact Schedule.emits_collecting hph (h.batch batch hph).1
        (fun i upd heq => hprogress ⟨i, upd, heq⟩) hnext
    | returned _ | unwound =>
      rw [Schedule.step_eq_none hph rfl] at hnext
      cases hnext

/-- As long as every step is careful, every update is emitted for a call that has started and not
ended, the updates of a call in the order they were sent; and no more than eight workers run. -/
theorem inside_of_run (h : (machine tools cfg calls).Run (fun p event => p.careful event = true) p) :
    Inside calls p.schedule.log ∧
      (∀ i, ((emitted p.schedule.log).filter (·.1 = i)).Sublist (p.sent.filter (·.1 = i))) ∧
        p.schedule.workers.length ≤ maxParallelToolCalls := by
  have hsound : Sound tools cfg calls p := by
    apply h.invariant
    · rintro p ⟨hmode, cancelled, rfl⟩
      have hkept : Schedule.Kept tools cfg calls
          (Schedule.executeToolCalls tools cfg calls cancelled) := Schedule.Kept.start cancelled
      have hidle (cancelledAt : Option Nat) : Sound tools cfg calls
          { schedule := { cancelledAt := cancelledAt, log := [], phase := .unwound } } :=
        ⟨hmode, trivial, by rintro _ _ _ _ ⟨⟩, .slnil, by rintro _ ⟨⟩⟩
      rw [Schedule.executeToolCalls, hmode] at hkept ⊢
      refine (hidle _).emits hkept (Records.nil calls) ?_
        (Schedule.emits_nextPreflight (append_nil _).symm updateless_nil rfl _ _) _
      intro upd hmem
      cases hmem
    · exact fun p p' event hsound hcareful hstep => hsound.step hcareful hstep
  refine ⟨hsound.inside, fun i => ?_, ?_⟩
  · exact ((sublist_append_left _ _).trans hsound.order).filter _
  · rw [Schedule.workers]
    split
    · exact (Nat.le_add_right _ _).trans (hsound.batch _ ‹_›).1
    · exact Nat.zero_le _

/-- The two calls have started, and the tool of the first is at work. -/
def started : List (ScheduleEvent Unit) :=
  [.validate (.returns (.ok ())), .place, .validate (.returns (.ok ())), .place, .admission 0,
    .admission 1]

/-- An update is sent and emitted before the tool panics, and a later one of the other call. -/
theorem inside_panicked : ∃ p : Progress Unit, (machine [⟨"run", none⟩] ⟨.parallel, false, false⟩
      (toolCallsFromMessage Schedule.twoCalls)).Run (fun p event => p.careful event = true) p ∧
      (emitted p.schedule.log).map Prod.fst = [0, 1] ∧ p.leftOpen = [0] ∧
        Inside (toolCallsFromMessage Schedule.twoCalls) p.schedule.log := by
  have hstart : (machine [⟨"run", none⟩] ⟨.parallel, false, false⟩
      (toolCallsFromMessage Schedule.twoCalls)).Run (fun p event => p.careful event = true)
      { schedule := Schedule.executeToolCalls [⟨"run", none⟩] ⟨.parallel, false, false⟩
          (toolCallsFromMessage Schedule.twoCalls) false } := .start ⟨rfl, false, rfl⟩
  obtain ⟨p, hrun, hp⟩ := hstart.execute careful
    (started ++ [.progress 0 (errorToolResult "half"), .execute 0 .panics, .join 0, .forward,
      .drained, .progress 1 (errorToolResult "half"), .settleWorker, .forward])
    (fun p => (emitted p.schedule.log).map Prod.fst = [0, 1] ∧ p.leftOpen = [0])
    (fun _ _ h => h) (by decide +kernel)
  obtain ⟨hemitted, hleftOpen⟩ := of_decide_eq_true hp
  exact ⟨p, hrun, hemitted, hleftOpen, (inside_of_run hrun).1⟩

/-- What a tool has left running sends an update after it has panicked and its call has ended. -/
theorem update_after_end : ∃ p : Progress Unit, (machine [⟨"run", none⟩] ⟨.parallel, false, false⟩
      (toolCallsFromMessage Schedule.twoCalls)).Run (fun _ _ => True) p ∧
      p.schedule.log[3]? = some (0, toolExecutionUpdate
        { id := "c1", name := "run", arguments := () } (errorToolResult "late")) ∧
        ¬ Inside (toolCallsFromMessage Schedule.twoCalls) p.schedule.log := by
  have hstart : (machine [⟨"run", none⟩] ⟨.parallel, false, false⟩
      (toolCallsFromMessage Schedule.twoCalls)).Run (fun _ _ => True)
      { schedule := Schedule.executeToolCalls [⟨"run", none⟩] ⟨.parallel, false, false⟩
          (toolCallsFromMessage Schedule.twoCalls) false } := .start ⟨rfl, false, rfl⟩
  obtain ⟨p, hrun, hp⟩ := hstart.execute (fun _ _ => true)
    (started ++ [.execute 0 .panics, .join 0, .drained, .settleWorker,
      .progress 0 (errorToolResult "late"), .forward])
    (fun p => p.schedule.log[3]? = some (0, toolExecutionUpdate
      { id := "c1", name := "run", arguments := () } (errorToolResult "late")) ∧
        (lifecycle (p.schedule.log.take 3) 0).length = 2)
    (fun _ _ _ => trivial) (by decide +kernel)
  obtain ⟨hlate, hended⟩ := of_decide_eq_true hp
  refine ⟨p, hrun, hlate, fun hinside => ?_⟩
  obtain ⟨call, -, -, hstarted⟩ := hinside 3 0 _ _ hlate rfl
  rw [hstarted] at hended
  cases hended

end Progress

end PiOxidized.Agent
