/-
# The grammar of a run's events

A turn is opened and closed once; inside it messages start and end in turn, and tools are
executed between them.  A batch of tool calls adds a stretch that leaves no message open and
ends exactly the messages the batch returns.
-/

import PiOxidized.Agent.Run

namespace PiOxidized.Agent

open List Option

variable {R M : Type}

/-! ## Inside a turn -/

/-- Whether an event is about the execution of a tool. -/
def LoopEvent.isTool : LoopEvent R M → Bool
  | toolExecutionStart _ _ _ => true
  | toolExecutionUpdate _ _ _ _ => true
  | toolExecutionEnd _ _ _ _ => true
  | _ => false

/-- What the end of a message tells. -/
def LoopEvent.ended : LoopEvent R M → Option (AgentMessage R M)
  | messageEnd message => some message
  | _ => none

/-- The messages that ended, in order. -/
def messageEnds (events : List (LoopEvent R M)) : List (AgentMessage R M) :=
  events.filterMap LoopEvent.ended

/-- What may happen inside a turn, from whether a message is shown to whether one still is. -/
inductive Plays : Bool → List (LoopEvent R M) → Bool → Prop
  | nil {shown : Bool} : Plays shown [] shown
  | start {message : AgentMessage R M} {events : List (LoopEvent R M)} {shown : Bool} :
      Plays true events shown → Plays false (.messageStart message :: events) shown
  | update {message : AgentMessage R M} {event : AssistantMessageEvent R}
      {events : List (LoopEvent R M)} {shown : Bool} :
      Plays true events shown → Plays true (.messageUpdate message event :: events) shown
  | close {message : AgentMessage R M} {events : List (LoopEvent R M)} {shown : Bool} :
      Plays false events shown → Plays true (.messageEnd message :: events) shown
  | tool {event : LoopEvent R M} {events : List (LoopEvent R M)} {shown : Bool} :
      event.isTool = true → Plays false events shown → Plays false (event :: events) shown

theorem messageEnds_append (events more : List (LoopEvent R M)) :
    messageEnds (events ++ more) = messageEnds events ++ messageEnds more :=
  filterMap_append

theorem Plays.append {first second third : Bool} {events more : List (LoopEvent R M)}
    (h : Plays first events second) (hmore : Plays second more third) :
    Plays first (events ++ more) third := by
  induction h with
  | nil => exact hmore
  | start _ ih => exact .start (ih hmore)
  | update _ ih => exact .update (ih hmore)
  | close _ ih => exact .close (ih hmore)
  | tool htool _ ih => exact .tool htool (ih hmore)

theorem plays_messagePair (msg : AgentMessage R M) : Plays false (messagePair msg) false :=
  .start (.close .nil)

theorem plays_messagePairs (msgs : List (AgentMessage R M)) :
    Plays false (msgs.flatMap messagePair) false := by
  induction msgs with
  | nil => exact .nil
  | cons msg msgs ih =>
    rw [flatMap_cons]
    exact (plays_messagePair msg).append ih

theorem messageEnds_messagePairs (msgs : List (AgentMessage R M)) :
    messageEnds (msgs.flatMap messagePair) = msgs := by
  induction msgs with
  | nil => rfl
  | cons msg msgs ih =>
    rw [flatMap_cons, messageEnds_append, ih]
    rfl

/-! ## Turns -/

/-- A turn from its start to its end. -/
def IsTurn (events : List (LoopEvent R M)) : Prop :=
  ∃ (body : List (LoopEvent R M)) (message : AgentMessage R M)
    (toolResults : List (ToolResultMessage R)),
    Plays false body false ∧ events = .turnStart :: body ++ [.turnEnd message toolResults]

/-- The run is inside a turn and has told the messages. -/
structure InTurn (shown : Bool) (events : List (LoopEvent R M))
    (messages : List (AgentMessage R M)) : Prop where
  turns : ∃ (turns : List (List (LoopEvent R M))) (body : List (LoopEvent R M)),
    (∀ turn ∈ turns, IsTurn turn) ∧ Plays false body shown ∧
      events = .agentStart :: turns.flatten ++ .turnStart :: body
  ends : messageEnds events = messages

/-- The run is behind a turn and has told the messages. -/
structure BetweenTurns (events : List (LoopEvent R M)) (messages : List (AgentMessage R M)) :
    Prop where
  turns : ∃ turns : List (List (LoopEvent R M)),
    turns ≠ [] ∧ (∀ turn ∈ turns, IsTurn turn) ∧ events = .agentStart :: turns.flatten
  ends : messageEnds events = messages

/-- The run is over, and what it returns is what it told. -/
structure WellFormed (events : List (LoopEvent R M)) (messages : List (AgentMessage R M)) :
    Prop where
  turns : ∃ turns : List (List (LoopEvent R M)), turns ≠ [] ∧ (∀ turn ∈ turns, IsTurn turn) ∧
      events = .agentStart :: turns.flatten ++ [.agentEnd messages]
  ends : messageEnds events = messages

section

variable {shown after : Bool} {events more : List (LoopEvent R M)} {msgs : List (AgentMessage R M)}

/-- The turn goes on. -/
theorem InTurn.plays (h : InTurn shown events msgs) (hmore : Plays shown more after) :
    InTurn after (events ++ more) (msgs ++ messageEnds more) where
  turns := by
    obtain ⟨turns, body, hturns, hbody, rfl⟩ := h.turns
    exact ⟨turns, body ++ more, hturns, hbody.append hmore, append_assoc _ _ _⟩
  ends := by rw [messageEnds_append, h.ends]

/-- The turn goes on without the end of a message. -/
theorem InTurn.quiet (h : InTurn shown events msgs) (hmore : Plays shown more after)
    (hquiet : messageEnds more = []) : InTurn after (events ++ more) msgs := by
  have hplays := h.plays hmore
  rw [hquiet, append_nil] at hplays
  exact hplays

/-- The turn ends. -/
theorem InTurn.turnEnd (h : InTurn false events msgs) (msg : AgentMessage R M)
    (toolResults : List (ToolResultMessage R)) :
    BetweenTurns (events ++ [.turnEnd msg toolResults]) msgs where
  turns := by
    obtain ⟨turns, body, hturns, hbody, rfl⟩ := h.turns
    refine ⟨turns ++ [.turnStart :: body ++ [.turnEnd msg toolResults]],
      append_ne_nil_of_right_ne_nil _ (cons_ne_nil _ _), ?_, ?_⟩
    · intro turn hturn
      rcases mem_append.mp hturn with hturn | hturn
      · exact hturns turn hturn
      · exact ⟨body, msg, toolResults, hbody, mem_singleton.mp hturn⟩
    · simp
  ends := by
    rw [messageEnds_append, h.ends]
    exact append_nil msgs

/-- The next turn starts. -/
theorem BetweenTurns.turnStart (h : BetweenTurns events msgs) :
    InTurn false (events ++ [.turnStart]) msgs where
  turns := by
    obtain ⟨turns, -, hturns, rfl⟩ := h.turns
    exact ⟨turns, [], hturns, .nil, rfl⟩
  ends := by
    rw [messageEnds_append, h.ends]
    exact append_nil msgs

/-- The run ends behind a turn. -/
theorem BetweenTurns.agentEnd (h : BetweenTurns events msgs) :
    WellFormed (events ++ [.agentEnd msgs]) msgs where
  turns := by
    obtain ⟨turns, hne, hturns, rfl⟩ := h.turns
    exact ⟨turns, hne, hturns, rfl⟩
  ends := by
    rw [messageEnds_append, h.ends]
    exact append_nil msgs

end

/-! ## Batches -/

/-- Whether an event of a batch is about the execution of a tool. -/
def AgentEvent.isTool : AgentEvent R → Bool
  | messageStart _ => false
  | messageEnd _ => false
  | _ => true

/-- Events that are all about the execution of tools. -/
def Tools (log : List (Nat × AgentEvent R)) : Prop := ∀ entry ∈ log, entry.2.isTool = true

theorem Tools.nil : Tools ([] : List (Nat × AgentEvent R)) := by
  intro entry hent
  cases hent

theorem Tools.singleton {pos : Nat} {event : AgentEvent R} (h : event.isTool = true) :
    Tools [(pos, event)] := by
  intro entry hent
  rw [mem_singleton.mp hent]
  exact h

theorem Tools.append {log more : List (Nat × AgentEvent R)} (h : Tools log) (hmore : Tools more) :
    Tools (log ++ more) := by
  intro entry hent
  rcases mem_append.mp hent with hent | hent
  · exact h entry hent
  · exact hmore entry hent

/-- A stretch of a batch's log that leaves no message open and ends the given results. -/
structure Hands (M : Type) (log : List (Nat × AgentEvent R)) (results : List (ToolResultMessage R)) :
    Prop where
  plays : Plays (M := M) false (liftLog log) false
  ends : messageEnds (M := M) (liftLog log) = results.map .toolResult

namespace Hands

variable {log more : List (Nat × AgentEvent R)} {results others : List (ToolResultMessage R)}

theorem nil : Hands M ([] : List (Nat × AgentEvent R)) [] where
  plays := .nil
  ends := rfl

theorem append (h : Hands M log results) (hmore : Hands M more others) :
    Hands M (log ++ more) (results ++ others) where
  plays := by
    rw [liftLog, map_append]
    exact h.plays.append hmore.plays
  ends := by
    rw [liftLog, map_append, messageEnds_append, map_append]
    exact congrArg₂ (· ++ ·) h.ends hmore.ends

/-- The events of tools end no message. -/
theorem tools (h : Tools log) : Hands M log [] := by
  induction log with
  | nil => exact nil
  | cons entry log ih =>
    have hlog := ih fun other hoth => h other (mem_cons_of_mem _ hoth)
    have hent := h entry mem_cons_self
    obtain ⟨pos, event⟩ := entry
    cases event with
    | messageStart | messageEnd => cases hent
    | toolExecutionStart | toolExecutionUpdate | toolExecutionEnd =>
      exact ⟨.tool rfl hlog.plays, hlog.ends⟩

theorem andTools (h : Hands M log results) (hmore : Tools more) :
    Hands M (log ++ more) results := by
  rw [← append_nil results]
  exact h.append (tools hmore)

theorem result (pos : Nat) (msg : ToolResultMessage R) :
    Hands M ((toolResultEvents msg).map (pos, ·)) [msg] where
  plays := .start (.close .nil)
  ends := rfl

end Hands

/-! ## What the steps of a batch emit -/

theorem tools_emitParallelUpdate (slots : List (ParallelSlot R))
    (update : Nat × AgentToolResult R) : Tools (emitParallelUpdate slots update) := by
  rw [emitParallelUpdate]
  split
  · exact .nil
  · exact .singleton rfl
  · exact .singleton rfl

section

variable [Inhabited R]

theorem tools_settlePending (slots : List (ParallelSlot R)) (i : Nat) (msg : String) :
    Tools (settlePending slots i msg).2 := by
  rw [settlePending]
  split
  · exact .singleton rfl
  · exact .nil

theorem tools_settleRange (msg : String) (indices : List Nat)
    (state : List (ParallelSlot R) × List (Nat × AgentEvent R)) (h : Tools state.2) :
    Tools (indices.foldl (settleNext msg) state).2 := by
  induction indices generalizing state with
  | nil => exact h
  | cons i indices ih => exact ih _ (h.append (tools_settlePending _ _ _))

theorem tools_settleAllPending (slots : List (ParallelSlot R)) (msg : String) :
    Tools (settleAllPending slots msg).2 :=
  tools_settleRange msg _ _ .nil

theorem tools_settleWorker (slots : List (ParallelSlot R)) (i : Nat)
    (result : Except Unit (FinalizedOutcome R)) : Tools (settleWorker slots i result).2 := by
  cases result with
  | ok finalized => exact .singleton rfl
  | error _ => exact tools_settlePending _ _ _

theorem tools_settle (joined : ParallelJoined R) (slots : List (ParallelSlot R)) :
    Tools (joined.settle slots).2 := by
  rw [ParallelJoined.settle]
  split
  · exact tools_settleWorker _ _ _
  · exact .nil

theorem tools_close (slot : ParallelSlot R) (pos : Nat) : Tools (slot.close pos).2 := by
  cases slot with
  | ready finalized => exact .nil
  | pending call => exact .singleton rfl

/-- The results that are emitted in source order are the ones that are returned. -/
theorem hands_emitResultsFrom (clock : Nat → Int) (pos : Nat) (slots : List (ParallelSlot R)) :
    Hands M (emitResultsFrom clock pos slots).2.2 (emitResultsFrom clock pos slots).2.1 := by
  induction slots generalizing pos with
  | nil => exact .nil
  | cons slot slots ih =>
    have hshut := Hands.tools (M := M) (tools_close slot pos)
    have hret := Hands.result (M := M) pos (toolResultMessage (slot.close pos).1 (clock pos))
    exact (hshut.append hret).append (ih (pos + 1))

/-- Answering the calls of a truncated message is such a stretch too. -/
theorem hands_failToolCalls (clock : Nat → Int) (calls : List (ToolCall R)) :
    Hands M ((failToolCallsFromTruncatedMessage clock calls).2.map fun event => (0, event))
      (failToolCallsFromTruncatedMessage clock calls).1 := by
  rw [failToolCallsFromTruncatedMessage]
  generalize calls.mapIdx _ = outcomes
  induction outcomes with
  | nil => exact .nil
  | cons outcome outcomes ih =>
    have hbegun : Tools [(0, toolExecutionStart outcome.1), (0, toolExecutionEnd outcome.2.1)] :=
      (Tools.singleton rfl).append (.singleton rfl)
    have hret := (Hands.tools (M := M) hbegun).append (.result 0 outcome.2.2)
    rw [flatMap_cons, map_append, map_cons]
    exact hret.append ih

end

/-! ## Batches along their steps -/

/-- The results that a phase has collected. -/
def Phase.messages : Phase R → List (ToolResultMessage R)
  | sequential _ messages _ => messages
  | preflight _ _ _ => []
  | collecting _ => []
  | returned batch => batch.messages
  | unwound => []

namespace Schedule

/-- A batch that goes on has handed over exactly the results it collected. -/
def Spoken (M : Type) (s : Schedule R) : Prop := s.phase ≠ .unwound → Hands M s.log s.phase.messages

variable {s s' : Schedule R} {finalizedCalls : List (FinalizedOutcome R)}
  {msgs : List (ToolResultMessage R)} {slots : List (ParallelSlot R)}
  {jobs : List (ParallelJob R)} {batch : ParallelBatch R}

theorem Spoken.of_unwound (h : s.phase = .unwound) : s.Spoken M := by
  intro hne
  exact absurd h hne

/-- A step that emits nothing and keeps the collected results. -/
theorem Spoken.goto {phase : Phase R} (h : s.Spoken M) (hne : s.phase ≠ .unwound)
    (hmsgs : phase.messages = s.phase.messages) : (s.goto phase).Spoken M := by
  intro _
  change Hands M s.log phase.messages
  rw [hmsgs]
  exact h hne

theorem Spoken.prepareWith {calls : List (ToolCall R)}
    {answer : ToolCall R → Preparing R → Option (Preparing R)} (h : s.Spoken M)
    (hnext : s.prepareWith calls answer = some s') : s'.Spoken M := by
  rw [Schedule.prepareWith] at hnext
  split at hnext
  · rename_i hph
    obtain ⟨other, -, hnext⟩ := bind_eq_some_iff.mp hnext
    obtain ⟨next, -, rfl⟩ := map_eq_some_iff.mp hnext
    exact h.goto (hph ▸ nofun) (hph ▸ rfl)
  · rename_i hph
    obtain ⟨other, -, hnext⟩ := bind_eq_some_iff.mp hnext
    obtain ⟨next, -, rfl⟩ := map_eq_some_iff.mp hnext
    exact h.goto (hph ▸ nofun) (hph ▸ rfl)
  · cases hnext

theorem Spoken.executeSequential
    {step : Worker R (ExecutedOutcome R) → Option (Worker R (ExecutedOutcome R))}
    (h : s.Spoken M) (hnext : s.executeSequential step = some s') : s'.Spoken M := by
  rw [Schedule.executeSequential] at hnext
  split at hnext
  · rename_i hph
    obtain ⟨next, -, rfl⟩ := map_eq_some_iff.mp hnext
    exact h.goto (hph ▸ nofun) (hph ▸ rfl)
  · cases hnext

theorem Spoken.executeParallel {i : Nat}
    {step : PreparedToolCall R → Worker R (FinalizedOutcome R) →
      Option (Worker R (FinalizedOutcome R))}
    (h : s.Spoken M) (hnext : s.executeParallel i step = some s') : s'.Spoken M := by
  rw [Schedule.executeParallel] at hnext
  split at hnext
  · rename_i hph
    obtain ⟨worker, -, hnext⟩ := bind_eq_some_iff.mp hnext
    obtain ⟨next, -, rfl⟩ := map_eq_some_iff.mp hnext
    exact h.goto (hph ▸ nofun) (hph ▸ rfl)
  · cases hnext

/-- A step of whichever worker there is. -/
theorem Spoken.worker {i : Nat}
    {first : Worker R (ExecutedOutcome R) → Option (Worker R (ExecutedOutcome R))}
    {second : PreparedToolCall R → Worker R (FinalizedOutcome R) →
      Option (Worker R (FinalizedOutcome R))}
    (h : s.Spoken M)
    (hnext : (s.executeSequential first <|> s.executeParallel i second) = some s') :
    s'.Spoken M := by
  rcases (orElse_eq_some _ _ _).mp hnext with hnext | ⟨-, hnext⟩
  · exact h.executeSequential hnext
  · exact h.executeParallel hnext

section

variable [Inhabited R] {tools : List AgentTool} {config : AgentLoopConfig}
  {calls : List (ToolCall R)}

theorem Spoken.nextSequential (h : Hands M s.log msgs) :
    (s.nextSequential tools calls finalizedCalls msgs).Spoken M := by
  rw [Schedule.nextSequential]
  intro _
  split
  · exact h.andTools (.singleton rfl)
  · exact h

theorem Spoken.nextPreflight (h : Hands M s.log []) :
    (s.nextPreflight tools calls slots jobs).Spoken M := by
  rw [Schedule.nextPreflight]
  intro _
  split
  · exact h.andTools (.singleton rfl)
  · exact h

/-- A batch that has just started has handed over nothing. -/
theorem Spoken.start (cancelled : Bool) :
    (executeToolCalls tools config calls cancelled).Spoken M := by
  rw [executeToolCalls]
  split
  · exact Spoken.nextSequential .nil
  · exact Spoken.nextPreflight .nil

theorem Spoken.place (h : s.Spoken M) (hnext : s.place tools calls = some s') : s'.Spoken M := by
  rw [Schedule.place] at hnext
  split at hnext
  · rename_i hph
    split at hnext
    · obtain ⟨call, -, rfl⟩ := map_eq_some_iff.mp hnext
      exact h.goto (hph ▸ nofun) (hph ▸ rfl)
    · cases hnext
      exact h.goto (hph ▸ nofun) (hph ▸ rfl)
  · rename_i hph
    have hlog : Hands M s.log [] := by
      have hspoken := h (hph ▸ nofun)
      rw [hph] at hspoken
      exact hspoken
    split at hnext
    · obtain ⟨call, -, rfl⟩ := map_eq_some_iff.mp hnext
      exact Spoken.nextPreflight (hlog.andTools (.singleton rfl))
    · cases hnext
      exact Spoken.nextPreflight hlog
  · cases hnext

theorem Spoken.joinSequential {prepared : PreparedToolCall R} {updates : List (AgentToolResult R)}
    (joined : Except Unit (ExecutedOutcome R)) (h : Hands M s.log msgs) :
    (s.joinSequential config finalizedCalls msgs prepared updates joined).Spoken M := by
  intro _
  refine h.andTools ?_
  intro entry hent
  obtain ⟨update, -, rfl⟩ := mem_map.mp hent
  rfl

omit [Inhabited R] in
theorem Spoken.joinParallel {i : Nat} {job : ParallelJob R}
    {res : Option (Except Unit (FinalizedOutcome R))} (h : Hands M s.log [])
    (hnext : s.joinParallel batch i job res = some s') : s'.Spoken M := by
  rw [Schedule.joinParallel] at hnext
  split_ifs at hnext
  cases hnext
  intro _
  exact h

omit [Inhabited R] in
theorem Spoken.settleJoined {settled : List (ParallelSlot R) × List (Nat × AgentEvent R)}
    (h : Hands M s.log []) (hset : Tools settled.2) : (s.settleJoined batch settled).Spoken M := by
  intro _
  exact h.andTools hset

theorem Spoken.finishParallel (clock : Nat → Int) (h : Hands M s.log []) :
    (s.finishParallel batch clock).Spoken M := by
  intro _
  have hended := tools_settleAllPending batch.slots (if batch.stopping || s.isCancelled then
    "Operation aborted" else "Tool execution ended without a result")
  exact h.append ((Hands.tools hended).append (hands_emitResultsFrom clock 0 _))

theorem Spoken.settleSequential {finalized : FinalizedOutcome R} (now : Int)
    (h : Hands M s.log msgs) :
    (s.settleSequential tools calls finalizedCalls msgs finalized now).Spoken M := by
  have hended : Hands M
      (s.log ++ ((toolExecutionEnd finalized :: toolResultEvents (toolResultMessage finalized now)).map
        (finalizedCalls.length, ·))) (msgs ++ [toolResultMessage finalized now]) :=
    h.append ((Hands.tools (.singleton rfl)).append (.result _ _))
  rw [Schedule.settleSequential]
  split_ifs
  · intro _
    exact hended
  · exact Spoken.nextSequential hended

omit [Inhabited R] in
theorem Spoken.cancel (h : s.Spoken M) (hnext : s.cancel = some s') : s'.Spoken M := by
  rw [Schedule.cancel] at hnext
  split at hnext
  · cases hnext
    exact h
  · cases hnext
    exact h
  · cases hnext
    exact h
  · cases hnext

omit [Inhabited R] in
/-- The log of a batch in a known phase. -/
theorem Spoken.hands {phase : Phase R} (h : s.Spoken M) (hph : s.phase = phase)
    (hne : phase ≠ .unwound) : Hands M s.log phase.messages := by
  rw [← hph]
  exact h (hph ▸ hne)

theorem Spoken.step {event : ScheduleEvent R} (h : s.Spoken M)
    (hnext : s.step tools config calls event = some s') : s'.Spoken M := by
  cases event with
  | cancel => exact h.cancel hnext
  | validate answer | before answer =>
    cases answer with
    | returns answer => exact h.prepareWith hnext
    | panics =>
      obtain ⟨before, -, rfl⟩ := map_eq_some_iff.mp hnext
      exact .of_unwound rfl
  | place => exact h.place hnext
  | admission | execute => exact h.worker hnext
  | progress i update =>
    rw [Schedule.step] at hnext
    split at hnext
    · rename_i hph
      cases hnext
      exact h.goto (hph ▸ nofun) (hph ▸ rfl)
    · rename_i hph
      cases hnext
      exact h.goto (hph ▸ nofun) (hph ▸ rfl)
    · cases hnext
  | after i answer =>
    rw [Schedule.step] at hnext
    split at hnext
    · rename_i hph
      split at hnext
      · cases hnext
        exact h.goto (hph ▸ nofun) (hph ▸ rfl)
      · cases hnext
        exact .of_unwound rfl
    · exact h.executeParallel hnext
  | abort i =>
    rw [Schedule.step] at hnext
    split at hnext
    · rename_i hph
      split_ifs at hnext
      cases hnext
      exact h.goto (hph ▸ nofun) (hph ▸ rfl)
    · exact h.worker hnext
  | forward =>
    rw [Schedule.step] at hnext
    split at hnext
    · rename_i hph
      cases hnext
      intro _
      exact (h.hands hph nofun).andTools (.singleton rfl)
    · rename_i hph
      split at hnext
      · split_ifs at hnext
        cases hnext
        intro _
        exact (h.hands hph nofun).andTools (tools_emitParallelUpdate _ _)
      · cases hnext
    · cases hnext
  | join i =>
    rw [Schedule.step] at hnext
    split at hnext
    · rename_i hph
      cases hnext
      exact Spoken.joinSequential _ (h.hands hph nofun)
    · rename_i hph
      split at hnext
      · exact Spoken.joinParallel (h.hands hph nofun) hnext
      · cases hnext
    · cases hnext
  | lose i =>
    rw [Schedule.step] at hnext
    split at hnext
    · rename_i hph
      cases hnext
      exact Spoken.joinSequential _ (h.hands hph nofun)
    · rename_i hph
      obtain ⟨worker, -, hnext⟩ := bind_eq_some_iff.mp hnext
      exact Spoken.joinParallel (h.hands hph nofun) hnext
    · cases hnext
  | drained =>
    rw [Schedule.step] at hnext
    split at hnext
    · rename_i hph
      split at hnext
      · cases hnext
        exact h.goto (hph ▸ nofun) (hph ▸ rfl)
      · cases hnext
    · cases hnext
  | settleWorker =>
    rw [Schedule.step] at hnext
    split at hnext
    · rename_i hph
      split at hnext
      · split_ifs at hnext
        cases hnext
        exact Spoken.settleJoined (h.hands hph nofun) (tools_settle _ _)
      · cases hnext
    · cases hnext
  | settle now =>
    rw [Schedule.step] at hnext
    split at hnext
    · rename_i hph
      cases hnext
      exact Spoken.settleSequential now (h.hands hph nofun)
    · cases hnext
  | stop =>
    rw [Schedule.step] at hnext
    split at hnext
    · rename_i hph
      split_ifs at hnext
      cases hnext
      exact h.goto (hph ▸ nofun) (hph ▸ rfl)
    · cases hnext
  | finish clock =>
    rw [Schedule.step] at hnext
    split at hnext
    · rename_i hph
      split_ifs at hnext
      cases hnext
      exact Spoken.finishParallel clock (h.hands hph nofun)
    · cases hnext

end

end Schedule

end PiOxidized.Agent
