/-
# A run tells what it returns

Where a run is says whether its events are inside a turn or behind one, and the messages that
ended are the new messages.  Every way out of the loop goes through the same end, behind a
turn.  A provider that starts a message twice would leave one open.
-/

import PiOxidized.Agent.Spoken

namespace PiOxidized.Agent

open List Math

variable {R M : Type}

/-- A stream whose provider started one message at most: the start is still to be received, or
its message is shown. -/
structure Streaming.OneStart (stream : Streaming R) : Prop where
  balance : stream.addedPartial.toNat + stream.channel.countP DrainItem.isStart =
    stream.sent.countP DrainItem.isStart
  bound : stream.sent.countP DrainItem.isStart ≤ 1

namespace Streaming

variable {stream : Streaming R} {item : DrainItem R}

variable {rest : List (DrainItem R)}

/-- Taking an item that is no start off the channel keeps the balance. -/
theorem OneStart.tail (h : stream.OneStart) (hchan : stream.channel = item :: rest)
    (hitem : item.isStart = false) : ({ stream with channel := rest } : Streaming R).OneStart where
  balance := by
    have hbalance := h.balance
    rw [hchan, countP_cons_of_neg (by rw [hitem]; exact Bool.false_ne_true)] at hbalance
    exact hbalance
  bound := h.bound

/-- A start that is taken off the channel is the first: no message is shown. -/
theorem OneStart.first (h : stream.OneStart) (hchan : stream.channel = item :: rest)
    (hitem : item.isStart = true) :
    stream.addedPartial = false ∧
      ({ stream with channel := rest, addedPartial := true } : Streaming R).OneStart := by
  have hbalance := h.balance
  rw [hchan, countP_cons_of_pos hitem] at hbalance
  have hbound := h.bound
  have hshown : stream.addedPartial = false := by
    cases hshown : stream.addedPartial with
    | false => rfl
    | true =>
      rw [hshown, Bool.toNat_true] at hbalance
      omega
  refine ⟨hshown, ?_, h.bound⟩
  rw [hshown, Bool.toNat_false] at hbalance
  change 1 + rest.countP DrainItem.isStart = stream.sent.countP DrainItem.isStart
  omega

/-- The drain passes an item on. -/
theorem OneStart.provide {draining : Bool} (h : stream.OneStart)
    (hitem : item.isStart = true → stream.sent.countP DrainItem.isStart = 0) :
    ({ stream with
        channel := stream.channel ++ [item]
        draining := draining
        sent := stream.sent ++ [item] } : Streaming R).OneStart where
  balance := by
    change stream.addedPartial.toNat + (stream.channel ++ [item]).countP DrainItem.isStart =
      (stream.sent ++ [item]).countP DrainItem.isStart
    rw [countP_append, countP_append, ← Nat.add_assoc, h.balance]
  bound := by
    change (stream.sent ++ [item]).countP DrainItem.isStart ≤ 1
    rw [countP_append, countP_singleton]
    split_ifs with hsta
    · have hnone := hitem hsta
      omega
    · exact h.bound

end Streaming

/-- At the head of a loop the first turn is open, or the last one is completed. -/
def AtHead (lastCompletedTurn : Option (AgentTurnContext R M)) (events : List (LoopEvent R M))
    (messages : List (AgentMessage R M)) : Prop :=
  match lastCompletedTurn with
  | none => InTurn false events messages
  | some _ => BetweenTurns events messages

namespace AgentRun

/-- The invariant of a run. -/
def Tells (r : AgentRun R M) : Prop := match r.phase with
  | .steering => r.lastCompletedTurn = none ∧ InTurn false r.emitted r.newMessages
  | .outer => AtHead r.lastCompletedTurn r.emitted r.newMessages
  | .inner =>
    AtHead r.lastCompletedTurn r.emitted r.newMessages ∧
      (r.lastCompletedTurn = none → r.hasMoreToolCalls = true)
  | .continuing _ => BetweenTurns r.emitted r.newMessages
  | .preparing => BetweenTurns r.emitted r.newMessages
  | .prepared _ => BetweenTurns r.emitted r.newMessages
  | .repolling _ => BetweenTurns r.emitted r.newMessages
  | .repolled _ => BetweenTurns r.emitted r.newMessages
  | .opening _ => BetweenTurns r.emitted r.newMessages
  | .appending _ => InTurn false r.emitted r.newMessages
  | .requesting => InTurn false r.emitted r.newMessages
  | .converting => InTurn false r.emitted r.newMessages
  | .streaming stream =>
    InTurn stream.addedPartial r.emitted r.newMessages ∧ stream.OneStart
  | .completing message => InTurn false r.emitted (r.newMessages ++ [.assistant message])
  | .executing _ batch => InTurn false r.emitted r.newMessages ∧ batch.Spoken M
  | .finishing _ _ => InTurn false r.emitted r.newMessages
  | .decided _ _ _ => BetweenTurns r.emitted r.newMessages
  | .polling _ => BetweenTurns r.emitted r.newMessages
  | .polled _ => BetweenTurns r.emitted r.newMessages
  | .followingUp => r.lastCompletedTurn ≠ none ∧ BetweenTurns r.emitted r.newMessages
  | .returned messages => WellFormed r.emitted messages
  | .failed => True

/-- The provider starts no second message in one stream. -/
def OneStart (r : AgentRun R M) (event : RunEvent R M) : Prop := match r.phase, event with
  | .streaming stream, .provide item =>
    item.isStart = true → stream.sent.countP DrainItem.isStart = 0
  | _, _ => True

variable {r r' : AgentRun R M} {msg : AssistantMessage R} {stream : Streaming R}

variable {results : List (ToolResultMessage R)}

theorem oneStart_provide (h : r.phase = .streaming stream) (item : DrainItem R) :
    OneStart r (.provide item) ↔
      (item.isStart = true → stream.sent.countP DrainItem.isStart = 0) := by
  simp only [OneStart, h]

theorem tells_start (h : Starts r) : r.Tells := by
  have hloop : ∀ (prompts : List (AgentMessage R M)) (context : AgentContext R M)
      (config : AgentLoopConfig) (model : Model) (cancelled : Bool),
      (runAgentLoop prompts context config model cancelled).Tells := by
    intro prompts context config model cancelled
    refine ⟨rfl, ⟨[], prompts.flatMap messagePair, nofun, plays_messagePairs prompts, rfl⟩, ?_⟩
    exact messageEnds_messagePairs prompts
  rcases h with ⟨prompts, context, config, model, cancelled, rfl⟩ | ⟨context, config, model,
    cancelled, h⟩
  · exact hloop prompts context config model cancelled
  · rw [runAgentLoopContinue] at h
    split at h
    · cases h
    · split_ifs at h
      cases h
      exact hloop [] context config model cancelled

theorem tells_failed (r : AgentRun R M) : (r.goto .failed).Tells := trivial

/-- The end of the run behind a turn. -/
theorem tells_emitAgentEnd (h : BetweenTurns r.emitted r.newMessages) : r.emitAgentEnd.Tells :=
  h.agentEnd

/-- The end of the assistant message, which starts first when it was not shown. -/
theorem tells_finalizeAssistant {addedPartial : Bool} (msg : AssistantMessage R)
    (h : InTurn addedPartial r.emitted r.newMessages) :
    (r.finalizeAssistant msg addedPartial).Tells := by
  cases addedPartial with
  | true => exact h.plays (.close .nil)
  | false =>
    have hshown : InTurn true (r.emitted ++ [.messageStart (.assistant msg)])
        r.newMessages := h.quiet (.start .nil) rfl
    exact hshown.plays (.close .nil)

/-- The results of a batch are appended behind what the batch told. -/
theorem tells_finishBatch {hasMoreToolCalls : Bool}
    (h : InTurn false r.emitted (r.newMessages ++ results.map .toolResult)) :
    (r.finishBatch msg results hasMoreToolCalls).Tells :=
  h

/-- A stretch of a batch's log is one of the run's events. -/
theorem inTurn_emit {log : List (Nat × AgentEvent R)} {events : List (LoopEvent R M)}
    {msgs : List (AgentMessage R M)} (h : InTurn false events msgs)
    (hlog : Hands M log results) :
    InTurn false (events ++ liftLog log) (msgs ++ results.map .toolResult) := by
  rw [← hlog.ends]
  exact h.plays hlog.plays

theorem tells_completeTurn [Inhabited R] (clock : Nat → Int)
    (h : InTurn false r.emitted (r.newMessages ++ [.assistant msg])) :
    (r.completeTurn msg clock).Tells := by
  rw [completeTurn]
  split_ifs with hstopped hcalls hlen
  · exact h
  · apply tells_finishBatch
    have hevs := inTurn_emit h (hands_failToolCalls clock (toolCallsFromMessage msg.content))
    rw [liftLog, map_map] at hevs
    exact hevs
  · exact ⟨h, Schedule.Spoken.start _⟩
  · apply tells_finishBatch
    rw [map_nil, append_nil]
    exact h

theorem tells_appendTurn (msgs : List (AgentMessage R M))
    (h : InTurn false r.emitted r.newMessages) :
    ((r.appendTurn msgs).goto .requesting).Tells := by
  have hplays := h.plays (plays_messagePairs (msgs ++ r.pendingMessages))
  rw [messageEnds_messagePairs] at hplays
  exact hplays

theorem tells_receiveItem {item : DrainItem R} {rest : List (DrainItem R)} (now : Int)
    (h : InTurn stream.addedPartial r.emitted r.newMessages) (hstream : stream.OneStart)
    (hchan : stream.channel = item :: rest) :
    (r.receiveItem { stream with channel := rest } now item).Tells := by
  cases item with
  | infra text => exact tells_finalizeAssistant _ h
  | event event =>
    cases event with
    | start partMsg =>
      obtain ⟨hshown, hnext⟩ := hstream.first hchan rfl
      rw [hshown] at h
      exact ⟨h.quiet (.start .nil) rfl, hnext⟩
    | done | error => exact tells_finalizeAssistant _ h
    | update kind partMsg =>
      have hnext := hstream.tail hchan rfl
      rw [receiveItem]
      split_ifs with hshown
      · have hshown : stream.addedPartial = true := hshown
        rw [hshown] at h
        refine ⟨?_, hnext⟩
        change InTurn stream.addedPartial _ r.newMessages
        rw [hshown]
        exact h.quiet (.update .nil) rfl
      · exact ⟨h, hnext⟩

/-! ## Steps -/

variable {event : RunEvent R M}

theorem tells_cancel (h : r.Tells) : r.cancel.Tells := by
  rw [cancel]
  split
  · rename_i msg batch hph
    have hph : r.phase = .executing msg batch := hph
    rw [Tells, hph] at h
    refine ⟨h.1, ?_⟩
    cases hnext : batch.cancel with
    | none => exact h.2
    | some next => exact h.2.cancel hnext
  · exact h

theorem tells_advance [Inhabited R] {clock : Nat → Int} (h : r.Tells)
    (hnext : r.advance clock = some r') : r'.Tells := by
  unfold Tells at h
  rw [advance] at hnext
  generalize r.phase = phase at h hnext
  cases phase with
  | outer =>
    cases hnext
    exact ⟨h, fun _ => rfl⟩
  | inner =>
    obtain ⟨hhead, hmore⟩ := h
    dsimp only at hnext
    split_ifs at hnext with hgo
    · split at hnext
      · rename_i turn hlast
        cases hnext
        rw [hlast] at hhead
        exact hhead
      · rename_i hlast
        cases hnext
        rw [hlast] at hhead
        exact hhead
    · cases hnext
      cases hlast : r.lastCompletedTurn with
      | none =>
        rw [hmore hlast] at hgo
        exact absurd rfl hgo
      | some turn =>
        rw [hlast] at hhead
        refine ⟨?_, hhead⟩
        change r.lastCompletedTurn ≠ none
        rw [hlast]
        exact Option.some_ne_none turn
  | continuing | repolled =>
    cases hnext
    split_ifs
    · exact tells_emitAgentEnd h
    · exact h
  | prepared msgs =>
    cases hnext
    split_ifs
    · exact tells_emitAgentEnd h
    · exact h
    · exact h
  | opening msgs =>
    cases hnext
    exact h.turnStart
  | appending msgs =>
    cases hnext
    exact tells_appendTurn _ h
  | completing msg =>
    cases hnext
    exact tells_completeTurn _ h
  | executing msg batch =>
    dsimp only at hnext
    split at hnext
    · rename_i result hbat
      cases hnext
      apply tells_finishBatch
      exact inTurn_emit h.1 (h.2.hands hbat nofun)
    · cases hnext
  | decided turn hasMoreToolCalls decision =>
    cases hnext
    split_ifs
    · exact tells_emitAgentEnd h
    · exact tells_emitAgentEnd h
    · exact h
  | polled turn =>
    cases hnext
    split_ifs
    · exact tells_emitAgentEnd h
    · exact ⟨h, nofun⟩
  | _ => cases hnext

theorem tells_answerPoll {ans : Except Unit (List (AgentMessage R M))} (h : r.Tells)
    (hnext : r.answerPoll ans = some r') : r'.Tells := by
  unfold Tells at h
  rw [answerPoll.eq_def] at hnext
  generalize r.phase = phase at h hnext
  cases ans with
  | error _ =>
    cases phase with
    | steering | repolling | polling | followingUp =>
      cases hnext
      exact tells_failed r
    | _ => cases hnext
  | ok msgs =>
    cases phase with
    | steering =>
      cases hnext
      change AtHead r.lastCompletedTurn r.emitted r.newMessages
      rw [h.1]
      exact h.2
    | repolling | polling =>
      cases hnext
      exact h
    | followingUp =>
      have hhead : AtHead r.lastCompletedTurn r.emitted r.newMessages := by
        obtain ⟨turn, hlast⟩ := Option.ne_none_iff_exists'.mp h.1
        rw [hlast]
        exact h.2
      dsimp only at hnext
      split_ifs at hnext
      · cases hnext
        exact hhead
      · cases hnext
        exact tells_emitAgentEnd h.2
      · cases hnext
        exact hhead
    | _ => cases hnext

/-- A step of a batch replaces the batch and nothing else. -/
theorem exists_of_step_batch [Inhabited R] {event : ScheduleEvent R}
    (h : r.step (.batch event) = some r') :
    ∃ (msg : AssistantMessage R) (batch next : Schedule R), r.phase = .executing msg batch ∧
        batch.step r.context.tools r.config (toolCallsFromMessage msg.content) event = some next ∧
        r' = r.goto (.executing msg next) := by
  rw [step.eq_def] at h
  dsimp only at h
  split at h
  · rename_i msg batch hph
    have hmap : (batch.step r.context.tools r.config (toolCallsFromMessage msg.content)
        event).map (fun next => r.goto (.executing msg next)) = some r' := by
      cases event with
      | cancel => cases h
      | _ => exact h
    obtain ⟨next, hbat, rfl⟩ := Option.map_eq_some_iff.mp hmap
    exact ⟨msg, batch, next, hph, hbat, rfl⟩
  · cases h

theorem tells_step [Inhabited R] (h : r.Tells) (hone : OneStart r event)
    (hnext : r.step event = some r') : r'.Tells := by
  cases event
  case cancel =>
    cases hnext
    exact tells_cancel h
  case advance clock => exact tells_advance h hnext
  case poll ans => exact tells_answerPoll h hnext
  case batch event =>
    obtain ⟨msg, batch, next, hph, hbat, rfl⟩ := exists_of_step_batch hnext
    rw [Tells, hph] at h
    exact ⟨h.1, h.2.step hbat⟩
  case provide item =>
    rw [step] at hnext
    split at hnext
    · rename_i stream hph
      rw [Tells, hph] at h
      split_ifs at hnext
      cases hnext
      exact ⟨h.1, h.2.provide ((oneStart_provide hph item).mp hone)⟩
    · cases hnext
  -- Every other event is taken in one phase.
  all_goals
    unfold Tells at h
    rw [step.eq_def] at hnext
    clear hone
    generalize r.phase = phase at h hnext
    cases phase <;> try (cases hnext; done)
  case prepareNextTurn.preparing ans | prepareRequest.requesting ans =>
    cases hnext
    cases ans with
    | error _ => exact tells_failed r
    | ok update =>
      cases update with
      | none | some => exact h
  case convert.converting ans =>
    cases ans with
    | error _ =>
      cases hnext
      exact tells_failed r
    | ok _ =>
      cases hnext
      exact ⟨h, rfl, Nat.zero_le 1⟩
  case drainEnds.streaming stream =>
    cases hnext
    exact ⟨h.1, h.2.balance, h.2.bound⟩
  case receive.streaming now stream =>
    dsimp only at hnext
    split at hnext
    · rename_i item rest hchan
      cases hnext
      split_ifs
      · exact tells_finalizeAssistant _ h.1
      · exact tells_receiveItem now h.1 h.2 hchan
    · split_ifs at hnext
      · cases hnext
        exact tells_finalizeAssistant _ h.1
      · cases hnext
        exact tells_finalizeAssistant _ h.1
  case abort.streaming now stream =>
    dsimp only at hnext
    split_ifs at hnext
    cases hnext
    exact tells_finalizeAssistant _ h.1
  case finishTurn.finishing ans turn hasMoreToolCalls =>
    cases hnext
    cases ans with
    | error _ => exact tells_failed r
    | ok decision =>
      have hended := h.turnEnd (.assistant turn.message) turn.toolResults
      cases hasMoreToolCalls with
      | none => exact tells_emitAgentEnd hended
      | some hasMore => exact hended

/-! ## Runs -/

theorem tells_run [Inhabited R] (h : machine.Run OneStart r) : r.Tells := by
  apply h.invariant
  · intro r hsta
    exact tells_start hsta
  · intro r r' event htells hone hnext
    exact tells_step htells hone hnext

/-- A run that returns has told whole turns, then its end, and the messages it returns. -/
theorem wellFormed_of_returned [Inhabited R] {msgs : List (AgentMessage R M)}
    (h : machine.Run OneStart r) (hreturned : r.phase = .returned msgs) :
    WellFormed r.trace msgs := by
  have htells := tells_run h
  rw [Tells, hreturned] at htells
  rw [trace, hreturned]
  exact htells

/-- Whether an item is no second start, computed. -/
def oneStartCheck (r : AgentRun R M) (event : RunEvent R M) : Bool := match r.phase, event with
  | .streaming stream, .provide item =>
    !item.isStart || stream.sent.countP DrainItem.isStart == 0
  | _, _ => true

theorem oneStart_of_check (h : oneStartCheck r event = true) : OneStart r event := by
  rw [oneStartCheck.eq_def] at h
  rw [OneStart.eq_def]
  split at h
  · intro hsta
    rw [hsta] at h
    exact eq_of_beq h
  · trivial

/-! ## A run with a tool call -/

/-- The model a run asks. -/
def echoModel : Model := ⟨"responses", "echo", "echo-1"⟩

/-- An assistant message of the model. -/
def echoMessage (content : List (AssistantContent Unit)) (stopReason : StopReason) :
    AssistantMessage Unit :=
  ⟨content, echoModel, stopReason, none, 0⟩

/-- The model calls a tool in its first turn and is done in its second. -/
def callAndDone : List (RunEvent Unit String) :=
  [.poll (.ok []), .advance fun _ => 0, .advance fun _ => 0, .advance fun _ => 0,
    .prepareRequest (.ok none), .convert (.ok ()),
    .provide (.event (.start (echoMessage [] .pending))),
    .provide (.event (.done (echoMessage [.toolCall ⟨"c1", "run", ()⟩] .toolUse))),
    .receive 1, .receive 1, .advance fun _ => 0,
    .batch (.validate (.returns (.ok ()))), .batch .place, .batch (.admission 0),
    .batch (.execute 0 (.returns (.ok (errorToolResult "done")))), .batch (.join 0),
    .batch (.settle 2), .advance fun _ => 0, .finishTurn (.ok none), .advance fun _ => 0,
    .poll (.ok [.other "user" "and then"]), .advance fun _ => 0, .advance fun _ => 0,
    .advance fun _ => 0, .prepareNextTurn (.ok none), .advance fun _ => 0, .advance fun _ => 0,
    .advance fun _ => 0, .prepareRequest (.ok none), .convert (.ok ()),
    .provide (.event (.done (echoMessage [.text "done"] .stop))), .receive 3,
    .advance fun _ => 0, .finishTurn (.ok none), .advance fun _ => 0, .poll (.ok []),
    .advance fun _ => 0, .advance fun _ => 0, .poll (.ok [])]

theorem wellFormed_callAndDone : ∃ (r : AgentRun Unit String)
    (msgs : List (AgentMessage Unit String)),
    r.phase = .returned msgs ∧
      msgs.map AgentMessage.role = ["user", "assistant", "toolResult", "user", "assistant"] ∧
        WellFormed r.trace msgs := by
  have hstart : machine.Run OneStart
      (runAgentLoop [.other "user" "run it"] ⟨[], [⟨"run", none⟩]⟩ ⟨.sequential, false, false⟩
        echoModel false : AgentRun Unit String) := .start (.inl ⟨_, _, _, _, _, rfl⟩)
  obtain ⟨r, hrun, hr⟩ := hstart.execute oneStartCheck callAndDone (fun r => match r.phase with
      | .returned msgs => msgs.map AgentMessage.role ==
          ["user", "assistant", "toolResult", "user", "assistant"]
      | _ => false)
    (fun _ _ => oneStart_of_check) (by decide +kernel)
  cases hphase : r.phase with
  | returned msgs =>
    rw [hphase] at hr
    exact ⟨r, msgs, hphase, eq_of_beq hr, wellFormed_of_returned hrun hphase⟩
  | _ =>
    rw [hphase] at hr
    cases hr

end AgentRun

end PiOxidized.Agent
