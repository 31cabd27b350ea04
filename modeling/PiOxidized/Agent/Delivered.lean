/-
# Messages that a poll handed over

What a poll hands over waits among the pending messages until the next turn appends it.  Four
looks at the token may end the run in between.  As long as none of them finds the token fired
while messages are pending, every message of a poll has its place in the transcript.
-/

import Mathlib.Data.List.Forall2
import PiOxidized.Agent.Transcript

namespace PiOxidized.Agent

open List Math

variable {R M : Type}

/-- Each message that was handed over has a place of its own, in the order of the polls. -/
structure Delivered (messages : List (AgentMessage R M)) (positions : List Nat)
    (handed : List (AgentMessage R M)) : Prop where
  found : List.Forall₂ (fun position message => messages[position]? = some message) positions handed
  order : positions.Pairwise (· < ·)

namespace Delivered

variable {msgs handed : List (AgentMessage R M)} {positions : List Nat}

theorem nil (msgs : List (AgentMessage R M)) : Delivered msgs [] [] where
  found := .nil
  order := .nil

/-- Other messages at the end leave the places as they are. -/
theorem append (h : Delivered msgs positions handed) (more : List (AgentMessage R M)) :
    Delivered (msgs ++ more) positions handed where
  found := by
    apply h.found.imp
    intro position msg hat
    obtain ⟨hlt, -⟩ := List.getElem?_eq_some_iff.mp hat
    rw [getElem?_append_left hlt]
    exact hat
  order := h.order

/-- The places of messages at the end of a list. -/
theorem found_range' (msgs more : List (AgentMessage R M)) :
    List.Forall₂ (fun position msg => (msgs ++ more)[position]? = some msg)
      (range' msgs.length more.length) more := by
  induction more generalizing msgs with
  | nil => exact .nil
  | cons msg more ih =>
    have hrest := ih (msgs ++ [msg])
    rw [append_assoc, singleton_append, length_append, length_singleton] at hrest
    rw [length_cons, range'_succ]
    refine .cons ?_ hrest
    rw [getElem?_append_right (Nat.le_refl _), Nat.sub_self, getElem?_cons_zero]

theorem position_lt (h : Delivered msgs positions handed) :
    ∀ position ∈ positions, position < msgs.length := by
  obtain ⟨hfnd, -⟩ := h
  induction hfnd with
  | nil => nofun
  | cons hat _ ih =>
    obtain ⟨hlt, -⟩ := List.getElem?_eq_some_iff.mp hat
    intro position hplc
    rcases List.mem_cons.mp hplc with rfl | hplc
    · exact hlt
    · exact ih position hplc

/-- Pending messages get the places at the end. -/
theorem extend (h : Delivered msgs positions handed) (pending : List (AgentMessage R M)) :
    Delivered (msgs ++ pending) (positions ++ range' msgs.length pending.length)
      (handed ++ pending) where
  found := rel_append (h.append pending).found (found_range' msgs pending)
  order := by
    rw [pairwise_append]
    refine ⟨h.order, pairwise_lt_range' .., ?_⟩
    intro first hfst second hsnd
    have hlt := h.position_lt first hfst
    have hge := mem_range'_1.mp hsnd
    omega

end Delivered

/-- Whether the run is about to look at the token while messages of a poll may be pending. -/
def RunPhase.looks : RunPhase R M → Bool
  | .continuing _ => true
  | .prepared _ => true
  | .repolled _ => true
  | .polled _ => true
  | _ => false

namespace AgentRun

/-- What was handed over is pending or has its place. -/
def Places (r : AgentRun R M) : Prop := ∃ placed : List (AgentMessage R M),
    r.handed = placed ++ r.pendingMessages ∧ Delivered r.newMessages r.positions placed

/-- What was handed over has its place, and nothing is pending. -/
def Settled (r : AgentRun R M) : Prop :=
  r.pendingMessages = [] ∧ Delivered r.newMessages r.positions r.handed

/-- The invariant of the messages of polls. -/
def Keeps (r : AgentRun R M) : Prop := match r.phase with
  | .outer => r.Places
  | .inner => r.Places
  | .continuing _ => r.Places
  | .preparing => r.Places
  | .prepared _ => r.Places
  | .repolled _ => r.Places
  | .opening _ => r.Places
  | .appending _ => r.Places
  | .polled _ => r.Places
  | .returned messages => Delivered messages r.positions r.handed
  | .failed => True
  | _ => r.Settled

/-- No look finds the token fired while messages are pending. -/
def KeepsPending (r : AgentRun R M) (event : RunEvent R M) : Prop := match event with
  | .advance _ => r.cancelled = true → r.phase.looks = true → r.pendingMessages = []
  | _ => True

variable {r r' : AgentRun R M}

variable {msg : AssistantMessage R} {clock : Nat → Int}

theorem Settled.places (h : r.Settled) : r.Places := by
  refine ⟨r.handed, ?_, h.2⟩
  rw [h.1, append_nil]

theorem Places.settled (h : r.Places) (hpend : r.pendingMessages = []) : r.Settled := by
  obtain ⟨placed, hhanded, hplaced⟩ := h
  rw [hpend, append_nil] at hhanded
  refine ⟨hpend, ?_⟩
  rw [hhanded]
  exact hplaced

theorem Places.emitAgentEnd (h : r.Places) (hpend : r.pendingMessages = []) :
    r.emitAgentEnd.Keeps :=
  (h.settled hpend).2

theorem keeps_start (h : Starts r) : r.Keeps := by
  rcases h with ⟨prompts, context, config, model, cancelled, rfl⟩ | ⟨context, config, model,
    cancelled, h⟩
  · exact ⟨rfl, .nil prompts⟩
  · rw [runAgentLoopContinue] at h
    split at h
    · cases h
    · split_ifs at h
      cases h
      exact ⟨rfl, .nil []⟩

/-- A poll hands messages over when nothing is pending. -/
theorem Settled.receivePending (h : r.Settled) (msgs : List (AgentMessage R M)) :
    (r.receivePending msgs).Places :=
  ⟨r.handed, rfl, h.2⟩

/-- The turn appends what is pending. -/
theorem Places.appendTurn (h : r.Places) (msgs : List (AgentMessage R M)) :
    (r.appendTurn msgs).Settled := by
  obtain ⟨placed, hhanded, hplaced⟩ := h
  refine ⟨rfl, ?_⟩
  change Delivered (r.newMessages ++ (msgs ++ r.pendingMessages)) (r.positions ++
    range' (r.newMessages.length + msgs.length) r.pendingMessages.length) r.handed
  rw [hhanded, ← append_assoc, ← length_append]
  exact (hplaced.append msgs).extend r.pendingMessages

theorem Settled.append (h : r.Settled) (more : List (AgentMessage R M)) :
    Settled { r with newMessages := r.newMessages ++ more } :=
  ⟨h.1, h.2.append more⟩

theorem keeps_finalizeAssistant {addedPartial : Bool} (h : r.Settled) :
    (r.finalizeAssistant msg addedPartial).Keeps := by
  rw [finalizeAssistant]
  cases addedPartial with
  | true => exact h
  | false => exact h

theorem keeps_completeTurn [Inhabited R] (h : r.Settled) : (r.completeTurn msg clock).Keeps := by
  have happended := h.append [.assistant msg]
  rw [completeTurn]
  split_ifs
  · exact happended
  · exact happended.append _
  · exact happended
  · exact happended.append _

theorem keeps_receiveItem {stream : Streaming R} {item : DrainItem R} {now : Int}
    (h : r.Settled) : (r.receiveItem stream now item).Keeps := by
  cases item with
  | infra text => exact keeps_finalizeAssistant h
  | event event =>
    cases event with
    | start partMsg => exact h
    | done | error => exact keeps_finalizeAssistant h
    | update kind partMsg =>
      rw [receiveItem]
      split_ifs
      · exact h
      · exact h

theorem keeps_failed (r : AgentRun R M) : (r.goto .failed).Keeps := trivial

/-! ## Steps -/

variable {event : RunEvent R M}

theorem keeps_cancel (h : r.Keeps) : r.cancel.Keeps := by
  rw [cancel]
  split
  · rename_i msg batch hph
    have hph : r.phase = .executing msg batch := hph
    rw [Keeps, hph] at h
    exact h
  · exact h

theorem keeps_advance [Inhabited R] (h : r.Keeps) (hcond : KeepsPending r (.advance clock))
    (hnext : r.advance clock = some r') :
    r'.Keeps := by
  unfold Keeps at h
  unfold KeepsPending at hcond
  rw [advance] at hnext
  generalize r.phase = phase at h hcond hnext
  cases phase with
  | outer | opening =>
    cases hnext
    exact h
  | inner =>
    dsimp only at hnext
    split_ifs at hnext with hgo
    · split at hnext
      · cases hnext
        exact h
      · cases hnext
        exact h
    · cases hnext
      rw [Bool.or_eq_true, not_or, Bool.not_eq_true', Bool.not_eq_false] at hgo
      exact h.settled (isEmpty_iff.mp hgo.2)
  | continuing | repolled | polled =>
    cases hnext
    split_ifs with hcan
    · exact h.emitAgentEnd (hcond hcan rfl)
    · exact h
  | prepared msgs =>
    cases hnext
    split_ifs with hcan hemp
    · exact h.emitAgentEnd (hcond hcan rfl)
    · exact h.settled (isEmpty_iff.mp hemp)
    · exact h
  | appending msgs =>
    cases hnext
    exact h.appendTurn _
  | completing msg =>
    cases hnext
    exact keeps_completeTurn h
  | executing msg batch =>
    dsimp only at hnext
    split at hnext
    · cases hnext
      exact h.append _
    · cases hnext
  | decided turn hasMoreToolCalls decision =>
    cases hnext
    split_ifs
    · exact h.2
    · exact h.2
    · exact h
  | _ => cases hnext

theorem keeps_answerPoll {ans : Except Unit (List (AgentMessage R M))} (h : r.Keeps)
    (hnext : r.answerPoll ans = some r') : r'.Keeps := by
  unfold Keeps at h
  rw [answerPoll.eq_def] at hnext
  generalize r.phase = phase at h hnext
  cases ans with
  | error _ =>
    cases phase with
    | steering | repolling | polling | followingUp =>
      cases hnext
      exact keeps_failed r
    | _ => cases hnext
  | ok msgs =>
    cases phase with
    | steering | repolling | polling =>
      cases hnext
      exact Settled.receivePending h msgs
    | followingUp =>
      dsimp only at hnext
      split_ifs at hnext
      · cases hnext
        exact Settled.places h
      · cases hnext
        exact h.2
      · cases hnext
        exact Settled.receivePending h msgs
    | _ => cases hnext

theorem keeps_step [Inhabited R] (h : r.Keeps) (hcond : KeepsPending r event)
    (hnext : r.step event = some r') : r'.Keeps := by
  cases event
  case cancel =>
    cases hnext
    exact keeps_cancel h
  case advance clock => exact keeps_advance h hcond hnext
  case poll ans => exact keeps_answerPoll h hnext
  case batch event =>
    obtain ⟨msg, batch, next, hph, -, rfl⟩ := exists_of_step_batch hnext
    rw [Keeps, hph] at h
    exact h
  -- Every other event is taken in one phase.
  all_goals
    unfold Keeps at h
    rw [step.eq_def] at hnext
    generalize r.phase = phase at h hnext
    cases phase <;> try (cases hnext; done)
  case prepareNextTurn.preparing ans | prepareRequest.requesting ans =>
    cases hnext
    cases ans with
    | error _ => exact keeps_failed r
    | ok update =>
      cases update with
      | none | some => exact h
  case convert.converting ans =>
    cases ans with
    | error _ =>
      cases hnext
      exact keeps_failed r
    | ok _ =>
      cases hnext
      exact h
  case provide.streaming item stream =>
    dsimp only at hnext
    split_ifs at hnext
    cases hnext
    exact h
  case drainEnds.streaming stream =>
    cases hnext
    exact h
  case receive.streaming now stream =>
    dsimp only at hnext
    split at hnext
    · cases hnext
      split_ifs
      · exact keeps_finalizeAssistant h
      · exact keeps_receiveItem h
    · split_ifs at hnext
      · cases hnext
        exact keeps_finalizeAssistant h
      · cases hnext
        exact keeps_finalizeAssistant h
  case abort.streaming now stream =>
    dsimp only at hnext
    split_ifs at hnext
    cases hnext
    exact keeps_finalizeAssistant h
  case finishTurn.finishing ans turn hasMoreToolCalls =>
    cases hnext
    cases ans with
    | error _ => exact keeps_failed r
    | ok decision =>
      cases hasMoreToolCalls with
      | none => exact h.2
      | some hasMore => exact h

/-! ## Runs -/

theorem keeps_run [Inhabited R] (h : machine.Run KeepsPending r) : r.Keeps := by
  apply h.invariant
  · intro r hsta
    exact keeps_start hsta
  · intro r r' event hkps hcond hnext
    exact keeps_step hkps hcond hnext

/-- Every message that a poll handed over has its place in what the run returns. -/
theorem delivered_of_returned [Inhabited R] {msgs : List (AgentMessage R M)}
    (h : machine.Run KeepsPending r) (hreturned : r.phase = .returned msgs) :
    Delivered msgs r.positions r.handed := by
  have hkeeps := keeps_run h
  rw [Keeps, hreturned] at hkeeps
  exact hkeeps

/-- Whether no pending message is lost, computed. -/
def keepsPendingCheck (r : AgentRun R M) (event : RunEvent R M) : Bool := match event with
  | .advance _ => !r.cancelled || !r.phase.looks || r.pendingMessages.isEmpty
  | _ => true

theorem keepsPending_of_check (h : keepsPendingCheck r event = true) : KeepsPending r event := by
  cases event with
  | advance clock =>
    intro hcan hlooks
    rw [keepsPendingCheck, hcan, hlooks] at h
    exact isEmpty_iff.mp h
  | _ => trivial

/-- Two polls hand a message over each, the second after the first turn. -/
def steeredTwice : List (RunEvent Unit String) :=
  [.poll (.ok [.other "user" "first"]), .advance fun _ => 0, .advance fun _ => 0,
    .advance fun _ => 0, .prepareRequest (.ok none), .convert (.ok ()),
    .provide (.event (.done (echoMessage [.text "one"] .stop))), .receive 1,
    .advance fun _ => 0, .finishTurn (.ok none), .advance fun _ => 0,
    .poll (.ok [.other "user" "second"]), .advance fun _ => 0, .advance fun _ => 0,
    .advance fun _ => 0, .prepareNextTurn (.ok none), .advance fun _ => 0, .advance fun _ => 0,
    .advance fun _ => 0, .cancel, .prepareRequest (.ok none), .convert (.ok ()), .abort 2,
    .advance fun _ => 0, .finishTurn (.ok none)]

theorem delivered_steeredTwice : ∃ (r : AgentRun Unit String)
    (msgs : List (AgentMessage Unit String)),
    r.phase = .returned msgs ∧ r.positions = [1, 3] ∧ Delivered msgs r.positions r.handed := by
  have hstart : machine.Run KeepsPending
      (runAgentLoop [.other "user" "begin"] ⟨[], []⟩ ⟨.sequential, false, false⟩ echoModel
        false : AgentRun Unit String) := .start (.inl ⟨_, _, _, _, _, rfl⟩)
  obtain ⟨r, hrun, hr⟩ := hstart.execute keepsPendingCheck steeredTwice
    (fun r => r.positions == [1, 3] && r.phase matches .returned _)
    (fun _ _ => keepsPending_of_check) (by decide +kernel)
  rw [Bool.and_eq_true] at hr
  cases hphase : r.phase with
  | returned msgs =>
    exact ⟨r, msgs, hphase, eq_of_beq hr.1, delivered_of_returned hrun hphase⟩
  | _ =>
    rw [hphase] at hr
    cases hr.2

/-- The token fires right after a poll handed a message over. -/
def steeredAndCancelled : List (RunEvent Unit String) :=
  [.poll (.ok []), .advance fun _ => 0, .advance fun _ => 0, .advance fun _ => 0,
    .prepareRequest (.ok none), .convert (.ok ()),
    .provide (.event (.done (echoMessage [.text "one"] .stop))), .receive 1,
    .advance fun _ => 0, .finishTurn (.ok none), .advance fun _ => 0,
    .poll (.ok [.other "user" "lost"]), .cancel, .advance fun _ => 0]

/-- A run returns without a message that a poll handed over to it. -/
theorem poll_loses_message : ¬ ∀ (r : AgentRun Unit String)
    (messages : List (AgentMessage Unit String)), machine.Run (fun _ _ => True) r →
      r.phase = .returned messages → ∀ msg ∈ r.handed, msg ∈ messages := by
  intro hall
  have hstart : machine.Run (fun _ _ => True)
      (runAgentLoop [.other "user" "begin"] ⟨[], []⟩ ⟨.sequential, false, false⟩ echoModel
        false : AgentRun Unit String) := .start (.inl ⟨_, _, _, _, _, rfl⟩)
  obtain ⟨r, hrun, hr⟩ := hstart.execute (fun _ _ => true) steeredAndCancelled
    (fun r => r.handed == [.other "user" "lost"] && match r.phase with
      | .returned messages => !messages.contains (.other "user" "lost")
      | _ => false)
    (fun _ _ _ => trivial) (by decide +kernel)
  rw [Bool.and_eq_true] at hr
  cases hphase : r.phase with
  | returned messages =>
    rw [hphase] at hr
    have hmem := hall r messages hrun hphase (.other "user" "lost")
      (by rw [eq_of_beq hr.1]; exact mem_singleton_self _)
    have hcontains := List.contains_iff_mem.mpr hmem
    have hnot : (!messages.contains (.other "user" "lost")) = true := hr.2
    rw [hcontains] at hnot
    cases hnot
  | _ =>
    rw [hphase] at hr
    cases hr.2

end AgentRun

end PiOxidized.Agent
