/-
# What a server answers

The tasks of a server are the requests it has taken, in their order, so their ids are distinct,
no request is refused as a duplicate and every task sends one answer, which is its own result.
-/

import PiOxidized.Math.Slots
import PiOxidized.Remote.Exchange

namespace PiOxidized.Remote

open List Option Math

variable {R : Type}

/-- The id, the route and the call of a request frame. -/
def requestFrame (frame : Nat × ClientMessage R) : Option (String × RpcTarget × R) :=
  match frame.2 with
  | .request id target call => some (id, target, call)
  | _ => none

def Handler.frame (handler : Handler R) : String × RpcTarget × R :=
  (handler.id, handler.target, handler.call)

/-- Whether a task may be in the table. -/
def HandlerPhase.isActive : HandlerPhase R → Bool
  | invoking => true
  | finishing _ => true
  | answered _ => true
  | _ => false

/-- Whether a task was refused. -/
def HandlerPhase.isRefused : HandlerPhase R → Bool
  | duplicate => true
  | refused => true
  | _ => false

/-- The id a message answers. -/
def answerId (message : ServerMessage R) : Option String := message.answer?.map Prod.fst

@[simp]
theorem answerId_answerMessage (id : String) (cancelled : Bool) (res : HandlerResult R) :
    answerId (answerMessage id cancelled res) = some id := by
  cases res with
  | ok | error => rfl

/-- Whether a message is the answer of a task. -/
def Handler.Answers (handler : Handler R) (message : ServerMessage R) : Prop :=
  ∃ result cancelled, handler.phase.result? = some result ∧
    (cancelled = true → handler.cancelled = true) ∧
      message = answerMessage handler.id cancelled result

/-- What holds of a server that has taken some of the frames a client has sent. -/
structure Serving (sent : List (Nat × ClientMessage R)) (received : Nat) (s : Server R) : Prop where
  failed : s.failed = none
  room : received ≤ sent.length
  handlers : s.handlers.map Handler.frame = (sent.take received).filterMap requestFrame
  cancelled : ∀ handler ∈ s.handlers, handler.cancelled = true →
    ∃ index target, (index, .cancel handler.id target) ∈ sent
  active : ∀ id active, s.activeRequests.get? id = some active → ∃ handler,
    s.handlers[active.handler]? = some handler ∧ handler.id = id ∧ handler.phase.isActive = true
  tasks : ∀ handler ∈ s.handlers, handler.phase.isRefused = false
  answers : ∀ message ∈ s.sent, ∃ handler ∈ s.handlers, handler.Answers message
  once : (s.sent.filterMap answerId).Nodup

variable {sent : List (Nat × ClientMessage R)} {received : Nat} {s s' : Server R} {i : Nat}
  {handler handler' : Handler R}

/-- The ids of the requests a client has sent. -/
def sentIds (sent : List (Nat × ClientMessage R)) : List String :=
  (sent.filterMap requestFrame).map Prod.fst

theorem Serving.ids (h : Serving sent received s) (hids : (sentIds sent).Nodup) :
    (s.handlers.map Handler.id).Nodup := by
  have hsub : List.Sublist ((sent.take received).filterMap requestFrame)
      (sent.filterMap requestFrame) := (take_sublist received sent).filterMap requestFrame
  have heq : s.handlers.map Handler.id = (s.handlers.map Handler.frame).map Prod.fst := by
    rw [List.map_map]
    rfl
  rw [heq, h.handlers]
  exact hids.sublist (hsub.map Prod.fst)

/-- Tasks with one id are one task. -/
theorem Serving.eq_of_id {place : Nat} {other : Handler R} (h : Serving sent received s)
    (hids : (sentIds sent).Nodup) (hhand : s.handlers[index]? = some handler)
    (hoth : s.handlers[place]? = some other) (hid : other.id = handler.id) : place = index := by
  have heq : (s.handlers.map Handler.id)[place]? = (s.handlers.map Handler.id)[index]? := by
    rw [getElem?_map, getElem?_map, hoth, hhand, map_some, map_some, hid]
  have hplc : place < (s.handlers.map Handler.id).length := by
    rw [length_map]
    exact (List.getElem?_eq_some_iff.mp hoth).1
  exact (getElem?_inj hplc (h.ids hids)).mp heq

/-- More frames of the client change nothing. -/
theorem Serving.more (h : Serving sent received s) (frames : List (Nat × ClientMessage R)) :
    Serving (sent ++ frames) received s := by
  refine { h with room := ?room, handlers := ?handlers, cancelled := ?cancelled }
  case room =>
    rw [length_append]
    exact Nat.le_trans h.room (Nat.le_add_right _ _)
  case handlers =>
    rw [take_append_of_le_length h.room]
    exact h.handlers
  case cancelled =>
    intro handler hmem hcan
    obtain ⟨i, tgt, hfrm⟩ := h.cancelled handler hmem hcan
    exact ⟨i, tgt, mem_append_left _ hfrm⟩

/-! ## Tasks -/

variable {res : HandlerResult R} {id : String}

theorem mem_handlers_putHandler {found : Handler R}
    (hmem : found ∈ (s.putHandler i handler').handlers) :
    found = handler' ∨ found ∈ s.handlers := by
  obtain ⟨place, hplc⟩ := getElem?_of_mem hmem
  rcases getElem?_set_cases hplc with ⟨-, rfl⟩ | ⟨-, hplc⟩
  · exact .inl rfl
  · exact .inr (mem_of_getElem? hplc)

section

variable (h : Serving sent received s)

include h

/-- A task goes on. -/
theorem Serving.putHandler (hhand : s.handlers[i]? = some handler)
    (hfrm : handler'.frame = handler.frame)
    (hcan : handler'.cancelled = true → handler.cancelled = true ∨
      ∃ place tgt, (place, .cancel handler.id tgt) ∈ sent)
    (hkeep : handler.cancelled = true → handler'.cancelled = true)
    (hact : handler.phase.isActive = true →
      handler'.phase.isActive = true ∨ s.activeRequests.get? handler.id = none)
    (htask : handler'.phase.isRefused = false)
    (hret : ∀ res, handler.phase.result? = some res → handler'.phase.result? = some res) :
    Serving sent received (s.putHandler i handler') := by
  have hid : handler'.id = handler.id := congrArg Prod.fst hfrm
  have hmem : handler ∈ s.handlers := mem_of_getElem? hhand
  have hput : (s.putHandler i handler').handlers[i]? = some handler' := getElem?_set_of_some hhand
  constructor
  case failed => exact h.failed
  case room => exact h.room
  case handlers =>
    rw [← h.handlers]
    exact map_set_of_eq Handler.frame hhand hfrm
  case cancelled =>
    intro found hfnd hfoundCan
    rcases mem_handlers_putHandler hfnd with rfl | hfnd
    · rw [hid]
      rcases hcan hfoundCan with hpre | hfrm
      · exact h.cancelled handler hmem hpre
      · exact hfrm
    · exact h.cancelled found hfnd hfoundCan
  case active =>
    intro id active hget
    obtain ⟨found, hfnd, hfoundId, hfoundActive⟩ := h.active id active hget
    by_cases heq : active.handler = i
    · rw [heq] at hfnd ⊢
      obtain rfl := some.inj (hfnd.symm.trans hhand)
      rcases hact hfoundActive with hact | hnone
      · exact ⟨handler', hput, hid.trans hfoundId, hact⟩
      · rw [hfoundId] at hnone
        cases hnone.symm.trans hget
    · exact ⟨found, (getElem?_set_ne (Ne.symm heq)).trans hfnd, hfoundId, hfoundActive⟩
  case tasks =>
    intro found hfnd
    rcases mem_handlers_putHandler hfnd with rfl | hfnd
    · exact htask
    · exact h.tasks found hfnd
  case answers =>
    intro message hmsg
    obtain ⟨found, hfnd, res, cancelled, hfoundResult, hfoundCan, heq⟩ := h.answers message hmsg
    obtain ⟨place, hplc⟩ := getElem?_of_mem hfnd
    by_cases hsame : place = i
    · rw [hsame] at hplc
      obtain rfl := some.inj (hplc.symm.trans hhand)
      refine ⟨handler', mem_of_getElem? hput, res, cancelled, hret res hfoundResult,
        fun hc => hkeep (hfoundCan hc), ?_⟩
      rw [hid]
      exact heq
    · exact ⟨found, mem_of_getElem? ((getElem?_set_ne (Ne.symm hsame)).trans hplc),
        res, cancelled, hfoundResult, hfoundCan, heq⟩
  case once => exact h.once

/-- A task that only goes on to its next section. -/
theorem Serving.setPhase {phase : HandlerPhase R} (hhand : s.handlers[i]? = some handler)
    (hact : handler.phase.isActive = true →
      phase.isActive = true ∨ s.activeRequests.get? handler.id = none)
    (htask : phase.isRefused = false)
    (hret : ∀ res, handler.phase.result? = some res → phase.result? = some res) :
    Serving sent received (s.putHandler i { handler with phase := phase }) :=
  h.putHandler hhand rfl .inl (fun hcan => hcan) hact htask hret

/-- No id is in the table when its task looks. -/
theorem Serving.get?_eq_none (hids : (sentIds sent).Nodup)
    (hhand : s.handlers[i]? = some handler) (hidle : handler.phase.isActive = false) :
    s.activeRequests.get? handler.id = none := by
  by_contra hsome
  obtain ⟨active, hget⟩ := ne_none_iff_exists'.mp hsome
  obtain ⟨found, hfnd, hid, hact⟩ := h.active handler.id active hget
  rw [h.eq_of_id hids hhand hfnd hid, hhand] at hfnd
  cases hfnd
  rw [hidle] at hact
  cases hact

theorem Serving.insert {active : ActiveRequest}
    (hhand : s.handlers[active.handler]? = some handler) (hid : handler.id = id)
    (hact : handler.phase.isActive = true) :
    Serving sent received { s with activeRequests := s.activeRequests.insert id active } := by
  refine { h with active := ?active }
  case active =>
    intro other found hget
    rw [OrderedMap.get?_insert] at hget
    split_ifs at hget with heq
    · cases hget
      exact ⟨handler, hhand, hid.trans heq.symm, hact⟩
    · exact h.active other found hget

/-- The table entry of a task is removed with the task itself. -/
theorem Serving.remove (hhand : s.handlers[i]? = some handler)
    (hph : handler.phase = .answered res) :
    Serving sent received { s.putHandler i { handler with phase := .removed res } with
      activeRequests := s.activeRequests.erase handler.id } := by
  have herased : Serving sent received
      { s with activeRequests := s.activeRequests.erase handler.id } := by
    refine { h with active := ?active }
    case active =>
      intro id active hget
      rw [OrderedMap.get?_erase] at hget
      split_ifs at hget
      exact h.active id active hget
  apply herased.setPhase hhand
  · intro _
    apply Or.inr
    rw [OrderedMap.get?_erase, if_pos rfl]
  · rfl
  · rw [hph]
    intro found hfnd
    exact hfnd

/-- A task sends its answer. -/
theorem Serving.answer (hids : (sentIds sent).Nodup) (hhand : s.handlers[i]? = some handler)
    (hph : handler.phase = .finishing res) :
    Serving sent received { s.putHandler i { handler with phase := .answered res } with
      sent := s.sent ++ [answerMessage handler.id handler.cancelled res] } := by
  have hput : Serving sent received (s.putHandler i { handler with phase := .answered res }) := by
    apply h.setPhase hhand
    · exact fun _ => .inl rfl
    · rfl
    · rw [hph]
      intro found hfnd
      cases hfnd
  -- Another answer with the id would be one of this task, which has sent none.
  have hfrs : handler.id ∉ s.sent.filterMap answerId := by
    intro hmem
    obtain ⟨message, hmsg, hid⟩ := mem_filterMap.mp hmem
    obtain ⟨found, hfnd, other, cancelled, hret, -, rfl⟩ := h.answers message hmsg
    rw [answerId_answerMessage] at hid
    obtain ⟨place, hplc⟩ := getElem?_of_mem hfnd
    rw [h.eq_of_id hids hhand hplc (some.inj hid), hhand] at hplc
    cases hplc
    rw [hph] at hret
    cases hret
  refine { hput with answers := ?answers, once := ?once }
  case answers =>
    refine forall_mem_concat hput.answers ?_
    exact ⟨{ handler with phase := .answered res },
      mem_of_getElem? (getElem?_set_of_some hhand), res, handler.cancelled, rfl,
      fun hcan => hcan, rfl⟩
  case once =>
    rw [filterMap_append, filterMap_cons, answerId_answerMessage]
    apply nodup_append.mpr
    refine ⟨hput.once, pairwise_singleton _ _, ?_⟩
    intro id hid other hoth heq
    rw [mem_singleton.mp hoth] at heq
    exact hfrs (heq ▸ hid)

/-- A step of a task. -/
theorem Serving.handlerStep {event : HandlerEvent R} (hids : (sentIds sent).Nodup)
    (hhand : s.handlers[i]? = some handler)
    (hnext : s.handlerStep i handler event = some s') : Serving sent received s' := by
  have htask := h.tasks handler (mem_of_getElem? hhand)
  cases event with
  | check =>
    rw [Server.handlerStep] at hnext
    cases hph : handler.phase with
    | spawned =>
      have hnone := h.get?_eq_none hids hhand (by rw [hph]; rfl)
      rw [hph, OrderedMap.contains, hnone] at hnext
      cases hnext
      apply h.setPhase hhand
      · rw [hph]
        intro hact
        cases hact
      · rfl
      · rw [hph]
        intro res hret
        cases hret
    | _ =>
      rw [hph] at hnext
      cases hnext
  | refuse =>
    rw [Server.handlerStep] at hnext
    cases hph : handler.phase with
    | duplicate =>
      rw [hph] at htask
      cases htask
    | _ =>
      rw [hph] at hnext
      cases hnext
  | insert =>
    rw [Server.handlerStep] at hnext
    cases hph : handler.phase with
    | checked =>
      rw [hph] at hnext
      cases hnext
      have hput : Serving sent received (s.putHandler i { handler with phase := .invoking }) := by
        apply h.setPhase hhand
        · exact fun _ => .inl rfl
        · rfl
        · rw [hph]
          intro res hret
          cases hret
      exact hput.insert (getElem?_set_of_some hhand) rfl rfl
    | _ =>
      rw [hph] at hnext
      cases hnext
  | complete res =>
    rw [Server.handlerStep] at hnext
    cases hph : handler.phase with
    | invoking =>
      rw [hph] at hnext
      cases hnext
      apply h.setPhase hhand
      · exact fun _ => .inl rfl
      · rfl
      · rw [hph]
        intro found hfnd
        cases hfnd
    | _ =>
      rw [hph] at hnext
      cases hnext
  | finish =>
    rw [Server.handlerStep.eq_def] at hnext
    cases hph : handler.phase with
    | finishing res =>
      simp only [hph] at hnext
      rw [Server.sendMessage, if_neg] at hnext
      · cases hnext
        exact h.answer hids hhand hph
      · show ¬ s.failed.isSome = true
        rw [h.failed]
        exact Bool.false_ne_true
    | _ =>
      simp only [hph] at hnext
      cases hnext
  | remove =>
    rw [Server.handlerStep.eq_def] at hnext
    cases hph : handler.phase with
    | answered res =>
      simp only [hph] at hnext
      cases hnext
      exact h.remove hhand hph
    | _ =>
      simp only [hph] at hnext
      cases hnext

end

/-! ## Dispatch -/

variable {tgt : RpcTarget}

theorem take_received {frame : Nat × ClientMessage R} (hfrm : sent[received]? = some frame) :
    (sent.take (received + 1)).filterMap requestFrame =
      (sent.take received).filterMap requestFrame ++ (requestFrame frame).toList := by
  rw [take_add_one, hfrm, filterMap_append, toList_some]
  cases hreq : requestFrame frame with
  | none => rw [filterMap_cons_none hreq, filterMap_nil, toList_none]
  | some request => rw [filterMap_cons_some hreq, filterMap_nil, toList_some]

section

variable (h : Serving sent received s)

include h

/-- A frame that is no request and leaves the tasks where they are. -/
theorem Serving.take {frame : Nat × ClientMessage R} (hfrm : sent[received]? = some frame)
    (hnone : requestFrame frame = none) : Serving sent (received + 1) s where
  __ := h
  room := (List.getElem?_eq_some_iff.mp hfrm).1
  handlers := by
    rw [take_received hfrm, hnone, toList_none, List.append_nil]
    exact h.handlers

/-- A cancellation that was sent cancels at most the token of its request. -/
theorem Serving.handleCancel (hsent : ∃ place, (place, .cancel id tgt) ∈ sent) :
    Serving sent received (s.handleCancel id tgt) := by
  rw [Server.handleCancel]
  split_ifs with hsrv
  · exact h
  · cases hget : s.activeRequests.get? id with
    | none => exact h
    | some active =>
      simp only
      split_ifs with htgt
      · obtain ⟨handler, hhand, hid, hact⟩ := h.active id active hget
        rw [hhand]
        apply h.putHandler hhand
        case hfrm => rfl
        case hcan =>
          intro _
          obtain ⟨place, hplc⟩ := hsent
          rw [hid]
          exact .inr ⟨place, tgt, hplc⟩
        case hkeep => exact fun _ => rfl
        case hact => exact fun _ => .inl hact
        case htask => exact h.tasks handler (mem_of_getElem? hhand)
        case hret => exact fun _ hret => hret
      · exact h

/-- A request gets a task. -/
theorem Serving.spawn {place : Nat} {call : R}
    (hfrm : sent[received]? = some (place, .request id tgt call)) :
    Serving sent (received + 1)
      { s with handlers := s.handlers ++ [{ id := id, target := tgt, call := call }] } where
  __ := h
  room := (List.getElem?_eq_some_iff.mp hfrm).1
  handlers := by
    rw [take_received hfrm, map_append, h.handlers]
    rfl
  cancelled := by
    refine forall_mem_concat h.cancelled ?_
    intro hcan
    cases hcan
  active := by
    intro id active hget
    obtain ⟨handler, hhand, hrest⟩ := h.active id active hget
    exact ⟨handler, getElem?_append_of_some hhand, hrest⟩
  tasks := by
    exact forall_mem_concat h.tasks rfl
  answers := by
    intro message hmsg
    obtain ⟨handler, hhand, hrest⟩ := h.answers message hmsg
    exact ⟨handler, mem_append_left _ hhand, hrest⟩

theorem Serving.dispatchMessage {frame : Nat × ClientMessage R}
    (hfrm : sent[received]? = some frame) (hhello : ∀ version, frame.2 ≠ .hello version) :
    Serving sent (received + 1) (s.dispatchMessage frame.2) := by
  obtain ⟨place, message⟩ := frame
  have hup : ¬ s.failed.isSome = true := by
    rw [h.failed]
    exact Bool.false_ne_true
  cases message with
  | hello version => exact absurd rfl (hhello version)
  | request id tgt call =>
    rw [Server.dispatchMessage, if_neg hup]
    exact h.spawn hfrm
  | cancel id tgt =>
    rw [Server.dispatchMessage, if_neg hup]
    exact (h.take hfrm rfl).handleCancel ⟨place, mem_of_getElem? hfrm⟩

end

end PiOxidized.Remote
