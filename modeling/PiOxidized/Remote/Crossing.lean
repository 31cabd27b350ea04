/-
# Cancellations that cross answers

A client and a server keep their invariants over every step, as long as the client handles no
answer to a request whose caller has cancelled it and left.
-/

import PiOxidized.Remote.Answering

namespace PiOxidized.Remote

open List Option Math

variable {R : Type} {answers : List (ServerMessage R)} {arrived i call : Nat}
  {s s' : Client R} {req : Request R}

namespace Client

variable {id : String}

theorem Answering.send {place : Nat} {admission : Admission} (h : Answering answers arrived s)
    (hkept : Kept [] s) (hreq : s.requests[i]? = some req)
    (hph : req.phase = .registered) (hent : req.entry = some (place, id))
    (hreliable : (RequestEvent.send admission).isReliable = true) :
    Answering answers arrived (s.send i req place id admission) := by
  obtain rfl := (h.requests i req hreq).place place id hent
  have hup : ((s.connections[0]?).any fun found => found.lifecycle == .connected) = true := by
    rw [h.connections]
    rfl
  rw [Client.send.eq_def, if_pos hup]
  cases admission with
  | admitted => exact h.sendRequest hkept.numbered hreq hph hent
  | closed error => cases hreliable
  | refused error =>
    apply h.setPhase hreq
    case hover =>
      rw [hph]
      rfl
    case hsent =>
      rw [hph]
      intro hsent
      cases hsent
    case hcan =>
      intro hcancelling
      cases hcancelling
    case huns =>
      rw [hph]
      exact fun _ => rfl
    case hret =>
      intro reply hretd
      cases hretd

/-- A request call goes on. -/
theorem Answering.requestStep {event : RequestEvent} (h : Answering answers arrived s)
    (hkept : Kept [] s) (hreq : s.requests[i]? = some req)
    (hreliable : event.isReliable = true) (hord : Orderly s (.advance i event))
    (hnext : s.requestStep i req event = some s') : Answering answers arrived s' := by
  cases event with
  | cancelToken =>
    cases hnext
    exact h.cancelToken hreq
  | validate parsed =>
    rw [Client.requestStep] at hnext
    cases hph : req.phase with
    | admitted =>
      rw [hph] at hnext
      cases hnext
      have hnone := hkept.custody.fresh i req hreq (by rw [Request.isNew, hph]; rfl)
      exact h.validate hreq hph hnone parsed
    | _ =>
      rw [hph] at hnext
      cases hnext
  | register =>
    rw [Client.requestStep] at hnext
    cases hph : req.phase with
    | validated =>
      rw [hph] at hnext
      cases hnext
      exact h.register hkept hreq hph hord
    | _ =>
      rw [hph] at hnext
      cases hnext
  | send admission =>
    rw [Client.requestStep] at hnext
    split at hnext
    · rename_i hph hent
      cases hnext
      exact h.send hkept hreq hph hent hreliable
    · cases hnext
  | giveUp =>
    rw [Client.requestStep] at hnext
    split at hnext
    · rename_i hph hent
      cases hnext
      exact h.giveUp hkept hreq hph hent
    · cases hnext
  | reply =>
    rw [Client.requestStep] at hnext
    split at hnext
    · rename_i hph hchan
      cases hnext
      exact h.reply hreq (.inl hph) hchan
    · rename_i hph hchan
      cases hnext
      exact h.reply hreq (.inr hph) hchan
    · cases hnext
  | cancel =>
    rw [Client.requestStep] at hnext
    split at hnext
    · rename_i hph hent
      split_ifs at hnext with hcancelled
      cases hnext
      exact h.cancel hkept hreq hph hent hcancelled
    · cases hnext
  | sendCancel admitted =>
    rw [Client.requestStep] at hnext
    split at hnext
    · rename_i hph hent
      have hretd := h.returnCancelled hreq hph
      simp only at hnext
      split_ifs at hnext with hup
      · cases hnext
        rename_i place id
        obtain rfl := (h.requests i req hreq).place place id hent
        exact hretd.sendCancel (getElem?_set_of_some hreq) hent rfl rfl
      · cases hnext
        exact hretd
    · cases hnext

/-! ## Answers -/

/-- Every answer is the one answer to a request with an id the client has sent. -/
structure Answered (ids : List String) (answers : List (ServerMessage R)) : Prop where
  genuine : ∀ message ∈ answers, ∃ id ∈ ids, ∃ cancelled result,
    message = answerMessage id cancelled result
  once : (answers.filterMap answerId).Nodup

variable {msg : ServerMessage R}

/-- The request with an id that was sent. -/
theorem Answering.owner (h : Answering answers arrived s) (hid : id ∈ sentIds s.sent) :
    ∃ (i : Nat) (req : Request R), s.requests[i]? = some req ∧ req.entry = some (0, id) := by
  obtain ⟨found, hfnd, rfl⟩ := mem_map.mp hid
  obtain ⟨frame, hfrm, hreqFrame⟩ := mem_filterMap.mp hfnd
  obtain ⟨i, req, id, hreq, hent, hsends⟩ := h.frames frame hfrm
  rcases hsends with ⟨rfl, -⟩ | ⟨rfl, -⟩
  · cases hreqFrame
    exact ⟨i, req, hreq, hent⟩
  · cases hreqFrame

/-- An answer that a callback has not used yet is the only trace of answers with its id. -/
theorem Answering.only (h : Answering answers arrived s)
    (honce : (answers.filterMap answerId).Nodup)
    (hcall : s.messages[call]? = some (.message 0 msg)) (hid : answerId msg = some id) :
    (∀ found ∈ s.messages, ∀ pend reply, found ≠ .answering id pend reply) ∧
      ∀ i, (i, .response id) ∉ s.resolved := by
  have hsub : List.Sublist ((answers.take arrived).filterMap answerId)
      (answers.filterMap answerId) := (take_sublist arrived answers).filterMap answerId
  have hone := nodup_iff_count_le_one.mp (honce.sublist hsub) id
  have hcnt := h.count id
  have hset := weigh_set (MessageCall.answersTo id) hcall (.done : MessageCall R)
  have hself : (MessageCall.message 0 msg).answersTo id = 1 := if_pos hid
  have hdone : (MessageCall.done : MessageCall R).answersTo id = 0 := rfl
  rw [hself, hdone] at hset
  constructor
  · intro found hfnd pend reply heq
    obtain ⟨place, hplc⟩ := getElem?_of_mem hfnd
    have hne : place ≠ call := by
      rintro rfl
      rw [hcall] at hplc
      cases hplc
      cases heq
    have hoth : (s.messages.set call .done)[place]? = some found :=
      (getElem?_set_ne (Ne.symm hne)).trans hplc
    have hpos : 0 < found.answersTo id := by
      rw [heq, MessageCall.answersTo, if_pos rfl]
      exact Nat.one_pos
    have hle := le_weigh_of_getElem? (MessageCall.answersTo id) hoth
    omega
  · intro i hmem
    have hpos : 0 < (s.resolved.map Prod.snd).count (.response id) :=
      count_pos_iff.mpr (mem_map.mpr ⟨_, hmem, rfl⟩)
    omega

/-- The table still has the entry of an answer whose caller has not left. -/
theorem Answering.entry_of_message (h : Answering answers arrived s) (hkept : Kept [] s)
    (honce : (answers.filterMap answerId).Nodup)
    (hcall : s.messages[call]? = some (.message 0 message)) (hid : answerId message = some id)
    (hsent : id ∈ sentIds s.sent) (hleft : s.gaveUp id = false) :
    ∃ pend, s.pending.get? id = some pend := by
  obtain ⟨owner, req, hreq, hent⟩ := h.owner hsent
  obtain ⟨hcalls, hresponses⟩ := h.only honce hcall hid
  have hlook : s.entryOf owner = some (0, id) := by
    rw [entryOf, hreq]
    exact hent
  have htally := hkept.custody.tally owner
  rw [hlook, held, h.connections, h.disposal] at htally
  -- No callback has the sender of the request.
  have hmsgs : weigh (MessageCall.holds owner) s.messages = 0 := by
    by_contra hsome
    obtain ⟨found, hfnd, hholds⟩ := weigh_pos_iff.mp (Nat.pos_of_ne_zero hsome)
    cases found with
    | answering other pend reply =>
      rw [MessageCall.holds] at hholds
      by_cases hsend : pend.sender = owner
      · obtain ⟨place, hplc⟩ := getElem?_of_mem hfnd
        obtain ⟨connection, hoth⟩ := hkept.custody.answering place other pend reply hplc
        rw [hsend, hlook] at hoth
        obtain ⟨-, rfl⟩ := Prod.mk.inj (some.inj hoth)
        exact hcalls _ hfnd pend reply rfl
      · rw [if_neg hsend] at hholds
        exact Nat.lt_irrefl 0 hholds
    | handshake | message | failing | done => exact Nat.lt_irrefl 0 hholds
  -- The request is not resolved.
  have hsolved : (s.resolved.map Prod.fst).count owner = 0 := by
    apply count_eq_zero.mpr
    intro hmem
    obtain ⟨⟨place, resol⟩, hpair, hplc⟩ := mem_map.mp hmem
    obtain rfl : place = owner := hplc
    have hends := h.ends _ _ hpair
    cases resol with
    | response other =>
      obtain ⟨entry, hfnd, hsuits⟩ := hkept.custody.suits _ _ hpair
      rw [hlook] at hfnd
      cases hfnd
      obtain rfl : other = id := hsuits
      exact hresponses _ hpair
    | cancelled =>
      obtain ⟨found, hfnd, hgave⟩ := hends
      rw [hreq] at hfnd
      cases hfnd
      have hleftTrue : s.gaveUp id = true := by
        apply any_eq_true.mpr
        refine ⟨req, mem_of_getElem? hreq, ?_⟩
        rw [hgave, hent, any_some, beq_self_eq_true]
        rfl
      rw [hleft] at hleftTrue
      cases hleftTrue
    | unsent =>
      obtain ⟨found, hfnd, -, hids⟩ := hends
      rw [hreq] at hfnd
      cases hfnd
      exact hids 0 id hent hsent
    | failed | disposed | dropped => exact hends
  have hconns : weigh (fun connection => connection.senders.count owner)
      [({ id := wrappingSucc U64.zero, lifecycle := .connected } : Connection)] = 0 := rfl
  have hdispl : (((none : Option Disposal).map Disposal.senders).getD []).count owner = 0 := rfl
  rw [hmsgs, hsolved, hconns, hdispl] at htally
  have hpos : 0 < s.senders.count owner := by
    simp only [isSome_some, if_true, count_nil] at htally
    omega
  obtain ⟨pend, hpend, hsend⟩ := mem_map.mp (count_pos_iff.mp hpos)
  obtain ⟨other, hget⟩ := OrderedMap.mem_values_iff.mp hpend
  obtain ⟨place, hfnd, -⟩ := hkept.tables.pending other pend hget
  rw [hsend, hlook] at hfnd
  obtain ⟨-, rfl⟩ := Prod.mk.inj (some.inj hfnd)
  exact ⟨pend, hget⟩

/-! ## Callbacks -/

variable {reply : Reply R}

section

variable (h : Answering answers arrived s)

include h

/-- A callback goes on with what it has. -/
theorem Answering.putMessage {old new : MessageCall R} (hcall : s.messages[call]? = some old)
    (hle : ∀ id, new.answersTo id ≤ old.answersTo id) (hgen : new.Genuine s.serverId answers) :
    Answering answers arrived (s.putMessage call new) := by
  refine { h with count := ?count, calls := ?calls }
  case count =>
    intro id
    have hset := weigh_set (MessageCall.answersTo id) hcall new
    have hcnt := h.count id
    have hnew := hle id
    show weigh (MessageCall.answersTo id) (s.messages.set call new) +
      (s.resolved.map Prod.snd).count (.response id) ≤ _
    omega
  case calls =>
    intro found hfnd
    obtain ⟨place, hplc⟩ := getElem?_of_mem hfnd
    rcases getElem?_set_cases hplc with ⟨-, rfl⟩ | ⟨-, hplc⟩
    · exact hgen
    · exact h.calls found (mem_of_getElem? hplc)

/-- A request gets its answer over its channel. -/
theorem Answering.setChannel (hreq : s.requests[i]? = some req)
    (hentry : req.entry = some (0, id)) (hgenuine : GenuineReply answers id reply) :
    Answering answers arrived (s.putRequest i { req with channel := some reply }) := by
  have hsound := h.requests i req hreq
  apply h.putRequest hreq
  case hsnd =>
    refine { hsound with channel := ?channel }
    case channel =>
      intro found hfound
      cases hfound
      exact ⟨id, hentry, hgenuine⟩
  case hent => rfl
  case hcall => rfl
  case hsent => exact fun hsent => hsent
  case hret => exact fun hret => hret
  case hgaveUp => exact fun hgaveUp => hgaveUp
  case hover => exact fun hover => hover
  case hchan => exact fun _ => rfl

/-- A callback uses the answer it has. -/
theorem Answering.answer {pend : PendingRequest}
    (hcall : s.messages[call]? = some (.answering id pend reply))
    (hreq : s.requests[pend.sender]? = some req)
    (hent : req.entry = some (0, id)) :
    Answering answers arrived
      ((s.putMessage call .done).answer pend.sender reply (.response id)) := by
  have hgen := (h.calls _ (mem_of_getElem? hcall)).2
  have hput := h.setChannel hreq hent hgen
  have hself : (s.putRequest pend.sender
      { req with channel := some reply }).requests[pend.sender]? =
        some { req with channel := some reply } := getElem?_set_of_some hreq
  have hreq' : (s.putMessage call .done).requests[pend.sender]? = some req := hreq
  rw [Client.answer, hreq']
  refine { hput with ends := ?ends, count := ?count, calls := ?calls }
  case ends =>
    intro place resol hmem
    rcases mem_append.mp hmem with hmem | hmem
    · exact hput.ends place resol hmem
    · obtain ⟨rfl, rfl⟩ := Prod.mk.inj (mem_singleton.mp hmem)
      exact ⟨_, hself, rfl⟩
  case count =>
    intro other
    have hset := weigh_set (MessageCall.answersTo other) hcall (.done : MessageCall R)
    have hcnt := h.count other
    have hdone : (MessageCall.done : MessageCall R).answersTo other = 0 := rfl
    have hhas : (MessageCall.answering id pend reply).answersTo other =
        [Resolution.response id].count (.response other) := by
      rw [MessageCall.answersTo]
      by_cases heq : id = other
      · rw [if_pos heq, heq, count_singleton_self]
      · rw [if_neg heq, count_eq_zero.mpr]
        intro hmem
        exact heq (Resolution.response.inj (mem_singleton.mp hmem)).symm
    show weigh (MessageCall.answersTo other) (s.messages.set call .done) +
      ((s.resolved ++ [(pend.sender, Resolution.response id)]).map Prod.snd).count _ ≤ _
    rw [map_append, count_append, map_cons, map_nil]
    dsimp only
    omega
  case calls =>
    intro found hfnd
    obtain ⟨place, hplc⟩ := getElem?_of_mem hfnd
    rcases getElem?_set_cases hplc with ⟨-, rfl⟩ | ⟨-, hplc⟩
    · exact trivial
    · exact h.calls found (mem_of_getElem? hplc)

/-- A callback takes the table entry of its answer. -/
theorem Answering.takeAnswer (hkept : Kept [] s) (honce : (answers.filterMap answerId).Nodup)
    (hcall : s.messages[call]? = some (.message 0 msg))
    (hans : msg.answer? = some (id, reply)) (hsent : id ∈ sentIds s.sent)
    (hleft : s.gaveUp id = false) : Answering answers arrived (s.takeAnswer call 0 id reply) := by
  have hid : answerId msg = some id := by
    rw [answerId, hans]
    rfl
  have hmem := (h.calls _ (mem_of_getElem? hcall)).2
  obtain ⟨pend, hget⟩ := h.entry_of_message hkept honce hcall hid hsent hleft
  rw [Client.takeAnswer, hget]
  have hput : Answering answers arrived (s.putMessage call (.answering id pend reply)) := by
    apply h.putMessage hcall
    · intro other
      rw [MessageCall.answersTo, MessageCall.answersTo, hid]
      by_cases heq : id = other
      · rw [if_pos heq, if_pos (congrArg some heq)]
      · rw [if_neg heq]
        exact Nat.zero_le _
    · exact ⟨h.table id pend hget, msg, hmem, hans⟩
  have herased : Answering answers arrived { s.putMessage call (.answering id pend reply) with
        pending := s.pending.erase id
        nextRequestId := s.nextRequestId } :=
    hput.setTable fun other found hfnd => h.erase id hfnd
  exact herased

/-- A callback goes on. -/
theorem Answering.handle (hkept : Kept [] s) (hanswered : Answered (sentIds s.sent) answers)
    (hleft : ∀ i message id reply, s.messages[call]? = some (.message i message) →
      message.answer? = some (id, reply) → s.gaveUp id = false)
    (hnext : s.handle call none = some s') : Answering answers arrived s' := by
  rw [Client.handle] at hnext
  cases hcall : s.messages[call]? with
  | none =>
    rw [hcall] at hnext
    cases hnext
  | some old =>
    rw [hcall] at hnext
    have hgen := h.calls old (mem_of_getElem? hcall)
    cases old with
    | done => cases hnext
    | handshake | failing => exact hgen.elim
    | message i message =>
      simp only at hnext
      obtain ⟨rfl, hmem⟩ := hgen
      cases hconnection : s.connections[0]? with
      | none =>
        rw [hconnection] at hnext
        cases hnext
      | some connection =>
        rw [hconnection] at hnext
        cases hnext
        obtain ⟨id, hid, cancelled, result, rfl⟩ := hanswered.genuine message hmem
        cases result with
        | ok result =>
          exact h.takeAnswer hkept hanswered.once hcall rfl hid (hleft 0 _ id _ hcall rfl)
        | error error =>
          have hcode : (if cancelled then ⟨"cancelled", "RPC request cancelled"⟩
              else toProtocolError error : ProtocolError).code ≠ "" := by
            split_ifs
            · decide
            · exact code_toProtocolError_ne_empty error
          rw [answerMessage, Client.onMessage, if_neg hcode]
          exact h.takeAnswer hkept hanswered.once hcall rfl hid (hleft 0 _ id _ hcall rfl)
    | answering id pend reply =>
      cases hnext
      obtain ⟨version, hhello⟩ := h.hello
      have hcur : s.targetIsCurrent pend.target = true := by
        rw [hgen.1, Client.targetIsCurrent, hhello, any_some]
        exact beq_self_eq_true _
      rw [if_pos hcur]
      obtain ⟨place, hfnd⟩ := hkept.custody.answering call id pend reply hcall
      obtain ⟨request, hreq, hent⟩ := bind_eq_some_iff.mp hfnd
      obtain rfl := (h.requests _ request hreq).place place id hent
      exact h.answer hcall hreq hent

/-! ## The link -/

/-- A frame of the server reaches the client. -/
theorem Answering.arrive (hmsg : answers[arrived]? = some msg) :
    Answering answers (arrived + 1) { s with messages := s.messages ++ [.message 0 msg] } := by
  refine { h with room := ?room, count := ?count, calls := ?calls }
  case room => exact (List.getElem?_eq_some_iff.mp hmsg).1
  case count =>
    intro id
    have hcnt := h.count id
    have hlast : (((answers.take (arrived + 1)).filterMap answerId)).count id =
        ((answers.take arrived).filterMap answerId).count id +
          (MessageCall.message 0 msg).answersTo id := by
      rw [take_add_one, hmsg, toList_some, filterMap_append, count_append, MessageCall.answersTo]
      congr 1
      cases hid : answerId msg with
      | none =>
        rw [filterMap_cons_none hid]
        rfl
      | some found =>
        rw [filterMap_cons_some hid, filterMap_nil]
        by_cases heq : found = id
        · rw [if_pos (congrArg some heq), heq, count_singleton_self]
        · rw [if_neg fun hsome => heq (some.inj hsome), List.count_eq_zero.mpr]
          intro hmem
          exact heq (List.mem_singleton.mp hmem).symm
    show weigh (MessageCall.answersTo id) (s.messages ++ [.message 0 msg]) +
      (s.resolved.map Prod.snd).count (.response id) ≤ _
    rw [hlast, weigh_append_singleton]
    omega
  case calls =>
    exact forall_mem_concat h.calls ⟨rfl, mem_of_getElem? hmsg⟩

/-- The server sends more. -/
theorem Answering.more (messages : List (ServerMessage R)) :
    Answering (answers ++ messages) arrived s := by
  refine { h with requests := ?requests, room := ?room, count := ?count, calls := ?calls }
  case requests => exact fun i req hreq => (h.requests i req hreq).more _
  case room =>
    rw [length_append]
    exact Nat.le_trans h.room (Nat.le_add_right _ _)
  case count =>
    rw [take_append_of_le_length h.room]
    exact h.count
  case calls =>
    intro found hfnd
    have hgen := h.calls found hfnd
    cases found with
    | done => trivial
    | handshake | failing => exact hgen
    | message => exact hgen.imp_right fun hmem => mem_append_left _ hmem
    | answering => exact hgen.imp_right fun hreply => hreply.more _

/-- A new request call. -/
theorem Answering.addRequest {payload : R} : Answering answers arrived { s with
      requests := s.requests ++ [{ target := .server s.serverId, call := payload }] } := by
  refine { h with requests := ?requests, frames := ?frames, ends := ?ends }
  case requests =>
    refine forall_concat h.requests ?_
    constructor
    case target => rfl
    case place => intro place id hent; cases hent
    case channel => intro reply hreply; cases hreply
    case cancelling => intro hcan; cases hcan
    case unsent => intro place id hent; cases hent
    case returned => intro place id reply hent; cases hent
  case frames =>
    intro frame hfrm
    obtain ⟨place, found, id, hfnd, hrest⟩ := h.frames frame hfrm
    exact ⟨place, found, id, getElem?_append_of_some hfnd, hrest⟩
  case ends =>
    intro place resol hmem
    have hends := h.ends place resol hmem
    cases resol with
    | response id =>
      obtain ⟨found, hfnd, hsome⟩ := hends
      exact ⟨found, getElem?_append_of_some hfnd, hsome⟩
    | cancelled =>
      obtain ⟨found, hfnd, hgave⟩ := hends
      exact ⟨found, getElem?_append_of_some hfnd, hgave⟩
    | unsent =>
      obtain ⟨found, hfnd, hrest⟩ := hends
      exact ⟨found, getElem?_append_of_some hfnd, hrest⟩
    | failed | disposed | dropped => exact hends

end

end Client

end PiOxidized.Remote
