/-
# What a client gets

The frames a client has sent name its requests, each once, and what its callbacks and its
requests have of answers came from the server.  The answers with one id that the callbacks have
and have used are at most the ones that arrived.
-/

import PiOxidized.Remote.Outlived
import PiOxidized.Remote.Serving

namespace PiOxidized.Remote

open List Math

variable {R : Type}

/-- Whether the server sent an answer. -/
def GenuineReply (answers : List (ServerMessage R)) (id : String) (reply : Reply R) : Prop :=
  ∃ message ∈ answers, message.answer? = some (id, reply)

/-- Whether a request is registered but was never handed to the writer. -/
def RequestPhase.isUnsent : RequestPhase R → Bool
  | registered => true
  | unsent _ => true
  | _ => false

/-- Whether a request may have been handed to the writer. -/
def RequestPhase.isSent : RequestPhase R → Bool
  | waiting => true
  | cancelling => true
  | outrun => true
  | returned _ => true
  | _ => false

/-- What holds of each request, given the ids that were sent and the answers of the server. -/
structure Request.Sound (serverId : String) (ids : List String)
    (answers : List (ServerMessage R)) (request : Request R) : Prop where
  target : request.target = .server serverId
  place : ∀ place id, request.entry = some (place, id) → place = 0
  channel : ∀ reply, request.channel = some reply →
    ∃ id, request.entry = some (0, id) ∧ GenuineReply answers id reply
  cancelling : request.phase = .cancelling → request.cancelled = true
  unsent : ∀ place id, request.entry = some (place, id) → request.phase.isUnsent = true → id ∉ ids
  returned : ∀ place id reply, request.entry = some (place, id) →
    request.phase = .returned reply → id ∈ ids →
      (reply = .error .cancelled ∧ request.cancelled = true) ∨ GenuineReply answers id reply

/-- Whether a frame is one a request sends. -/
def Request.Sends (request : Request R) (id : String) (frame : Nat × ClientMessage R) : Prop :=
  (frame = (0, .request id request.target request.call) ∧ request.phase.isSent = true) ∨
    (frame = (0, .cancel id request.target) ∧ request.phase = .returned (.error .cancelled))

/-- Whether a callback has an answer with an id. -/
def MessageCall.answersTo (id : String) : MessageCall R → Nat
  | message _ found => if answerId found = some id then 1 else 0
  | answering other _ _ => if other = id then 1 else 0
  | _ => 0

/-- Whether what a callback handles came from the server. -/
def MessageCall.Genuine (serverId : String) (answers : List (ServerMessage R)) :
    MessageCall R → Prop
  | message connection found => connection = 0 ∧ found ∈ answers
  | answering id pending reply =>
    pending.target = .server serverId ∧ GenuineReply answers id reply
  | done => True
  | _ => False

namespace Client

/-- What the end of a request says of it. -/
def Ends (s : Client R) (index : Nat) : Resolution → Prop
  | .response _ => ∃ request, s.requests[index]? = some request ∧ request.channel.isSome = true
  | .cancelled => ∃ request, s.requests[index]? = some request ∧ request.phase.gaveUp = true
  | .unsent => ∃ request, s.requests[index]? = some request ∧ request.phase.isOver = true ∧
      ∀ place id, request.entry = some (place, id) → id ∉ sentIds s.sent
  | _ => False

/-- What holds of a client that has taken some of the frames a server has sent. -/
structure Answering (answers : List (ServerMessage R)) (arrived : Nat) (s : Client R) : Prop where
  connections : s.connections = [{ id := wrappingSucc U64.zero, lifecycle := .connected }]
  registered : s.connection = some 0
  hello : ∃ version, s.hello = some (⟨version, s.serverId⟩, 0)
  disposal : s.disposal = none
  requests : ∀ (index : Nat) request, s.requests[index]? = some request →
    request.Sound s.serverId (sentIds s.sent) answers
  frames : ∀ frame ∈ s.sent, ∃ (index : Nat) (request : Request R) (id : String),
    s.requests[index]? = some request ∧ request.entry = some (0, id) ∧ request.Sends id frame
  once : (sentIds s.sent).Nodup
  ends : ∀ index resolution, (index, resolution) ∈ s.resolved → s.Ends index resolution
  room : arrived ≤ answers.length
  count : ∀ id, weigh (MessageCall.answersTo id) s.messages +
    (s.resolved.map Prod.snd).count (.response id) ≤
      ((answers.take arrived).filterMap answerId).count id
  calls : ∀ call ∈ s.messages, call.Genuine s.serverId answers
  table : ∀ id pending, s.pending.get? id = some pending → pending.target = .server s.serverId

end Client

/-! ## Requests -/

variable {serverId : String} {ids : List String} {answers : List (ServerMessage R)}
  {req req' : Request R}

theorem GenuineReply.more {id : String} {reply : Reply R} (h : GenuineReply answers id reply)
    (messages : List (ServerMessage R)) : GenuineReply (answers ++ messages) id reply := by
  obtain ⟨message, hmem, heq⟩ := h
  exact ⟨message, mem_append_left _ hmem, heq⟩

/-- A server never answers that the caller has cancelled. -/
theorem GenuineReply.ne_cancelled {id : String} {reply : Reply R}
    (h : GenuineReply answers id reply) : reply ≠ .error .cancelled := by
  obtain ⟨message, -, heq⟩ := h
  rintro rfl
  cases message with
  | hello | helloError | serviceUpdate | attachment => cases heq
  | response | responseError =>
    obtain ⟨-, hreply⟩ := Prod.mk.inj (Option.some.inj heq)
    cases hreply

namespace Request.Sound

theorem more (h : req.Sound serverId ids answers) (messages : List (ServerMessage R)) :
    req.Sound serverId ids (answers ++ messages) where
  __ := h
  channel := by
    intro reply hreply
    obtain ⟨id, hent, hgen⟩ := h.channel reply hreply
    exact ⟨id, hent, hgen.more messages⟩
  returned := by
    intro place id reply hent hph hid
    exact (h.returned place id reply hent hph hid).imp_right fun hgen =>
      hgen.more messages

/-- Another request is sent. -/
theorem sent {id : String} (h : req.Sound serverId ids answers)
    (hoth : ∀ place, req.entry ≠ some (place, id)) :
    req.Sound serverId (ids ++ [id]) answers where
  __ := h
  unsent := by
    intro place found hent hph hmem
    rcases mem_append.mp hmem with hmem | hmem
    · exact h.unsent place found hent hph hmem
    · rw [mem_singleton.mp hmem] at hent
      exact hoth place hent
  returned := by
    intro place found reply hent hph hmem
    rcases mem_append.mp hmem with hmem | hmem
    · exact h.returned place found reply hent hph hmem
    · rw [mem_singleton.mp hmem] at hent
      exact absurd hent (hoth place)

/-- A request call goes on without a result. -/
theorem setPhase {phase : RequestPhase R} (h : req.Sound serverId ids answers)
    (hcan : phase = .cancelling → req.cancelled = true)
    (huns : phase.isUnsent = true → req.phase.isUnsent = true)
    (hret : ∀ reply, phase = .returned reply → ∀ place id, req.entry = some (place, id) → id ∈ ids →
        (reply = .error .cancelled ∧ req.cancelled = true) ∨ GenuineReply answers id reply) :
    ({ req with phase := phase } : Request R).Sound serverId ids answers where
  __ := h
  cancelling := hcan
  unsent := fun place id hent hph => h.unsent place id hent (huns hph)
  returned := fun place id reply hent hph hid => hret reply hph place id hent hid

end Request.Sound

namespace Client

variable {s s' : Client R} {arrived i : Nat}

variable {resolution : Resolution}

/-- A request call goes on. -/
theorem Answering.putRequest (h : Answering answers arrived s) (hreq : s.requests[i]? = some req)
    (hsnd : req'.Sound s.serverId (sentIds s.sent) answers)
    (hent : req'.entry = req.entry) (hcall : req'.call = req.call)
    (hsent : req.phase.isSent = true → req'.phase.isSent = true)
    (hret : req.phase = .returned (.error .cancelled) → req'.phase = .returned (.error .cancelled))
    (hgaveUp : req.phase.gaveUp = true → req'.phase.gaveUp = true)
    (hover : req.phase.isOver = true → req'.phase.isOver = true)
    (hchan : req.channel.isSome = true → req'.channel.isSome = true) :
    Answering answers arrived (s.putRequest i req') := by
  have htgt : req'.target = req.target := hsnd.target.trans (h.requests i req hreq).target.symm
  have hput : (s.putRequest i req').requests[i]? = some req' := getElem?_set_of_some hreq
  have hoth (place : Nat) (hne : place ≠ i) :
      (s.putRequest i req').requests[place]? = s.requests[place]? :=
    getElem?_set_ne (Ne.symm hne)
  refine { h with requests := ?requests, frames := ?frames, ends := ?ends }
  case requests =>
    exact forall_set h.requests hsnd
  case frames =>
    intro frame hfrm
    obtain ⟨place, found, id, hfnd, hid, hsends⟩ := h.frames frame hfrm
    by_cases heq : place = i
    · rw [heq, hreq] at hfnd
      cases hfnd
      refine ⟨i, req', id, hput, hent.trans hid, ?_⟩
      rw [Request.Sends, hcall, htgt]
      exact hsends.imp (And.imp_right hsent) (And.imp_right hret)
    · exact ⟨place, found, id, (hoth place heq).trans hfnd, hid, hsends⟩
  case ends =>
    intro place resolution hmem
    have hends := h.ends place resolution hmem
    cases resolution with
    | response id =>
      obtain ⟨found, hfnd, hsome⟩ := hends
      by_cases heq : place = i
      · rw [heq, hreq] at hfnd
        cases hfnd
        rw [heq]
        exact ⟨req', hput, hchan hsome⟩
      · exact ⟨found, (hoth place heq).trans hfnd, hsome⟩
    | cancelled =>
      obtain ⟨found, hfnd, hgave⟩ := hends
      by_cases heq : place = i
      · rw [heq, hreq] at hfnd
        cases hfnd
        rw [heq]
        exact ⟨req', hput, hgaveUp hgave⟩
      · exact ⟨found, (hoth place heq).trans hfnd, hgave⟩
    | unsent =>
      obtain ⟨found, hfnd, hfoundOver, hids⟩ := hends
      by_cases heq : place = i
      · rw [heq, hreq] at hfnd
        cases hfnd
        rw [heq]
        refine ⟨req', hput, hover hfoundOver, ?_⟩
        rw [hent]
        exact hids
      · exact ⟨found, (hoth place heq).trans hfnd, hfoundOver, hids⟩
    | failed | disposed | dropped => exact hends

/-- A request ends without an answer. -/
theorem Answering.resolve (h : Answering answers arrived s) (hends : s.Ends i resolution)
    (hresponse : ∀ id, resolution ≠ .response id) :
    Answering answers arrived { s with resolved := s.resolved ++ [(i, resolution)] } := by
  refine { h with ends := ?ends, count := ?count }
  case ends =>
    intro place found hmem
    rcases mem_append.mp hmem with hmem | hmem
    · exact h.ends place found hmem
    · obtain ⟨rfl, rfl⟩ := Prod.mk.inj (mem_singleton.mp hmem)
      exact hends
  case count =>
    intro id
    have hzero : [resolution].count (.response id) = 0 :=
      count_eq_zero.mpr fun hmem => hresponse id (mem_singleton.mp hmem).symm
    rw [map_append, count_append, map_cons, map_nil, hzero]
    exact h.count id

/-- Of the table only the routes matter, and the counter of request ids does not. -/
theorem Answering.setTable {pend : OrderedMap String PendingRequest} {nextRequestId : U64}
    (h : Answering answers arrived s)
    (htable : ∀ id found, pend.get? id = some found → found.target = .server s.serverId) :
    Answering answers arrived { s with pending := pend, nextRequestId := nextRequestId } where
  __ := h
  table := htable

/-! ## Request calls -/

variable {id : String}

section

variable (h : Answering answers arrived s) (hreq : s.requests[i]? = some req)

include h hreq

/-- A request call that is not over goes on. -/
theorem Answering.setPhase {phase : RequestPhase R} (hover : req.phase.isOver = false)
    (hsent : req.phase.isSent = true → phase.isSent = true)
    (hcan : phase = .cancelling → req.cancelled = true)
    (huns : phase.isUnsent = true → req.phase.isUnsent = true)
    (hret : ∀ reply, phase = .returned reply →
      ∀ place id, req.entry = some (place, id) → id ∈ sentIds s.sent →
        (reply = .error .cancelled ∧ req.cancelled = true) ∨ GenuineReply answers id reply) :
    Answering answers arrived (s.putRequest i { req with phase := phase }) := by
  apply h.putRequest hreq ((h.requests i req hreq).setPhase hcan huns hret)
  case hent => rfl
  case hcall => rfl
  case hsent => exact hsent
  case hret =>
    intro hph
    rw [hph] at hover
    cases hover
  case hgaveUp =>
    intro hgaveUp
    cases hph : req.phase with
    | cancelling | returned =>
      rw [hph] at hover
      cases hover
    | admitted | validated | registered | unsent | waiting | outrun =>
      rw [hph] at hgaveUp
      cases hgaveUp
  case hover =>
    intro hpre
    rw [hover] at hpre
    cases hpre
  case hchan => exact fun hsome => hsome

theorem Answering.cancelToken :
    Answering answers arrived (s.putRequest i { req with cancelled := true }) := by
  have hsnd := h.requests i req hreq
  apply h.putRequest hreq
  case hsnd =>
    refine { hsnd with cancelling := ?cancelling, returned := ?returned }
    case cancelling => exact fun _ => rfl
    case returned =>
      intro place id reply hent hph hid
      exact (hsnd.returned place id reply hent hph hid).imp_left fun hleft => ⟨hleft.1, rfl⟩
  case hent => rfl
  case hcall => rfl
  case hsent => exact fun hsent => hsent
  case hret => exact fun hph => hph
  case hgaveUp => exact fun hgave => hgave
  case hover => exact fun hover => hover
  case hchan => exact fun hsome => hsome

theorem Answering.validate (hph : req.phase = .admitted) (hent : req.entry = none)
    (parsed : Except ClientError Unit) :
    Answering answers arrived
      (s.putRequest i { req with phase := validateRequest req parsed }) := by
  have hchecked : (∃ reply, validateRequest req parsed = .returned reply) ∨
      validateRequest req parsed = .validated := by
    rw [validateRequest.eq_def]
    split_ifs
    · exact .inl ⟨_, rfl⟩
    · cases validateTarget req.target with
      | error error => exact .inl ⟨_, rfl⟩
      | ok _ =>
        cases parsed with
        | error error => exact .inl ⟨_, rfl⟩
        | ok _ => exact .inr rfl
  apply h.setPhase hreq
  case hover =>
    rw [hph]
    rfl
  case hsent =>
    rw [hph]
    intro hsent
    cases hsent
  case hcan =>
    intro hcan
    rw [hcan] at hchecked
    rcases hchecked with ⟨reply, hreply⟩ | hvalidated
    · cases hreply
    · cases hvalidated
  case huns =>
    rcases hchecked with ⟨reply, hreply⟩ | hvalidated
    · rw [hreply]
      intro huns
      cases huns
    · rw [hvalidated]
      intro huns
      cases huns
  case hret =>
    intro reply _ place id hsome
    rw [hent] at hsome
    cases hsome

/-- A request gets its entry, with an id no frame has. -/
theorem Answering.enter (hph : req.phase = .validated) (hent : req.entry = none)
    (hid : ∀ other entry, s.entryOf other = some entry → entry.2 ≠ id) :
    Answering answers arrived (s.putRequest i
      { req with phase := .registered, entry := some (0, id) }) := by
  have hsnd := h.requests i req hreq
  have hput : (s.putRequest i
      { req with phase := .registered, entry := some (0, id) }).requests[i]? =
        some { req with phase := .registered, entry := some (0, id) } :=
    getElem?_set_of_some hreq
  have hoth (place : Nat) (hne : place ≠ i) : (s.putRequest i
        { req with phase := .registered, entry := some (0, id) }).requests[place]? =
          s.requests[place]? := getElem?_set_ne (Ne.symm hne)
  have hne (place : Nat) (found : Request R) (hfnd : s.requests[place]? = some found)
      (hsome : found.entry.isSome = true) : place ≠ i := by
    rintro rfl
    rw [hreq] at hfnd
    cases hfnd
    rw [hent] at hsome
    cases hsome
  -- Every id in a frame is the one of an entry.
  have hfrs : id ∉ sentIds s.sent := by
    intro hmem
    obtain ⟨found, hfnd, rfl⟩ := mem_map.mp hmem
    obtain ⟨frame, hfrm, hreqFrame⟩ := mem_filterMap.mp hfnd
    obtain ⟨place, owner, ownId, hown, hownEntry, hsends⟩ := h.frames frame hfrm
    have hlook : s.entryOf place = some (0, ownId) := by
      rw [entryOf, hown]
      exact hownEntry
    apply hid place (0, ownId) hlook
    rcases hsends with ⟨rfl, -⟩ | ⟨rfl, -⟩
    · cases hreqFrame
      rfl
    · cases hreqFrame
  refine { h with requests := ?requests, frames := ?frames, ends := ?ends }
  case requests =>
    refine forall_set h.requests ?_
    constructor
    case target => exact hsnd.target
    case place =>
      intro place found heq
      exact (Prod.mk.inj (Option.some.inj heq)).1.symm
    case channel =>
      intro reply hreply
      obtain ⟨other, hsome, -⟩ := hsnd.channel reply hreply
      rw [hent] at hsome
      cases hsome
    case cancelling =>
      intro hcan
      cases hcan
    case unsent =>
      intro place found heq _
      rw [← (Prod.mk.inj (Option.some.inj heq)).2]
      exact hfrs
    case returned =>
      intro place found reply _ hret
      cases hret
  case frames =>
    intro frame hfrm
    obtain ⟨place, found, other, hfnd, hsome, hsends⟩ := h.frames frame hfrm
    have hplc := hne place found hfnd (by rw [hsome]; rfl)
    exact ⟨place, found, other, (hoth place hplc).trans hfnd, hsome, hsends⟩
  case ends =>
    intro place resolution hmem
    have hends := h.ends place resolution hmem
    cases resolution with
    | response _ =>
      obtain ⟨found, hfnd, hsome⟩ := hends
      by_cases heq : place = i
      · rw [heq, hreq] at hfnd
        cases hfnd
        rw [heq]
        exact ⟨_, hput, hsome⟩
      · exact ⟨found, (hoth place heq).trans hfnd, hsome⟩
    | cancelled =>
      obtain ⟨found, hfnd, hgave⟩ := hends
      have hplc : place ≠ i := by
        rintro rfl
        rw [hreq] at hfnd
        cases hfnd
        rw [hph] at hgave
        cases hgave
      exact ⟨found, (hoth place hplc).trans hfnd, hgave⟩
    | unsent =>
      obtain ⟨found, hfnd, hover, hids⟩ := hends
      have hplc : place ≠ i := by
        rintro rfl
        rw [hreq] at hfnd
        cases hfnd
        rw [hph] at hover
        cases hover
      exact ⟨found, (hoth place hplc).trans hfnd, hover, hids⟩
    | failed | disposed | dropped => exact hends

end

/-! ## Frames -/

theorem sentIds_append (sent : List (Nat × ClientMessage R)) (frame : Nat × ClientMessage R) :
    sentIds (sent ++ [frame]) = sentIds sent ++ ((requestFrame frame).map Prod.fst).toList := by
  rw [sentIds, filterMap_append, map_append]
  cases hfrm : requestFrame frame with
  | none => rw [filterMap_cons_none hfrm]; rfl
  | some req => rw [filterMap_cons_some hfrm]; rfl

/-- A registered request is handed to the writer. -/
theorem Answering.sendRequest (h : Answering answers arrived s) (hnum : Numbered s)
    (hreq : s.requests[i]? = some req) (hph : req.phase = .registered)
    (hent : req.entry = some (0, id)) :
    Answering answers arrived { s.putRequest i { req with phase := .waiting } with
      sent := s.sent ++ [(0, .request id req.target req.call)] } := by
  have hsnd := h.requests i req hreq
  have hfrs : id ∉ sentIds s.sent := hsnd.unsent 0 id hent (by rw [hph]; rfl)
  have hids : sentIds (s.sent ++ [(0, .request id req.target req.call)]) =
      sentIds s.sent ++ [id] := sentIds_append _ _
  have hput : Answering answers arrived (s.putRequest i { req with phase := .waiting }) := by
    apply h.setPhase hreq
    case hover =>
      rw [hph]
      rfl
    case hsent => exact fun _ => rfl
    case hcan =>
      intro hcan
      cases hcan
    case huns =>
      intro huns
      cases huns
    case hret =>
      intro reply hret
      cases hret
  have hself : (s.putRequest i { req with phase := .waiting }).requests[i]? =
      some { req with phase := .waiting } := getElem?_set_of_some hreq
  have hlook : s.entryOf i = some (0, id) := by
    rw [entryOf, hreq]
    exact hent
  refine { hput with requests := ?requests, frames := ?frames, once := ?once, ends := ?ends }
  case requests =>
    show ∀ (place : Nat) (found : Request R), _ → found.Sound s.serverId (sentIds (_ ++ [_])) _
    rw [hids]
    intro place found hfnd
    rcases getElem?_set_cases hfnd with ⟨rfl, rfl⟩ | ⟨hne, hfnd⟩
    · have hwait := hput.requests place _ hself
      constructor
      case target => exact hwait.target
      case place => exact hwait.place
      case channel => exact hwait.channel
      case cancelling => exact hwait.cancelling
      case unsent =>
        intro other found _ huns
        cases huns
      case returned =>
        intro other found reply _ hret
        cases hret
    · apply (h.requests place found hfnd).sent
      intro other hoth
      apply hne
      apply hnum.unique place i other 0 id _ hlook
      rw [entryOf, hfnd]
      exact hoth
  case frames =>
    intro frame hfrm
    rcases mem_append.mp hfrm with hfrm | hfrm
    · exact hput.frames frame hfrm
    · exact ⟨i, _, id, hself, hent, .inl ⟨mem_singleton.mp hfrm, rfl⟩⟩
  case once =>
    show (sentIds (_ ++ [_])).Nodup
    rw [hids]
    apply nodup_append.mpr
    refine ⟨h.once, pairwise_singleton _ _, ?_⟩
    intro found hfnd other hoth heq
    rw [mem_singleton.mp hoth] at heq
    exact hfrs (heq ▸ hfnd)
  case ends =>
    intro place resolution hmem
    have hends := hput.ends place resolution hmem
    cases resolution with
    | unsent =>
      obtain ⟨found, hfnd, hover, huns⟩ := hends
      refine ⟨found, hfnd, hover, ?_⟩
      show ∀ other own, _ → own ∉ sentIds (_ ++ [_])
      rw [hids]
      intro other own hown hin
      rcases mem_append.mp hin with hin | hin
      · exact huns other own hown hin
      · -- The request that is sent now was not over.
        rw [mem_singleton.mp hin] at hown
        rcases getElem?_set_cases hfnd with ⟨-, rfl⟩ | ⟨hne, hfnd⟩
        · cases hover
        · apply hne
          apply hnum.unique place i other 0 id _ hlook
          rw [entryOf, hfnd]
          exact hown
    | response | cancelled | failed | disposed | dropped => exact hends

/-- The cancellation of a request is handed to the writer. -/
theorem Answering.sendCancel {target : RpcTarget} (h : Answering answers arrived s)
    (hreq : s.requests[i]? = some req) (hent : req.entry = some (0, id))
    (htgt : req.target = target) (hph : req.phase = .returned (.error .cancelled)) :
    Answering answers arrived { s with sent := s.sent ++ [(0, .cancel id target)] } := by
  have hids : sentIds (s.sent ++ [(0, .cancel id target)]) = sentIds s.sent :=
    (sentIds_append _ _).trans (append_nil _)
  refine { h with requests := ?requests, frames := ?frames, once := ?once, ends := ?ends }
  case requests =>
    show ∀ (place : Nat) (found : Request R), _ → found.Sound s.serverId (sentIds (_ ++ [_])) _
    rw [hids]
    exact h.requests
  case frames =>
    intro frame hfrm
    rcases mem_append.mp hfrm with hfrm | hfrm
    · exact h.frames frame hfrm
    · refine ⟨i, req, id, hreq, hent, .inr ⟨?_, hph⟩⟩
      rw [htgt]
      exact mem_singleton.mp hfrm
  case once =>
    show (sentIds (_ ++ [_])).Nodup
    rw [hids]
    exact h.once
  case ends =>
    intro place resolution hmem
    have hends := h.ends place resolution hmem
    cases resolution with
    | unsent =>
      show ∃ found, _ ∧ _ ∧ ∀ other own, _ → own ∉ sentIds (_ ++ [_])
      rw [hids]
      exact hends
    | response | cancelled | failed | disposed | dropped => exact hends

/-! ## Steps of a request call -/

theorem Answering.erase (h : Answering answers arrived s) (other : String)
    {pend : PendingRequest} (hget : (s.pending.erase other).get? id = some pend) :
    pend.target = .server s.serverId := by
  rw [OrderedMap.get?_erase] at hget
  split_ifs at hget
  exact h.table id pend hget

/-- A request that ends without an answer takes its table entry. -/
theorem Answering.takePending (h : Answering answers arrived (s.putRequest i req'))
    (hsend : ∀ pend, s.pending.get? id = some pend → pend.sender = i)
    (hends : (s.pending.get? id).isSome = true → (s.putRequest i req').Ends i resolution)
    (hresponse : ∀ id, resolution ≠ .response id) :
    Answering answers arrived ((s.takePending id resolution).putRequest i req') := by
  rw [Client.takePending]
  cases hget : s.pending.get? id with
  | none => exact h
  | some pend =>
    simp only [hsend pend hget]
    have hsolved := h.resolve (hends (by rw [hget]; rfl)) hresponse
    have herased : Answering answers arrived { ({ s.putRequest i req' with
            resolved := s.resolved ++ [(i, resolution)] } : Client R) with
          pending := s.pending.erase id
          nextRequestId := s.nextRequestId } :=
      hsolved.setTable fun other found hfnd => h.erase id hfnd
    exact herased

section

variable (h : Answering answers arrived s)

include h

/-- The connection of the client is up. -/
theorem Answering.connected : s.connected = true := by
  rw [Client.connected, Client.registered, h.registered, h.connections]
  rfl

theorem Answering.register (hkept : Kept [] s) (hreq : s.requests[i]? = some req)
    (hph : req.phase = .validated) (hroom : s.nextRequestId ≠ U64.max) :
    Answering answers arrived (s.register i req) := by
  have hdisp : ¬ s.disposed = true := by
    rw [Client.disposed, h.disposal]
    exact Bool.false_ne_true
  have hnone := hkept.custody.fresh i req hreq (by rw [Request.isNew, hph]; rfl)
  rw [Client.register, if_neg hdisp, h.registered]
  simp only
  rw [if_pos h.connected, hkept.get?_next hroom]
  have hfrs : ∀ other entry, s.entryOf other = some entry →
      entry.2 ≠ requestId (wrappingSucc s.nextRequestId) := by
    intro other entry hfnd heq
    obtain ⟨number, hid, hle⟩ := hkept.numbered.below other entry.1 entry.2 hfnd
    rw [heq] at hid
    have hsucc := val_wrappingSucc hroom
    rw [requestId_injective hid] at hsucc
    omega
  have hentered := h.enter hreq hph hnone hfrs
  apply hentered.setTable
  intro id found hfnd
  rw [OrderedMap.get?_insert] at hfnd
  split_ifs at hfnd
  · cases hfnd
    exact (h.requests i req hreq).target
  · exact h.table id found hfnd

/-- A request that could not be sent gives its entry up. -/
theorem Answering.giveUp {place : Nat} {error : ClientError} (hkept : Kept [] s)
    (hreq : s.requests[i]? = some req) (hph : req.phase = .unsent error)
    (hent : req.entry = some (place, id)) :
    Answering answers arrived ((s.takePending id .unsent).putRequest i
      { req with phase := .returned (.error error) }) := by
  have hsnd := h.requests i req hreq
  have huns (other : Nat) (own : String) (hown : req.entry = some (other, own)) :
      own ∉ sentIds s.sent := hsnd.unsent other own hown (by rw [hph]; rfl)
  apply Answering.takePending
  case h =>
    apply h.setPhase hreq
    case hover =>
      rw [hph]
      rfl
    case hsent => exact fun _ => rfl
    case hcan =>
      intro hcan
      cases hcan
    case huns =>
      intro huns
      cases huns
    case hret =>
      intro reply _ other own hown hin
      exact absurd hin (huns other own hown)
  case hsend => exact fun pend hget => hkept.sender_eq hreq hent hget
  case hends => exact fun _ => ⟨_, getElem?_set_of_some hreq, rfl, huns⟩
  case hresponse => exact fun _ heq => by cases heq

/-- A waiting request returns what came over its channel. -/
theorem Answering.reply {reply : Reply R} (hreq : s.requests[i]? = some req)
    (hph : req.phase = .waiting ∨ req.phase = .outrun)
    (hchan : req.channel = some reply) :
    Answering answers arrived (s.putRequest i { req with phase := .returned reply }) := by
  have hsnd := h.requests i req hreq
  apply h.setPhase hreq
  case hover =>
    rcases hph with hph | hph <;> rw [hph] <;> rfl
  case hsent => exact fun _ => rfl
  case hcan =>
    intro hcan
    cases hcan
  case huns =>
    intro huns
    cases huns
  case hret =>
    intro found hfnd place id hent _
    obtain rfl := RequestPhase.returned.inj hfnd
    obtain ⟨own, hown, hgen⟩ := hsnd.channel reply hchan
    rw [hent] at hown
    obtain ⟨-, rfl⟩ := Prod.mk.inj (Option.some.inj hown)
    exact .inr hgen

/-- A cancelled request takes its table entry, or waits for the answer that took it. -/
theorem Answering.cancel {place : Nat} (hkept : Kept [] s)
    (hreq : s.requests[i]? = some req) (hph : req.phase = .waiting)
    (hent : req.entry = some (place, id)) (hcancelled : req.cancelled = true) :
    Answering answers arrived (s.cancel i req id) := by
  rw [Client.cancel]
  apply Answering.takePending
  case h =>
    apply h.setPhase hreq
    case hover =>
      rw [hph]
      rfl
    case hsent =>
      intro _
      split_ifs
      · rfl
      · rfl
    case hcan => exact fun _ => hcancelled
    case huns =>
      intro huns
      split_ifs at huns
      · cases huns
      · cases huns
    case hret =>
      intro reply hret
      split_ifs at hret
  case hsend => exact fun pend hget => hkept.sender_eq hreq hent hget
  case hends =>
    intro hsome
    rw [if_pos hsome]
    exact ⟨_, getElem?_set_of_some hreq, rfl⟩
  case hresponse => exact fun _ heq => by cases heq

/-- A request whose entry was taken returns cancelled. -/
theorem Answering.returnCancelled (hreq : s.requests[i]? = some req)
    (hph : req.phase = .cancelling) :
    Answering answers arrived
      (s.putRequest i { req with phase := .returned (.error .cancelled) }) := by
  have hsnd := h.requests i req hreq
  apply h.putRequest hreq
  case hsnd =>
    apply hsnd.setPhase
    case hcan =>
      intro hcan
      cases hcan
    case huns =>
      intro huns
      cases huns
    case hret =>
      intro reply hreply place id _ _
      obtain rfl := RequestPhase.returned.inj hreply
      exact .inl ⟨rfl, hsnd.cancelling hph⟩
  case hent => rfl
  case hcall => rfl
  case hsent => exact fun _ => rfl
  case hret => exact fun _ => rfl
  case hgaveUp => exact fun _ => rfl
  case hover => exact fun _ => rfl
  case hchan => exact fun hsome => hsome

end

end Client

end PiOxidized.Remote
