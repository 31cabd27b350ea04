/-
# A cancelled request does not break the connection

As long as no answer meets a request whose caller has cancelled it and left, neither side fails
the connection and every request returns its own result.
-/

import PiOxidized.Remote.Crossing

namespace PiOxidized.Remote

open List Math Option

variable {R : Type}

namespace Client

variable {s s' : Client R} {i call : Nat} {req : Request R}

/-! ## Frames -/

theorem sent_answer (s : Client R) (i : Nat) (reply : Reply R) (resol : Resolution) :
    (s.answer i reply resol).sent = s.sent := by
  rw [answer]
  cases s.requests[i]? with
  | none => rfl
  | some req => rfl

theorem sent_fail (s : Client R) (i : Nat) (error : ClientError) :
    (s.fail i error).sent = s.sent := by
  rw [fail]
  cases s.connections[i]? with
  | none => rfl
  | some conn =>
    simp only
    split_ifs
    · rfl
    · rfl

theorem sent_takePending (s : Client R) (id : String) (resol : Resolution) :
    (s.takePending id resol).sent = s.sent := by
  rw [takePending]
  cases s.pending.get? id with
  | none => rfl
  | some pending => rfl

theorem sent_register (s : Client R) (i : Nat) (req : Request R) :
    (s.register i req).sent = s.sent := by
  rw [register]
  split
  · rfl
  · split
    · split
      · dsimp only
        split
        · exact sent_answer s _ _ _
        · rfl
      · rfl
    · rfl

theorem sent_onMessage (s : Client R) (call i : Nat) (connectionId : U64) (msg : ServerMessage R) :
    (s.onMessage call i connectionId none msg).sent = s.sent := by
  have htake (id : String) (reply : Reply R) : (s.takeAnswer call i id reply).sent = s.sent := by
    rw [takeAnswer]
    cases s.pending.get? id with
    | none => rfl
    | some pending => rfl
  cases msg with
  | response id res => exact htake id _
  | responseError id error =>
    rw [onMessage]
    split_ifs
    · rfl
    · exact htake id _
  | serviceUpdate id update =>
    rw [onMessage.eq_def]
    simp only
    split_ifs
    · rfl
    · rfl
  | attachment attachment =>
    rw [onMessage]
    cases s.checkAttachment attachment with
    | error error => rfl
    | ok _ =>
      simp only
      rw [setAttachment]
      split_ifs
      · rfl
      · rfl
  | hello | helloError => rfl

/-- A callback sends nothing. -/
theorem sent_handle (hnext : s.handle call none = some s') : s'.sent = s.sent := by
  rw [handle] at hnext
  split at hnext
  · split at hnext
    · cases hnext
    · split_ifs at hnext
      · cases hnext
        rfl
      · cases hnext
        rfl
  · split at hnext
    · cases hnext
    · cases hnext
      exact sent_onMessage _ _ _ _ _
  · cases hnext
    exact sent_answer _ _ _ _
  · split at hnext
    · cases hnext
    · split_ifs at hnext
      · cases hnext
        exact sent_fail _ _ _
      · cases hnext
        rfl
  · cases hnext

theorem sent_send (s : Client R) (i : Nat) (req : Request R) (place : Nat) (id : String)
    (admission : Admission) :
    ∃ frames, (s.send i req place id admission).sent = s.sent ++ frames := by
  rw [send.eq_def]
  split_ifs
  · cases admission with
    | admitted => exact ⟨[_], rfl⟩
    | refused error => exact ⟨[], (append_nil _).symm⟩
    | closed error => exact ⟨[], (sent_fail _ _ _).trans (append_nil _).symm⟩
  · exact ⟨[], (append_nil _).symm⟩

/-- A request call sends at most more frames. -/
theorem sent_requestStep {event : RequestEvent} (hnext : s.requestStep i req event = some s') :
    ∃ frames, s'.sent = s.sent ++ frames := by
  have hsame (c : Client R) (hc : c.sent = s.sent) : ∃ frames, c.sent = s.sent ++ frames :=
    ⟨[], hc.trans (append_nil _).symm⟩
  cases event with
  | cancelToken =>
    cases hnext
    exact hsame _ rfl
  | validate parsed =>
    rw [requestStep] at hnext
    split_ifs at hnext
    cases hnext
    exact hsame _ rfl
  | register =>
    rw [requestStep] at hnext
    split_ifs at hnext
    cases hnext
    exact hsame _ (sent_register s i req)
  | send admission =>
    rw [requestStep] at hnext
    split at hnext
    · cases hnext
      exact sent_send s i req _ _ admission
    · cases hnext
  | giveUp =>
    rw [requestStep] at hnext
    split at hnext
    · cases hnext
      exact hsame _ (sent_takePending s _ _)
    · cases hnext
  | reply =>
    rw [requestStep] at hnext
    split at hnext
    · cases hnext
      exact hsame _ rfl
    · cases hnext
      exact hsame _ rfl
    · cases hnext
  | cancel =>
    rw [requestStep] at hnext
    split at hnext
    · split_ifs at hnext
      cases hnext
      exact hsame _ (sent_takePending s _ _)
    · cases hnext
  | sendCancel admitted =>
    rw [requestStep] at hnext
    split at hnext
    · simp only at hnext
      split_ifs at hnext
      · cases hnext
        exact ⟨[_], rfl⟩
      · cases hnext
        exact hsame _ rfl
    · cases hnext

end Client

/-! ## The server -/

/-- A task sends at most one more answer. -/
theorem sent_handlerStep {s s' : Server R} {i : Nat} {handler : Handler R}
    {event : HandlerEvent R} (hnext : s.handlerStep i handler event = some s') :
    ∃ messages, s'.sent = s.sent ++ messages := by
  have hsend (c : Server R) (hc : c.sent = s.sent) (msg : ServerMessage R) :
      ∃ messages, (c.sendMessage msg).sent = s.sent ++ messages := by
    rw [Server.sendMessage]
    split_ifs
    · exact ⟨[], hc.trans (append_nil _).symm⟩
    · exact ⟨[msg], congrArg (· ++ [msg]) hc⟩
  cases event with
  | check | insert | complete =>
    rw [Server.handlerStep] at hnext
    split at hnext
    · cases hnext
      exact ⟨[], (append_nil _).symm⟩
    · cases hnext
  | refuse =>
    rw [Server.handlerStep] at hnext
    split_ifs at hnext
    cases hnext
    exact hsend (s.putHandler i _) rfl _
  | finish =>
    rw [Server.handlerStep.eq_def] at hnext
    simp only at hnext
    split at hnext
    · cases hnext
      exact hsend (s.putHandler i _) rfl _
    · cases hnext
  | remove =>
    rw [Server.handlerStep.eq_def] at hnext
    simp only at hnext
    split at hnext
    · cases hnext
      exact ⟨[], (append_nil _).symm⟩
    · cases hnext

/-- A cancellation or a request is not answered at once. -/
theorem sent_dispatchMessage (s : Server R) {msg : ClientMessage R}
    (hhello : ∀ version, msg ≠ .hello version) :
    (s.dispatchMessage msg).sent = s.sent := by
  cases msg with
  | hello version => exact absurd rfl (hhello version)
  | request id target call =>
    rw [Server.dispatchMessage]
    split_ifs
    · rfl
    · rfl
  | cancel id target =>
    rw [Server.dispatchMessage]
    split_ifs
    · rfl
    · rw [Server.handleCancel]
      split_ifs
      · rfl
      · cases s.activeRequests.get? id with
        | none => rfl
        | some active =>
          simp only
          split_ifs
          · cases s.handlers[active.handler]? with
            | none | some => rfl
          · rfl

/-! ## Both sides -/

namespace Exchange

/-- The invariant of a client and a server. -/
structure Kept (x : Exchange R) : Prop where
  client : Client.Kept [] x.client
  answering : x.client.Answering x.server.sent x.arrived
  serving : Serving x.client.sent x.received x.server

variable {x x' : Exchange R}

variable {reply : Reply R}

variable {req : Request R} {id : String}

/-- What a server has sent answers what it has taken. -/
theorem Kept.answered (h : x.Kept) : Client.Answered (sentIds x.client.sent) x.server.sent where
  genuine := by
    intro msg hmsg
    obtain ⟨handler, hhand, res, cancelled, -, -, rfl⟩ := h.serving.answers msg hmsg
    have hfrm : handler.frame ∈ (x.client.sent.take x.received).filterMap requestFrame := by
      rw [← h.serving.handlers]
      exact mem_map_of_mem hhand
    have hsub := (take_sublist x.received x.client.sent).filterMap requestFrame
    exact ⟨handler.id, mem_map.mpr ⟨handler.frame, hsub.mem hfrm, rfl⟩, cancelled, res, rfl⟩
  once := h.serving.once

/-- Every answer is one to a request the client has sent. -/
theorem Kept.mem_sentIds (h : x.Kept) (hgen : GenuineReply x.server.sent id reply) :
    id ∈ sentIds x.client.sent := by
  obtain ⟨msg, hmsg, hans⟩ := hgen
  obtain ⟨own, hown, cancelled, res, rfl⟩ := h.answered.genuine msg hmsg
  have heq := congrArg (Option.map Prod.fst) hans
  rw [show (answerMessage own cancelled res).answer?.map Prod.fst = some own from
    answerId_answerMessage _ _ _] at heq
  obtain rfl : own = id := some.inj heq
  exact hown

theorem clientKept_opened (serverId : String) (version : U64) :
    Client.Kept [] (opened serverId version : Exchange R).client := by
  have hup : Client.Up (opened serverId version : Exchange R).client 0 := ⟨rfl, _, rfl, rfl⟩
  constructor
  case registry =>
    constructor
    case ids =>
      intro i conn hfnd
      obtain ⟨hlt, rfl⟩ := List.getElem?_eq_some_iff.mp hfnd
      obtain rfl : i = 0 := Nat.lt_one_iff.mp hlt
      rfl
    case counter => rfl
    case last =>
      intro i hidx
      cases hidx
      rfl
    case lifecycle =>
      intro i conn hfnd
      obtain ⟨hlt, rfl⟩ := List.getElem?_eq_some_iff.mp hfnd
      obtain rfl : i = 0 := Nat.lt_one_iff.mp hlt
      simp [opened]
  case tables =>
    constructor
    case pending => intro id pending hget; cases hget
    case listeners => intro id listener i hget; cases hget
    case hello =>
      intro hello i hsome
      obtain ⟨-, rfl⟩ := Prod.mk.inj (some.inj hsome)
      exact hup
    case attachment => intro target i hsome; cases hsome
  case numbered =>
    constructor
    case below => intro req i id hent; cases hent
    case unique => intro req req' i i' id hent; cases hent
  case custody =>
    constructor
    case tally => intro req; rfl
    case told =>
      intro i conn req hfnd hmem
      obtain ⟨hlt, rfl⟩ := List.getElem?_eq_some_iff.mp hfnd
      obtain rfl : i = 0 := Nat.lt_one_iff.mp hlt
      cases hmem
    case answering =>
      intro call id pending reply hfnd
      obtain ⟨hlt, heq⟩ := List.getElem?_eq_some_iff.mp hfnd
      obtain rfl : call = 0 := Nat.lt_one_iff.mp hlt
      cases heq
    case suits => intro req resol hmem; cases hmem
    case channel => intro i req hfnd; cases hfnd
    case fresh => intro i req hfnd; cases hfnd

theorem kept_opened (serverId : String) (version : U64) :
    (opened serverId version : Exchange R).Kept where
  client := clientKept_opened serverId version
  answering := by
    constructor
    case connections => rfl
    case registered => rfl
    case hello => exact ⟨version, rfl⟩
    case disposal => rfl
    case requests => intro i req hfnd; cases hfnd
    case frames => intro frame hfrm; cases hfrm
    case once => exact nodup_nil
    case ends => intro i resol hmem; cases hmem
    case room => exact Nat.le_refl 0
    case count => intro id; exact Nat.le_refl 0
    case calls =>
      intro call hcall
      rw [mem_singleton.mp hcall]
      trivial
    case table => intro id pending hget; cases hget
  serving := by
    constructor
    case failed => rfl
    case room => exact Nat.le_refl 0
    case handlers => rfl
    case cancelled => intro handler hmem; cases hmem
    case active => intro id active hget; cases hget
    case tasks => intro handler hmem; cases hmem
    case answers => intro msg hmem; cases hmem
    case once => exact nodup_nil

/-- The client goes on. -/
theorem Kept.setClient {client : Client R} {event : Event R} (h : x.Kept)
    (hord : Client.Orderly x.client event) (hnext : x.client.step event = some client)
    (hanswering : client.Answering x.server.sent x.arrived)
    (hsent : ∃ frames, client.sent = x.client.sent ++ frames) : (x.setClient client).Kept where
  client := h.client.step hord hnext
  answering := hanswering
  serving := by
    obtain ⟨frames, hfr⟩ := hsent
    show Serving client.sent x.received x.server
    rw [hfr]
    exact h.serving.more frames

/-- A step that meets no given up request keeps the invariant. -/
theorem Kept.step {event : ExchangeEvent R} (h : x.Kept) (huncrossed : x.Uncrossed event)
    (hnext : x.step event = some x') : x'.Kept := by
  cases event with
  | request call =>
    obtain ⟨client, hclient, rfl⟩ := map_eq_some_iff.mp hnext
    have hord : Client.Orderly x.client (.request (.server x.client.serverId) call) := trivial
    apply h.setClient hord hclient
    · rw [Client.step] at hclient
      split_ifs at hclient
      cases hclient
      exact h.answering.addRequest
    · rw [Client.step] at hclient
      split_ifs at hclient
      cases hclient
      exact ⟨[], (append_nil _).symm⟩
  | advance i event =>
    rw [Exchange.step] at hnext
    split_ifs at hnext with hreliable
    obtain ⟨client, hclient, rfl⟩ := map_eq_some_iff.mp hnext
    have hord : Client.Orderly x.client (.advance i event) := by
      cases event with
      | register => exact huncrossed
      | _ => trivial
    have hstep := hclient
    rw [Client.step] at hstep
    cases hreq : x.client.requests[i]? with
    | none =>
      rw [hreq] at hstep
      cases hstep
    | some request =>
      rw [hreq] at hstep
      apply h.setClient hord hclient
      · exact h.answering.requestStep h.client hreq hreliable hord hstep
      · exact Client.sent_requestStep hstep
  | handle call =>
    obtain ⟨client, hclient, rfl⟩ := map_eq_some_iff.mp hnext
    have hord : Client.Orderly x.client (.handle call none) := trivial
    apply h.setClient hord hclient
    · exact h.answering.handle h.client h.answered huncrossed hclient
    · exact ⟨[], (Client.sent_handle hclient).trans (append_nil _).symm⟩
  | deliver =>
    rw [Exchange.step] at hnext
    cases hfrm : x.client.sent[x.received]? with
    | none =>
      rw [hfrm] at hnext
      cases hnext
    | some frame =>
      rw [hfrm] at hnext
      cases hnext
      have hhello : ∀ version, frame.2 ≠ .hello version := by
        intro version heq
        obtain ⟨i, request, id, -, -, hsends⟩ := h.answering.frames frame (mem_of_getElem? hfrm)
        rcases hsends with ⟨rfl, -⟩ | ⟨rfl, -⟩
        · cases heq
        · cases heq
      constructor
      case client => exact h.client
      case answering =>
        show x.client.Answering (x.server.dispatchMessage frame.2).sent x.arrived
        rw [sent_dispatchMessage x.server hhello]
        exact h.answering
      case serving => exact h.serving.dispatchMessage hfrm hhello
  | arrive =>
    rw [Exchange.step] at hnext
    cases hmsg : x.server.sent[x.arrived]? with
    | none =>
      rw [hmsg] at hnext
      cases hnext
    | some msg =>
      rw [hmsg] at hnext
      obtain ⟨client, hclient, rfl⟩ := map_eq_some_iff.mp hnext
      have hord : Client.Orderly x.client (.receive 0 msg) := trivial
      have hstep := hclient
      rw [Client.step] at hstep
      cases hconn : x.client.connections[0]? with
      | none =>
        rw [hconn] at hstep
        cases hstep
      | some conn =>
        rw [hconn] at hstep
        simp only at hstep
        split_ifs at hstep
        cases hstep
        constructor
        case client => exact h.client.step hord hclient
        case answering => exact h.answering.arrive hmsg
        case serving => exact h.serving
  | serve i event =>
    rw [Exchange.step] at hnext
    cases hhand : x.server.handlers[i]? with
    | none =>
      rw [hhand] at hnext
      cases hnext
    | some handler =>
      rw [hhand] at hnext
      obtain ⟨server, hsrv, rfl⟩ := map_eq_some_iff.mp hnext
      constructor
      case client => exact h.client
      case answering =>
        obtain ⟨messages, hmsgs⟩ := sent_handlerStep hsrv
        show x.client.Answering server.sent x.arrived
        rw [hmsgs]
        exact h.answering.more messages
      case serving => exact h.serving.handlerStep h.answering.once hhand hsrv

theorem kept_of_run (h : (machine R).Run Uncrossed x) : x.Kept := by
  apply h.invariant
  · rintro _ ⟨serverId, version, rfl⟩
    exact kept_opened serverId version
  · intro x x' event hkept huncrossed hnext
    exact hkept.step huncrossed hnext

/-- The answer of a request is the result of its own handler, unless the caller has left. -/
theorem Kept.ownResult {i : Nat} (h : x.Kept)
    (hreq : x.client.requests[i]? = some request) (hent : request.entry = some (0, id))
    (hgen : GenuineReply x.server.sent id reply) :
    x.OwnResult request id reply ∨ request.phase = .returned (.error .cancelled) := by
  have hlook : x.client.entryOf i = some (0, id) := by
    rw [Client.entryOf, hreq]
    exact hent
  -- A request with this id is this request.
  have hsame (place : Nat) (found : Request R) (hfnd : x.client.requests[place]? = some found)
      (hfoundEnt : found.entry = some (0, id)) : found = request := by
    have hplc : x.client.entryOf place = some (0, id) := by
      rw [Client.entryOf, hfnd]
      exact hfoundEnt
    obtain rfl := h.client.numbered.unique _ _ _ _ _ hplc hlook
    exact some.inj (hfnd.symm.trans hreq)
  obtain ⟨msg, hmsg, hans⟩ := hgen
  obtain ⟨handler, hhand, res, cancelled, hret, hcan, rfl⟩ := h.serving.answers msg hmsg
  have hid : handler.id = id := by
    have heq := congrArg (Option.map Prod.fst) hans
    rw [show (answerMessage handler.id cancelled res).answer?.map Prod.fst = some handler.id from
      answerId_answerMessage _ _ _] at heq
    exact some.inj heq
  cases cancelled with
  | true =>
    obtain ⟨place, target, hfrm⟩ := h.serving.cancelled handler hhand (hcan rfl)
    obtain ⟨owner, found, other, hfnd, hfoundEnt, hsends⟩ := h.answering.frames _ hfrm
    rcases hsends with ⟨heq, -⟩ | ⟨heq, hph⟩
    · cases heq
    · obtain ⟨-, heq⟩ := Prod.mk.inj heq
      obtain ⟨rfl, -⟩ := ClientMessage.cancel.inj heq
      rw [hid] at hfoundEnt
      obtain rfl := hsame owner found hfnd hfoundEnt
      exact .inr hph
  | false =>
    have hfrm : handler.frame ∈ (x.client.sent.take x.received).filterMap requestFrame := by
      rw [← h.serving.handlers]
      exact mem_map_of_mem hhand
    have hsub := (take_sublist x.received x.client.sent).filterMap requestFrame
    obtain ⟨frame, hmem, hreqFrame⟩ := mem_filterMap.mp (hsub.mem hfrm)
    obtain ⟨owner, found, other, hfnd, hfoundEnt, hsends⟩ := h.answering.frames frame hmem
    rcases hsends with ⟨rfl, -⟩ | ⟨rfl, -⟩
    · obtain ⟨rfl, hrest⟩ := Prod.mk.inj (some.inj hreqFrame)
      obtain ⟨htgt, hcall⟩ := Prod.mk.inj hrest
      rw [hid] at hfoundEnt
      obtain rfl := hsame owner found hfnd hfoundEnt
      refine .inl ⟨handler, hhand, hid, htgt.symm, hcall.symm, res, hret, ?_⟩
      cases res with
      | ok | error => exact (Prod.mk.inj (some.inj hans)).2.symm
    · cases hreqFrame

/-- What a request that was sent has returned. -/
theorem Kept.returned {i : Nat} (h : x.Kept)
    (hreq : x.client.requests[i]? = some req) (hent : req.entry = some (0, id))
    (hsent : x.IsSent req id) (hph : req.phase = .returned reply) :
    (reply = .error .cancelled ∧ req.cancelled = true) ∨ x.OwnResult req id reply := by
  have hid : id ∈ sentIds x.client.sent := mem_map.mpr ⟨(id, req.target, req.call),
      mem_filterMap.mpr ⟨_, hsent, rfl⟩, rfl⟩
  have hsound := h.answering.requests i req hreq
  rcases hsound.returned 0 id reply hent hph hid with hcan | hgen
  · exact .inl hcan
  · rcases h.ownResult hreq hent hgen with hown | hleft
    · exact .inr hown
    · rw [hph] at hleft
      exact absurd (RequestPhase.returned.inj hleft) hgen.ne_cancelled

/-- In a run where no answer meets a request that was given up nothing breaks. -/
theorem unbroken_of_run (hrun : (machine R).Run Uncrossed x) : x.Unbroken := by
  have h := kept_of_run hrun
  constructor
  case client =>
    intro conn hconn
    rw [h.answering.connections] at hconn
    rw [mem_singleton.mp hconn]
  case callbacks =>
    intro i error hmem
    exact h.answering.calls _ hmem
  case server => exact h.serving.failed
  case answered =>
    intro i req id hreq hent hresolved hcan
    obtain ⟨found, hfound, hsome⟩ := h.answering.ends _ _ hresolved
    obtain rfl := some.inj (hfound.symm.trans hreq)
    obtain ⟨reply, hreply⟩ := isSome_iff_exists.mp hsome
    have hsound := h.answering.requests i found hreq
    obtain ⟨own, hown, hgenuine⟩ := hsound.channel reply hreply
    rw [hent] at hown
    obtain ⟨-, rfl⟩ := Prod.mk.inj (some.inj hown)
    refine ⟨reply, hreply, ?_⟩
    rcases h.ownResult hreq hent hgenuine with hown | hleft
    · exact hown
    · rcases hsound.returned 0 id _ hent hleft (h.mem_sentIds hgenuine) with ⟨-, htrue⟩ | hgone
      · rw [hcan] at htrue
        cases htrue
      · exact absurd rfl hgone.ne_cancelled
  case uncancelled =>
    intro i req id reply hreq hent hsent hphase hcan
    rcases h.returned hreq hent hsent hphase with ⟨-, htrue⟩ | hown
    · rw [hcan] at htrue
      cases htrue
    · exact hown
  case cancelled =>
    intro i req id reply hreq hent hsent hphase _
    exact (h.returned hreq hent hsent hphase).imp_left And.left

/-- A request is cancelled before its answer arrives: the answer fails the connection. -/
theorem late_answer_breaks : ¬ ∀ x : Exchange Unit,
    (machine Unit).Run (fun _ _ => True) x → x.Unbroken := by
  intro h
  have hstart : (machine Unit).Run (fun _ _ => True) (opened "s" ⟨8, by decide⟩) :=
    .start ⟨"s", ⟨8, by decide⟩, rfl⟩
  obtain ⟨x, hrun, hx⟩ := hstart.execute (fun _ _ => true)
    [.request (), .advance 0 (.validate (.ok ())), .advance 0 .register,
      .advance 0 (.send .admitted), .advance 0 .cancelToken, .advance 0 .cancel,
      .advance 0 (.sendCancel true), .deliver, .serve 0 .check, .serve 0 .insert, .deliver,
      .serve 0 (.complete (.ok none)), .serve 0 .finish, .arrive, .handle 1, .handle 1]
    (fun x => x.client.connections.any fun conn => conn.lifecycle == .disconnected)
    (fun _ _ _ => trivial)
    (by decide +kernel)
  obtain ⟨conn, hconn, hdown⟩ := any_eq_true.mp hx
  have hup := (h x hrun).client conn hconn
  rw [eq_of_beq hdown] at hup
  cases hup

/-- A check for steps that handle no answer of a request that was given up. -/
def uncrossedCheck (x : Exchange Unit) : ExchangeEvent Unit → Bool
  | .handle call =>
    match x.client.messages[call]? with
    | some (.message _ msg) => msg.answer?.all fun answer => !x.client.gaveUp answer.1
    | _ => true
  | .advance _ .register => decide (x.client.nextRequestId ≠ U64.max)
  | _ => true

/-- A request is answered, and another one cancelled after its answer was taken. -/
theorem unbroken_answered : ∃ x : Exchange Unit, x.Unbroken ∧
    (x.client.resolved.map Prod.fst = [0, 1] ∧ x.client.requests.map Request.cancelled =
      [false, true]) := by
  have hstart : (machine Unit).Run Uncrossed (opened "s" ⟨8, by decide⟩) :=
    .start ⟨"s", ⟨8, by decide⟩, rfl⟩
  obtain ⟨x, hrun, hx⟩ := hstart.execute uncrossedCheck
    [.request (), .advance 0 (.validate (.ok ())), .advance 0 .register,
      .advance 0 (.send .admitted), .request (), .advance 1 (.validate (.ok ())),
      .advance 1 .register, .advance 1 (.send .admitted), .deliver, .deliver, .serve 1 .check,
      .serve 1 .insert, .serve 0 .check, .serve 0 .insert, .serve 0 (.complete (.ok none)),
      .serve 0 .finish, .arrive, .handle 1, .handle 1, .advance 0 .reply,
      .serve 1 (.complete (.ok (some ()))), .serve 1 .finish, .arrive, .handle 2,
      .advance 1 .cancelToken, .advance 1 .cancel, .handle 2, .advance 1 .reply]
    (fun x => x.client.resolved.map Prod.fst == [0, 1] &&
      x.client.requests.map Request.cancelled == [false, true])
    (by
      intro x event hcheck
      cases event with
      | handle call =>
        intro i msg id reply hcall hanswer
        simp only [uncrossedCheck, hcall, hanswer, all_some, Bool.not_eq_true'] at hcheck
        exact hcheck
      | advance i event =>
        cases event with
        | register => exact of_decide_eq_true (p := x.client.nextRequestId ≠ U64.max) hcheck
        | _ => trivial
      | _ => trivial)
    (by decide +kernel)
  obtain ⟨hresolved, hcan⟩ := Bool.and_eq_true_iff.mp hx
  exact ⟨x, unbroken_of_run hrun, eq_of_beq hresolved, eq_of_beq hcan⟩

end Exchange

end PiOxidized.Remote
