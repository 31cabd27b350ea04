/-
# What is left of a failed connection

Every step of an orderly run keeps the invariant of the client, so nothing of a connection is
left once the call that failed it has returned.
-/

import PiOxidized.Remote.Lifetime

namespace PiOxidized.Remote

open List Math Option

variable {R : Type}

namespace Client

variable {hand : List Nat} {s s' : Client R} {i call : Nat} {conn : Connection}
  {req req' : Request R}

/-! ## Messages -/

variable {old : MessageCall R} {id : String}

variable {refusal : Option ClientError} {pend : PendingRequest} {new : MessageCall R}

section

variable (h : Kept hand s)

include h

/-- A callback goes on without a sender. -/
theorem Kept.setMessage (hcall : s.messages[call]? = some old) (hold : ∀ other, old.holds other = 0)
    (hnew : ∀ other, new.holds other = 0) : Kept hand (s.putMessage call new) :=
  h.of_same (sameTables_putMessage s call new) (h.custody.setMessage hcall hold hnew)

theorem Kept.addMessage (hnew : ∀ other, new.holds other = 0) :
    Kept hand { s with messages := s.messages ++ [new] } :=
  h.of_same ⟨rfl, rfl, rfl, rfl, rfl, rfl, rfl, rfl, rfl⟩ (h.custody.addMessage hnew)

/-- An entry that is taken leaves the table. -/
theorem Kept.take (hget : s.pending.get? id = some pend) :
    Kept (pend.sender :: hand) { s with pending := s.pending.erase id } where
  registry := h.registry.of_eq rfl rfl rfl
  tables := by
    refine h.tables.mono (fun _ hup => hup) (fun _ _ hent => hent) ?_ (fun _ _ hget => hget)
      (fun _ hsome => hsome) (fun _ hsome => hsome)
    intro other found hfnd
    rw [OrderedMap.get?_erase] at hfnd
    split_ifs at hfnd
    exact hfnd
  numbered := h.numbered.of_eq rfl rfl
  custody := h.custody.take hget

section

variable (hcall : s.messages[call]? = some old) (hold : ∀ other, old.holds other = 0)

include hcall hold

theorem Kept.takeAnswer {reply : Reply R} : Kept hand (s.takeAnswer call i id reply) := by
  rw [Client.takeAnswer]
  cases hget : s.pending.get? id with
  | none => exact h.setMessage hcall hold fun _ => rfl
  | some pend =>
    have htkn := h.take hget
    obtain ⟨place, hent, -⟩ := h.tables.pending id pend hget
    have hput : Custody hand (({ s with pending := s.pending.erase id } : Client R).putMessage call
        (.answering id pend reply)) := by
      apply htkn.custody.putMessage hcall
      · intro other
        rw [hold, count_cons, MessageCall.holds]
        by_cases heq : pend.sender = other <;> simp [heq, Nat.add_comm]
      · intro id' pend' reply' heq
        obtain ⟨rfl, rfl, -⟩ := MessageCall.answering.inj heq
        exact ⟨place, hent⟩
    exact htkn.of_same ⟨rfl, rfl, rfl, rfl, rfl, rfl, rfl, rfl, rfl⟩ hput

theorem Kept.setAttachment {attachment : Option SessionTarget}
    (hconn : s.connections[i]? = some conn) :
    Kept hand (s.setAttachment call i conn.id attachment) := by
  rw [Client.setAttachment]
  have hset : Kept hand (s.putMessage call .done) := h.setMessage hcall hold fun _ => rfl
  split_ifs with hguard
  · exact hset
  · have hlive : s.isLive conn.id = true := by
      by_contra hdead
      apply hguard
      rw [Bool.eq_false_of_not_eq_true hdead]
      rfl
    have hup := h.registry.up_of_isLive hconn hlive
    constructor
    case registry => exact hset.registry.of_eq rfl rfl rfl
    case tables =>
      constructor
      case pending => exact hset.tables.pending
      case listeners => exact hset.tables.listeners
      case hello => exact hset.tables.hello
      case attachment =>
        intro target place hsome
        obtain ⟨found, -, heq⟩ := map_eq_some_iff.mp hsome
        obtain ⟨-, rfl⟩ := Prod.mk.inj heq
        exact hup
    case numbered => exact hset.numbered.of_eq rfl rfl
    case custody => exact hset.custody.frame rfl rfl rfl rfl rfl rfl

theorem Kept.onMessage (hconn : s.connections[i]? = some conn) (message : ServerMessage R) :
    Kept hand (s.onMessage call i conn.id refusal message) := by
  have hset (new : MessageCall R) (hnew : ∀ other, new.holds other = 0) :
      Kept hand (s.putMessage call new) := h.setMessage hcall hold hnew
  cases message with
  | response id result => exact h.takeAnswer hcall hold
  | responseError id error =>
    rw [Client.onMessage]
    split_ifs
    · exact hset _ fun _ => rfl
    · exact h.takeAnswer hcall hold
  | serviceUpdate subscriptionId update =>
    cases refusal with
    | none =>
      rw [Client.onMessage.eq_def]
      simp only
      split_ifs
      · exact hset _ fun _ => rfl
      · exact hset _ fun _ => rfl
    | some error =>
      rw [Client.onMessage.eq_def]
      simp only
      split_ifs
      · exact hset _ fun _ => rfl
      · exact hset _ fun _ => rfl
      · exact hset _ fun _ => rfl
  | attachment attachment =>
    rw [Client.onMessage]
    cases s.checkAttachment attachment with
    | error error => exact hset _ fun _ => rfl
    | ok _ => exact h.setAttachment hcall hold hconn
  | hello | helloError => exact hset _ fun _ => rfl

end

theorem Kept.handle (hnext : s.handle call refusal = some s') : Kept hand s' := by
  rw [Client.handle] at hnext
  cases hcall : s.messages[call]? with
  | none =>
    rw [hcall] at hnext
    cases hnext
  | some old =>
    rw [hcall] at hnext
    cases old with
    | done => cases hnext
    | handshake i hello =>
      simp only at hnext
      cases hconn : s.connections[i]? with
      | none =>
        rw [hconn] at hnext
        cases hnext
      | some conn =>
        rw [hconn] at hnext
        simp only at hnext
        have hset : Kept hand (s.putMessage call .done) :=
          h.setMessage hcall (fun _ => rfl) fun _ => rfl
        split_ifs at hnext with hguard
        · cases hnext
          have hup := h.registry.up_of_isLive hconn (Bool.and_eq_true_iff.mp hguard).1
          constructor
          case registry => exact hset.registry.of_eq rfl rfl rfl
          case tables =>
            constructor
            case pending => exact hset.tables.pending
            case listeners => exact hset.tables.listeners
            case hello =>
              intro found place hsome
              obtain ⟨-, rfl⟩ := Prod.mk.inj (some.inj hsome)
              exact hup
            case attachment => exact hset.tables.attachment
          case numbered => exact hset.numbered.of_eq rfl rfl
          case custody => exact hset.custody.frame rfl rfl rfl rfl rfl rfl
        · cases hnext
          exact hset
    | message i message =>
      simp only at hnext
      cases hconn : s.connections[i]? with
      | none =>
        rw [hconn] at hnext
        cases hnext
      | some conn =>
        rw [hconn] at hnext
        cases hnext
        exact h.onMessage hcall (fun _ => rfl) hconn message
    | answering id pending reply =>
      cases hnext
      have hent := h.custody.answering call id pending reply hcall
      have hput : Kept (pending.sender :: hand) (s.putMessage call .done) := by
        refine h.of_same (sameTables_putMessage s call .done)
          (h.custody.putMessage hcall ?_ fun _ _ _ heq => by cases heq)
        intro other
        have hdone : (MessageCall.done : MessageCall R).holds other = 0 := rfl
        rw [count_cons, MessageCall.holds, hdone]
        by_cases heq : pending.sender = other <;> simp [heq, Nat.add_comm]
      obtain ⟨i, hent⟩ := hent
      exact hput.answer ⟨(i, id), hent, rfl⟩
    | failing i error =>
      simp only at hnext
      cases hconn : s.connections[i]? with
      | none =>
        rw [hconn] at hnext
        cases hnext
      | some conn =>
        rw [hconn] at hnext
        simp only at hnext
        have hset : Kept hand (s.putMessage call .done) :=
          h.setMessage hcall (fun _ => rfl) fun _ => rfl
        split_ifs at hnext
        · cases hnext
          exact hset.fail i error
        · cases hnext
          exact hset

end

/-! ## Requests -/

variable {target : RpcTarget} {place : Nat}

theorem requestId_injective {num other : U64} (h : requestId num = requestId other) :
    num = other := by
  have hrepr : Nat.repr num.val = Nat.repr other.val := (String.append_right_inj "request-").mp h
  have hdigits := congrArg String.toList hrepr
  rw [Nat.toList_repr, Nat.toList_repr] at hdigits
  have hvalue := congrArg (fun digits => Nat.ofDigitChars 10 digits 0) hdigits
  simp only [Nat.ofDigitChars_toDigits (show 1 < 10 by decide) (Nat.le_refl 10)] at hvalue
  exact Fin.ext hvalue

theorem Kept.setRequest (h : Kept hand s) (hreq : s.requests[i]? = some req)
    (hent : req'.entry = req.entry) (hnew : req'.isNew = true → req.isNew = true)
    (hchan : req.channel.isSome = true ∨ req.isOver = true →
      req'.channel.isSome = true ∨ req'.isOver = true) :
    Kept hand (s.putRequest i req') :=
  h.of_same (sameTables_putRequest hreq hent) (h.custody.putRequest hreq hent
      (fun hisnew => h.custody.fresh i req hreq (hnew hisnew)) hchan)

/-- A request call goes on and looks at its channel as before. -/
theorem Kept.setPhase {phase : RequestPhase R} (h : Kept hand s) (hreq : s.requests[i]? = some req)
    (hnew : phase.isNew = true → req.phase.isNew = true)
    (hover : req.phase.isOver = true → phase.isOver = true) :
    Kept hand (s.putRequest i { req with phase := phase }) :=
  h.setRequest hreq rfl hnew fun hchan => hchan.imp_right hover

theorem Kept.addSent {sent : List (Nat × ClientMessage R)} (h : Kept hand s) :
    Kept hand { s with sent := sent } :=
  h.of_same ⟨rfl, rfl, rfl, rfl, rfl, rfl, rfl, rfl, rfl⟩ (h.custody.frame rfl rfl rfl rfl rfl rfl)

/-- A registered connection that is not down is up. -/
theorem Registry.up_of_open (h : Registry s) (hreg : s.connection = some i)
    (hopen : (s.registered.any fun conn => conn.lifecycle != .disconnected) = true) :
    s.Up i := by
  obtain ⟨conn, hfnd, hlife⟩ := any_eq_true _ _ |>.mp hopen
  rw [registered, hreg, bind_some] at hfnd
  have hnone := (h.lifecycle i conn hfnd).mpr (bne_iff_ne.mp hlife)
  refine ⟨hreg, conn, hfnd, ?_⟩
  rw [Connection.undrained, hnone]

theorem Registry.up_of_connected (h : Registry s) (hreg : s.connection = some i)
    (hconnected : s.connected = true) : s.Up i := by
  apply h.up_of_open hreg
  obtain ⟨conn, hfnd, hlife⟩ := any_eq_true _ _ |>.mp hconnected
  rw [hfnd, any_some, eq_of_beq hlife]
  rfl

section

variable (h : Kept hand s)

include h

/-- The next id is not in the table. -/
theorem Kept.get?_next (hroom : s.nextRequestId ≠ U64.max) :
    s.pending.get? (requestId (wrappingSucc s.nextRequestId)) = none := by
  by_contra hsome
  obtain ⟨pend, hget⟩ := ne_none_iff_exists'.mp hsome
  obtain ⟨place, hent, -⟩ := h.tables.pending _ pend hget
  obtain ⟨num, hid, hle⟩ := h.numbered.below _ place _ hent
  have hsucc := val_wrappingSucc hroom
  rw [requestId_injective hid] at hsucc
  omega

/-- A request gets the next id and its entry in the table. -/
theorem Kept.enter {num : U64} (hreq : s.requests[i]? = some req)
    (hnone : req.entry = none) (hup : s.Up place)
    (hnumber : num.val = s.nextRequestId.val + 1)
    (hfree : s.pending.get? (requestId num) = none) :
    Kept hand { s.putRequest i
        { req with phase := .registered, entry := some (place, requestId num) } with
      nextRequestId := num
      pending := s.pending.insert (requestId num) ⟨target, i⟩ } := by
  have hput : Custody hand { s.putRequest i
        { req with phase := .registered, entry := some (place, requestId num) } with
      pending := s.pending.insert (requestId num) ⟨target, i⟩ } :=
    h.custody.enter hreq hnone rfl rfl hfree
  have hpre : s.entryOf i = none := by
    rw [entryOf, hreq]
    exact hnone
  have hself : (s.putRequest i
      { req with phase := .registered, entry := some (place, requestId num) }).entryOf i =
      some (place, requestId num) := entryOf_putRequest_self hreq
  have hoth : ∀ other entry, s.entryOf other = some entry → (s.putRequest i
      { req with phase := .registered, entry := some (place, requestId num) }).entryOf other =
      some entry := by
    intro other entry hfnd
    rw [entryOf_putRequest_ne, hfnd]
    rintro rfl
    rw [hpre] at hfnd
    cases hfnd
  -- Whoever had an entry before has an older id.
  have hcases : ∀ other entry, (s.putRequest i
      { req with phase := .registered, entry := some (place, requestId num) }).entryOf other =
      some entry → (other = i ∧ entry = (place, requestId num)) ∨
        (s.entryOf other = some entry ∧ entry.2 ≠ requestId num) := by
    intro other entry hfnd
    by_cases heq : other = i
    · subst heq
      exact .inl ⟨rfl, some.inj (hfnd.symm.trans hself)⟩
    · rw [entryOf_putRequest_ne heq] at hfnd
      refine .inr ⟨hfnd, fun hid => ?_⟩
      obtain ⟨older, holder, hle⟩ := h.numbered.below other entry.1 entry.2 hfnd
      rw [hid] at holder
      rw [requestId_injective holder] at hnumber
      omega
  constructor
  case registry => exact h.registry.of_eq rfl rfl rfl
  case tables =>
    constructor
    case pending =>
      intro id pending hget
      rw [OrderedMap.get?_insert] at hget
      split_ifs at hget with heq
      · cases hget
        subst heq
        exact ⟨place, hself, hup⟩
      · obtain ⟨owner, hent, hown⟩ := h.tables.pending id pending hget
        exact ⟨owner, hoth _ _ hent, hown⟩
    case listeners => exact h.tables.listeners
    case hello => exact h.tables.hello
    case attachment => exact h.tables.attachment
  case numbered =>
    constructor
    case below =>
      intro other owner id hent
      rcases hcases other _ hent with ⟨-, heq⟩ | ⟨hent, -⟩
      · exact ⟨num, (Prod.mk.inj heq).2, Nat.le_refl _⟩
      · obtain ⟨older, hid, hle⟩ := h.numbered.below other owner id hent
        refine ⟨older, hid, ?_⟩
        show older.val ≤ num.val
        omega
    case unique =>
      intro other other' owner owner' id hent hent'
      rcases hcases other _ hent with ⟨rfl, heq⟩ | ⟨hent, hne⟩
      · rcases hcases other' _ hent' with ⟨rfl, -⟩ | ⟨-, hne⟩
        · rfl
        · exact absurd (Prod.mk.inj heq).2 hne
      · rcases hcases other' _ hent' with ⟨-, heq⟩ | ⟨hent', -⟩
        · exact absurd (Prod.mk.inj heq).2 hne
        · exact h.numbered.unique other other' owner owner' id hent hent'
  case custody => exact hput.frame rfl rfl rfl rfl rfl rfl

/-- A new request call has no entry yet. -/
theorem Kept.addRequest {payload : R} :
    Kept hand { s with requests := s.requests ++ [{ target := target, call := payload }] } :=
  h.of_same ⟨rfl, rfl, rfl, rfl, rfl, rfl, rfl, rfl, entryOf_addRequest rfl⟩
    (h.custody.addRequest rfl)

section

variable (hreq : s.requests[i]? = some req)

include hreq

theorem Kept.register (hph : req.phase = .validated) (hroom : s.nextRequestId ≠ U64.max) :
    Kept hand (s.register i req) := by
  have hisnew : req.isNew = true := by
    rw [Request.isNew, hph]
    rfl
  have hret (reply : Reply R) : Kept hand (s.putRequest i { req with phase := .returned reply }) :=
    h.setRequest hreq rfl (fun hnew => by cases hnew) fun _ => .inr rfl
  rw [Client.register]
  by_cases hdisp : s.disposed = true
  · rw [if_pos hdisp]
    exact hret _
  · rw [if_neg hdisp]
    cases hreg : s.connection with
    | none => exact hret _
    | some place =>
      simp only
      by_cases hconnected : s.connected = true
      · rw [if_pos hconnected, h.get?_next hroom]
        have hup := h.registry.up_of_connected hreg hconnected
        have hsucc := val_wrappingSucc hroom
        have hnone := h.custody.fresh i req hreq hisnew
        generalize hnumber : wrappingSucc s.nextRequestId = num at hsucc
        have hfree := h.get?_next hroom
        rw [hnumber] at hfree
        exact h.enter hreq hnone hup hsucc hfree
      · rw [if_neg hconnected]
        exact hret _

theorem Kept.send (hph : req.phase = .registered) (admission : Admission) :
    Kept hand (s.send i req place id admission) := by
  have hput (phase : RequestPhase R) (hnew : phase.isNew = false) :
      Kept hand (s.putRequest i { req with phase := phase }) := by
    apply h.setPhase hreq
    · intro hisnew
      rw [hnew] at hisnew
      cases hisnew
    · intro hover
      rw [hph] at hover
      cases hover
  rw [Client.send.eq_def]
  split_ifs with hup
  · cases admission with
    | admitted => exact (hput .waiting rfl).addSent
    | refused error => exact hput (.unsent error) rfl
    | closed error => exact (hput (.unsent error) rfl).fail place error
  · exact hput (.unsent _) rfl

/-- The table entry of a request is its own. -/
theorem Kept.sender_eq (hent : req.entry = some (place, id))
    (hget : s.pending.get? id = some pend) : pend.sender = i := by
  obtain ⟨owner, hown, -⟩ := h.tables.pending id pend hget
  apply h.numbered.unique _ _ _ _ _ hown
  rw [entryOf, hreq]
  exact hent

/-- A request that ends takes its entry out of the table, unless that is gone. -/
theorem Kept.takePending {resol : Resolution} (hent : req.entry = some (place, id))
    (hsame : req'.entry = req.entry) (hnew : req'.isNew = false)
    (hchan : req.channel.isSome = true ∨ req.isOver = true →
      req'.channel.isSome = true ∨ req'.isOver = true)
    (hover : (s.pending.get? id).isSome = true → req'.isOver = true)
    (hsuits : resol.Suits (place, id)) :
    Kept hand ((s.takePending id resol).putRequest i req') := by
  have hisnew : req'.isNew = true → req.isNew = true := by
    intro hisnew
    rw [hnew] at hisnew
    cases hisnew
  rw [Client.takePending]
  cases hget : s.pending.get? id with
  | none => exact h.setRequest hreq hsame hisnew hchan
  | some pend =>
    have htkn := h.take hget
    have hsend := h.sender_eq hreq hent hget
    rw [hsend] at htkn
    simp only [hsend]
    have hsolved : Custody hand
        { ({ s with pending := s.pending.erase id } : Client R).putRequest i req' with
          resolved := s.resolved ++ [(i, resol)] } :=
      htkn.custody.resolve hreq hsame hisnew (.inr (hover (by rw [hget]; rfl)))
        ⟨(place, id), by rw [entryOf, hreq]; exact hent, hsuits⟩
    exact htkn.of_same ⟨rfl, rfl, rfl, rfl, rfl, rfl, rfl, rfl, entryOf_putRequest hreq hsame⟩
      hsolved

/-- A check that a request passes or not. -/
theorem Kept.validate (hph : req.phase = .admitted) (parsed : Except ClientError Unit) :
    Kept hand (s.putRequest i { req with phase := validateRequest req parsed }) := by
  apply h.setPhase hreq
  · intro _
    rw [hph]
    rfl
  · intro hover
    rw [hph] at hover
    cases hover

/-- A cancelled request takes its table entry, or waits for the answer that took it. -/
theorem Kept.cancel (hph : req.phase = .waiting) (hent : req.entry = some (place, id)) :
    Kept hand (s.cancel i req id) := by
  rw [Client.cancel]
  refine h.takePending hreq hent rfl ?_ ?_ ?_ trivial
  · show RequestPhase.isNew (if _ then _ else _) = false
    split_ifs
    · rfl
    · rfl
  · intro hchan
    refine .inl (hchan.resolve_right ?_)
    rw [Request.isOver, hph]
    exact Bool.false_ne_true
  · intro hsome
    show RequestPhase.isOver (if _ then _ else _) = true
    rw [if_pos hsome]
    rfl

theorem Kept.requestStep {event : RequestEvent} (hord : Orderly s (.advance i event))
    (hnext : s.requestStep i req event = some s') : Kept hand s' := by
  have hret (reply : Reply R) : Kept hand (s.putRequest i { req with phase := .returned reply }) :=
    h.setPhase hreq (fun hnew => by cases hnew) fun _ => rfl
  cases event with
  | cancelToken =>
    cases hnext
    exact h.setRequest hreq rfl (fun hnew => hnew) fun hchan => hchan
  | validate parsed =>
    rw [Client.requestStep] at hnext
    cases hph : req.phase with
    | admitted =>
      rw [hph] at hnext
      cases hnext
      exact h.validate hreq hph parsed
    | _ =>
      rw [hph] at hnext
      cases hnext
  | register =>
    rw [Client.requestStep] at hnext
    cases hph : req.phase with
    | validated =>
      rw [hph] at hnext
      cases hnext
      exact h.register hreq hph hord
    | _ =>
      rw [hph] at hnext
      cases hnext
  | send admission =>
    rw [Client.requestStep] at hnext
    split at hnext
    · rename_i hph hent
      cases hnext
      exact h.send hreq hph admission
    · cases hnext
  | giveUp =>
    rw [Client.requestStep] at hnext
    split at hnext
    · rename_i hph hent
      cases hnext
      exact h.takePending hreq hent rfl rfl (fun _ => .inr rfl) (fun _ => rfl) trivial
    · cases hnext
  | reply =>
    rw [Client.requestStep] at hnext
    split at hnext
    · cases hnext
      exact hret _
    · cases hnext
      exact hret _
    · cases hnext
  | cancel =>
    rw [Client.requestStep] at hnext
    split at hnext
    · rename_i hph hent
      split_ifs at hnext with hcancelled
      cases hnext
      exact h.cancel hreq hph hent
    · cases hnext
  | sendCancel admitted =>
    rw [Client.requestStep] at hnext
    split at hnext
    · simp only at hnext
      split_ifs at hnext
      · cases hnext
        exact (hret (.error .cancelled)).addSent
      · cases hnext
        exact hret _
    · cases hnext

end

/-! ## Listeners and disposal -/

theorem Kept.addListener {listener : ServiceListener} {nextServiceId : U64}
    (hup : ∀ place, listener.under = some place → s.Up place) :
    Kept hand { s with
      nextServiceId := nextServiceId
      serviceListeners := s.serviceListeners.insert id listener } where
  registry := h.registry.of_eq rfl rfl rfl
  tables := by
    constructor
    case pending => exact h.tables.pending
    case listeners =>
      intro other found place hget hunder
      rw [OrderedMap.get?_insert] at hget
      split_ifs at hget
      · cases hget
        exact hup place hunder
      · exact h.tables.listeners other found place hget hunder
    case hello => exact h.tables.hello
    case attachment => exact h.tables.attachment
  numbered := h.numbered.of_eq rfl rfl
  custody := h.custody.frame rfl rfl rfl rfl rfl rfl

theorem Kept.listen (hnext : s.listen target = some s') : Kept hand s' := by
  rw [Client.listen] at hnext
  split_ifs at hnext with hdisp hopen
  · cases hnext
    exact h.addListener fun place hplc => h.registry.up_of_open hplc hopen
  · cases hnext
    exact h.addListener fun place hplc => by cases hplc

/-- Listeners, hello and attachment may be forgotten. -/
theorem Kept.forget {serviceListeners : OrderedMap String ServiceListener}
    {hello : Option (ServerHello × Nat)} {a : Option (SessionTarget × Nat)}
    (hlis : ∀ id listener, serviceListeners.get? id = some listener →
      s.serviceListeners.get? id = some listener)
    (hhello : ∀ found, hello = some found → s.hello = some found)
    (hatt : ∀ found, a = some found → s.attachment = some found) :
    Kept hand { s with
      serviceListeners := serviceListeners
      hello := hello
      attachment := a } where
  registry := h.registry.of_eq rfl rfl rfl
  tables := h.tables.mono (fun _ hup => hup) (fun _ _ hent => hent) (fun _ _ hget => hget)
    hlis hhello hatt
  numbered := h.numbered.of_eq rfl rfl
  custody := h.custody.frame rfl rfl rfl rfl rfl rfl

theorem Kept.setDisposal {hand' : List Nat} {disposal : Option Disposal}
    (hcnt : ∀ other, ((disposal.map Disposal.senders).getD []).count other + hand'.count other =
      ((s.disposal.map Disposal.senders).getD []).count other + hand.count other) :
    Kept hand' { s with disposal := disposal } :=
  h.of_same ⟨rfl, rfl, rfl, rfl, rfl, rfl, rfl, rfl, rfl⟩ (h.custody.setDisposal hcnt)

theorem Kept.drain : Kept (s.senders ++ hand) { s with pending := ∅ } where
  registry := h.registry.of_eq rfl rfl rfl
  tables := by
    refine h.tables.mono (fun _ hup => hup) (fun _ _ hent => hent) ?_ (fun _ _ hget => hget)
      (fun _ hsome => hsome) (fun _ hsome => hsome)
    intro id pend hget
    cases hget
  numbered := h.numbered.of_eq rfl rfl
  custody := h.custody.drain

theorem Kept.dispose (hnext : s.dispose = some s') : Kept hand s' := by
  rw [Client.dispose] at hnext
  split_ifs at hnext with hdisp
  cases hnext
  have hnone : s.disposal = none := not_isSome_iff_eq_none.mp hdisp
  have hdrained : Kept hand
      { ({ s with pending := ∅ } : Client R) with disposal := some (.telling s.senders) } := by
    apply h.drain.setDisposal
    intro other
    rw [count_append, hnone]
    show s.senders.count other + _ = 0 + _
    omega
  exact hdrained

theorem Kept.tellDisposed (hnext : s.tellDisposed = some s') : Kept hand s' := by
  rw [Client.tellDisposed.eq_def] at hnext
  cases hdispl : s.disposal with
  | none =>
    rw [hdispl] at hnext
    cases hnext
  | some disposal =>
    rw [hdispl] at hnext
    cases disposal with
    | failing | clearing | finished => cases hnext
    | telling senders =>
      cases senders with
      | nil =>
        cases hnext
        apply h.setDisposal
        intro other
        rw [hdispl]
        rfl
      | cons sender senders =>
        cases hnext
        have hput : Kept (sender :: hand) { s with disposal := some (.telling senders) } := by
          apply h.setDisposal
          intro other
          rw [hdispl, count_cons]
          show senders.count other + _ = (sender :: senders).count other + _
          rw [count_cons]
          omega
        obtain ⟨entry, hent⟩ := isSome_iff_exists.mp
          (hput.custody.entry_of_hand mem_cons_self)
        exact hput.answer ⟨entry, hent, trivial⟩

theorem Kept.failDisposed (hnext : s.failDisposed = some s') : Kept hand s' := by
  rw [Client.failDisposed.eq_def] at hnext
  cases hdispl : s.disposal with
  | none =>
    rw [hdispl] at hnext
    cases hnext
  | some disposal =>
    rw [hdispl] at hnext
    cases disposal with
    | telling | clearing | finished => cases hnext
    | failing =>
      simp only at hnext
      split at hnext
      · cases hnext
        apply (h.fail _ .disposed).setDisposal
        intro other
        rw [disposal_fail, hdispl]
        rfl
      · cases hnext
        apply h.setDisposal
        intro other
        rw [hdispl]
        rfl

theorem Kept.clearDisposed (hnext : s.clearDisposed = some s') : Kept hand s' := by
  rw [Client.clearDisposed.eq_def] at hnext
  cases hdispl : s.disposal with
  | none =>
    rw [hdispl] at hnext
    cases hnext
  | some disposal =>
    rw [hdispl] at hnext
    cases disposal with
    | telling | failing | finished => cases hnext
    | clearing own =>
      simp only at hnext
      split_ifs at hnext
      cases hnext
      have hforgotten : Kept hand
          { s with serviceListeners := ∅, hello := none, attachment := none } := by
        apply h.forget
        · intro id listener hget
          cases hget
        · intro found hsome
          cases hsome
        · intro found hsome
          cases hsome
      apply hforgotten.setDisposal
      intro other
      rw [hdispl]
      rfl

/-! ## Runs -/

/-- An orderly step keeps the invariant. -/
theorem Kept.step {event : Event R} (hord : Orderly s event) (hnext : s.step event = some s') :
    Kept hand s' := by
  cases event with
  | connect => exact h.connect hord hnext
  | hello i hello => exact h.onHello hnext
  | fail i error =>
    cases hnext
    exact h.fail i error
  | disconnected i => exact h.onDisconnected hnext
  | tell i => exact h.tell hnext
  | receive i message =>
    rw [Client.step] at hnext
    cases hconn : s.connections[i]? with
    | none =>
      rw [hconn] at hnext
      cases hnext
    | some conn =>
      rw [hconn] at hnext
      simp only at hnext
      split_ifs at hnext
      cases hnext
      exact h.addMessage fun _ => rfl
  | handle call refusal => exact h.handle hnext
  | request target call =>
    rw [Client.step] at hnext
    split_ifs at hnext
    cases hnext
    exact h.addRequest
  | advance i event =>
    rw [Client.step] at hnext
    cases hreq : s.requests[i]? with
    | none =>
      rw [hreq] at hnext
      cases hnext
    | some request =>
      rw [hreq] at hnext
      exact h.requestStep hreq hord hnext
  | listen target => exact h.listen hnext
  | unlisten id =>
    cases hnext
    have hforgotten : Kept hand { s with
        serviceListeners := s.serviceListeners.erase id
        hello := s.hello
        attachment := s.attachment } := by
      apply h.forget
      · intro other listener hget
        rw [OrderedMap.get?_erase] at hget
        split_ifs at hget
        exact hget
      · exact fun _ hsome => hsome
      · exact fun _ hsome => hsome
    exact hforgotten
  | dispose => exact h.dispose hnext
  | tellDisposed => exact h.tellDisposed hnext
  | failDisposed => exact h.failDisposed hnext
  | clearDisposed => exact h.clearDisposed hnext

end

theorem kept_start (serverId : String) : Kept [] ({ serverId := serverId } : Client R) := by
  constructor
  case registry =>
    constructor
    case ids => intro i conn hfnd; cases hfnd
    case counter => rfl
    case last => intro i hfnd; cases hfnd
    case lifecycle => intro i conn hfnd; cases hfnd
  case tables =>
    constructor
    case pending => intro id pending hget; cases hget
    case listeners => intro id listener i hget; cases hget
    case hello => intro hello i hsome; cases hsome
    case attachment => intro target i hsome; cases hsome
  case numbered =>
    constructor
    case below => intro req i id hent; cases hent
    case unique => intro req req' i i' id hent; cases hent
  case custody =>
    constructor
    case tally => intro req; rfl
    case told => intro i conn req hfnd; cases hfnd
    case answering => intro call id pending reply hfnd; cases hfnd
    case suits => intro req id hmem; cases hmem
    case channel => intro i req hfnd; cases hfnd
    case fresh => intro i req hfnd; cases hfnd

theorem kept_of_run (h : (machine R).Run Orderly s) : Kept [] s := by
  apply h.invariant
  · rintro _ ⟨serverId, rfl⟩
    exact kept_start serverId
  · intro s s' event hkept hord hnext
    exact hkept.step hord hnext

end Client

end PiOxidized.Remote
