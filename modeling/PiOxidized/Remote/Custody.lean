/-
# Who is to answer a request

Once a request is registered, one place has the sender of its channel: the table, the callback
that handles its answer, the call that failed its connection or the disposal, until the request
is resolved.  `Custody` counts these places, with the senders a step has in hand while it moves
them.
-/

import PiOxidized.Math.Slots
import PiOxidized.Remote.Client

namespace PiOxidized.Remote

open List Option Bool Math

variable {R : Type}

def FailCall.senders : FailCall → List Nat
  | telling _ senders => senders
  | _ => []

/-- The requests the failing of a connection still has to tell. -/
def Connection.senders (connection : Connection) : List Nat :=
  (connection.failCall.map FailCall.senders).getD []

/-- Whether a callback has the sender of a request. -/
def MessageCall.holds (request : Nat) : MessageCall R → Nat
  | answering _ pending _ => if pending.sender = request then 1 else 0
  | _ => 0

def Disposal.senders : Disposal → List Nat
  | telling senders => senders
  | _ => []

/-- Before the request is registered. -/
def RequestPhase.isNew : RequestPhase R → Bool
  | admitted => true
  | validated => true
  | _ => false

/-- When the request no longer looks at its channel. -/
def RequestPhase.isOver : RequestPhase R → Bool
  | cancelling => true
  | returned _ => true
  | _ => false

def Request.isNew (request : Request R) : Bool := request.phase.isNew

def Request.isOver (request : Request R) : Bool := request.phase.isOver

/-- Whether a request of a connection and with an id may end so: only by its own answer, its own
connection or its own doing. -/
def Resolution.Suits (entry : Nat × String) : Resolution → Prop
  | response id => id = entry.2
  | failed connection => connection = entry.1
  | dropped => False
  | _ => True

namespace Client

/-- The connection a request was registered for, and its id. -/
def entryOf (s : Client R) (request : Nat) : Option (Nat × String) :=
  (s.requests[request]?).bind Request.entry

/-- Whether a request is resolved. -/
def isResolved (s : Client R) (request : Nat) : Prop := request ∈ s.resolved.map Prod.fst

/-- How often a request is waited for or resolved. -/
def held (s : Client R) (request : Nat) : Nat :=
  s.senders.count request + weigh (fun connection => connection.senders.count request) s.connections +
    weigh (MessageCall.holds request) s.messages +
    ((s.disposal.map Disposal.senders).getD []).count request +
    (s.resolved.map Prod.fst).count request

/-- Every registered request is held once, counting the senders in hand. -/
structure Custody (hand : List Nat) (s : Client R) : Prop where
  tally : ∀ request : Nat, s.held request + hand.count request =
    if (s.entryOf request).isSome then 1 else 0
  told : ∀ (index : Nat) (connection : Connection) (request : Nat), s.connections[index]? = some connection →
    request ∈ connection.senders → ∃ id, s.entryOf request = some (index, id)
  answering : ∀ (call : Nat) (id : String) (pending : PendingRequest) (reply : Reply R),
    s.messages[call]? = some (.answering id pending reply) →
    ∃ index, s.entryOf pending.sender = some (index, id)
  suits : ∀ (request : Nat) resolution, (request, resolution) ∈ s.resolved →
    ∃ entry, s.entryOf request = some entry ∧ resolution.Suits entry
  channel : ∀ (index : Nat) request, s.requests[index]? = some request → s.isResolved index →
    request.channel.isSome = true ∨ request.isOver = true
  fresh : ∀ (index : Nat) request, s.requests[index]? = some request → request.isNew = true →
    request.entry = none

variable {hand : List Nat} {s s' : Client R} {i : Nat} {req req' : Request R}

/-! ## Frames -/

theorem entryOf_of_requests (h : s'.requests = s.requests) : s'.entryOf = s.entryOf := by
  funext i
  rw [entryOf, h, entryOf]

theorem entryOf_putRequest (h : s.requests[i]? = some req) (hent : req'.entry = req.entry) :
    (s.putRequest i req').entryOf = s.entryOf := by
  funext other
  show ((s.requests.set i req')[other]?).bind Request.entry = _
  by_cases hoth : other = i
  · rw [hoth, getElem?_set_of_some h, entryOf, h]
    exact hent
  · rw [getElem?_set_ne (Ne.symm hoth), entryOf]

theorem entryOf_putRequest_self (h : s.requests[i]? = some req) :
    (s.putRequest i req').entryOf i = req'.entry := by
  show ((s.requests.set i req')[i]?).bind Request.entry = _
  rw [getElem?_set_of_some h, bind_some]

theorem entryOf_putRequest_ne {other : Nat} (h : other ≠ i) :
    (s.putRequest i req').entryOf other = s.entryOf other := by
  show ((s.requests.set i req')[other]?).bind Request.entry = _
  rw [getElem?_set_ne (Ne.symm h), entryOf]

theorem disposal_fail (s : Client R) (i : Nat) (error : ClientError) :
    (s.fail i error).disposal = s.disposal := by
  rw [fail]
  cases s.connections[i]? with
  | none => rfl
  | some conn =>
    simp only
    split_ifs
    · rfl
    · rfl

/-- A request that is registered is held somewhere. -/
theorem Custody.entry_of_hand (h : Custody hand s) {sender : Nat} (hsend : sender ∈ hand) :
    (s.entryOf sender).isSome = true := by
  by_contra hnone
  have htally := h.tally sender
  rw [if_neg hnone] at htally
  have hpos := count_pos_iff.mpr hsend
  omega

/-- What does not touch requests and their senders keeps custody. -/
theorem Custody.frame (h : Custody hand s) (hrequests : s'.requests = s.requests)
    (hpend : s'.pending = s.pending) (hconns : s'.connections = s.connections)
    (hmsgs : s'.messages = s.messages) (hdispl : s'.disposal = s.disposal)
    (hsolved : s'.resolved = s.resolved) : Custody hand s' := by
  have hent := entryOf_of_requests hrequests
  constructor
  case tally =>
    intro other
    rw [held, senders, hpend, hconns, hmsgs, hdispl, hsolved, hent]
    exact h.tally other
  case told =>
    rw [hconns, hent]
    exact h.told
  case answering =>
    rw [hmsgs, hent]
    exact h.answering
  case suits =>
    rw [hsolved, hent]
    exact h.suits
  case channel =>
    rw [hrequests]
    intro other found hfnd hmem
    rw [isResolved, hsolved] at hmem
    exact h.channel other found hfnd hmem
  case fresh =>
    rw [hrequests]
    exact h.fresh

/-- A request call goes on. -/
theorem Custody.putRequest (h : Custody hand s) (hreq : s.requests[i]? = some req)
    (hent : req'.entry = req.entry) (hnew : req'.isNew = true → req.entry = none)
    (hchan : req.channel.isSome = true ∨ req.isOver = true →
      req'.channel.isSome = true ∨ req'.isOver = true) :
    Custody hand (s.putRequest i req') := by
  have hsame := entryOf_putRequest hreq hent
  constructor
  case tally =>
    intro other
    rw [hsame]
    exact h.tally other
  case told =>
    rw [hsame]
    exact h.told
  case answering =>
    rw [hsame]
    exact h.answering
  case suits =>
    rw [hsame]
    exact h.suits
  case channel =>
    intro other found hfnd hmem
    rcases getElem?_set_cases hfnd with ⟨rfl, rfl⟩ | ⟨-, hfnd⟩
    · exact hchan (h.channel other req hreq hmem)
    · exact h.channel other found hfnd hmem
  case fresh =>
    refine forall_set h.fresh ?_
    intro hoth
    rw [hent]
    exact hnew hoth

/-! ## Connections -/

variable {conn conn' : Connection}

variable {hand' : List Nat}

/-- The senders of a connection go to another place, or to the hand. -/
theorem Custody.putConnection (h : Custody hand s) (hconn : s.connections[i]? = some conn)
    (hcnt : ∀ other, conn'.senders.count other + hand'.count other =
      conn.senders.count other + hand.count other)
    (htold : ∀ other ∈ conn'.senders, ∃ id, s.entryOf other = some (i, id)) :
    Custody hand' (s.putConnection i conn') := by
  refine { h with tally := ?tally, told := ?told }
  case tally =>
    intro other
    have hweigh := weigh_set (fun conn => conn.senders.count other) hconn conn'
    have htally := h.tally other
    have hmove := hcnt other
    show (s.putConnection i conn').held other + hand'.count other =
      if (s.entryOf other).isSome then 1 else 0
    rw [← htally]
    simp only [held, senders, Client.putConnection] at hweigh ⊢
    omega
  case told =>
    exact forall_set₁ h.told fun sender hsend => htold sender hsend

/-- A connection changes in other ways. -/
theorem Custody.setConnection (h : Custody hand s) (hconn : s.connections[i]? = some conn)
    (hsenders : conn'.senders = conn.senders) :
    Custody hand (s.putConnection i conn') := by
  apply h.putConnection hconn
  · intro other
    rw [hsenders]
  · intro other hoth
    rw [hsenders] at hoth
    exact h.told i conn other hconn hoth

/-! ## The table -/

variable {pend : PendingRequest} {id : String}

theorem count_senders_erase (h : s.pending.get? id = some pend) (other : Nat) :
    s.senders.count other = ((s.pending.erase id).values.map PendingRequest.sender).count other +
      [pend.sender].count other := by
  have hperm := (OrderedMap.values_erase_perm h).map PendingRequest.sender
  rw [senders, hperm.count_eq other, map_cons, ← singleton_append, count_append]
  exact Nat.add_comm _ _

theorem held_pending (s : Client R) (pend : OrderedMap String PendingRequest) (other : Nat) :
    ({ s with pending := pend } : Client R).held other + s.senders.count other =
      s.held other + (pend.values.map PendingRequest.sender).count other := by
  simp only [held, senders]
  omega

/-- An entry that is taken is in hand. -/
theorem Custody.take (h : Custody hand s) (hget : s.pending.get? id = some pend) :
    Custody (pend.sender :: hand) { s with pending := s.pending.erase id } := by
  refine { h with tally := ?tally }
  case tally =>
    intro other
    have hcnt := count_senders_erase hget other
    have hheld := held_pending s (s.pending.erase id) other
    rw [← singleton_append, count_append]
    refine Eq.trans ?_ (h.tally other)
    omega

/-- A table that is drained is in hand. -/
theorem Custody.drain (h : Custody hand s) :
    Custody (s.senders ++ hand) { s with pending := ∅ } := by
  refine { h with tally := ?tally }
  case tally =>
    intro other
    have hheld := held_pending s ∅ other
    rw [count_append]
    refine Eq.trans ?_ (h.tally other)
    change _ = s.held other + 0 at hheld
    omega

/-! ## Callbacks -/

variable {new : MessageCall R}

variable {old : MessageCall R}

/-- A callback takes a sender out of hand or puts it there. -/
theorem Custody.putMessage {call : Nat} (h : Custody hand s) (hcall : s.messages[call]? = some old)
    (hcnt : ∀ other, new.holds other + hand'.count other = old.holds other + hand.count other)
    (hent : ∀ id pend reply, new = .answering id pend reply →
      ∃ i, s.entryOf pend.sender = some (i, id)) :
    Custody hand' (s.putMessage call new) := by
  refine { h with tally := ?tally, answering := ?answering }
  case tally =>
    intro other
    have hweigh := weigh_set (MessageCall.holds other) hcall new
    have htally := h.tally other
    have hmove := hcnt other
    show (s.putMessage call new).held other + hand'.count other =
      if (s.entryOf other).isSome then 1 else 0
    rw [← htally]
    simp only [held, senders, Client.putMessage] at hweigh ⊢
    omega
  case answering =>
    intro other id pend reply hfnd
    rcases getElem?_set_cases hfnd with ⟨rfl, heq⟩ | ⟨-, hfnd⟩
    · exact hent id pend reply heq.symm
    · exact h.answering other id pend reply hfnd

/-- A callback goes on without a sender. -/
theorem Custody.setMessage {call : Nat} (h : Custody hand s) (hcall : s.messages[call]? = some old)
    (hold : ∀ other, old.holds other = 0) (hnew : ∀ other, new.holds other = 0) :
    Custody hand (s.putMessage call new) := by
  apply h.putMessage hcall
  · intro other
    rw [hold, hnew]
  · rintro id pend reply rfl
    have hzero := hnew pend.sender
    rw [MessageCall.holds, if_pos rfl] at hzero
    cases hzero

theorem Custody.addMessage (h : Custody hand s) (hnew : ∀ other, new.holds other = 0) :
    Custody hand { s with messages := s.messages ++ [new] } := by
  refine { h with tally := ?tally, answering := ?answering }
  case tally =>
    intro other
    have hweigh := weigh_append_singleton (MessageCall.holds other) s.messages new
    rw [hnew] at hweigh
    refine Eq.trans ?_ (h.tally other)
    simp only [held, senders] at hweigh ⊢
    omega
  case answering =>
    intro other id pend reply hfnd
    rcases getElem?_append_cases hfnd with hfnd | ⟨-, rfl⟩
    · exact h.answering other id pend reply hfnd
    · have hzero := hnew pend.sender
      rw [MessageCall.holds, if_pos rfl] at hzero
      cases hzero

/-! ## Resolutions -/

variable {resolution : Resolution}

theorem held_resolved (s : Client R) (resolution : Resolution) (sender other : Nat) :
    ({ s with resolved := s.resolved ++ [(sender, resolution)] } : Client R).held other =
      s.held other + [sender].count other := by
  simp only [held, senders, map_append, map_cons, map_nil, count_append]
  omega

/-- A request that is in hand is resolved, and looks at its channel or nowhere. -/
theorem Custody.resolve (h : Custody (i :: hand) s)
    (hreq : s.requests[i]? = some req) (hent : req'.entry = req.entry)
    (hnew : req'.isNew = true → req.isNew = true)
    (hchan : req'.channel.isSome = true ∨ req'.isOver = true)
    (hsuits : ∃ entry, s.entryOf i = some entry ∧ resolution.Suits entry) :
    Custody hand { s.putRequest i req' with
      resolved := s.resolved ++ [(i, resolution)] } := by
  have hsame := entryOf_putRequest hreq hent
  constructor
  case tally =>
    intro other
    have hheld := held_resolved (s.putRequest i req') resolution i other
    have htally := h.tally other
    rw [← singleton_append, count_append] at htally
    show _ + _ = if ((s.putRequest i req').entryOf other).isSome then 1 else 0
    rw [hsame, ← htally]
    exact (congrArg (· + hand.count other) hheld).trans (Nat.add_assoc _ _ _)
  case told =>
    show ∀ (place : Nat) (conn : Connection) (other : Nat), _ → _ →
      ∃ id, (s.putRequest i req').entryOf other = some (place, id)
    rw [hsame]
    exact h.told
  case answering =>
    show ∀ (call : Nat) (id : String) (pend : PendingRequest) (reply : Reply R), _ →
      ∃ place, (s.putRequest i req').entryOf pend.sender = some (place, id)
    rw [hsame]
    exact h.answering
  case suits =>
    show ∀ (other : Nat) (found : Resolution), _ →
      ∃ entry, (s.putRequest i req').entryOf other = some entry ∧ found.Suits entry
    rw [hsame]
    intro other found hmem
    rcases mem_append.mp hmem with hmem | hmem
    · exact h.suits other found hmem
    · obtain ⟨rfl, rfl⟩ := Prod.mk.inj (mem_singleton.mp hmem)
      exact hsuits
  case channel =>
    intro other found hfnd hmem
    rcases getElem?_set_cases hfnd with ⟨rfl, rfl⟩ | ⟨hne, hfnd⟩
    · exact hchan
    · refine h.channel other found hfnd ?_
      rw [isResolved, map_append, mem_append] at hmem
      exact hmem.resolve_right fun hsingle => hne (mem_singleton.mp hsingle)
  case fresh =>
    intro other found hfnd hoth
    rcases getElem?_set_cases hfnd with ⟨rfl, rfl⟩ | ⟨-, hfnd⟩
    · rw [hent]
      exact h.fresh other req hreq (hnew hoth)
    · exact h.fresh other found hfnd hoth

/-- The sender in hand is used. -/
theorem Custody.answer {reply : Reply R} (h : Custody (i :: hand) s)
    (hsuits : ∃ entry, s.entryOf i = some entry ∧ resolution.Suits entry) :
    Custody hand (s.answer i reply resolution) := by
  have hent := h.entry_of_hand mem_cons_self
  rw [Client.answer]
  cases hreq : s.requests[i]? with
  | none =>
    rw [entryOf, hreq] at hent
    cases hent
  | some req => exact h.resolve hreq rfl (fun hnew => hnew) (.inl rfl) hsuits

/-! ## New requests and disposal -/

theorem entryOf_addRequest (hent : req.entry = none) :
    ({ s with requests := s.requests ++ [req] } : Client R).entryOf = s.entryOf := by
  funext other
  show ((s.requests ++ [req])[other]?).bind Request.entry = (s.requests[other]?).bind _
  rcases Nat.lt_trichotomy other s.requests.length with hlt | rfl | hgt
  · rw [getElem?_append_left hlt]
  · rw [getElem?_concat_length, getElem?_eq_none (Nat.le_refl _)]
    exact hent
  · rw [getElem?_eq_none (by rw [length_append, length_singleton]; omega),
      getElem?_eq_none (Nat.le_of_lt hgt)]

theorem Custody.addRequest (h : Custody hand s) (hent : req.entry = none) :
    Custody hand { s with requests := s.requests ++ [req] } := by
  have hsame := entryOf_addRequest (s := s) hent
  constructor
  case tally =>
    intro other
    rw [hsame]
    exact h.tally other
  case told =>
    rw [hsame]
    exact h.told
  case answering =>
    rw [hsame]
    exact h.answering
  case suits =>
    rw [hsame]
    exact h.suits
  case channel =>
    refine forall_concat h.channel ?_
    intro hmem
    -- Nobody resolves a request before it is there.
    have hpos := count_pos_iff.mpr hmem
    have htally := h.tally s.requests.length
    rw [entryOf, getElem?_eq_none (Nat.le_refl _)] at htally
    simp only [held, bind_none, isSome_none, false_eq_true, if_false] at htally
    change 0 < (s.resolved.map Prod.fst).count s.requests.length at hpos
    omega
  case fresh =>
    exact forall_concat h.fresh fun _ => hent

/-- A request gets its entry in the table. -/
theorem Custody.enter {target : RpcTarget} {place : Nat} (h : Custody hand s)
    (hreq : s.requests[i]? = some req) (hnone : req.entry = none)
    (hent : req'.entry = some (place, id)) (hnew : req'.isNew = false)
    (hfree : s.pending.get? id = none) :
    Custody hand { s.putRequest i req' with
      pending := s.pending.insert id ⟨target, i⟩ } := by
  have hpre : s.entryOf i = none := by
    rw [entryOf, hreq]
    exact hnone
  have hself : (s.putRequest i req').entryOf i = some (place, id) :=
    (entryOf_putRequest_self hreq).trans hent
  have hkeep : ∀ other entry, s.entryOf other = some entry →
      (s.putRequest i req').entryOf other = some entry := by
    intro other entry hfnd
    rw [entryOf_putRequest_ne, hfnd]
    rintro rfl
    rw [hpre] at hfnd
    cases hfnd
  constructor
  case tally =>
    intro other
    have hheld := held_pending (s.putRequest i req') (s.pending.insert id ⟨target, i⟩) other
    have hperm := (OrderedMap.values_insert_perm hfree ⟨target, i⟩).map PendingRequest.sender
    have hcnt := hperm.count_eq other
    rw [map_cons, ← singleton_append, count_append] at hcnt
    have htally := h.tally other
    have hlater : (s.putRequest i req').senders.count other = s.senders.count other := rfl
    have hsame : (s.putRequest i req').held other = s.held other := rfl
    show _ + _ = if ((s.putRequest i req').entryOf other).isSome then 1 else 0
    by_cases heq : other = i
    · subst heq
      rw [hpre] at htally
      rw [hself]
      simp only [isSome_none, false_eq_true, if_false, isSome_some, if_true,
        count_singleton_self] at htally hcnt ⊢
      change _ = s.senders.count other at hlater
      change _ = 1 + s.senders.count other at hcnt
      omega
    · rw [entryOf_putRequest_ne heq, ← htally]
      have hzero : [i].count other = 0 := count_eq_zero.mpr fun hmem =>
        heq (mem_singleton.mp hmem)
      change _ = [i].count other + s.senders.count other at hcnt
      dsimp only at hheld ⊢
      omega
  case told =>
    intro place conn other hconn hmem
    obtain ⟨id', hid⟩ := h.told place conn other hconn hmem
    exact ⟨id', hkeep other _ hid⟩
  case answering =>
    intro call id' pend reply hcall
    obtain ⟨place, hplc⟩ := h.answering call id' pend reply hcall
    exact ⟨place, hkeep _ _ hplc⟩
  case suits =>
    intro other found hmem
    obtain ⟨entry, hfnd, hsuits⟩ := h.suits other found hmem
    exact ⟨entry, hkeep _ _ hfnd, hsuits⟩
  case channel =>
    intro other found hfnd hmem
    rcases getElem?_set_cases hfnd with ⟨rfl, rfl⟩ | ⟨-, hfnd⟩
    · have hpos := count_pos_iff.mpr hmem
      have htally := h.tally other
      rw [hpre] at htally
      simp only [held, isSome_none, false_eq_true, if_false] at htally
      change 0 < (s.resolved.map Prod.fst).count other at hpos
      omega
    · exact h.channel other found hfnd hmem
  case fresh =>
    refine forall_set h.fresh ?_
    intro hisnew
    rw [hnew] at hisnew
    cases hisnew

theorem Custody.setDisposal {disposal : Option Disposal} (h : Custody hand s)
    (hcnt : ∀ other, ((disposal.map Disposal.senders).getD []).count other + hand'.count other =
      ((s.disposal.map Disposal.senders).getD []).count other + hand.count other) :
    Custody hand' { s with disposal := disposal } := by
  refine { h with tally := ?tally }
  case tally =>
    intro other
    have hmove := hcnt other
    refine Eq.trans ?_ (h.tally other)
    simp only [held, senders] at hmove ⊢
    omega

end Client

end PiOxidized.Remote
