/-
# No request outlives its connection

Once the call that failed a connection has returned, nothing of the connection is left in the
client and every request it had has come to its one end, as long as a reconnection does not come
between the two sections of failing a connection.
-/

import PiOxidized.Remote.Outlived

namespace PiOxidized.Remote

open List Math

variable {R : Type}

namespace Client

/-- Whether another call has taken the entry of a request and is about to answer it. -/
def BeingAnswered (s : Client R) (request : Nat) : Prop :=
  (∃ (call : Nat) (id : String) (pending : PendingRequest) (reply : Reply R),
    s.messages[call]? = some (.answering id pending reply) ∧ pending.sender = request) ∨
  request ∈ (s.disposal.map Disposal.senders).getD []

/-- Whether the call that failed a connection has returned. -/
def HasFailed (s : Client R) (index : Nat) : Prop :=
  ∃ connection, s.connections[index]? = some connection ∧ connection.failCall = some .returned

/-- Nothing is left of a connection, and none of its requests is left waiting. -/
structure Left (s : Client R) (index : Nat) : Prop where
  pending : ∀ id pending, s.pending.get? id = some pending →
    ∃ entry, s.entryOf pending.sender = some entry ∧ entry.1 ≠ index
  listeners : ∀ id listener, s.serviceListeners.get? id = some listener →
    listener.under ≠ some index
  attachment : ∀ attachment, s.attachment = some attachment → attachment.2 ≠ index
  answered : ∀ (number : Nat) (request : Request R) (id : String),
    s.requests[number]? = some request → request.entry = some (index, id) →
      (s.isResolved number ∧ (request.channel.isSome = true ∨ request.isOver = true)) ∨
        s.BeingAnswered number

/-- What the routes and tables hold belongs to the registered connection. -/
structure Current (s : Client R) : Prop where
  pending : ∀ id pending, s.pending.get? id = some pending →
    ∃ entry, s.entryOf pending.sender = some entry ∧ s.connection = some entry.1
  listeners : ∀ id listener index, s.serviceListeners.get? id = some listener →
    listener.under = some index → s.connection = some index
  hello : ∀ hello, s.hello = some hello → s.connection = some hello.2
  attachment : ∀ attachment, s.attachment = some attachment → s.connection = some attachment.2

/-- No request outlives its connection. -/
structure NothingOutlives (s : Client R) : Prop where
  left : ∀ index, s.HasFailed index → s.Left index
  once : ∀ request, (s.resolved.map Prod.fst).count request ≤ 1
  suits : ∀ request resolution, (request, resolution) ∈ s.resolved →
    ∃ entry, s.entryOf request = some entry ∧ resolution.Suits entry
  current : s.Current

variable {s : Client R} {i : Nat}

theorem not_up_of_hasFailed (h : s.HasFailed i) : ¬ s.Up i := by
  rintro ⟨-, found, hfnd, hup⟩
  obtain ⟨conn, hconn, hret⟩ := h
  obtain rfl := Option.some.inj (hfnd.symm.trans hconn)
  rw [Connection.undrained, hret] at hup
  cases hup

/-- A request that no table and no failing connection has is resolved or being answered. -/
theorem Kept.resolved_or_beingAnswered {num : Nat} (h : Kept [] s)
    (hent : (s.entryOf num).isSome = true) (hpend : num ∉ s.senders)
    (hsenders : ∀ (place : Nat) conn, s.connections[place]? = some conn → num ∉ conn.senders) :
    s.isResolved num ∨ s.BeingAnswered num := by
  have htally := h.custody.tally num
  rw [if_pos hent, held, count_eq_zero.mpr hpend] at htally
  have hnone : weigh (fun conn => conn.senders.count num) s.connections = 0 := by
    by_contra hsome
    obtain ⟨conn, hconn, hcnt⟩ := weigh_pos_iff.mp (Nat.pos_of_ne_zero hsome)
    obtain ⟨place, hplc⟩ := getElem?_of_mem hconn
    exact hsenders place conn hplc (count_pos_iff.mp hcnt)
  rw [hnone, count_nil] at htally
  by_cases hsolved : s.isResolved num
  · exact .inl hsolved
  apply Or.inr
  rw [count_eq_zero.mpr hsolved] at htally
  by_cases htold : num ∈ (s.disposal.map Disposal.senders).getD []
  · exact .inr htold
  rw [count_eq_zero.mpr htold] at htally
  -- Only a callback is left to have it.
  have hpos : 0 < weigh (MessageCall.holds num) s.messages := by omega
  obtain ⟨message, hmsg, hholds⟩ := weigh_pos_iff.mp hpos
  obtain ⟨call, hcall⟩ := getElem?_of_mem hmsg
  apply Or.inl
  cases message with
  | answering id pend reply =>
    rw [MessageCall.holds] at hholds
    by_cases hsend : pend.sender = num
    · exact ⟨call, id, pend, reply, hcall, hsend⟩
    · rw [if_neg hsend] at hholds
      exact absurd hholds (Nat.lt_irrefl 0)
  | handshake | message | failing | done => exact absurd hholds (Nat.lt_irrefl 0)

theorem Kept.left (h : Kept [] s) (hfail : s.HasFailed i) : s.Left i := by
  have hdown := not_up_of_hasFailed hfail
  have hpend : ∀ id pending, s.pending.get? id = some pending →
      ∃ entry, s.entryOf pending.sender = some entry ∧ entry.1 ≠ i := by
    intro id pending hget
    obtain ⟨place, hent, hup⟩ := h.tables.pending id pending hget
    refine ⟨(place, id), hent, ?_⟩
    rintro rfl
    exact hdown hup
  constructor
  case pending => exact hpend
  case listeners =>
    intro id listener hget hunder
    exact hdown (h.tables.listeners id listener i hget hunder)
  case attachment =>
    intro attachment hsome
    rintro rfl
    exact hdown (h.tables.attachment attachment.1 attachment.2 hsome)
  case answered =>
    intro num request id hreq hent
    have hfnd : s.entryOf num = some (i, id) := by
      rw [entryOf, hreq]
      exact hent
    have hdone := h.resolved_or_beingAnswered (by rw [hfnd]; rfl) (fun hmem => by
        obtain ⟨pending, hvalue, hsend⟩ := mem_map.mp hmem
        obtain ⟨other, hget⟩ := OrderedMap.mem_values_iff.mp hvalue
        obtain ⟨entry, hoth, hne⟩ := hpend other pending hget
        rw [hsend, hfnd] at hoth
        cases hoth
        exact hne rfl)
      (fun place conn hconn hmem => by
        obtain ⟨other, hoth⟩ := h.custody.told place conn num hconn hmem
        rw [hfnd] at hoth
        obtain ⟨rfl, -⟩ := Prod.mk.inj (Option.some.inj hoth)
        obtain ⟨failed, hget, hret⟩ := hfail
        obtain rfl := Option.some.inj (hget.symm.trans hconn)
        rw [Connection.senders, hret] at hmem
        cases hmem)
    exact hdone.imp_left fun hsolved =>
      ⟨hsolved, h.custody.channel num request hreq hsolved⟩

theorem Kept.current (h : Kept [] s) : s.Current where
  pending := by
    intro id pend hget
    obtain ⟨place, hent, hup⟩ := h.tables.pending id pend hget
    exact ⟨(place, id), hent, hup.1⟩
  listeners := fun id listener place hget hunder =>
    (h.tables.listeners id listener place hget hunder).1
  hello := fun hello hsome => (h.tables.hello hello.1 hello.2 hsome).1
  attachment := fun attachment hsome => (h.tables.attachment attachment.1 attachment.2 hsome).1

/-- In an orderly run no request outlives its connection. -/
theorem nothingOutlives_of_run (h : (machine R).Run Orderly s) : s.NothingOutlives := by
  have hkept := kept_of_run h
  constructor
  case left => exact fun i hfailed => hkept.left hfailed
  case once =>
    intro request
    have htally := hkept.custody.tally request
    rw [held] at htally
    split_ifs at htally
    · omega
    · omega
  case suits => exact hkept.custody.suits
  case current => exact hkept.current

/-- A check for orderly steps, with every connection drained. -/
def orderlyCheck (s : Client Unit) : Event Unit → Bool
  | .connect => !s.registered.any Connection.undrained && decide (s.nextConnectionId ≠ U64.max)
  | .advance _ .register => decide (s.nextRequestId ≠ U64.max)
  | _ => true

/-- A connection fails with a request waiting, and the client reconnects. -/
theorem nothingOutlives_reconnected : ∃ s : Client Unit,
    s.NothingOutlives ∧ s.HasFailed 0 ∧ s.isResolved 0 ∧ s.connection = some 1 := by
  have hstart : (machine Unit).Run Orderly { serverId := "s" } := .start ⟨"s", rfl⟩
  obtain ⟨s, hrun, hs⟩ := hstart.execute orderlyCheck
    [.connect, .hello 0 ⟨⟨8, by decide⟩, "s"⟩, .handle 0 none, .request (.server "s") (),
      .advance 0 (.validate (.ok ())), .advance 0 .register, .advance 0 (.send .admitted),
      .fail 0 (.disconnected "x"), .disconnected 0, .tell 0, .tell 0, .connect]
    (fun s => (s.connections[0]?).any (fun conn => conn.failCall == some .returned) &&
      (s.resolved.map Prod.fst).contains 0 && s.connection == some 1)
    (by
      intro s event hcheck
      cases event with
      | connect =>
        obtain ⟨hdrained, hroom⟩ := Bool.and_eq_true_iff.mp hcheck
        refine ⟨fun hundrained => ?_, of_decide_eq_true hroom⟩
        simp only [hundrained] at hdrained
        cases hdrained
      | advance i event =>
        cases event with
        | register => exact of_decide_eq_true (p := s.nextRequestId ≠ U64.max) hcheck
        | _ => trivial
      | _ => trivial)
    (by decide +kernel)
  simp only [Bool.and_eq_true_iff, contains_iff_mem, beq_iff_eq] at hs
  obtain ⟨⟨hfailed, hresolved⟩, hconn⟩ := hs
  obtain ⟨conn, hfound, hcall⟩ := Option.any_eq_true _ _ |>.mp hfailed
  exact ⟨s, nothingOutlives_of_run hrun, ⟨conn, hfound, eq_of_beq hcall⟩, hresolved, hconn⟩

/-- A reconnection between the two sections of failing a connection strands a request. -/
theorem request_outlives : ¬ ∀ s : Client Unit,
    (machine Unit).Run (fun _ _ => True) s → s.NothingOutlives := by
  intro h
  have hstart : (machine Unit).Run (fun _ _ => True) { serverId := "s" } := .start ⟨"s", rfl⟩
  obtain ⟨s, hrun, hs⟩ := hstart.execute (fun _ _ => true)
    [.connect, .hello 0 ⟨⟨8, by decide⟩, "s"⟩, .handle 0 none, .request (.server "s") (),
      .advance 0 (.validate (.ok ())), .advance 0 .register, .advance 0 (.send .admitted),
      .fail 0 (.disconnected "x"), .connect, .disconnected 0]
    (fun s => s.pending.get? "request-1" == some ⟨.server "s", 0⟩ &&
      s.entryOf 0 == some (0, "request-1") &&
      (s.connections[0]?).any fun conn => conn.failCall == some .returned)
    (fun _ _ _ => trivial)
    (by decide +kernel)
  simp only [Bool.and_eq_true_iff] at hs
  obtain ⟨⟨hget, hentry⟩, hret⟩ := hs
  obtain ⟨conn, hconn, hcall⟩ := Option.any_eq_true _ _ |>.mp hret
  have hleft := (h s hrun).left 0 ⟨conn, hconn, eq_of_beq hcall⟩
  obtain ⟨entry, hfound, hne⟩ := hleft.pending _ _ (eq_of_beq hget)
  rw [eq_of_beq hentry] at hfound
  cases hfound
  exact hne rfl

end Client

end PiOxidized.Remote
