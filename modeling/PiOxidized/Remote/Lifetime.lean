/-
# What the tables of a client hold

As long as nothing of a failed connection is in the tables when the next one is registered, they
hold nothing but what belongs to the registered connection.
-/

import PiOxidized.Remote.Custody

namespace PiOxidized.Remote

open List Option Math

variable {R : Type}

/-- Whether the tables may still hold something of a connection. -/
def Connection.undrained (connection : Connection) : Bool := match connection.failCall with
  | none => true
  | some (.marked _) => true
  | _ => false

namespace Client

/-- What belongs to a connection may be in the tables. -/
def Up (s : Client R) (index : Nat) : Prop := s.connection = some index ∧
    ∃ connection, s.connections[index]? = some connection ∧ connection.undrained = true

/-- Connections are numbered in order. -/
structure Registry (s : Client R) : Prop where
  ids : ∀ (index : Nat) connection, s.connections[index]? = some connection →
    connection.id.val = index + 1
  counter : s.nextConnectionId.val = s.connections.length
  last : ∀ index, s.connection = some index → index + 1 = s.connections.length
  lifecycle : ∀ (index : Nat) connection, s.connections[index]? = some connection →
    (connection.failCall = none ↔ connection.lifecycle ≠ .disconnected)

/-- The tables hold what belongs to the registered connection. -/
structure Tables (s : Client R) : Prop where
  pending : ∀ id pending, s.pending.get? id = some pending →
    ∃ index, s.entryOf pending.sender = some (index, id) ∧ s.Up index
  listeners : ∀ id listener index, s.serviceListeners.get? id = some listener →
    listener.under = some index → s.Up index
  hello : ∀ hello index, s.hello = some (hello, index) → s.Up index
  attachment : ∀ target index, s.attachment = some (target, index) → s.Up index

/-- Request ids are numbered in order. -/
structure Numbered (s : Client R) : Prop where
  below : ∀ request index id, s.entryOf request = some (index, id) →
    ∃ number : U64, id = requestId number ∧ number.val ≤ s.nextRequestId.val
  unique : ∀ request request' index index' id, s.entryOf request = some (index, id) →
    s.entryOf request' = some (index', id) → request = request'

/-- The invariant of the client, with the senders in hand. -/
structure Kept (hand : List Nat) (s : Client R) : Prop where
  registry : Registry s
  tables : Tables s
  numbered : Numbered s
  custody : Custody hand s

/-- The states agree in what the tables are about. -/
structure SameTables (s s' : Client R) : Prop where
  connection : s'.connection = s.connection
  connections : s'.connections = s.connections
  nextConnectionId : s'.nextConnectionId = s.nextConnectionId
  nextRequestId : s'.nextRequestId = s.nextRequestId
  pending : s'.pending = s.pending
  serviceListeners : s'.serviceListeners = s.serviceListeners
  hello : s'.hello = s.hello
  attachment : s'.attachment = s.attachment
  entryOf : s'.entryOf = s.entryOf

variable {hand : List Nat} {s s' : Client R} {i : Nat} {conn conn' : Connection}

/-! ## Frames -/

variable {hand' : List Nat}

theorem sameTables_putRequest {request request' : Request R}
    (h : s.requests[i]? = some request) (hent : request'.entry = request.entry) :
    SameTables s (s.putRequest i request') :=
  ⟨rfl, rfl, rfl, rfl, rfl, rfl, rfl, rfl, entryOf_putRequest h hent⟩

theorem sameTables_putMessage (s : Client R) (call : Nat) (new : MessageCall R) :
    SameTables s (s.putMessage call new) :=
  ⟨rfl, rfl, rfl, rfl, rfl, rfl, rfl, rfl, rfl⟩

theorem sameTables_answer (s : Client R) (i : Nat) (reply : Reply R)
    (resol : Resolution) : SameTables s (s.answer i reply resol) := by
  rw [answer]
  cases hreq : s.requests[i]? with
  | none => exact ⟨rfl, rfl, rfl, rfl, rfl, rfl, rfl, rfl, rfl⟩
  | some request =>
    exact ⟨rfl, rfl, rfl, rfl, rfl, rfl, rfl, rfl, entryOf_putRequest hreq rfl⟩

theorem Up.of_eq (h : s.Up i) (hconn : s'.connection = s.connection)
    (hconns : s'.connections = s.connections) : s'.Up i := by
  rw [Up, hconn, hconns]
  exact h

theorem Registry.of_eq (h : Registry s) (hconn : s'.connection = s.connection)
    (hconns : s'.connections = s.connections)
    (hnext : s'.nextConnectionId = s.nextConnectionId) : Registry s' := by
  constructor
  case ids =>
    rw [hconns]
    exact h.ids
  case counter =>
    rw [hnext, hconns]
    exact h.counter
  case last =>
    rw [hconn, hconns]
    exact h.last
  case lifecycle =>
    rw [hconns]
    exact h.lifecycle

/-- Tables that lose entries, or states that add to the requests, keep what the tables say. -/
theorem Tables.mono (h : Tables s) (hup : ∀ i, s.Up i → s'.Up i)
    (hent : ∀ request entry, s.entryOf request = some entry → s'.entryOf request = some entry)
    (hpend : ∀ id pend, s'.pending.get? id = some pend → s.pending.get? id = some pend)
    (hlis : ∀ id listener, s'.serviceListeners.get? id = some listener →
      s.serviceListeners.get? id = some listener)
    (hhello : ∀ hello, s'.hello = some hello → s.hello = some hello)
    (hatt : ∀ attachment, s'.attachment = some attachment →
      s.attachment = some attachment) : Tables s' where
  pending := by
    intro id pend hget
    obtain ⟨i, hfnd, hidx⟩ := h.pending id pend (hpend id pend hget)
    exact ⟨i, hent _ _ hfnd, hup i hidx⟩
  listeners := by
    intro id listener i hget hunder
    exact hup i (h.listeners id listener i (hlis id listener hget) hunder)
  hello := by
    intro hello i hsome
    exact hup i (h.hello hello i (hhello _ hsome))
  attachment := by
    intro target i hsome
    exact hup i (h.attachment target i (hatt _ hsome))

theorem Numbered.of_eq (h : Numbered s) (hent : s'.entryOf = s.entryOf)
    (hnext : s'.nextRequestId = s.nextRequestId) : Numbered s' := by
  constructor
  case below =>
    rw [hent, hnext]
    exact h.below
  case unique =>
    rw [hent]
    exact h.unique

/-- What leaves the tables alone only has to keep custody. -/
theorem Kept.of_same (h : Kept hand s) (hsame : SameTables s s') (hcustody : Custody hand' s') :
    Kept hand' s' where
  registry := h.registry.of_eq hsame.connection hsame.connections hsame.nextConnectionId
  tables := by
    apply h.tables.mono
    case hup =>
      intro i hup
      exact hup.of_eq hsame.connection hsame.connections
    case hent =>
      rw [hsame.entryOf]
      exact fun _ _ hent => hent
    case hpend =>
      rw [hsame.pending]
      exact fun _ _ hget => hget
    case hlis =>
      rw [hsame.serviceListeners]
      exact fun _ _ hget => hget
    case hhello =>
      rw [hsame.hello]
      exact fun _ hsome => hsome
    case hatt =>
      rw [hsame.attachment]
      exact fun _ hsome => hsome
  numbered := h.numbered.of_eq hsame.entryOf hsame.nextRequestId
  custody := hcustody

/-- A sender in hand is used. -/
theorem Kept.answer {reply : Reply R} {resol : Resolution} (h : Kept (i :: hand) s)
    (hsuits : ∃ entry, s.entryOf i = some entry ∧ resol.Suits entry) :
    Kept hand (s.answer i reply resol) :=
  h.of_same (sameTables_answer s i reply resol) (h.custody.answer hsuits)

/-! ## Connections -/

/-- A connection with a number of its own is current exactly if it is registered. -/
theorem Registry.eq_of_isCurrent (h : Registry s) (hconn : s.connections[i]? = some conn)
    (hcur : s.isCurrent conn.id = true) : s.connection = some i := by
  obtain ⟨found, hfnd, hid⟩ := any_eq_true _ _ |>.mp hcur
  obtain ⟨place, hplc, hget⟩ := bind_eq_some_iff.mp hfnd
  have hsame : found.id = conn.id := eq_of_beq hid
  have hone := h.ids place found hget
  have htwo := h.ids i conn hconn
  rw [hsame] at hone
  obtain rfl : place = i := by omega
  exact hplc

theorem Registry.isCurrent_of_eq (hconn : s.connections[i]? = some conn)
    (hreg : s.connection = some i) : s.isCurrent conn.id = true := by
  rw [isCurrent, registered, hreg, bind_some, hconn, any_some]
  exact beq_self_eq_true _

/-- What is live is up. -/
theorem Registry.up_of_isLive (h : Registry s) (hconn : s.connections[i]? = some conn)
    (hlive : s.isLive conn.id = true) : s.Up i := by
  obtain ⟨found, hfnd, hboth⟩ := any_eq_true _ _ |>.mp hlive
  obtain ⟨hid, hconnected⟩ := Bool.and_eq_true_iff.mp hboth
  have hcur : s.isCurrent conn.id = true := by
    rw [isCurrent, hfnd, any_some]
    exact hid
  have hreg := h.eq_of_isCurrent hconn hcur
  rw [registered, hreg, bind_some, hconn] at hfnd
  cases hfnd
  refine ⟨hreg, conn, hconn, ?_⟩
  have hnone := (h.lifecycle i conn hconn).mpr (by rw [eq_of_beq hconnected]; decide)
  rw [Connection.undrained, hnone]

theorem Registry.putConnection (h : Registry s) (hconn : s.connections[i]? = some conn)
    (hid : conn'.id = conn.id)
    (hlife : conn'.failCall = none ↔ conn'.lifecycle ≠ .disconnected) :
    Registry (s.putConnection i conn') where
  ids := by
    intro place found hfnd
    rcases getElem?_set_cases hfnd with ⟨rfl, rfl⟩ | ⟨-, hfnd⟩
    · rw [hid]
      exact h.ids place conn hconn
    · exact h.ids place found hfnd
  counter := by
    show s.nextConnectionId.val = (s.connections.set i conn').length
    rw [length_set]
    exact h.counter
  last := by
    intro place hplc
    show place + 1 = (s.connections.set i conn').length
    rw [length_set]
    exact h.last place hplc
  lifecycle := by
    exact forall_set h.lifecycle hlife

theorem Up.putConnection_ne {place : Nat} (h : s.Up place) (hne : place ≠ i) :
    (s.putConnection i conn').Up place := by
  obtain ⟨hreg, found, hfnd, hup⟩ := h
  exact ⟨hreg, found, (getElem?_set_ne (Ne.symm hne)).trans hfnd, hup⟩

theorem Up.putConnection {place : Nat} (h : s.Up place) (hconn : s.connections[i]? = some conn)
    (hundrained : conn.undrained = true → conn'.undrained = true) :
    (s.putConnection i conn').Up place := by
  by_cases heq : place = i
  · subst heq
    obtain ⟨hreg, found, hfnd, hup⟩ := h
    obtain rfl := some.inj (hconn.symm.trans hfnd)
    exact ⟨hreg, conn', getElem?_set_of_some hconn, hundrained hup⟩
  · exact h.putConnection_ne heq

/-- A connection that changes without being drained. -/
theorem Kept.putConnection (h : Kept hand s) (hconn : s.connections[i]? = some conn)
    (hid : conn'.id = conn.id)
    (hlife : conn'.failCall = none ↔ conn'.lifecycle ≠ .disconnected)
    (hundrained : conn'.undrained = conn.undrained)
    (hcustody : Custody hand' (s.putConnection i conn')) :
    Kept hand' (s.putConnection i conn') where
  registry := h.registry.putConnection hconn hid hlife
  tables := h.tables.mono (fun _ hup => hup.putConnection hconn (hundrained ▸ id))
    (fun _ _ hent => hent) (fun _ _ hget => hget) (fun _ _ hget => hget)
    (fun _ hsome => hsome) (fun _ hsome => hsome)
  numbered := h.numbered.of_eq rfl rfl
  custody := hcustody

theorem Kept.fail (h : Kept hand s) (i : Nat) (error : ClientError) : Kept hand (s.fail i error) := by
  rw [Client.fail]
  cases hconn : s.connections[i]? with
  | none => exact h
  | some conn =>
    simp only
    by_cases hdown : conn.lifecycle = .disconnected
    · rw [if_pos hdown]
      exact h
    · rw [if_neg hdown]
      have hnone := (h.registry.lifecycle i conn hconn).mpr hdown
      refine h.putConnection hconn ?_ ?_ ?_ (h.custody.setConnection hconn ?_)
      · rfl
      · simp
      · rw [Connection.undrained, Connection.undrained, hnone]
      · rw [Connection.senders, Connection.senders, hnone]
        rfl

/-- Whether the tables hold nothing of any connection. -/
def Bare (s : Client R) : Prop := s.senders = [] ∧ s.attachment = none ∧
    ∀ listener ∈ s.serviceListeners.values, listener.under = none

/-- A connection that is failed but not drained is only replaced when nothing of it is left, and
numbers are not used twice. -/
def Orderly (s : Client R) : Event R → Prop
  | .connect => ((s.registered.any Connection.undrained) = true → s.Bare) ∧
      s.nextConnectionId ≠ U64.max
  | .advance _ .register => s.nextRequestId ≠ U64.max
  | _ => True

theorem val_wrappingSucc {n : U64} (h : n ≠ U64.max) : (wrappingSucc n).val = n.val + 1 := by
  have hlt := n.isLt
  have hne : n.val ≠ 2 ^ 64 - 1 := fun heq => h (Fin.ext heq)
  show (n.val + 1) % 2 ^ 64 = n.val + 1
  exact Nat.mod_eq_of_lt (by omega)

/-- Once the registered connection is drained nothing of it is in the tables. -/
theorem Tables.bare (h : Tables s) (hdrained : (s.registered.any Connection.undrained) = false) :
    s.Bare := by
  have hdown (i : Nat) : ¬ s.Up i := by
    rintro ⟨hreg, conn, hconn, hup⟩
    rw [registered, hreg, bind_some, hconn, any_some, hup] at hdrained
    cases hdrained
  refine ⟨?_, ?_, ?_⟩
  · apply eq_nil_iff_forall_not_mem.mpr
    intro sender hsend
    obtain ⟨pend, hpend, -⟩ := mem_map.mp hsend
    obtain ⟨id, hget⟩ := OrderedMap.mem_values_iff.mp hpend
    obtain ⟨i, -, hup⟩ := h.pending id pend hget
    exact hdown i hup
  · cases hatt : s.attachment with
    | none => rfl
    | some attachment => exact absurd (h.attachment _ _ hatt) (hdown _)
  · intro listener hlistener
    obtain ⟨id, hget⟩ := OrderedMap.mem_values_iff.mp hlistener
    cases hunder : listener.under with
    | none => rfl
    | some i => exact absurd (h.listeners id listener i hget hunder) (hdown i)

theorem Kept.connect (h : Kept hand s) (hord : Orderly s .connect) (hnext : s.connect = some s') :
    Kept hand s' := by
  obtain ⟨hdrained, hroom⟩ := hord
  rw [Client.connect] at hnext
  split_ifs at hnext with href
  cases hnext
  have hbare : s.Bare := by
    cases hundrained : s.registered.any Connection.undrained with
    | true => exact hdrained hundrained
    | false => exact h.tables.bare hundrained
  have hnew := val_wrappingSucc hroom
  have hcounter := h.registry.counter
  constructor
  case registry =>
    constructor
    case ids =>
      refine forall_concat h.registry.ids ?_
      rw [hnew, hcounter]
    case counter =>
      show (wrappingSucc s.nextConnectionId).val = (s.connections ++ [_]).length
      rw [hnew, hcounter, length_append, length_singleton]
    case last =>
      intro i hidx
      show i + 1 = (s.connections ++ [_]).length
      rw [← some.inj hidx, length_append, length_singleton]
    case lifecycle =>
      refine forall_concat h.registry.lifecycle ?_
      simp
  case tables =>
    constructor
    case pending =>
      intro id pending hget
      have hmem : pending.sender ∈ s.senders :=
        mem_map_of_mem (OrderedMap.mem_values_iff.mpr ⟨id, hget⟩)
      rw [hbare.1] at hmem
      cases hmem
    case listeners =>
      intro id listener i hget hunder
      rw [hbare.2.2 listener (OrderedMap.mem_values_iff.mpr ⟨id, hget⟩)] at hunder
      cases hunder
    case hello =>
      intro hello i hsome
      cases hsome
    case attachment =>
      intro target i hsome
      rw [hbare.2.1] at hsome
      cases hsome
  case numbered => exact h.numbered.of_eq rfl rfl
  case custody =>
    constructor
    case tally =>
      intro other
      have hweigh := weigh_append_singleton (fun conn => conn.senders.count other) s.connections
        { id := wrappingSucc s.nextConnectionId }
      have hzero : (Connection.senders { id := wrappingSucc s.nextConnectionId }).count other = 0 :=
        rfl
      refine Eq.trans ?_ (h.custody.tally other)
      simp only [held, senders] at hweigh ⊢
      omega
    case told =>
      refine forall_concat₁ h.custody.told ?_
      intro request hmem
      cases hmem
    case answering => exact h.custody.answering
    case suits => exact h.custody.suits
    case channel => exact h.custody.channel
    case fresh => exact h.custody.fresh

theorem Kept.onHello {hello : ServerHello} (h : Kept hand s) (hnext : s.onHello i hello = some s') :
    Kept hand s' := by
  rw [Client.onHello] at hnext
  cases hconn : s.connections[i]? with
  | none =>
    rw [hconn] at hnext
    cases hnext
  | some conn =>
    rw [hconn] at hnext
    simp only at hnext
    split_ifs at hnext with hguard
    cases hnext
    have hnone := (h.registry.lifecycle i conn hconn).mpr (by rw [hguard.1]; decide)
    have hset : Kept hand (s.putConnection i { conn with lifecycle := .connected }) := by
      refine h.putConnection hconn ?_ ?_ ?_ (h.custody.setConnection hconn ?_)
      · rfl
      · simp [hnone]
      · rfl
      · rfl
    exact hset.of_same ⟨rfl, rfl, rfl, rfl, rfl, rfl, rfl, rfl, rfl⟩
      (hset.custody.addMessage fun _ => rfl)

/-- What the table has was registered for the registered connection. -/
theorem Tables.entry_of_sender (h : Tables s) (hreg : s.connection = some i)
    {sender : Nat} (hsend : sender ∈ s.senders) : ∃ id, s.entryOf sender = some (i, id) := by
  obtain ⟨pend, hpend, rfl⟩ := mem_map.mp hsend
  obtain ⟨id, hget⟩ := OrderedMap.mem_values_iff.mp hpend
  obtain ⟨place, hent, hplc, -⟩ := h.pending id pend hget
  obtain rfl := some.inj (hplc.symm.trans hreg)
  exact ⟨id, hent⟩

theorem Kept.onDisconnected (h : Kept hand s) (hnext : s.onDisconnected i = some s') :
    Kept hand s' := by
  rw [Client.onDisconnected] at hnext
  cases hconn : s.connections[i]? with
  | none =>
    rw [hconn] at hnext
    cases hnext
  | some conn =>
    rw [hconn] at hnext
    simp only at hnext
    cases hcall : conn.failCall with
    | none =>
      rw [hcall] at hnext
      cases hnext
    | some call =>
      cases call with
      | telling | returned =>
        rw [hcall] at hnext
        cases hnext
      | marked error =>
        rw [hcall] at hnext
        simp only at hnext
        have hdown := (h.registry.lifecycle i conn hconn).not.mp
          (by rw [hcall]; exact some_ne_none _)
        have hemp : conn.senders = [] := by
          rw [Connection.senders, hcall]
          rfl
        split_ifs at hnext with hcur
        case neg =>
          -- The connection is registered no more.
          cases hnext
          constructor
          case registry => exact h.registry.putConnection hconn rfl (by simpa using hdown)
          case tables =>
            apply h.tables.mono
            case hup =>
              intro place hup
              apply hup.putConnection_ne
              rintro rfl
              exact hcur (Registry.isCurrent_of_eq hconn hup.1)
            case hent => exact fun _ _ hent => hent
            case hpend => exact fun _ _ hget => hget
            case hlis => exact fun _ _ hget => hget
            case hhello => exact fun _ hsome => hsome
            case hatt => exact fun _ hsome => hsome
          case numbered => exact h.numbered.of_eq rfl rfl
          case custody => exact h.custody.setConnection hconn hemp.symm
        have hreg := h.registry.eq_of_isCurrent hconn hcur
        cases hnext
        have hregistry : Registry (s.putConnection i
            { conn with failCall := some (.telling error s.senders) }) :=
          h.registry.putConnection hconn rfl (by simpa using hdown)
        constructor
        case registry => exact hregistry.of_eq rfl rfl rfl
        case tables =>
          constructor
          case pending =>
            intro id pending hget
            cases hget
          case listeners =>
            intro id listener place hget
            cases hget
          case hello =>
            intro hello place hsome
            cases hsome
          case attachment =>
            intro target place hsome
            cases hsome
        case numbered => exact h.numbered.of_eq rfl rfl
        case custody =>
          have hput : Custody hand (({ s with pending := ∅ } : Client R).putConnection i
              { conn with failCall := some (.telling error s.senders) }) := by
            apply h.custody.drain.putConnection hconn
            · intro other
              rw [hemp, count_append, count_nil, Nat.zero_add]
              rfl
            · intro other hoth
              exact h.tables.entry_of_sender hreg hoth
          exact hput.frame rfl rfl rfl rfl rfl rfl

theorem Kept.tell (h : Kept hand s) (hnext : s.tell i = some s') : Kept hand s' := by
  rw [Client.tell] at hnext
  cases hconn : s.connections[i]? with
  | none =>
    rw [hconn] at hnext
    cases hnext
  | some conn =>
    rw [hconn] at hnext
    simp only at hnext
    have hlife := h.registry.lifecycle i conn hconn
    cases hcall : conn.failCall with
    | none =>
      rw [hcall] at hnext
      cases hnext
    | some call =>
      rw [hcall] at hnext hlife
      have hdown : ¬ conn.lifecycle ≠ .disconnected := fun hup =>
        absurd (hlife.mpr hup) (some_ne_none _)
      cases call with
      | marked | returned => cases hnext
      | telling error senders =>
        cases senders with
        | nil =>
          cases hnext
          refine h.putConnection hconn ?_ ?_ ?_ (h.custody.setConnection hconn ?_)
          · rfl
          · simpa using hdown
          · rw [Connection.undrained, Connection.undrained, hcall]
          · rw [Connection.senders, Connection.senders, hcall]
            rfl
        | cons sender senders =>
          cases hnext
          have hsenders : conn.senders = sender :: senders := by
            rw [Connection.senders, hcall]
            rfl
          have hput : Kept (sender :: hand) (s.putConnection i
              { conn with failCall := some (.telling error senders) }) := by
            refine h.putConnection hconn ?_ ?_ ?_ (h.custody.putConnection hconn ?_ ?_)
            · rfl
            · simpa using hdown
            · rw [Connection.undrained, Connection.undrained, hcall]
            · intro other
              rw [hsenders, count_cons, count_cons]
              show senders.count other + _ = _
              omega
            · intro other hoth
              apply h.custody.told i conn other hconn
              rw [hsenders]
              exact mem_cons_of_mem _ hoth
          obtain ⟨id, hent⟩ := h.custody.told i conn sender hconn
            (by rw [hsenders]; exact mem_cons_self)
          exact hput.answer ⟨(i, id), hent, rfl⟩

end Client

end PiOxidized.Remote
