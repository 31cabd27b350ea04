/-
# Reservations of subscription ids

A subscribe call releases its reservation twice: when it registers and again when
its pending operation finishes.  The second release is harmless unless another
call has reserved the id in between, and this is all that the exclusiveness of
reservations needs.
-/

import PiOxidized.Math.Slots
import PiOxidized.Service.Endpoint.System

namespace PiOxidized.Service.Endpoint

open Math OrderedMap

/-- Whether an admitted subscribe call has not reached registration. -/
def SubscribeStage.unregistered : SubscribeStage → Bool
  | .admitted => true
  | .opened => true
  | _ => false

theorem SubscribeStage.unregistered_opened : SubscribeStage.opened.unregistered = true := rfl

theorem SubscribeStage.unregistered_finished : SubscribeStage.finished.unregistered = false := rfl

section

variable {U K : Type}

/-- One if the party is an admitted subscribe call for the id that has not registered. -/
def Process.reserves (id : JsString) : Process U K → Nat
  | .subscribe call => (decide (call.id = id) && call.stage.unregistered).toNat
  | _ => 0

/-- One if the party is closing a subscription of the id. -/
def Process.closes (id : JsString) : Process U K → Nat
  | .unsubscribe other (.closing _) => (decide (other = id)).toNat
  | _ => 0

/-- Number of unfinished admitted operations a party holds. -/
def Process.operations : Process U K → Nat
  | .subscribe call => (decide (call.stage ≠ .finished)).toNat + call.worker.holds.toNat
  | .unsubscribe _ (.closing _) => 1
  | _ => 0

/-! ## Counting operations -/

theorem EndpointState.pendingOperations_complete (state : EndpointState)
    (reservation : Option Reservation) :
    (state.complete reservation).pendingOperations = state.pendingOperations - 1 := rfl

theorem EndpointState.subscriptions_complete (state : EndpointState)
    (reservation : Option Reservation) :
    (state.complete reservation).subscriptions = state.subscriptions := by
  unfold complete
  cases reservation with
  | none => rfl
  | some reservation => cases reservation <;> rfl

theorem EndpointState.pendingOperations_releaseDelivery (state : EndpointState) (held : Bool) :
    (state.releaseDelivery held).pendingOperations = state.pendingOperations - held.toNat := by
  cases held <;> rfl

theorem EndpointState.pendingOperations_failSubscription (state : EndpointState) (id : JsString)
    (token : Option Nat) (error : ServiceError) :
    (state.failSubscription id token error).2.pendingOperations = state.pendingOperations := by
  unfold failSubscription
  split_ifs <;> rfl

theorem EndpointState.pendingOperations_registerSubscription (state : EndpointState)
    (id : JsString) (sub : Nat) :
    (state.registerSubscription id sub).2.pendingOperations = state.pendingOperations := by
  unfold registerSubscription
  split_ifs <;> rfl

/-- A step of a subscribe call that leaves every reservation as it is. -/
structure Quiet (call call' : SubscribeCall U K) (state state' : EndpointState) : Prop where
  id : call'.id = call.id
  unregistered : call'.stage.unregistered = call.stage.unregistered
  pendingIds : state'.pendingIds = state.pendingIds
  closingIds : state'.closingIds = state.closingIds
  subscriptions : ∀ id, state'.subscriptions.contains id = true →
    state.subscriptions.contains id = true
  operations : (Process.subscribe call).operations ≤ state.pendingOperations →
    state'.pendingOperations + (Process.subscribe call).operations =
      state.pendingOperations + (Process.subscribe call').operations

variable {call call' : SubscribeCall U K} {state state' : EndpointState} {i : Nat} {id : JsString}

variable {error : ServiceError}

section

variable (hid : call'.id = call.id) (hstage : call'.stage = call.stage)

include hid hstage

/-- A step of the listener or the worker is quiet. -/
theorem Quiet.of_worker (hpend : state'.pendingIds = state.pendingIds)
    (hcls : state'.closingIds = state.closingIds)
    (hsubs : ∀ id, state'.subscriptions.contains id = true → state.subscriptions.contains id = true)
    (hops : call.worker.holds.toNat ≤ state.pendingOperations →
      state'.pendingOperations + call.worker.holds.toNat =
        state.pendingOperations + call'.worker.holds.toNat) : Quiet call call' state state' where
  id := hid
  unregistered := by rw [hstage]
  pendingIds := hpend
  closingIds := hcls
  subscriptions := hsubs
  operations := by
    simp only [Process.operations, hstage]
    intro hcnt
    have := hops (by omega)
    omega

/-- A worker step that leaves the endpoint state as it is and holds as much as before. -/
theorem Quiet.of_same_state (hholds : call'.worker.holds = call.worker.holds) :
    Quiet call call' state state := by
  refine Quiet.of_worker hid hstage rfl rfl (fun _ hhas => hhas) ?_
  intro _
  rw [hholds]

theorem Quiet.of_complete (hheld : call'.worker.holds = false) :
    Quiet call call' state (state.releaseDelivery call.worker.holds) := by
  cases hholds : call.worker.holds with
  | false =>
    refine Quiet.of_same_state hid hstage ?_
    rw [hheld, hholds]
  | true =>
    refine Quiet.of_worker hid hstage rfl rfl (fun _ hhas => hhas) ?_
    rw [hholds, hheld]
    intro hcnt
    rw [EndpointState.pendingOperations_releaseDelivery]
    simp only [Bool.toNat_true, Bool.toNat_false] at hcnt ⊢
    omega

end

theorem EndpointState.contains_failSubscription {other : JsString} {token : Option Nat}
    (h : (state.failSubscription id token error).2.subscriptions.contains other = true) :
    state.subscriptions.contains other = true := by
  unfold failSubscription at h
  split_ifs at h
  · rw [contains, get?_erase] at h
    split_ifs at h
    · cases h
    · exact h
  · exact h

theorem Quiet.of_failSubscription (hid : call'.id = call.id) (hstage : call'.stage = call.stage)
    (hholds : call'.worker.holds = call.worker.holds) :
    Quiet call call' state (state.failSubscription call.id call.token error).2 := by
  refine Quiet.of_worker hid hstage ?_ ?_ ?_ ?_
  · unfold EndpointState.failSubscription
    split_ifs <;> rfl
  · unfold EndpointState.failSubscription
    split_ifs <;> rfl
  · intro other
    exact EndpointState.contains_failSubscription
  · intro _
    rw [EndpointState.pendingOperations_failSubscription, hholds]

/-- A step of a subscribe call leaves reservations alone, ends the call, or registers it. -/
theorem SubscribeCall.advance_cases {event : CallEvent U K}
    (h : call.advance i state event = some (call', state')) :
    Quiet call call' state state' ∨
    (call.stage ≠ .finished ∧ (call.stage.unregistered = false → event = .finish) ∧
      call' = { call with stage := .finished } ∧
      state' = state.complete (some (.pending call.id))) ∨
    (event = .register ∧ call.stage = .opened ∧ call' = { call with
        stage := if (state.registerSubscription call.id i).1 then .registered else .refused } ∧
      state' = (state.registerSubscription call.id i).2) := by
  cases advanced_of_advance h with
  | opened hstage =>
    refine .inl ⟨rfl, ?_, rfl, rfl, fun _ hhas => hhas, fun _ => ?_⟩
    · rw [hstage]
      rfl
    · simp [Process.operations, hstage]
  | abandon hstage =>
    refine .inr (.inl ⟨?_, ?_, rfl, rfl⟩)
    · rw [hstage]
      exact SubscribeStage.noConfusion
    · rw [hstage]
      exact fun hreg => Bool.noConfusion hreg
  | register hstage => exact .inr (.inr ⟨rfl, hstage, rfl, rfl⟩)
  | spawn hstage hwork =>
    refine .inl ⟨rfl, ?_, rfl, rfl, fun _ hhas => hhas, fun _ => ?_⟩
    · rw [hstage]
      rfl
    · simp [Process.operations, hstage, hwork]
  | finish hstage =>
    refine .inr (.inl ⟨?_, fun _ => rfl, rfl, rfl⟩)
    rcases hstage with hstage | hstage
    · rw [hstage]
      exact SubscribeStage.noConfusion
    · rw [hstage]
      exact SubscribeStage.noConfusion
  | offer | send => exact .inl (Quiet.of_same_state rfl rfl rfl)
  | receive hwork | count hwork | current hwork | stale hwork | disposed hwork
  | publish hwork | publishFailed hwork =>
    exact .inl (Quiet.of_same_state rfl rfl (by simp [hwork]))
  | admitted hwork =>
    exact .inl (Quiet.of_worker rfl rfl rfl rfl (fun _ hhas => hhas) (by simp [hwork]))
  | published hwork =>
    have hheld : state.complete none = state.releaseDelivery call.worker.holds := by
      rw [hwork]
      rfl
    rw [hheld]
    exact .inl (Quiet.of_complete rfl rfl rfl)
  | overflowed hwork => exact .inl (Quiet.of_failSubscription rfl rfl (by simp [hwork]))
  | failed hwork => exact .inl (Quiet.of_failSubscription rfl rfl (by simp [hwork]))
  | @closed held hwork =>
    have hheld : held = call.worker.holds := by simp [hwork]
    rw [hheld]
    exact .inl (Quiet.of_complete rfl rfl rfl)
  | drop => exact .inl (Quiet.of_complete rfl rfl rfl)

/-- The counter is the number of unfinished admitted operations. -/
def Counted (system : System U K) : Prop :=
  system.state.pendingOperations = weigh Process.operations system.processes

variable {system : System U K} {process : Process U K}

variable {system' : System U K}

variable {process' : Process U K} {event : Event U K}

/-- Replacing a party moves the counter with the operations it holds. -/
theorem Counted.set (h : Counted sys) (hproc : sys.processes[i]? = some process)
    (hmoved : process.operations ≤ sys.state.pendingOperations →
      state'.pendingOperations + process.operations =
        sys.state.pendingOperations + process'.operations) :
    Counted ⟨state', sys.processes.set i process'⟩ := by
  have hexch := weigh_set Process.operations hproc process'
  have hheld := le_weigh_of_getElem? Process.operations hproc
  rw [← h] at hexch hheld
  have hnext := hmoved hheld
  show state'.pendingOperations = weigh Process.operations (sys.processes.set i process')
  omega

theorem Counted.append (h : Counted sys)
    (hmoved : state'.pendingOperations = sys.state.pendingOperations + process.operations) :
    Counted ⟨state', sys.processes ++ [process]⟩ := by
  show state'.pendingOperations = weigh Process.operations (sys.processes ++ [process])
  rw [weigh_append_singleton, hmoved, h]

/-- Every step keeps the count. -/
theorem Counted.step (h : Counted sys) (hstep : sys.step event = some sys') : Counted sys' := by
  cases System.moved_of_step hstep with
  | unchanged => exact h
  | @subscribe id state hadmn =>
    unfold EndpointState.admitSubscribe at hadmn
    split_ifs at hadmn
    rw [← Except.ok.inj hadmn]
    exact h.append rfl
  | @call i event call call' state' hcall hadv =>
    apply h.set hcall
    intro hcnt
    rcases SubscribeCall.advance_cases hadv with
      hquiet | ⟨hstage, -, rfl, rfl⟩ | ⟨-, hstage, rfl, rfl⟩
    · exact hquiet.operations hcnt
    · simp only [Process.operations, EndpointState.pendingOperations_complete] at hcnt ⊢
      simp [hstage] at hcnt ⊢
      omega
    · rw [EndpointState.pendingOperations_registerSubscription]
      cases (sys.state.registerSubscription call.id i).1 <;> simp [Process.operations, hstage]
  | entered | failed | dispose => exact h.append rfl
  | rejected hproc | closing hproc | disposing hproc => exact h.set hproc fun _ => rfl
  | returned hproc =>
    apply h.set hproc
    intro hcnt
    simp only [Process.operations, EndpointState.pendingOperations_complete] at hcnt ⊢
    omega

/-! ## Exclusiveness -/

/-- Every id has at most one owner, and the two reservation sets say who it is. -/
structure Exclusive (system : System U K) : Prop where
  pending : ∀ id, id ∈ system.state.pendingIds ↔ 0 < weigh (Process.reserves id) system.processes
  closing : ∀ id, id ∈ system.state.closingIds ↔ 0 < weigh (Process.closes id) system.processes
  census : ∀ id, weigh (Process.reserves id) system.processes +
    weigh (Process.closes id) system.processes + (system.state.subscriptions.contains id).toNat ≤ 1

/-- A call that went through registration finishes only while its id is not
reserved again. -/
def Unshared (system : System U K) : Event U K → Prop
  | .call index .finish => ∀ call : SubscribeCall U K,
      system.processes[index]? = some (.subscribe call) → call.id ∉ system.state.pendingIds
  | _ => True

section

variable (h : Exclusive system)

include h

/-- A step that keeps every weight and reservation and registers nothing. -/
theorem Exclusive.frame (hres : ∀ id, weigh (Process.reserves id) system'.processes =
      weigh (Process.reserves id) system.processes)
    (hclo : ∀ id, weigh (Process.closes id) system'.processes =
      weigh (Process.closes id) system.processes)
    (hpend : system'.state.pendingIds = system.state.pendingIds)
    (hcls : system'.state.closingIds = system.state.closingIds)
    (hsubs : ∀ id, system'.state.subscriptions.contains id = true →
      system.state.subscriptions.contains id = true) : Exclusive system' where
  pending := by
    intro id
    rw [hpend, hres]
    exact h.pending id
  closing := by
    intro id
    rw [hcls, hclo]
    exact h.closing id
  census := by
    intro id
    have hcensus := h.census id
    rw [hres, hclo]
    cases hhas : system'.state.subscriptions.contains id with
    | false => exact Nat.le_trans (Nat.le_add_right _ _) hcensus
    | true =>
      rw [hsubs id hhas] at hcensus
      exact hcensus

/-- A party without reservations joins. -/
theorem Exclusive.append (hres : ∀ id, process.reserves id = 0)
    (hclo : ∀ id, process.closes id = 0) (hpend : state'.pendingIds = system.state.pendingIds)
    (hcls : state'.closingIds = system.state.closingIds)
    (hsubs : state'.subscriptions = system.state.subscriptions) :
    Exclusive ⟨state', system.processes ++ [process]⟩ := by
  apply h.frame _ _ hpend hcls
  · intro id hhas
    rw [← hsubs]
    exact hhas
  · intro id
    rw [weigh_append_singleton, hres, Nat.add_zero]
  · intro id
    rw [weigh_append_singleton, hclo, Nat.add_zero]

/-- A party is replaced by one with the same reservations. -/
theorem Exclusive.set (hproc : system.processes[i]? = some process)
    (hres : ∀ id, process'.reserves id = process.reserves id)
    (hclo : ∀ id, process'.closes id = process.closes id)
    (hpend : state'.pendingIds = system.state.pendingIds)
    (hcls : state'.closingIds = system.state.closingIds)
    (hsubs : ∀ id, state'.subscriptions.contains id = true →
      system.state.subscriptions.contains id = true) :
    Exclusive ⟨state', system.processes.set i process'⟩ :=
  h.frame (fun id => weigh_set_of_eq hproc (hres id))
    (fun id => weigh_set_of_eq hproc (hclo id)) hpend hcls hsubs

/-- An admitted call takes a free id. -/
theorem Exclusive.subscribe (hadmn : system.state.admitSubscribe id = .ok state) :
    Exclusive ⟨state, system.processes ++ [.subscribe { id := id }]⟩ := by
  unfold EndpointState.admitSubscribe at hadmn
  split_ifs at hadmn with hdisp htkn
  rw [← Except.ok.inj hadmn]
  simp only [Bool.or_eq_true, decide_eq_true_eq, not_or] at htkn
  obtain ⟨⟨hsub, hpend⟩, hcls⟩ := htkn
  rw [h.pending] at hpend
  rw [h.closing] at hcls
  have hweights : ∀ other, (Process.subscribe { id := id } : Process U K).reserves other =
        (decide (id = other)).toNat ∧
      (Process.subscribe { id := id } : Process U K).closes other = 0 := by
    intro other
    simp [Process.reserves, Process.closes, SubscribeStage.unregistered]
  constructor
  case pending =>
    intro other
    simp only [weigh_append_singleton, (hweights other).1, Finset.mem_insert, h.pending]
    by_cases heq : id = other
    · simp [heq]
    · simp [heq, Ne.symm heq]
  case closing =>
    intro other
    simp only [weigh_append_singleton, (hweights other).2, h.closing, Nat.add_zero]
  case census =>
    intro other
    have hcensus := h.census other
    simp only [weigh_append_singleton, (hweights other).1, (hweights other).2]
    by_cases heq : id = other
    · subst heq
      rw [Bool.not_eq_true] at hsub
      simp only [hsub, decide_true, Bool.toNat_true, Bool.toNat_false]
      omega
    · simpa [heq] using hcensus

/-- A call that ends releases only its own reservation. -/
theorem Exclusive.finish (hcall : system.processes[i]? = some (.subscribe call))
    (hunshared : call.stage.unregistered = false → call.id ∉ system.state.pendingIds) :
    Exclusive ⟨system.state.complete (some (.pending call.id)),
      system.processes.set i (.subscribe { call with stage := .finished })⟩ := by
  have hresvs := fun id => weigh_set (Process.reserves id) hcall
    (.subscribe { call with stage := .finished })
  have hclo := fun id => weigh_set (Process.closes id) hcall
    (.subscribe { call with stage := .finished })
  simp only [Process.reserves, Process.closes, SubscribeStage.unregistered_finished,
    Bool.and_false, Bool.toNat_false, Nat.add_zero] at hresvs hclo
  have hown : weigh (Process.reserves call.id)
      (system.processes.set i (.subscribe { call with stage := .finished })) = 0 := by
    have hres := hresvs call.id
    cases hstage : call.stage.unregistered with
    | true =>
      have hcensus := h.census call.id
      rw [hstage, decide_eq_true rfl, Bool.and_true, Bool.toNat_true] at hres
      omega
    | false =>
      have hfree := hunshared hstage
      rw [h.pending] at hfree
      omega
  have hoth : ∀ id, id ≠ call.id → weigh (Process.reserves id)
      (system.processes.set i (.subscribe { call with stage := .finished })) =
        weigh (Process.reserves id) system.processes := by
    intro id hne
    have hres := hresvs id
    rw [decide_eq_false (Ne.symm hne), Bool.false_and, Bool.toNat_false] at hres
    exact hres
  constructor
  case pending =>
    intro id
    show id ∈ system.state.pendingIds.erase call.id ↔ _
    rw [Finset.mem_erase, h.pending]
    by_cases heq : id = call.id
    · subst heq
      simp [hown]
    · simp [heq, hoth id heq]
  case closing =>
    intro id
    rw [hclo]
    exact h.closing id
  case census =>
    intro id
    have hcensus := h.census id
    have hres := hresvs id
    simp only [hclo, EndpointState.subscriptions_complete]
    omega

/-- Registration turns the reservation into a live subscription or drops it. -/
theorem Exclusive.register (hcall : system.processes[i]? = some (.subscribe call))
    (hstage : call.stage = .opened) {stage : SubscribeStage}
    (hreg : stage = if (system.state.registerSubscription call.id i).1 then .registered
      else .refused) :
    Exclusive ⟨(system.state.registerSubscription call.id i).2,
      system.processes.set i (.subscribe { call with stage := stage })⟩ := by
  have hunregistered : stage.unregistered = false := by
    rw [hreg]
    split_ifs <;> rfl
  have hresvs := fun id => weigh_set (Process.reserves id) hcall
    (.subscribe { call with stage := stage })
  have hclo := fun id => weigh_set (Process.closes id) hcall
    (.subscribe { call with stage := stage })
  simp only [Process.reserves, Process.closes, hstage, hunregistered,
    SubscribeStage.unregistered_opened, Bool.and_false, Bool.and_true, Bool.toNat_false,
    Nat.add_zero] at hresvs hclo
  have hpend : (system.state.registerSubscription call.id i).2.pendingIds =
      system.state.pendingIds.erase call.id := by
    unfold EndpointState.registerSubscription
    split_ifs <;> rfl
  have hcls : (system.state.registerSubscription call.id i).2.closingIds =
      system.state.closingIds := by
    unfold EndpointState.registerSubscription
    split_ifs <;> rfl
  have hhas : ∀ id,
      (system.state.registerSubscription call.id i).2.subscriptions.contains id = true →
        id = call.id ∨ system.state.subscriptions.contains id = true := by
    intro id
    unfold EndpointState.registerSubscription
    split_ifs
    · exact .inr
    · rw [contains, get?_insert]
      split_ifs with heq
      · exact fun _ => .inl heq
      · exact .inr
  have hcensusOwn := h.census call.id
  have hown : weigh (Process.reserves call.id)
      (system.processes.set i (.subscribe { call with stage := stage })) = 0 := by
    have hres := hresvs call.id
    rw [decide_eq_true rfl, Bool.toNat_true] at hres
    omega
  have hoth : ∀ id, id ≠ call.id → weigh (Process.reserves id)
      (system.processes.set i (.subscribe { call with stage := stage })) =
        weigh (Process.reserves id) system.processes := by
    intro id hne
    have hres := hresvs id
    rw [decide_eq_false (Ne.symm hne), Bool.toNat_false] at hres
    exact hres
  constructor
  case pending =>
    intro id
    rw [hpend, Finset.mem_erase, h.pending]
    by_cases heq : id = call.id
    · subst heq
      constructor
      · rintro ⟨hne, -⟩
        exact absurd rfl hne
      · intro hpos
        rw [hown] at hpos
        exact absurd hpos (Nat.lt_irrefl 0)
    · simp [heq, hoth id heq]
  case closing =>
    intro id
    rw [hcls, hclo]
    exact h.closing id
  case census =>
    intro id
    rw [hclo]
    by_cases heq : id = call.id
    · subst heq
      have hlive := Bool.toNat_le
        ((system.state.registerSubscription call.id i).2.subscriptions.contains call.id)
      have hres := hresvs call.id
      rw [decide_eq_true rfl, Bool.toNat_true] at hres
      rw [hown]
      simp only
      omega
    · have hcensus := h.census id
      rw [hoth id heq]
      cases hlive : (system.state.registerSubscription call.id i).2.subscriptions.contains id with
      | false => exact Nat.le_trans (Nat.le_add_right _ _) hcensus
      | true =>
        rcases hhas id hlive with hid | hpre
        · exact absurd hid heq
        · rw [hpre] at hcensus
          exact hcensus

/-- An unsubscribe call takes a live subscription over. -/
theorem Exclusive.closing_step {entry : EndpointSubscription}
    (hproc : system.processes[i]? = some (.unsubscribe id .entered))
    (hent : system.state.subscriptions.get? id = some entry) :
    Exclusive ⟨{ system.state with
        subscriptions := system.state.subscriptions.erase id
        closingIds := insert id system.state.closingIds
        pendingOperations := system.state.pendingOperations + 1 },
      system.processes.set i (.unsubscribe id (.closing entry.subscription))⟩ := by
  have hres := fun other => weigh_set_of_eq (f := Process.reserves other)
    (b := .unsubscribe id (.closing entry.subscription)) hproc rfl
  have hclo := fun other => weigh_set (Process.closes other) hproc
    (.unsubscribe id (.closing entry.subscription))
  simp only [Process.closes, Nat.add_zero] at hclo
  have hlive : system.state.subscriptions.contains id = true := by
    rw [contains, hent]
    rfl
  have hhas : ∀ other, (system.state.subscriptions.erase id).contains other =
      if other = id then false else system.state.subscriptions.contains other := by
    intro other
    rw [contains, get?_erase]
    split_ifs <;> rfl
  constructor
  case pending =>
    intro other
    rw [hres]
    exact h.pending other
  case closing =>
    intro other
    show other ∈ insert id system.state.closingIds ↔ _
    rw [Finset.mem_insert, h.closing, hclo]
    by_cases heq : other = id
    · simp [heq]
    · simp [heq, Ne.symm heq]
  case census =>
    intro other
    have hcensus := h.census other
    show _ + _ + ((system.state.subscriptions.erase id).contains other).toNat ≤ 1
    rw [hres, hclo, hhas]
    by_cases heq : other = id
    · subst heq
      rw [hlive, Bool.toNat_true] at hcensus
      rw [if_pos rfl, decide_eq_true rfl, Bool.toNat_true, Bool.toNat_false]
      omega
    · simpa [heq, Ne.symm heq] using hcensus

/-- An unsubscribe call that returns releases its own reservation. -/
theorem Exclusive.returned {sub : Nat}
    (hproc : system.processes[i]? = some (.unsubscribe id (.closing sub))) :
    Exclusive ⟨system.state.complete (some (.closing id)),
      system.processes.set i (.unsubscribe id (.returned sub))⟩ := by
  have hres := fun other => weigh_set_of_eq (f := Process.reserves other)
    (b := .unsubscribe id (.returned sub)) hproc rfl
  have hclo := fun other => weigh_set (Process.closes other) hproc (.unsubscribe id (.returned sub))
  simp only [Process.closes, Nat.add_zero] at hclo
  constructor
  case pending =>
    intro other
    rw [hres]
    exact h.pending other
  case closing =>
    intro other
    have hcensus := h.census other
    have hshut := hclo other
    show other ∈ system.state.closingIds.erase id ↔ _
    rw [Finset.mem_erase, h.closing]
    by_cases heq : other = id
    · subst heq
      rw [decide_eq_true rfl, Bool.toNat_true] at hshut
      constructor
      · rintro ⟨hne, -⟩
        exact absurd rfl hne
      · intro hpos
        simp only at hpos
        omega
    · rw [decide_eq_false (Ne.symm heq), Bool.toNat_false, Nat.add_zero] at hshut
      rw [hshut]
      exact and_iff_right heq
  case census =>
    intro other
    have hcensus := h.census other
    have hshut := hclo other
    simp only [hres, EndpointState.subscriptions_complete]
    omega

/-- Every step that meets the condition keeps ids exclusive. -/
theorem Exclusive.step (hunshared : Unshared system event)
    (hstep : system.step event = some system') : Exclusive system' := by
  cases System.moved_of_step hstep with
  | unchanged => exact h
  | subscribe hadmn => exact h.subscribe hadmn
  | @call i event call call' state' hcall hadv =>
    rcases SubscribeCall.advance_cases hadv with
      hquiet | ⟨-, hfinish, rfl, rfl⟩ | ⟨-, hstage, rfl, rfl⟩
    · refine h.set hcall ?_ (fun _ => rfl) hquiet.pendingIds hquiet.closingIds hquiet.subscriptions
      intro id
      simp only [Process.reserves, hquiet.id, hquiet.unregistered]
    · apply h.finish hcall
      intro hreg
      obtain rfl := hfinish hreg
      exact hunshared call hcall
    · exact h.register hcall hstage rfl
  | entered | failed | dispose => exact h.append (fun _ => rfl) (fun _ => rfl) rfl rfl rfl
  | rejected hproc =>
    exact h.set hproc (fun _ => rfl) (fun _ => rfl) rfl rfl (fun _ hhas => hhas)
  | closing hproc hent => exact h.closing_step hproc hent
  | returned hproc => exact h.returned hproc
  | disposing hproc hsubs =>
    refine h.set hproc (fun _ => rfl) (fun _ => rfl) rfl rfl ?_
    intro id hhas
    rcases hsubs with rfl | rfl
    · exact hhas
    · cases hhas

end

theorem exclusive_new : Exclusive (System.new : System U K) where
  pending := by
    intro id
    simp [System.new, EndpointState.new, weigh]
  closing := by
    intro id
    simp [System.new, EndpointState.new, weigh]
  census := by
    intro id
    simp [System.new, EndpointState.new, weigh, contains]

/-- In every run in which no registered call finishes while its id is reserved
again: an id is in at most one of the live, pending
and closing sets; it is pending exactly while one admitted subscribe call for it
has not registered; registration finds no live subscription; and the counter is
the number of unfinished admitted operations. -/
theorem reservations_exclusive {sys : System U K} (h : (endpoint U K).Run Unshared sys) :
    (∀ id, ¬(id ∈ sys.state.pendingIds ∧ id ∈ sys.state.closingIds) ∧
      ¬(id ∈ sys.state.pendingIds ∧ sys.state.subscriptions.contains id = true) ∧
      ¬(id ∈ sys.state.closingIds ∧ sys.state.subscriptions.contains id = true)) ∧
    (∀ id, weigh (Process.reserves id) sys.processes = if id ∈ sys.state.pendingIds then 1 else 0) ∧
    (∀ (i : Nat) (call : SubscribeCall U K), sys.processes[i]? = some (.subscribe call) →
      call.stage = .opened → sys.state.subscriptions.get? call.id = none) ∧
    sys.state.pendingOperations = weigh Process.operations sys.processes := by
  have hexclusive : Exclusive sys := h.invariant
    (fun _ hstart => hstart ▸ exclusive_new) (fun _ _ _ hpre => hpre.step)
  have hcounted : Counted sys := h.invariant
    (fun _ hstart => hstart ▸ rfl) (fun _ _ _ hpre _ => hpre.step)
  refine ⟨?_, ?_, ?_, hcounted⟩
  · intro id
    have hcensus := hexclusive.census id
    rw [hexclusive.pending, hexclusive.closing]
    refine ⟨?_, ?_, ?_⟩
    · rintro ⟨hpend, hclosing⟩
      omega
    · rintro ⟨hpend, hlive⟩
      rw [hlive, Bool.toNat_true] at hcensus
      omega
    · rintro ⟨hclosing, hlive⟩
      rw [hlive, Bool.toNat_true] at hcensus
      omega
  · intro id
    have hcensus := hexclusive.census id
    split_ifs with hpend
    · rw [hexclusive.pending] at hpend
      omega
    · rw [hexclusive.pending] at hpend
      omega
  · intro i call hcall hstage
    have hcensus := hexclusive.census call.id
    have hres := le_weigh_of_getElem? (Process.reserves call.id) hcall
    simp only [Process.reserves, hstage, SubscribeStage.unregistered_opened, decide_true,
      Bool.and_true, Bool.toNat_true] at hres
    have hlive : (sys.state.subscriptions.get? call.id).isSome = false := by
      cases hcontains : sys.state.subscriptions.contains call.id with
      | false => exact hcontains
      | true =>
        rw [hcontains, Bool.toNat_true] at hcensus
        omega
    exact Option.isSome_eq_false_iff.mp hlive |> Option.isNone_iff_eq_none.mp

end

/-- An id is subscribed, unsubscribed and reserved again. -/
theorem reservations_exclusive_resubscribed :
    ∃ sys : System Unit Unit, (endpoint Unit Unit).Run Unshared sys ∧
      ⟨[120]⟩ ∈ sys.state.pendingIds ∧
      weigh (Process.reserves ⟨[120]⟩) sys.processes = 1 := by
  obtain ⟨sys, hrun, hpend⟩ := (Machine.Run.start rfl : (endpoint Unit Unit).Run Unshared _).execute
    (fun sys event =>
      match event with
      | .call _ .finish => decide (sys.state.pendingIds = ∅)
      | _ => true)
    [.subscribe ⟨[120]⟩, .call 0 .opened, .call 0 .register, .call 0 .spawnUpdateWorker,
      .call 0 .finish, .unsubscribe ⟨[120]⟩, .admitUnsubscribe 1, .unsubscribed 1,
      .subscribe ⟨[120]⟩]
    (fun sys => decide (⟨[120]⟩ ∈ sys.state.pendingIds))
    (fun sys event hcheck => by
      unfold Unshared
      split
      · intro call _ hmember
        rw [of_decide_eq_true hcheck] at hmember
        exact Finset.notMem_empty _ hmember
      · trivial)
    (by decide +kernel)
  have hmember := of_decide_eq_true hpend
  have hcount := (reservations_exclusive hrun).2.1 ⟨[120]⟩
  rw [if_pos hmember] at hcount
  exact ⟨sys, hrun, hmember, hcount⟩

/-- A call that finishes late releases the reservation of a later call for its id:
the later call is unregistered and not pending, and a third call is admitted and
finds its subscription live when it registers. -/
theorem reservation_released_twice :
    (∃ sys : System Unit Unit, (endpoint Unit Unit).Run (fun _ _ => True) sys ∧
      (weigh (Process.reserves ⟨[120]⟩) sys.processes = 1 ∧ ⟨[120]⟩ ∉ sys.state.pendingIds)) ∧
    ∃ sys : System Unit Unit, (endpoint Unit Unit).Run (fun _ _ => True) sys ∧
      sys.processes[3]? = some (Process.subscribe { id := ⟨[120]⟩, stage := .opened }) ∧
      sys.state.subscriptions.get? ⟨[120]⟩ = some ⟨2, 2⟩ := by
  have hstart : (endpoint Unit Unit).Run (fun _ _ => True) System.new := Machine.Run.start rfl
  obtain ⟨released, hreleased, hlost⟩ := hstart.execute (fun _ _ => true)
    [.subscribe ⟨[120]⟩, .call 0 .opened, .call 0 .register, .unsubscribe ⟨[120]⟩,
      .admitUnsubscribe 1, .unsubscribed 1, .subscribe ⟨[120]⟩, .call 0 .spawnUpdateWorker,
      .call 0 .finish]
    (fun sys => decide (weigh (Process.reserves ⟨[120]⟩) sys.processes = 1 ∧
      ⟨[120]⟩ ∉ sys.state.pendingIds))
    (fun _ _ _ => trivial) (by decide +kernel)
  obtain ⟨overwritten, hoverwritten, hlive⟩ := hstart.execute (fun _ _ => true)
    [.subscribe ⟨[120]⟩, .call 0 .opened, .call 0 .register, .unsubscribe ⟨[120]⟩,
      .admitUnsubscribe 1, .unsubscribed 1, .subscribe ⟨[120]⟩, .call 0 .spawnUpdateWorker,
      .call 0 .finish, .subscribe ⟨[120]⟩, .call 2 .opened, .call 2 .register, .call 3 .opened]
    (fun sys => decide (
      sys.processes[3]? = some (Process.subscribe { id := ⟨[120]⟩, stage := .opened }) ∧
      sys.state.subscriptions.get? ⟨[120]⟩ = some ⟨2, 2⟩))
    (fun _ _ _ => trivial) (by decide +kernel)
  exact ⟨⟨released, hreleased, of_decide_eq_true hlost⟩,
    ⟨overwritten, hoverwritten, of_decide_eq_true hlive⟩⟩

end PiOxidized.Service.Endpoint
