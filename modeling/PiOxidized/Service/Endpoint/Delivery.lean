/-
# Isolation of deliveries

What one subscribe call's worker hands to its publisher is a prefix of what its
own listener queued, whatever else happens at the endpoint.  That it stays silent
once its subscription has been closed rests on the token it captured and on the
moment the subscription was found current.
-/

import PiOxidized.Service.Endpoint.Reservations

namespace PiOxidized.Service.Endpoint

open List Option Math

section

variable {U K : Type}

/-- Whether a queue entry is an update. -/
def QueuedUpdate.isDelivery : QueuedUpdate U K → Bool
  | .delivery _ _ => true
  | .overflow _ => false

/-- The updates queued before the first overflow marker. -/
def deliverable : List (QueuedUpdate U K) → List U
  | .delivery update _ :: rest => update :: deliverable rest
  | _ => []

/-- The entry a worker has taken and not yet published. -/
def WorkerStage.hand : WorkerStage U K → List (QueuedUpdate U K)
  | .received entry => [entry]
  | .counted update context => [.delivery update context]
  | .current update context => [.delivery update context]
  | .admitted update context => [.delivery update context]
  | _ => []

/-- Whether a worker starts no further publish. -/
def WorkerStage.ended : WorkerStage U K → Bool
  | .failed _ _ => true
  | .closing _ => true
  | .stopped => true
  | _ => false

/-- Whether a worker has passed its check and is about to publish. -/
def WorkerStage.poised : WorkerStage U K → Bool
  | .current _ _ => true
  | .admitted _ _ => true
  | _ => false

/-- The provider subscription an unsubscribe call has taken. -/
def UnsubscribeStage.owner : UnsubscribeStage → Option Nat
  | .closing subscription => some subscription
  | .returned subscription => some subscription
  | _ => none

variable {taken : List (QueuedUpdate U K)}

theorem deliverable_append (h : ∀ entry ∈ taken, entry.isDelivery = true)
    (rest : List (QueuedUpdate U K)) :
    deliverable (taken ++ rest) = deliverable taken ++ deliverable rest := by
  induction taken with
  | nil => rfl
  | cons entry taken ih =>
    have hrest := ih fun other hmem => h other (mem_cons_of_mem _ hmem)
    cases entry with
    | delivery update context =>
      rw [cons_append, deliverable, deliverable, hrest, cons_append]
    | overflow context => cases h (.overflow context) mem_cons_self

theorem deliverable_le_append (sent rest : List (QueuedUpdate U K)) :
    deliverable sent <+: deliverable (sent ++ rest) := by
  induction sent with
  | nil => exact nil_prefix
  | cons entry sent ih =>
    cases entry with
    | delivery update context =>
      rw [cons_append, deliverable, deliverable]
      exact (prefix_cons_inj update).mpr ih
    | overflow context => exact nil_prefix

/-! ## Order of one call's deliveries -/

/-- Started publishes, the entry in hand and the queue make up what was sent. -/
structure Ordered (call : SubscribeCall U K) : Prop where
  delivered : call.started <+: deliverable call.sent
  inFlight : call.worker.ended = false → ∃ taken : List (QueuedUpdate U K),
    (∀ entry ∈ taken, entry.isDelivery = true) ∧ deliverable taken = call.started ∧
      call.sent = taken ++ call.worker.hand ++ call.queue
  failed : call.failed = true → call.worker.ended = true

variable {call call' : SubscribeCall U K} {event : CallEvent U K} {i : Nat}

variable {state' state : EndpointState}

theorem Ordered.of_inFlight (hfail : call.failed = false)
    (htkn : ∀ entry ∈ taken, entry.isDelivery = true)
    (hbegun : deliverable taken = call.started)
    (hsent : call.sent = taken ++ call.worker.hand ++ call.queue) : Ordered call where
  delivered := by
    rw [hsent, append_assoc, deliverable_append htkn, hbegun]
    exact prefix_append _ _
  inFlight := fun _ => ⟨taken, htkn, hbegun, hsent⟩
  failed := fun h => absurd (hfail.symm.trans h) Bool.noConfusion

theorem Ordered.not_failed (h : Ordered call) (hwork : call.worker.ended = false) :
    call.failed = false := by
  cases hfail : call.failed with
  | false => rfl
  | true => rw [h.failed hfail] at hwork; cases hwork

/-- A call whose worker moves without publishing or taking an entry. -/
theorem Ordered.of_same_hand (h : Ordered call) (hbegun : call'.started = call.started)
    (hsent : call'.sent = call.sent) (hque : call'.queue = call.queue)
    (hhand : call'.worker.hand = call.worker.hand) (hended : call'.worker.ended = call.worker.ended)
    (hfail : call'.failed = call.failed) :
    Ordered call' where
  delivered := by
    rw [hbegun, hsent]
    exact h.delivered
  inFlight := by
    rw [hended, hbegun, hsent, hque, hhand]
    exact h.inFlight
  failed := by
    rw [hended, hfail]
    exact h.failed

theorem Ordered.of_ended (h : Ordered call) (hbegun : call'.started = call.started)
    (hsent : call'.sent = call.sent) (hended : call'.worker.ended = true) : Ordered call' where
  delivered := by
    rw [hbegun, hsent]
    exact h.delivered
  inFlight := by
    intro hlive
    rw [hended] at hlive
    cases hlive
  failed := fun _ => hended

/-- Every step of a call keeps its deliveries in order. -/
theorem Ordered.advance (h : Ordered call)
    (hadvd : call.Advanced i state event call' state') : Ordered call' := by
  cases hadvd with
  | opened | abandon | register | finish | offer =>
    exact h.of_same_hand rfl rfl rfl rfl rfl rfl
  | spawn hstg hwork | count hwork | current hwork | admitted hwork | published hwork =>
    exact h.of_same_hand rfl rfl rfl (by rw [hwork]; rfl) (by rw [hwork]; rfl) rfl
  | @send position entry =>
    constructor
    · exact h.delivered.trans (deliverable_le_append call.sent [entry])
    · intro hlive
      obtain ⟨taken, htkn, hbegun, hsent⟩ := h.inFlight hlive
      refine ⟨taken, htkn, hbegun, ?_⟩
      rw [hsent, append_assoc]
    · exact h.failed
  | receive hwork hque =>
    have hlive : call.worker.ended = false := by
      rw [hwork]
      rfl
    obtain ⟨taken, htkn, hbegun, hsent⟩ := h.inFlight hlive
    refine Ordered.of_inFlight ?_ htkn hbegun ?_
    · exact h.not_failed hlive
    · rw [hsent, hwork, hque]
      simp [WorkerStage.hand]
  | @publish update context hwork =>
    have hlive : call.worker.ended = false := by
      rw [hwork]
      rfl
    obtain ⟨taken, htkn, hbegun, hsent⟩ := h.inFlight hlive
    -- The entry in hand becomes the last one taken.
    have hextended : ∀ entry ∈ taken ++ [.delivery update context], entry.isDelivery = true := by
      exact forall_mem_concat htkn rfl
    refine Ordered.of_inFlight ?_ hextended ?_ ?_
    · exact h.not_failed hlive
    · rw [deliverable_append htkn, hbegun]
      rfl
    · rw [hsent, hwork]
      simp [WorkerStage.hand]
  | stale | disposed | publishFailed | overflowed | failed | closed | drop =>
    exact h.of_ended rfl rfl rfl

/-! ## Whose step changes what -/

/-- What a step of a call does to its identity, its token and its worker. -/
structure Identified (index : Nat) (call call' : SubscribeCall U K) (state : EndpointState)
    (event : CallEvent U K) : Prop where
  id : call'.id = call.id
  registered : call.stage.unregistered = false → call'.stage.unregistered = false
  token : call'.token = call.token ∨ (event = .spawnUpdateWorker ∧
    call'.token = (state.subscriptions.get? call.id).map EndpointSubscription.token)
  poised : call'.worker.poised = true →
    call.worker.poised = true ∨ state.subscriptionIsCurrent call.id call.token = true
  started : call'.started = call.started ∨ call.worker.poised = true

variable {id : JsString}

theorem SubscribeCall.Advanced.identified (h : call.Advanced i state event call' state') :
    Identified i call call' state event := by
  cases h with
  | opened hstg =>
    refine ⟨rfl, fun hreg => ?_, .inl rfl, .inl, .inl rfl⟩
    rw [hstg] at hreg
    cases hreg
  | abandon | finish => exact ⟨rfl, fun _ => rfl, .inl rfl, .inl, .inl rfl⟩
  | register =>
    refine ⟨rfl, fun _ => ?_, .inl rfl, .inl, .inl rfl⟩
    dsimp only
    split_ifs <;> rfl
  | spawn => exact ⟨rfl, fun _ => rfl, .inr ⟨rfl, rfl⟩, nofun, .inl rfl⟩
  | offer | send => exact ⟨rfl, fun hreg => hreg, .inl rfl, .inl, .inl rfl⟩
  | current _ hcur =>
    exact ⟨rfl, fun hreg => hreg, .inl rfl, fun _ => .inr hcur, .inl rfl⟩
  | admitted hwork =>
    exact ⟨rfl, fun hreg => hreg, .inl rfl, fun _ => .inl (by rw [hwork]; rfl), .inl rfl⟩
  | publish hwork =>
    exact ⟨rfl, fun hreg => hreg, .inl rfl, nofun, .inr (by rw [hwork]; rfl)⟩
  | receive | count | stale | disposed | published | publishFailed | overflowed | failed | closed
  | drop =>
    exact ⟨rfl, fun hreg => hreg, .inl rfl, nofun, .inl rfl⟩

/-- A live subscription was live before the step, or the step registered it. -/
theorem SubscribeCall.Advanced.subscriptions (h : call.Advanced i state event call' state')
    {entry : EndpointSubscription} (hent : state'.subscriptions.get? id = some entry) :
    state.subscriptions.get? id = some entry ∨
      (call.stage = .opened ∧ id = call.id ∧ entry = ⟨i, i⟩ ∧
        call'.stage.unregistered = false) := by
  have hfail : ∀ error, (state.failSubscription call.id call.token error).2.subscriptions.get? id =
      some entry → state.subscriptions.get? id = some entry := by
    intro error hget
    unfold EndpointState.failSubscription at hget
    split_ifs at hget
    · rw [OrderedMap.get?_erase] at hget
      split_ifs at hget
      exact hget
    · exact hget
  cases h with
  | register hstg =>
    unfold EndpointState.registerSubscription at hent ⊢
    by_cases hdisp : state.disposed = true
    · rw [if_pos hdisp] at hent
      exact .inl hent
    · rw [if_neg hdisp] at hent ⊢
      simp only [OrderedMap.get?_insert] at hent
      split_ifs at hent with hid
      · exact .inr ⟨hstg, hid, (some.inj hent).symm, rfl⟩
      · exact .inl hent
  | overflowed | failed => exact .inl (hfail _ hent)
  | @closed held hwork =>
    cases held <;> exact .inl hent
  | drop =>
    cases hheld : call.worker.holds with
    | false | true =>
      rw [hheld] at hent
      exact .inl hent
  | opened | abandon | spawn | finish | offer | send | receive | count | current | stale | admitted
  | disposed | publish | published | publishFailed => exact .inl hent

namespace System.Moved

variable {sys sys' : System U K} {event : Event U K}

section

variable (h : Moved sys event sys')

include h

/-- A subscribe call after a step is unchanged, new, or has taken the step. -/
theorem call_cases (hcall : sys'.processes[i]? = some (.subscribe call')) :
    sys.processes[i]? = some (.subscribe call') ∨
    (i = sys.processes.length ∧ ∃ id, call' = { id := id }) ∨
    ∃ callEvent call, event = .call i callEvent ∧ sys.processes[i]? = some (.subscribe call) ∧
      call.Advanced i sys.state callEvent call' sys'.state := by
  cases h with
  | unchanged => exact .inl hcall
  | @subscribe id state _ =>
    rcases getElem?_append_cases hcall with hold | ⟨hidx, heq⟩
    · exact .inl hold
    · exact .inr (.inl ⟨hidx, id, Process.subscribe.inj heq⟩)
  | @call slot callEvent call next state' hslot hadv =>
    rcases getElem?_set_cases hcall with ⟨hidx, heq⟩ | ⟨-, hold⟩
    · subst hidx
      obtain rfl := Process.subscribe.inj heq
      exact .inr (.inr ⟨callEvent, call, rfl, hslot, SubscribeCall.advanced_of_advance hadv⟩)
    · exact .inl hold
  | entered | failed | dispose =>
    rcases getElem?_append_cases hcall with hold | ⟨-, heq⟩
    · exact .inl hold
    · cases heq
  | rejected | closing | returned | disposing =>
    rcases getElem?_set_cases hcall with ⟨-, heq⟩ | ⟨-, hold⟩
    · cases heq
    · exact .inl hold

/-- A subscribe call stays in its slot under its id. -/
theorem persists (hcall : sys.processes[i]? = some (.subscribe call)) :
    ∃ call', sys'.processes[i]? = some (.subscribe call') ∧ call'.id = call.id ∧
      (call.stage.unregistered = false → call'.stage.unregistered = false) := by
  -- Another party's slot is a different one.
  have hoth : ∀ {slot : Nat} {process process' : Process U K},
      sys.processes[slot]? = some process → (∀ other, process ≠ .subscribe other) →
      (sys.processes.set slot process')[i]? = some (.subscribe call) := by
    intro slot process process' hproc hne
    have hslot : slot ≠ i := by
      intro heq
      rw [heq, hcall] at hproc
      exact hne call (some.inj hproc).symm
    rw [getElem?_set_ne hslot]
    exact hcall
  cases h with
  | unchanged => exact ⟨call, hcall, rfl, fun hreg => hreg⟩
  | subscribe | entered | failed | dispose =>
    exact ⟨call, getElem?_append_of_some hcall, rfl, fun hreg => hreg⟩
  | @call slot callEvent before after state' hslot hadv =>
    by_cases hidx : slot = i
    · subst hidx
      rw [hcall] at hslot
      obtain rfl := Process.subscribe.inj (some.inj hslot)
      have hidentified := (SubscribeCall.advanced_of_advance hadv).identified
      exact ⟨after, getElem?_set_of_some hcall, hidentified.id, hidentified.registered⟩
    · refine ⟨call, ?_, rfl, fun hreg => hreg⟩
      rw [getElem?_set_ne hidx]
      exact hcall
  | rejected hproc | closing hproc | returned hproc | disposing hproc =>
    exact ⟨call, hoth hproc (fun _ => nofun), rfl, fun hreg => hreg⟩

/-- A live subscription was live before the step, or a call registered it. -/
theorem subscriptions_cases {entry : EndpointSubscription}
    (hent : sys'.state.subscriptions.get? id = some entry) :
    sys.state.subscriptions.get? id = some entry ∨
    ∃ i call call', sys.processes[i]? = some (.subscribe call) ∧
      call.stage = .opened ∧ entry = ⟨i, i⟩ ∧
      sys'.processes[i]? = some (.subscribe call') ∧ call'.id = id ∧
      call'.stage.unregistered = false := by
  cases h with
  | @subscribe _ state hadmn =>
    unfold EndpointState.admitSubscribe at hadmn
    split_ifs at hadmn
    rw [← Except.ok.inj hadmn] at hent
    exact .inl hent
  | @call i callEvent call call' state' hcall hadv =>
    have hadvd := SubscribeCall.advanced_of_advance hadv
    rcases hadvd.subscriptions hent with hold | ⟨hstg, hid, heq, hreg⟩
    · exact .inl hold
    · exact .inr ⟨i, call, call', hcall, hstg, heq, getElem?_set_of_some hcall,
        hadvd.identified.id.trans hid.symm, hreg⟩
  | closing =>
    rw [OrderedMap.get?_erase] at hent
    split_ifs at hent
    exact .inl hent
  | disposing _ hsubs =>
    rcases hsubs with rfl | rfl
    · exact .inl hent
    · cases hent
  | unchanged | entered | failed | rejected | returned | dispose => exact .inl hent

/-- An unsubscribe call that owns a subscription owned it before, or takes it now. -/
theorem unsubscribe_cases {stage' : UnsubscribeStage} {sub : Nat}
    (hproc : sys'.processes[i]? = some (.unsubscribe id stage'))
    (hown : stage'.owner = some sub) :
    sys.processes[i]? = some (.unsubscribe id stage') ∨
    (stage' = .closing sub ∧ sys'.state.subscriptions = sys.state.subscriptions.erase id ∧
      ∃ entry, sys.state.subscriptions.get? id = some entry ∧ entry.subscription = sub) ∨
    (event = .unsubscribed i ∧ sys.processes[i]? = some (.unsubscribe id (.closing sub))) := by
  cases h with
  | unchanged => exact .inl hproc
  | subscribe | dispose =>
    rcases getElem?_append_cases hproc with hold | ⟨-, heq⟩
    · exact .inl hold
    · cases heq
  | entered | failed =>
    rcases getElem?_append_cases hproc with hold | ⟨-, heq⟩
    · exact .inl hold
    · obtain ⟨rfl, rfl⟩ := Process.unsubscribe.inj heq
      cases hown
  | call | disposing =>
    rcases getElem?_set_cases hproc with ⟨-, heq⟩ | ⟨-, hold⟩
    · cases heq
    · exact .inl hold
  | rejected =>
    rcases getElem?_set_cases hproc with ⟨-, heq⟩ | ⟨-, hold⟩
    · obtain ⟨rfl, rfl⟩ := Process.unsubscribe.inj heq
      cases hown
    · exact .inl hold
  | @closing slot other entry hslot hent =>
    rcases getElem?_set_cases hproc with ⟨-, heq⟩ | ⟨-, hold⟩
    · obtain ⟨rfl, rfl⟩ := Process.unsubscribe.inj heq
      cases hown
      exact .inr (.inl ⟨rfl, rfl, entry, hent, rfl⟩)
    · exact .inl hold
  | @returned slot other owner hslot =>
    rcases getElem?_set_cases hproc with ⟨rfl, heq⟩ | ⟨-, hold⟩
    · obtain ⟨rfl, rfl⟩ := Process.unsubscribe.inj heq
      cases hown
      exact .inr (.inr ⟨rfl, hslot⟩)
    · exact .inl hold

end

end System.Moved

/-! ## Silence after an unsubscribe -/

/-- A registered call whose subscription is no longer live. -/
structure Gone (system : System U K) (index : Nat) : Prop where
  registered : ∃ call : SubscribeCall U K, system.processes[index]? = some (.subscribe call) ∧
    call.stage.unregistered = false
  absent : ∀ id entry, system.state.subscriptions.get? id = some entry → entry.token ≠ index

/-- Live subscriptions belong to their calls, workers hold their own tokens, and
the worker of a closed subscription is not about to publish. -/
structure Isolated (system : System U K) : Prop where
  owned : ∀ id entry, system.state.subscriptions.get? id = some entry →
    entry.subscription = entry.token ∧ ∃ call : SubscribeCall U K,
      system.processes[entry.token]? = some (.subscribe call) ∧ call.id = id ∧
        call.stage.unregistered = false
  tokens : ∀ (index : Nat) (call : SubscribeCall U K),
    system.processes[index]? = some (.subscribe call) → call.token = none ∨ call.token = some index
  gone : ∀ (index : Nat) id stage subscription,
    system.processes[index]? = some (.unsubscribe id stage) →
    stage.owner = some subscription → Gone system subscription
  silent : ∀ (index : Nat) id subscription,
    system.processes[index]? = some (.unsubscribe id (.returned subscription)) →
    ∀ call : SubscribeCall U K, system.processes[subscription]? = some (.subscribe call) →
      call.worker.poised = false

/-- A worker captures its own token or none, and an unsubscribe call returns only
while the worker of the subscription it closed is not between its check and the
start of a publish. -/
def Settled (system : System U K) : Event U K → Prop
  | .call index .spawnUpdateWorker => ∀ call : SubscribeCall U K,
      system.processes[index]? = some (.subscribe call) →
      ∀ entry, system.state.subscriptions.get? call.id = some entry → entry.token = index
  | .unsubscribed index => ∀ id subscription (call : SubscribeCall U K),
      system.processes[index]? = some (.unsubscribe id (.closing subscription)) →
      system.processes[subscription]? = some (.subscribe call) → call.worker.poised = false
  | _ => True

variable {sys : System U K}

variable {sys' : System U K}

theorem Gone.step {event : Event U K} (h : Gone sys i) (hmoved : sys.Moved event sys') :
    Gone sys' i where
  registered := by
    obtain ⟨call, hcall, hreg⟩ := h.registered
    obtain ⟨call', hcall', -, hkept⟩ := hmoved.persists hcall
    exact ⟨call', hcall', hkept hreg⟩
  absent := by
    intro id entry hent
    rcases hmoved.subscriptions_cases hent with hold | ⟨slot, call, -, hslot, hstg, rfl, -⟩
    · exact h.absent id entry hold
    · -- Only an unregistered call registers, and this one is registered already.
      intro heq
      obtain rfl : slot = i := heq
      obtain ⟨registered, hcall, hreg⟩ := h.registered
      rw [hslot] at hcall
      obtain rfl := Process.subscribe.inj (some.inj hcall)
      rw [hstg] at hreg
      cases hreg

theorem Gone.not_current (h : Gone sys i) {token : Option Nat}
    (htoken : token = none ∨ token = some i) :
    sys.state.subscriptionIsCurrent id token = false := by
  unfold EndpointState.subscriptionIsCurrent
  cases hent : sys.state.subscriptions.get? id with
  | none => rfl
  | some entry =>
    have hne := h.absent id entry hent
    rcases htoken with rfl | rfl
    · rfl
    · simpa using Ne.symm hne

/-- Every step that meets the condition keeps calls isolated. -/
theorem Isolated.step {event : Event U K} (h : Isolated sys) (hset : Settled sys event)
    (hstep : sys.step event = some sys') :
    Isolated sys' := by
  have hmoved := System.moved_of_step hstep
  -- Whoever owns a subscription to close owned it before, or takes a live one.
  have hgone : ∀ (i : Nat) id stage sub, sys'.processes[i]? = some (.unsubscribe id stage) →
      stage.owner = some sub → Gone sys' sub := by
    intro i id stage sub hproc hown
    rcases hmoved.unsubscribe_cases hproc hown with
      hold | ⟨-, herased, entry, hent, rfl⟩ | ⟨-, hcls⟩
    · exact (h.gone i id stage sub hold hown).step hmoved
    · obtain ⟨htoken, call, hcall, hid, hreg⟩ := h.owned id entry hent
      obtain ⟨call', hcall', -, hkept⟩ := hmoved.persists hcall
      rw [htoken]
      refine ⟨⟨call', hcall', hkept hreg⟩, ?_⟩
      intro other live hlive heq
      rw [herased, OrderedMap.get?_erase] at hlive
      split_ifs at hlive with hne
      obtain ⟨-, owner, howned, hoth, -⟩ := h.owned other live hlive
      rw [heq, hcall] at howned
      obtain rfl := Process.subscribe.inj (some.inj howned)
      exact hne (hoth.symm.trans hid)
    · exact (h.gone i id _ sub hcls rfl).step hmoved
  constructor
  case owned =>
    intro id entry hent
    rcases hmoved.subscriptions_cases hent with hold | ⟨slot, -, call', -, -, rfl, hcall', hid, hreg⟩
    · obtain ⟨htoken, call, hcall, hid, hreg⟩ := h.owned id entry hold
      obtain ⟨call', hcall', hsame, hkept⟩ := hmoved.persists hcall
      exact ⟨htoken, call', hcall', hsame.trans hid, hkept hreg⟩
    · exact ⟨rfl, call', hcall', hid, hreg⟩
  case tokens =>
    intro i call' hcall'
    rcases hmoved.call_cases hcall' with hold | ⟨-, id, rfl⟩ | ⟨callEvent, call, rfl, hcall, hadvd⟩
    · exact h.tokens i call' hold
    · exact .inl rfl
    · rcases hadvd.identified.token with hsame | ⟨rfl, htoken⟩
      · rw [hsame]
        exact h.tokens i call hcall
      · rw [htoken]
        cases hent : sys.state.subscriptions.get? call.id with
        | none => exact .inl rfl
        | some entry =>
          refine .inr ?_
          rw [map_some, hset call hcall entry hent]
  case gone => exact hgone
  case silent =>
    intro i id sub hproc call' hcall'
    rcases hmoved.unsubscribe_cases hproc rfl with hold | ⟨hcls, -⟩ | ⟨rfl, hcls⟩
    · have hpre := h.gone i id _ sub hold rfl
      rcases hmoved.call_cases hcall' with hsame | ⟨hnew, -⟩ | ⟨callEvent, call, rfl, hcall, hadvd⟩
      · exact h.silent i id sub hold call' hsame
      · obtain ⟨call, hcall, -⟩ := hpre.registered
        rw [hnew, getElem?_eq_none (Nat.le_refl _)] at hcall
        cases hcall
      · cases hpoised : call'.worker.poised with
        | false => rfl
        | true =>
          rcases hadvd.identified.poised hpoised with hearl | hcur
          · rw [h.silent i id sub hold call hcall] at hearl
            cases hearl
          · rw [hpre.not_current (h.tokens sub call hcall)] at hcur
            cases hcur
    · cases hcls
    · rcases hmoved.call_cases hcall' with hsame | ⟨hnew, -⟩ | ⟨_, _, heq, -⟩
      · exact hset id sub call' hcls hsame
      · obtain ⟨call, hcall, -⟩ := (h.gone i id _ sub hcls rfl).registered
        rw [hnew, getElem?_eq_none (Nat.le_refl _)] at hcall
        cases hcall
      · cases heq

theorem isolated_new : Isolated (System.new : System U K) where
  owned := by
    intro id entry hent
    cases hent
  tokens := by
    intro i call hcall
    cases hcall
  gone := by
    intro i id stage sub hproc
    cases hproc
  silent := by
    intro i id sub hproc
    cases hproc

/-- Along every run the deliveries of every call stay in order. -/
theorem ordered_of_run {condition : System U K → Event U K → Prop}
    (h : (endpoint U K).Run condition sys) (i : Nat) (call : SubscribeCall U K)
    (hcall : sys.processes[i]? = some (.subscribe call)) : Ordered call := by
  revert i call
  apply h.invariant
  · rintro _ rfl i call hcall
    cases hcall
  · intro before after event hord _ hstep i call hcall
    rcases (System.moved_of_step hstep).call_cases hcall with
      hold | ⟨-, id, rfl⟩ | ⟨_, early, -, hearl, hadvd⟩
    · exact hord i call hold
    · exact ⟨ nil_prefix, fun _ => ⟨[], fun _ hmem => absurd hmem not_mem_nil, rfl, rfl⟩, nofun⟩
    · exact (hord i early hearl).advance hadvd

/-- Along every run nothing that was sent to a worker is lost while it goes on: it was published,
in order, or is in the worker's hand or still queued. -/
theorem deliveries_accounted {condition : System U K → Event U K → Prop}
    (h : (endpoint U K).Run condition sys) {i : Nat} {call : SubscribeCall U K}
    (hcall : sys.processes[i]? = some (.subscribe call)) (hlive : call.worker.ended = false) :
    ∃ taken, (∀ entry ∈ taken, entry.isDelivery = true) ∧ deliverable taken = call.started ∧
      call.sent = taken ++ call.worker.hand ++ call.queue :=
  (ordered_of_run h i call hcall).inFlight hlive

/-- In every run in which workers capture their own tokens and no unsubscribe call
returns between a worker's check and its publish: what a subscribe call's worker
has handed to its publisher is a prefix of what its own listener queued before any
overflow, and no step adds to it once a publish has failed or an unsubscribe call
for it has returned. -/
theorem delivery_isolated {sys : System U K} (h : (endpoint U K).Run Settled sys)
    {i : Nat} {call : SubscribeCall U K}
    (hcall : sys.processes[i]? = some (.subscribe call)) :
    call.started <+: deliverable call.sent ∧
    ((call.failed = true ∨ ∃ (slot : Nat) (id : JsString),
        sys.processes[slot]? = some (.unsubscribe id (.returned i))) →
      ∀ event sys' call', sys.step event = some sys' →
        sys'.processes[i]? = some (.subscribe call') → call'.started = call.started) := by
  have hisolated : Isolated sys := h.invariant
    (fun _ hstart => hstart ▸ isolated_new) (fun _ _ _ hbefore => hbefore.step)
  have hord := ordered_of_run h i call hcall
  refine ⟨hord.delivered, ?_⟩
  intro hended event sys' call' hstep hcall'
  have hpoised : call.worker.poised = false := by
    rcases hended with hfailed | ⟨slot, id, hret⟩
    · have hworker := hord.failed hfailed
      cases hstage : call.worker with
      | current | admitted => rw [hstage] at hworker; cases hworker
      | _ => rfl
    · exact hisolated.silent slot id i hret call hcall
  rcases (System.moved_of_step hstep).call_cases hcall' with
    hold | ⟨hnew, -⟩ | ⟨_, earlier, -, hearlier, hadvanced⟩
  · rw [hcall] at hold
    rw [Process.subscribe.inj (some.inj hold)]
  · rw [hnew, getElem?_eq_none (Nat.le_refl _)] at hcall
    cases hcall
  · rw [hcall] at hearlier
    obtain rfl := Process.subscribe.inj (some.inj hearlier)
    rcases hadvanced.identified.started with hsame | hpublishing
    · exact hsame
    · rw [hpoised] at hpublishing
      cases hpublishing

/-- The condition on a step, computed. -/
def settledCheck (system : System U K) : Event U K → Bool
  | .call index .spawnUpdateWorker =>
    match system.processes[index]? with
    | some (.subscribe call) =>
      (system.state.subscriptions.get? call.id).all fun entry => entry.token == index
    | _ => true
  | .unsubscribed index =>
    match system.processes[index]? with
    | some (.unsubscribe _ (.closing subscription)) =>
      match system.processes[subscription]? with
      | some (.subscribe call) => !call.worker.poised
      | _ => true
    | _ => true
  | _ => true

theorem settled_of_check {event : Event U K} (h : settledCheck sys event = true) :
    Settled sys event := by
  unfold Settled
  split
  · intro call hcall entry hent
    simp only [settledCheck, hcall, hent, all_some] at h
    exact eq_of_beq h
  · intro id sub call hproc hcall
    simp only [settledCheck, hproc, hcall] at h
    simpa using h
  · trivial

/-- A step in which the worker of a call starts a publish although an unsubscribe
call for it has returned. -/
def LatePublish (system : System U K) : Prop :=
  ∃ (index slot : Nat) (id : JsString) (call call' : SubscribeCall U K) (system' : System U K),
    system.processes[slot]? = some (.unsubscribe id (.returned index)) ∧
    system.processes[index]? = some (.subscribe call) ∧
    system.step (.call index .publish) = some system' ∧
    system'.processes[index]? = some (.subscribe call') ∧ call'.started ≠ call.started

theorem latePublish_of_admitted {slot : Nat} {update : U} {context : K}
    (hret : sys.processes[slot]? = some (.unsubscribe id (.returned i)))
    (hcall : sys.processes[i]? = some (.subscribe call))
    (hwork : call.worker = .admitted update context) : LatePublish sys := by
  have hstep : sys.step (.call i .publish) = some ⟨sys.state, sys.processes.set i (.subscribe
        { call with worker := .publishing context, started := call.started ++ [update] })⟩ := by
    simp only [System.step, hcall, SubscribeCall.advance, hwork, map_some]
  refine ⟨i, slot, id, call, _, _, hret, hcall, hstep, getElem?_set_of_some hcall, ?_⟩
  intro heq
  have hlen := congrArg length heq
  rw [length_append, length_singleton] at hlen
  omega

end

/-- A worker has taken an update. -/
theorem deliveries_accounted_taken : ∃ sys : System Bool Unit,
    ∃ call : SubscribeCall Bool Unit, sys.processes[0]? = some (.subscribe call) ∧
      ∃ taken, (∀ entry ∈ taken, entry.isDelivery = true) ∧ deliverable taken = call.started ∧
        call.sent = taken ++ call.worker.hand ++ call.queue := by
  have hstart : (endpoint Bool Unit).Run (fun _ _ => True) System.new := Machine.Run.start rfl
  obtain ⟨sys, hrun, hsystem⟩ := hstart.execute (fun _ _ => true)
    [.subscribe ⟨[120]⟩, .call 0 .opened, .call 0 .register, .call 0 .spawnUpdateWorker,
      .call 0 .finish, .call 0 (.offer true ()), .call 0 (.send 0), .call 0 .receive]
    (fun sys => decide (sys.processes[0]? = some (Process.subscribe
      { id := ⟨[120]⟩, stage := .finished, token := some 0, queued := 1,
        worker := .received (.delivery true ()), sent := [.delivery true ()] })))
    (fun _ _ _ => trivial) (by decide +kernel)
  have hcall := of_decide_eq_true hsystem
  exact ⟨sys, _, hcall, deliveries_accounted hrun hcall rfl⟩

/-- One update is delivered, then the subscription is closed. -/
theorem delivery_isolated_unsubscribed :
    ∃ sys : System Unit Unit, (endpoint Unit Unit).Run Settled sys ∧
      ∃ call : SubscribeCall Unit Unit, sys.processes[0]? = some (.subscribe call) ∧
        call.started = [()] ∧ call.started <+: deliverable call.sent := by
  have hstart : (endpoint Unit Unit).Run Settled System.new := Machine.Run.start rfl
  obtain ⟨sys, hrun, hsystem⟩ := hstart.execute settledCheck
    [.subscribe ⟨[120]⟩, .call 0 .opened, .call 0 .register, .call 0 .spawnUpdateWorker,
      .call 0 .finish, .call 0 (.offer () ()), .call 0 (.send 0), .call 0 .receive, .call 0 .count,
      .call 0 .check, .call 0 .admitDelivery, .call 0 .publish, .call 0 .published,
      .unsubscribe ⟨[120]⟩, .admitUnsubscribe 1, .unsubscribed 1]
    (fun sys => decide (sys.processes[0]? = some (Process.subscribe
      { id := ⟨[120]⟩, stage := .finished, token := some 0, worker := .waiting,
        sent := [.delivery () ()], started := [()] })))
    (fun _ _ => settled_of_check) (by decide +kernel)
  have hcall := of_decide_eq_true hsystem
  exact ⟨sys, hrun, _, hcall, rfl, (delivery_isolated hrun hcall).1⟩

/-- A worker looks its token up after its subscription was closed and the id
reused, and publishes under the token of the later call; or its subscription is
closed between its check and its publish. -/
theorem publish_after_unsubscribe :
    (∃ sys : System Unit Unit, (endpoint Unit Unit).Run (fun _ _ => True) sys ∧ LatePublish sys) ∧
    ∃ sys : System Unit Unit, (endpoint Unit Unit).Run (fun _ _ => True) sys ∧
      LatePublish sys ∧ ∃ call, sys.processes[0]? = some (Process.subscribe call) ∧
        call.token = some 0 := by
  have hstart : (endpoint Unit Unit).Run (fun _ _ => True) System.new := Machine.Run.start rfl
  obtain ⟨reused, hreused, hforeign⟩ := hstart.execute (fun _ _ => true)
    [.subscribe ⟨[120]⟩, .call 0 .opened, .call 0 .register, .call 0 (.offer () ()),
      .call 0 (.send 0), .unsubscribe ⟨[120]⟩, .admitUnsubscribe 1, .unsubscribed 1,
      .subscribe ⟨[120]⟩, .call 2 .opened, .call 2 .register, .call 0 .spawnUpdateWorker,
      .call 0 .receive, .call 0 .count, .call 0 .check, .call 0 .admitDelivery]
    (fun sys => decide ( sys.processes[1]? = some (Process.unsubscribe ⟨[120]⟩ (.returned 0)) ∧
      sys.processes[0]? = some (Process.subscribe
        { id := ⟨[120]⟩, stage := .spawned, token := some 2, worker := .admitted () (),
          sent := [.delivery () ()] })))
    (fun _ _ _ => trivial) (by decide +kernel)
  obtain ⟨overtaken, hovertaken, hown⟩ := hstart.execute (fun _ _ => true)
    [.subscribe ⟨[120]⟩, .call 0 .opened, .call 0 .register, .call 0 .spawnUpdateWorker,
      .call 0 (.offer () ()), .call 0 (.send 0), .call 0 .receive, .call 0 .count, .call 0 .check,
      .unsubscribe ⟨[120]⟩, .admitUnsubscribe 1, .unsubscribed 1, .call 0 .admitDelivery]
    (fun sys => decide ( sys.processes[1]? = some (Process.unsubscribe ⟨[120]⟩ (.returned 0)) ∧
      sys.processes[0]? = some (Process.subscribe
        { id := ⟨[120]⟩, stage := .spawned, token := some 0, worker := .admitted () (),
          sent := [.delivery () ()] })))
    (fun _ _ _ => trivial) (by decide +kernel)
  obtain ⟨hret, hcall⟩ := of_decide_eq_true hforeign
  obtain ⟨hret', hcall'⟩ := of_decide_eq_true hown
  exact ⟨⟨reused, hreused, latePublish_of_admitted hret hcall rfl⟩,
    ⟨overtaken, hovertaken, latePublish_of_admitted hret' hcall' rfl, _, hcall', rfl⟩⟩

end PiOxidized.Service.Endpoint
