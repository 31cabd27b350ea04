/-
# Endpoint calls and delivery workers

The parties around the endpoint state: subscribe calls with their update queue
and delivery worker, unsubscribe calls, and disposal.  Every section under the
lock and every operation on a queue or its counter is one step, so a run is an
arbitrary interleaving of calls from any number of threads.
-/

import PiOxidized.Math.Transition
import PiOxidized.Service.Endpoint.State

namespace PiOxidized.Service.Endpoint

open Math Option

/-- Maximum provider updates queued for one subscription's worker. -/
def updateQueueLimit : Nat := 1024

/-- One entry of a subscription's update queue. -/
inductive QueuedUpdate (U K : Type)
  | delivery (update : U) (context : K)
  | overflow (context : K)
  deriving DecidableEq

/-- Where a subscribe call stands. -/
inductive SubscribeStage
  /-- Admitted; the provider subscription is being opened. -/
  | admitted
  /-- The provider subscription is open. -/
  | opened
  /-- Registered under its id. -/
  | registered
  /-- Refused by a disposed endpoint; the provider subscription is being closed. -/
  | refused
  /-- The worker runs. -/
  | spawned
  /-- The pending operation is finished. -/
  | finished
  deriving DecidableEq

/-- Where a delivery worker stands. -/
inductive WorkerStage (U K : Type)
  | unspawned
  /-- Waiting for the queue. -/
  | waiting
  /-- An entry has been taken off the queue. -/
  | received (entry : QueuedUpdate U K)
  /-- The depth counter no longer counts the entry. -/
  | counted (update : U) (context : K)
  /-- The subscription was found current. -/
  | current (update : U) (context : K)
  /-- The delivery was admitted. -/
  | admitted (update : U) (context : K)
  /-- The publish future runs. -/
  | publishing (context : K)
  /-- The publish failed or panicked. -/
  | failed (context : K) (error : ServiceError)
  /-- The subscription is being closed, with or without an admitted delivery. -/
  | closing (held : Bool)
  | stopped
  deriving DecidableEq

/-- Whether a worker holds an admitted delivery. -/
@[simp]
def WorkerStage.holds {U K : Type} : WorkerStage U K → Bool
  | .admitted _ _ => true
  | .publishing _ => true
  | .failed _ _ => true
  | .closing held => held
  | _ => false

/-- One subscribe call, with the logs of what its listener sent and what its
worker handed to the publisher. -/
structure SubscribeCall (U K : Type) where
  id : JsString
  stage : SubscribeStage := .admitted
  /-- Entries a listener call has counted and not yet sent. -/
  offered : List (QueuedUpdate U K) := []
  queue : List (QueuedUpdate U K) := []
  queued : Nat := 0
  token : Option Nat := none
  worker : WorkerStage U K := .unspawned
  sent : List (QueuedUpdate U K) := []
  started : List U := []
  failed : Bool := false
  deriving DecidableEq

/-- Where an unsubscribe call stands. -/
inductive UnsubscribeStage
  /-- No delivery error was recorded. -/
  | entered
  /-- The subscription has been taken and is being closed. -/
  | closing (subscription : Nat)
  | returned (subscription : Nat)
  | rejected
  deriving DecidableEq

/-- Where a disposal stands. -/
inductive DisposeStage
  | waiting
  | idle
  | taken (subscriptions : List Nat)
  | finished
  deriving DecidableEq

/-- A party of the endpoint. -/
inductive Process (U K : Type)
  | subscribe (call : SubscribeCall U K)
  | unsubscribe (id : JsString) (stage : UnsubscribeStage)
  | dispose (stage : DisposeStage)
  deriving DecidableEq

/-- The endpoint state and its parties, in order of arrival. -/
structure System (U K : Type) where
  state : EndpointState
  processes : List (Process U K)

/-- A step of one subscribe call, its listener or its worker. -/
inductive CallEvent (U K : Type)
  /-- The provider opened the subscription. -/
  | opened
  /-- The call ends before registration: no runtime, a provider error, a dropped future. -/
  | abandon
  | register
  | spawnUpdateWorker
  | finish
  /-- A listener call counts an update. -/
  | offer (update : U) (context : K)
  /-- A listener call sends what it counted. -/
  | send (index : Nat)
  | receive
  | count
  | check
  | admitDelivery
  | publish
  | published
  | publishFailed (error : ServiceError)
  | failSubscription
  | closed
  /-- The worker's task is dropped. -/
  | drop
  deriving DecidableEq

/-- A step of the endpoint's parties. -/
inductive Event (U K : Type)
  | subscribe (id : JsString)
  | call (index : Nat) (event : CallEvent U K)
  | unsubscribe (id : JsString)
  | admitUnsubscribe (index : Nat)
  | unsubscribed (index : Nat)
  | dispose
  | waitForIdle (index : Nat)
  | takeSubscriptions (index : Nat)
  | takeDeliveryErrors (index : Nat)
  deriving DecidableEq

section

variable {U K : Type}

/-- Finish an admitted delivery, if one is held. -/
def EndpointState.releaseDelivery (state : EndpointState) (held : Bool) : EndpointState :=
  if held then state.complete none else state

/-- One step of the subscribe call with a number, and the endpoint state it leaves. -/
def SubscribeCall.advance (index : Nat) (call : SubscribeCall U K) (state : EndpointState) :
    CallEvent U K → Option (SubscribeCall U K × EndpointState)
  | .opened =>
    if call.stage = .admitted then some ({ call with stage := .opened }, state) else none
  | .abandon =>
    if call.stage = .admitted then
      some ({ call with stage := .finished }, state.complete (some (.pending call.id)))
    else none
  | .register =>
    if call.stage = .opened then
      let (registered, next) := state.registerSubscription call.id index
      some ({ call with stage := if registered then .registered else .refused }, next)
    else none
  | .spawnUpdateWorker =>
    match call.stage, call.worker with
    | .registered, .unspawned =>
      some ({ call with
        stage := .spawned
        token := (state.subscriptions.get? call.id).map EndpointSubscription.token
        worker := .waiting }, state)
    | _, _ => none
  | .finish =>
    if call.stage = .spawned ∨ call.stage = .refused then
      some ({ call with stage := .finished }, state.complete (some (.pending call.id)))
    else none
  | .offer update context =>
    if call.stage = .admitted then none
    else
      let entry := if call.queued + 1 > updateQueueLimit then .overflow context
        else .delivery update context
      some ({ call with
        queued := call.queued + 1
        offered := call.offered ++ [entry] }, state)
  | .send position =>
    (call.offered[position]?).map fun entry =>
      ({ call with
        offered := call.offered.eraseIdx position
        queue := call.queue ++ [entry]
        sent := call.sent ++ [entry] }, state)
  | .receive =>
    match call.worker, call.queue with
    | .waiting, entry :: queue =>
      some ({ call with queue := queue, worker := .received entry }, state)
    | _, _ => none
  | .count =>
    match call.worker with
    | .received (.delivery update context) =>
      some ({ call with
        queued := call.queued - 1
        worker := .counted update context }, state)
    | _ => none
  | .check =>
    match call.worker with
    | .counted update context =>
      if state.subscriptionIsCurrent call.id call.token then
        some ({ call with worker := .current update context }, state)
      else some ({ call with worker := .stopped }, state)
    | _ => none
  | .admitDelivery =>
    match call.worker with
    | .current update context =>
      match state.admitDelivery with
      | some next => some ({ call with worker := .admitted update context }, next)
      | none => some ({ call with worker := .stopped }, state)
    | _ => none
  | .publish =>
    match call.worker with
    | .admitted update context =>
      some ({ call with
        worker := .publishing context
        started := call.started ++ [update] }, state)
    | _ => none
  | .published =>
    match call.worker with
    | .publishing _ => some ({ call with worker := .waiting }, state.complete none)
    | _ => none
  | .publishFailed error =>
    match call.worker with
    | .publishing context =>
      some ({ call with worker := .failed context error, failed := true }, state)
    | _ => none
  | .failSubscription =>
    match call.worker with
    | .received (.overflow _) =>
      some ({ call with worker := .closing false }, (state.failSubscription call.id call.token
          (.internal "service update delivery queue overflowed" none)).2)
    | .failed _ error =>
      some ({ call with worker := .closing true },
        (state.failSubscription call.id call.token error).2)
    | _ => none
  | .closed =>
    match call.worker with
    | .closing held =>
      some ({ call with worker := .stopped }, state.releaseDelivery held)
    | _ => none
  | .drop =>
    match call.worker with
    | .unspawned => none
    | worker =>
      some ({ call with worker := .stopped }, state.releaseDelivery worker.holds)

/-- What a step of a subscribe call can do. -/
inductive SubscribeCall.Advanced (index : Nat) (call : SubscribeCall U K) (state : EndpointState) :
    CallEvent U K → SubscribeCall U K → EndpointState → Prop
  | opened : call.stage = .admitted →
      Advanced index call state .opened { call with stage := .opened } state
  | abandon : call.stage = .admitted →
      Advanced index call state .abandon { call with stage := .finished }
        (state.complete (some (.pending call.id)))
  | register : call.stage = .opened →
      Advanced index call state .register { call with
          stage := if (state.registerSubscription call.id index).1 then .registered else .refused }
        (state.registerSubscription call.id index).2
  | spawn : call.stage = .registered → call.worker = .unspawned →
      Advanced index call state .spawnUpdateWorker { call with
          stage := .spawned
          token := (state.subscriptions.get? call.id).map EndpointSubscription.token
          worker := .waiting } state
  | finish : call.stage = .spawned ∨ call.stage = .refused →
      Advanced index call state .finish { call with stage := .finished }
        (state.complete (some (.pending call.id)))
  | offer {update : U} {context : K} {entry : QueuedUpdate U K} :
      Advanced index call state (.offer update context)
        { call with queued := call.queued + 1, offered := call.offered ++ [entry] } state
  | send {position : Nat} {entry : QueuedUpdate U K} :
      Advanced index call state (.send position) { call with
          offered := call.offered.eraseIdx position
          queue := call.queue ++ [entry]
          sent := call.sent ++ [entry] } state
  | receive {entry : QueuedUpdate U K} {queue : List (QueuedUpdate U K)} :
      call.worker = .waiting → call.queue = entry :: queue →
      Advanced index call state .receive
        { call with queue := queue, worker := .received entry } state
  | count {update : U} {context : K} : call.worker = .received (.delivery update context) →
      Advanced index call state .count
        { call with queued := call.queued - 1, worker := .counted update context } state
  | current {update : U} {context : K} : call.worker = .counted update context →
      state.subscriptionIsCurrent call.id call.token = true →
      Advanced index call state .check { call with worker := .current update context } state
  | stale {update : U} {context : K} : call.worker = .counted update context →
      Advanced index call state .check { call with worker := .stopped } state
  | admitted {update : U} {context : K} : call.worker = .current update context →
      Advanced index call state .admitDelivery { call with worker := .admitted update context }
        { state with pendingOperations := state.pendingOperations + 1 }
  | disposed {update : U} {context : K} : call.worker = .current update context →
      Advanced index call state .admitDelivery { call with worker := .stopped } state
  | publish {update : U} {context : K} : call.worker = .admitted update context →
      Advanced index call state .publish
        { call with worker := .publishing context, started := call.started ++ [update] } state
  | published {context : K} : call.worker = .publishing context →
      Advanced index call state .published { call with worker := .waiting } (state.complete none)
  | publishFailed {context : K} {error : ServiceError} : call.worker = .publishing context →
      Advanced index call state (.publishFailed error)
        { call with worker := .failed context error, failed := true } state
  | overflowed {context : K} {error : ServiceError} :
      call.worker = .received (.overflow context) →
      Advanced index call state .failSubscription { call with worker := .closing false }
        (state.failSubscription call.id call.token error).2
  | failed {context : K} {error : ServiceError} : call.worker = .failed context error →
      Advanced index call state .failSubscription { call with worker := .closing true }
        (state.failSubscription call.id call.token error).2
  | closed {held : Bool} : call.worker = .closing held →
      Advanced index call state .closed { call with worker := .stopped }
        (state.releaseDelivery held)
  | drop : Advanced index call state .drop { call with worker := .stopped }
        (state.releaseDelivery call.worker.holds)

theorem SubscribeCall.advanced_of_advance {i : Nat} {call call' : SubscribeCall U K}
    {state state' : EndpointState} {event : CallEvent U K}
    (h : call.advance i state event = some (call', state')) :
    Advanced i call state event call' state' := by
  cases event with
  | opened =>
    simp only [advance] at h
    split_ifs at h with hstg
    cases h
    exact .opened hstg
  | abandon =>
    simp only [advance] at h
    split_ifs at h with hstg
    cases h
    exact .abandon hstg
  | register =>
    simp only [advance] at h
    by_cases hstg : call.stage = .opened
    · rw [if_pos hstg] at h
      cases h
      exact .register hstg
    · rw [if_neg hstg] at h
      cases h
  | spawnUpdateWorker =>
    simp only [advance] at h
    split at h
    · rename_i hstg hwork
      cases h
      exact .spawn hstg hwork
    · cases h
  | finish =>
    simp only [advance] at h
    split_ifs at h with hstg
    cases h
    exact .finish hstg
  | offer update context =>
    simp only [advance] at h
    by_cases hstg : call.stage = .admitted
    · rw [if_pos hstg] at h
      cases h
    · rw [if_neg hstg] at h
      cases h
      exact .offer
  | send position =>
    obtain ⟨entry, -, heq⟩ := map_eq_some_iff.mp h
    obtain ⟨rfl, rfl⟩ := Prod.mk.inj heq
    exact .send
  | receive =>
    simp only [advance] at h
    split at h
    · rename_i hwork hque
      cases h
      exact .receive hwork hque
    · cases h
  | count =>
    simp only [advance] at h
    split at h
    · rename_i hwork
      cases h
      exact .count hwork
    · cases h
  | check =>
    simp only [advance] at h
    split at h
    · rename_i hwork
      split_ifs at h with hcur
      · cases h
        exact .current hwork hcur
      · cases h
        exact .stale hwork
    · cases h
  | admitDelivery =>
    simp only [advance] at h
    split at h
    · rename_i hwork
      unfold EndpointState.admitDelivery at h
      by_cases hdisp : state.disposed = true
      · simp only [if_pos hdisp] at h
        cases h
        exact .disposed hwork
      · simp only [if_neg hdisp] at h
        cases h
        exact .admitted hwork
    · cases h
  | publish =>
    simp only [advance] at h
    split at h
    · rename_i hwork
      cases h
      exact .publish hwork
    · cases h
  | published =>
    simp only [advance] at h
    split at h
    · rename_i hwork
      cases h
      exact .published hwork
    · cases h
  | publishFailed error =>
    simp only [advance] at h
    split at h
    · rename_i hwork
      cases h
      exact .publishFailed hwork
    · cases h
  | failSubscription =>
    simp only [advance] at h
    split at h
    · rename_i hwork
      cases h
      exact .overflowed hwork
    · rename_i hwork
      cases h
      exact .failed hwork
    · cases h
  | closed =>
    simp only [advance] at h
    split at h
    · rename_i hwork
      cases h
      exact .closed hwork
    · cases h
  | drop =>
    simp only [advance] at h
    split at h
    · cases h
    · cases h
      exact .drop

namespace System

/-- A fresh endpoint without calls. -/
def new : System U K := ⟨EndpointState.new, []⟩

/-- One step of the endpoint's parties; absent when it is not enabled. -/
def step (system : System U K) : Event U K → Option (System U K)
  | .subscribe id =>
    match system.state.admitSubscribe id with
    | .error _ => some system
    | .ok state => some ⟨state, system.processes ++ [.subscribe { id := id }]⟩
  | .call index event =>
    match system.processes[index]? with
    | some (.subscribe call) =>
      (call.advance index system.state event).map fun (call, state) =>
        ⟨state, system.processes.set index (.subscribe call)⟩
    | _ => none
  | .unsubscribe id =>
    let (error, state) := system.state.takeDeliveryError id
    some ⟨state, system.processes ++
      [.unsubscribe id (if error.isSome then .rejected else .entered)]⟩
  | .admitUnsubscribe index =>
    match system.processes[index]? with
    | some (.unsubscribe id .entered) =>
      match system.state.admitUnsubscribe id with
      | .error _ => some ⟨system.state, system.processes.set index (.unsubscribe id .rejected)⟩
      | .ok (subscription, state) =>
        some ⟨state, system.processes.set index (.unsubscribe id (.closing subscription))⟩
    | _ => none
  | .unsubscribed index =>
    match system.processes[index]? with
    | some (.unsubscribe id (.closing subscription)) =>
      some ⟨system.state.complete (some (.closing id)),
        system.processes.set index (.unsubscribe id (.returned subscription))⟩
    | _ => none
  | .dispose =>
    let (begun, state) := system.state.beginDispose
    some ⟨state, system.processes ++ [.dispose (if begun then .waiting else .finished)]⟩
  | .waitForIdle index =>
    match system.processes[index]? with
    | some (.dispose .waiting) =>
      if system.state.pendingOperations = 0 then
        some ⟨system.state, system.processes.set index (.dispose .idle)⟩
      else some system
    | _ => none
  | .takeSubscriptions index =>
    match system.processes[index]? with
    | some (.dispose .idle) =>
      let (subscriptions, state) := system.state.takeSubscriptions
      some ⟨state, system.processes.set index (.dispose (.taken subscriptions))⟩
    | _ => none
  | .takeDeliveryErrors index =>
    match system.processes[index]? with
    | some (.dispose (.taken _)) =>
      some ⟨system.state.takeDeliveryErrors.2, system.processes.set index (.dispose .finished)⟩
    | _ => none

end System

namespace System

/-- What a step can do. -/
inductive Moved (system : System U K) : Event U K → System U K → Prop
  | unchanged (event : Event U K) : Moved system event system
  | subscribe {id : JsString} {state : EndpointState} :
      system.state.admitSubscribe id = .ok state →
      Moved system (.subscribe id) ⟨state, system.processes ++ [.subscribe { id := id }]⟩
  | call {index : Nat} {event : CallEvent U K} {call call' : SubscribeCall U K}
      {state' : EndpointState} :
      system.processes[index]? = some (.subscribe call) →
      call.advance index system.state event = some (call', state') →
      Moved system (.call index event) ⟨state', system.processes.set index (.subscribe call')⟩
  | entered {id : JsString} :
      Moved system (.unsubscribe id)
        ⟨(system.state.takeDeliveryError id).2, system.processes ++ [.unsubscribe id .entered]⟩
  | failed {id : JsString} :
      Moved system (.unsubscribe id)
        ⟨(system.state.takeDeliveryError id).2, system.processes ++ [.unsubscribe id .rejected]⟩
  | rejected {index : Nat} {id : JsString} :
      system.processes[index]? = some (.unsubscribe id .entered) →
      Moved system (.admitUnsubscribe index)
        ⟨system.state, system.processes.set index (.unsubscribe id .rejected)⟩
  | closing {index : Nat} {id : JsString} {entry : EndpointSubscription} :
      system.processes[index]? = some (.unsubscribe id .entered) →
      system.state.subscriptions.get? id = some entry →
      Moved system (.admitUnsubscribe index) ⟨{ system.state with
            subscriptions := system.state.subscriptions.erase id
            closingIds := insert id system.state.closingIds
            pendingOperations := system.state.pendingOperations + 1 },
          system.processes.set index (.unsubscribe id (.closing entry.subscription))⟩
  | returned {index : Nat} {id : JsString} {subscription : Nat} :
      system.processes[index]? = some (.unsubscribe id (.closing subscription)) →
      Moved system (.unsubscribed index) ⟨system.state.complete (some (.closing id)),
          system.processes.set index (.unsubscribe id (.returned subscription))⟩
  | dispose {stage : DisposeStage} :
      Moved system .dispose
        ⟨{ system.state with disposed := true }, system.processes ++ [.dispose stage]⟩
  | disposing {event : Event U K} {index : Nat} {stage stage' : DisposeStage}
      {subscriptions : OrderedMap JsString EndpointSubscription}
      {deliveryErrors : OrderedMap JsString ServiceError} :
      system.processes[index]? = some (.dispose stage) →
      (subscriptions = system.state.subscriptions ∨ subscriptions = ∅) →
      Moved system event
        ⟨{ system.state with subscriptions := subscriptions, deliveryErrors := deliveryErrors },
          system.processes.set index (.dispose stage')⟩

theorem moved_of_step {system system' : System U K} {event : Event U K}
    (h : system.step event = some system') : Moved system event system' := by
  cases event with
  | subscribe id =>
    simp only [step] at h
    split at h
    · exact some.inj h ▸ .unchanged _
    · rename_i state hadmn
      exact some.inj h ▸ .subscribe hadmn
  | call i event =>
    simp only [step] at h
    split at h
    · rename_i call hcall
      obtain ⟨⟨call', state'⟩, hadv, rfl⟩ := map_eq_some_iff.mp h
      exact .call hcall hadv
    · cases h
  | unsubscribe id =>
    simp only [step] at h
    rw [← some.inj h]
    cases (system.state.takeDeliveryError id).1.isSome with
    | true => exact .failed
    | false => exact .entered
  | admitUnsubscribe i =>
    simp only [step] at h
    split at h
    · rename_i id hproc
      unfold EndpointState.admitUnsubscribe at h
      by_cases hdisp : system.state.disposed = true
      · simp only [if_pos hdisp] at h
        exact some.inj h ▸ .rejected hproc
      · simp only [if_neg hdisp] at h
        cases hent : system.state.subscriptions.get? id with
        | none =>
          simp only [hent] at h
          exact some.inj h ▸ .rejected hproc
        | some entry =>
          simp only [hent] at h
          exact some.inj h ▸ .closing hproc hent
    · cases h
  | unsubscribed i =>
    simp only [step] at h
    split at h
    · rename_i hproc
      exact some.inj h ▸ .returned hproc
    · cases h
  | dispose =>
    have hdisp : system.state.beginDispose.2 = { system.state with disposed := true } := by
      unfold EndpointState.beginDispose
      split_ifs with hdisp
      · rw [← hdisp]
      · rfl
    simp only [step, hdisp] at h
    exact some.inj h ▸ .dispose
  | waitForIdle i =>
    simp only [step] at h
    split at h
    · rename_i hproc
      split_ifs at h
      · exact some.inj h ▸ .disposing hproc (.inl rfl)
      · exact some.inj h ▸ .unchanged _
    · cases h
  | takeSubscriptions i =>
    simp only [step] at h
    split at h
    · rename_i hproc
      exact some.inj h ▸ .disposing hproc (.inr rfl)
    · cases h
  | takeDeliveryErrors i =>
    simp only [step] at h
    split at h
    · rename_i hproc
      exact some.inj h ▸ .disposing hproc (.inl rfl)
    · cases h

end System

/-- The endpoint as a transition system. -/
def endpoint (U K : Type) : Machine (System U K) (Event U K) where
  start system := system = System.new
  step := System.step

end

end PiOxidized.Service.Endpoint
