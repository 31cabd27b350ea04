/-
# Subscribing to a provider

The state members of a provided service, each with the source listener the
provider registered on it, and the subscribers of the service.  A subscribe call
holds the provider lock while it reads the sequence and then the value of every
member, each under the member's own lock, and registers the subscriber.  The source
listener takes the provider lock to hand a batch to the subscribers, which buffer it
or are to be delivered to; the deliveries are run in the order of the subscribers once
the lock is released.  What the code of a listener does comes between the steps of
the delivery that calls it.

Members are numbered in the order in which a snapshot reads them; the number
stands for the instance address and the member name of a state update.
-/

import PiOxidized.Math.Slots
import PiOxidized.Service.Replicated.Emission

namespace PiOxidized.Service.Provider

open Math
open Service.Delta
open Service.Replicated

/-- A state update of a member. -/
structure StateUpdate where
  member : Nat
  sequence : JsInteger
  ops : List DeltaOp

/-- The batches of one member among updates. -/
def batches (index : Nat) (updates : List StateUpdate) : List Batch :=
  updates.filterMap fun update =>
    if update.member = index then some (update.sequence, update.ops) else none

/-- What an emission or an activation is to do for a subscriber. -/
inductive Delivery
  /-- Call the listener with an update. -/
  | immediate (subscriber : Nat) (update : StateUpdate)
  /-- Drain the buffer. -/
  | claim (subscriber : Nat)

/-- The deliveries a thread has still to run, and for an emission the member whose source
listener made it and the height of the member's stack. -/
structure Call where
  thread : Nat
  caller : Option (Nat × Nat)
  deliveries : List Delivery

/-- A subscriber: its snapshot, one base batch for each member, its buffer, the thread that
delivers to it, the entries that thread has taken, and what its listener was called with. -/
structure Subscriber where
  snapshot : List Batch
  buffer : List StateUpdate
  active : Bool
  draining : Option Nat
  closed : Bool
  entries : List StateUpdate
  received : List StateUpdate

namespace Subscriber

/-- A subscriber that has not been activated. -/
def new (snapshot : List Batch) : Subscriber where
  snapshot := snapshot
  buffer := []
  active := false
  draining := none
  closed := false
  entries := []
  received := []

/-- Whether an update of a thread is delivered at once. -/
def immediate (subscriber : Subscriber) (thread : Nat) : Bool :=
  !subscriber.closed && subscriber.active && subscriber.draining == some thread

/-- Hand over an update.  Updates of other threads and those before the activation
are buffered, the delivering thread's own ones are to be delivered at once; with nobody
delivering the emitting thread takes over. -/
def emit (subscriber : Subscriber) (thread index : Nat) (update : StateUpdate) :
    Subscriber × Option Delivery :=
  if subscriber.closed then (subscriber, none)
  else if !subscriber.active || subscriber.draining.any (· != thread) then
    ({ subscriber with buffer := subscriber.buffer ++ [update] }, none)
  else if subscriber.draining.isSome then (subscriber, some (.immediate index update))
  else
    ({ subscriber with draining := some thread, buffer := subscriber.buffer ++ [update] },
      some (.claim index))

/-- What is buffered for a member or taken but not delivered. -/
def outstanding (subscriber : Subscriber) (index : Nat) : List Batch :=
  batches index (subscriber.entries ++ subscriber.buffer)

/-- The next step of the delivering thread: the listener is called with the next entry, the
buffer is taken, or an empty one ends the delivery. -/
def drain (subscriber : Subscriber) : Subscriber × Bool := match subscriber.entries with
  | update :: rest =>
    ({ subscriber with entries := rest, received := subscriber.received ++ [update] }, false)
  | [] =>
    if subscriber.buffer.isEmpty then ({ subscriber with draining := none }, true)
    else ({ subscriber with entries := subscriber.buffer, buffer := [] }, false)

/-- Close the subscription. -/
def close (subscriber : Subscriber) : Subscriber :=
  if subscriber.closed then subscriber else { subscriber with closed := true, buffer := [] }

end Subscriber

/-- A subscribe call that holds the provider lock: the members read so far, and the
sequence of the next one once it was read. -/
structure Opening where
  captured : List Batch
  reading : Option JsInteger

/-- A call that has nothing to run is over. -/
def enter (call : Call) (calls : List Call) : List Call :=
  if call.deliveries.isEmpty then calls else call :: calls

/-- The delivery the innermost call of a thread is at, and the calls without it. -/
def nextDelivery (thread : Nat) : List Call → Option (Delivery × List Call)
  | [] => none
  | call :: calls =>
    if call.thread = thread then
      match call.deliveries with
      | [] => none
      | delivery :: rest => some (delivery, enter { call with deliveries := rest } calls)
    else (nextDelivery thread calls).map fun next => (next.1, call :: next.2)

/-- The updates a delivery calls a subscriber's listener with at once. -/
def Delivery.updates (subscriber : Nat) : Delivery → List StateUpdate
  | immediate index update => if index = subscriber then [update] else []
  | claim _ => []

/-- A provided service, with the calls that deliver, the innermost of each thread first. -/
structure Host where
  members : List Replicator
  opening : Option Opening
  subscribers : List Subscriber
  calls : List Call

/-- A step of some thread. -/
inductive HostEvent
  | member (index : Nat) (event : Event)
  /-- A subscribe call takes the provider lock. -/
  | lock
  | readSequence
  | readValue
  /-- It registers its subscriber and releases the lock. -/
  | register
  | activate (index thread : Nat)
  /-- A thread goes on with the delivery its innermost call is at. -/
  | run (thread : Nat)
  | close (index : Nat)

/-- The id of the provider's source listener on a member. -/
def source : Nat := 0

/-- A member as the provider finds it, with its source listener registered. -/
def member (initial : JsonValue) : Replicator :=
  { Replicator.new initial with sourceListeners := {source}, nextSourceListener := source + 1 }

/-- Steps of the thread that dispatches for a member. -/
def dispatching : Event → Bool
  | .collectSources => true
  | .callSource => true
  | .collectListeners => true
  | .callListener => true
  | .hydrate => true
  | .finish => true
  | .drain => true
  | _ => false

/-- Whether the provider's source listener would be removed. -/
def removes : Event → Bool
  | .unsubscribeSource id => id == source
  | _ => false

namespace Host

/-- A service that provides members with the given values. -/
def new (initials : List JsonValue) : Host where
  members := initials.map member
  opening := none
  subscribers := []
  calls := []

/-- Whether a member's dispatch waits for the deliveries of a batch it emitted. -/
def waits (host : Host) (index : Nat) (state : Replicator) : Bool :=
  host.calls.any fun call => call.caller == some (index, state.stack.length)

/-- Hand an update to the subscribers, and start on the deliveries. -/
def emit (host : Host) (thread height : Nat) (update : StateUpdate) : Host :=
  let handed := host.subscribers.mapIdx fun index subscriber =>
    subscriber.emit thread index update
  { host with
    subscribers := handed.map Prod.fst
    calls := enter
      { thread := thread
        caller := some (update.member, height)
        deliveries := handed.filterMap Prod.snd } host.calls }

/-- The updates that are to be delivered to a subscriber at once and were not yet. -/
def immediates (host : Host) (index : Nat) : List StateUpdate :=
  host.calls.flatMap fun call => call.deliveries.flatMap (Delivery.updates index)

/-- Start delivering to a subscriber. -/
def activate (host : Host) (index thread : Nat) (subscriber : Subscriber) : Host :=
  if subscriber.closed || subscriber.active then host
  else
    { host with
      subscribers := host.subscribers.set index
        { subscriber with active := true, draining := some thread }
      calls := { thread := thread, caller := none, deliveries := [.claim index] } :: host.calls }

/-- A thread runs what its innermost call is at. -/
def run (host : Host) (thread : Nat) : Option Host := match nextDelivery thread host.calls with
  | some (.immediate index update, calls) =>
    host.subscribers[index]?.map fun subscriber =>
      { host with
        subscribers := host.subscribers.set index
          { subscriber with received := subscriber.received ++ [update] }
        calls := calls }
  | some (.claim index, calls) =>
    host.subscribers[index]?.map fun subscriber =>
      { host with
        subscribers := host.subscribers.set index subscriber.drain.1
        calls := if subscriber.drain.2 then calls else host.calls }
  | none => none

section

variable [SerdeJson]

/-- A step of a member; the call of the provider's listener needs the provider lock. -/
def stepMember (host : Host) (index : Nat) (state : Replicator) (event : Event) : Option Host :=
  if removes event || dispatching event && host.waits index state then none
  else
    match event, state.emitting source with
    | .callSource, some publication =>
      match host.opening, state.inner.drainingThread, state.step .callSource with
      | none, some thread, some next =>
        some ({ host with members := host.members.set index next : Host }.emit thread
          next.stack.length ⟨index, publication.sequence, publication.ops⟩)
      | _, _, _ => none
    | event, _ =>
      (state.step event).map fun next => { host with members := host.members.set index next }

/-- One step; absent when it is not enabled. -/
def step (host : Host) : HostEvent → Option Host
  | .member index event =>
    match host.members[index]? with
    | some state => host.stepMember index state event
    | none => none
  | .lock =>
    match host.opening with
    | none => some { host with opening := some ⟨[], none⟩ }
    | some _ => none
  | .readSequence =>
    match host.opening with
    | some ⟨captured, none⟩ =>
      match host.members[captured.length]? with
      | some state =>
        some { host with opening := some ⟨captured, some state.inner.sequence⟩ }
      | none => none
    | _ => none
  | .readValue =>
    match host.opening with
    | some ⟨captured, some sequence⟩ =>
      match host.members[captured.length]? with
      | some state =>
        some { host with
          opening := some
            ⟨captured ++ [(sequence, [.replace state.inner.published])], none⟩ }
      | none => none
    | _ => none
  | .register =>
    match host.opening with
    | some ⟨captured, none⟩ =>
      if captured.length = host.members.length then
        some { host with
          opening := none
          subscribers := host.subscribers ++ [Subscriber.new captured] }
      else none
    | _ => none
  | .activate index thread => host.subscribers[index]?.map (host.activate index thread)
  | .run thread => host.run thread
  | .close index =>
    host.subscribers[index]?.map fun subscriber =>
      { host with subscribers := host.subscribers.set index subscriber.close }

end

end Host

/-- A provided service as a transition system; only strict JSON is admitted. -/
def host [SerdeJson] : Machine Host HostEvent where
  start state := ∃ initials, (∀ initial ∈ initials, initial.isJsonValue = true) ∧
    state = Host.new initials
  step := Host.step

end PiOxidized.Service.Provider
