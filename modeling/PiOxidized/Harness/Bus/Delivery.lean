/-
# The event bus

An emission binds its recipients and puts one batch into the queue before it returns.  A drain
worker takes the queue's items from the front and delivers them one recipient after the other.
A listener that emits while it is called has its batch put behind the other nested batches at
the front, and the future it gets back delivers items of the queue itself until its own batch
is done.

Every section under the lock of the bus is one step, and so is each call of a recipient and its
return.  An emission or a barrier is observed through a channel, which a ticket stands for.
-/

import Mathlib.Algebra.Order.Ring.Nat
import PiOxidized.Math.Transition

namespace PiOxidized.Harness

open Math

universe u v

namespace HarnessBus

/-- An event with what the bus looks at. -/
structure HarnessEvent (K : Type u) (P : Type v) where
  eventType : K
  payload : P
  deriving DecidableEq

/-- A recipient is its registration. -/
inductive Recipient
  | listener (id : Nat)
  | watcher (id : Nat)
  deriving DecidableEq

/-- Who puts an item into the queue. -/
inductive Source
  | outside
  /-- A recipient that is being called. -/
  | nested (recipient : Recipient)
  | barrier
  deriving DecidableEq

/-- The channel an item is observed through, in the order the items were admitted in. -/
structure Ticket where
  number : Nat
  source : Source
  deriving DecidableEq

/-- One call of one recipient. -/
structure Call (K : Type u) (P : Type v) where
  event : HarnessEvent K P
  recipient : Recipient
  deriving DecidableEq

structure BoundEvent (K : Type u) (P : Type v) where
  event : HarnessEvent K P
  recipients : List Recipient
  deriving DecidableEq

namespace BoundEvent

variable {K : Type u} {P : Type v}

/-- The calls a bound event is delivered by. -/
def calls (bound : BoundEvent K P) : List (Call K P) :=
  bound.recipients.map fun recipient => { event := bound.event, recipient := recipient }

end BoundEvent

inductive DeliveryItem (K : Type u) (P : Type v)
  | batch (done : Ticket) (events : List (BoundEvent K P))
  | barrier (done : Ticket)
  deriving DecidableEq

structure BusState (K : Type u) (P : Type v) where
  listeners : K → List Nat
  watchers : List Nat
  queue : List (DeliveryItem K P)
  running : Bool
  workerScheduled : Bool
  closed : Bool
  nextId : Nat
  /-- How many nested batches stand at the front of the queue. -/
  reentrantFront : Nat
  /-- The task that runs the drain. -/
  drainTask : Option Nat

/-- Where code runs. -/
structure Place where
  task : Option Nat
  /-- The thread is inside an inline delivery window. -/
  inlineDrain : Bool
  /-- A runtime can be spawned on. -/
  runtime : Bool
  deriving DecidableEq

/-- How far a worker or an inline delivery has got. -/
inductive Phase (K : Type u) (P : Type v)
  /-- Not polled yet. -/
  | created
  /-- A worker that there was no runtime to spawn on; the flag is still to be taken back. -/
  | unspawned
  /-- About to look at the queue. -/
  | ready
  | delivering (done : Ticket) (rest : List (Call K P))
  /-- The recipient of the call has not returned yet. -/
  | calling (done : Ticket) (call : Call K P) (rest : List (Call K P))
  | finished
  | dropped
  deriving DecidableEq

/-- Who takes items off the queue: a drain worker, or an inline delivery that waits for the
channel of its own item. -/
structure Consumer (K : Type u) (P : Type v) where
  place : Place
  awaits : Option Ticket
  phase : Phase K P
  deriving DecidableEq

/-- An admitted batch: its events and the registrations of the moment. -/
structure Admission (K : Type u) (P : Type v) where
  ticket : Ticket
  events : List (HarnessEvent K P)
  listeners : K → List Nat
  watchers : List Nat

namespace Admission

variable {K : Type u} {P : Type v}

/-- Who is to get an event: the listeners of its type, then the watchers. -/
def recipientsOf (a : Admission K P) (event : HarnessEvent K P) : List Recipient :=
  (a.listeners event.eventType).map .listener ++ a.watchers.map .watcher

/-- The calls the batch is to be delivered by, event after event. -/
def calls (a : Admission K P) : List (Call K P) := a.events.flatMap fun event =>
    (a.recipientsOf event).map fun recipient => { event := event, recipient := recipient }

end Admission

/-- The bus, its consumers, and what has happened. -/
structure World (K : Type u) (P : Type v) where
  bus : BusState K P
  consumers : List (Consumer K P) := []
  /-- How many items were put into the queue. -/
  tickets : Nat := 0
  /-- Oldest first. -/
  admissions : List (Admission K P) := []
  /-- The calls that were made, oldest first. -/
  made : List (Ticket × Call K P) := []
  /-- The batches whose completion was sent. -/
  sent : List Ticket := []
  /-- The barriers that were reached. -/
  fired : List Ticket := []
  /-- The channels whose sender went away. -/
  lost : List Ticket := []
  /-- The futures of emissions that resolved. -/
  resolved : List Ticket := []

/-- Who calls into the bus: a recipient that a consumer is calling, or anybody else. -/
inductive Caller
  | outside (place : Place)
  | inside (consumer : Nat)
  deriving DecidableEq

/-- Everything that can happen.  A worker that is spawned runs in the task given. -/
inductive Event (K : Type u) (P : Type v)
  | on (eventType : K)
  | installWatcher
  | off (eventType : K) (id : Nat)
  | unwatch (id : Nat)
  | emitBatch (caller : Caller) (events : List (HarnessEvent K P)) (worker : Nat)
  | enqueueBarrier (caller : Caller) (worker : Nat)
  | close
  /-- The future of an emission from outside is polled. -/
  | ensureDrain (place : Place)
  /-- The future of an emission from outside sees its channel resolved. -/
  | resolve (ticket : Ticket)
  /-- The future of an inline delivery is polled for the first time. -/
  | poll (consumer : Nat) (place : Place)
  | advance (consumer : Nat)
  /-- The future of a consumer is dropped. -/
  | drop (consumer : Nat)

namespace BusState

variable {K : Type u} {P : Type v}

/-- An open bus with no registrations. -/
def new : BusState K P where
  listeners _ := []
  watchers := []
  queue := []
  running := false
  workerScheduled := false
  closed := false
  nextId := 0
  reentrantFront := 0
  drainTask := none

/-- Ids wrap around. -/
def nextIdAfter (id : Nat) : Nat := (id + 1) % 2 ^ 64

/-- The recipients of an event, listeners first. -/
def bind (s : BusState K P) (event : HarnessEvent K P) : BoundEvent K P where
  event := event
  recipients := (s.listeners event.eventType).map .listener ++ s.watchers.map .watcher

/-- Whether the caller is taken for a listener running inside the drain. -/
def reentrantFromDrain (s : BusState K P) (place : Place) : Bool := place.inlineDrain ||
    match place.task with
    | none => false
    | some task => s.drainTask == some task

/-- Take the first item off the queue. -/
def popFront (s : BusState K P) : Option (DeliveryItem K P × BusState K P) := match s.queue with
  | [] => none
  | item :: rest =>
    some (item, { s with queue := rest, reentrantFront := s.reentrantFront - 1 })

/-- What a drain worker leaves behind when it finds the queue empty. -/
def handOff (s : BusState K P) : BusState K P := { s with
    running := false
    workerScheduled := false
    drainTask := none
    listeners := if s.closed then fun _ => [] else s.listeners
    watchers := if s.closed then [] else s.watchers }

/-- Seal the bus; the registries go at once when there is nothing left to deliver. -/
def close (s : BusState K P) : BusState K P := { s with
    closed := true
    listeners := if !s.running && s.queue.isEmpty then fun _ => [] else s.listeners
    watchers := if !s.running && s.queue.isEmpty then [] else s.watchers }

end BusState

namespace World

variable {K : Type u} {P : Type v}

/-- A bus on which nothing has happened. -/
def new : World K P where
  bus := BusState.new

/-- The place a caller runs at. -/
def placeOf (s : World K P) : Caller → Option Place
  | .outside place => some place
  | .inside index =>
    match s.consumers[index]? with
    | none => none
    | some consumer =>
      match consumer.phase with
      | .calling _ _ _ => some consumer.place
      | _ => none

/-- The source of what a caller emits. -/
def sourceOf (s : World K P) : Caller → Source
  | .outside _ => .outside
  | .inside index =>
    match s.consumers[index]? with
    | none => .outside
    | some consumer =>
      match consumer.phase with
      | .calling _ call _ => .nested call.recipient
      | _ => .outside

/-- Replace a consumer. -/
def put (s : World K P) (index : Nat) (consumer : Consumer K P) : World K P :=
  { s with consumers := s.consumers.set index consumer }

/-- Whether a channel has been sent on or lost its sender. -/
def observed (s : World K P) (ticket : Ticket) : Bool :=
  s.sent.contains ticket || s.fired.contains ticket || s.lost.contains ticket

/-! ## Putting items into the queue -/

/-- The worker of an emission: spawned, or run on the spot when there is no runtime. -/
def spawnDrain (place : Place) (worker : Nat) : Consumer K P where
  place := if place.runtime then { task := some worker, inlineDrain := false, runtime := true }
    else { task := none, inlineDrain := true, runtime := true }
  awaits := none
  phase := .created

/-- The worker of a barrier: spawned, or not there at all when there is no runtime. -/
def spawnBarrierDrain (place : Place) (worker : Nat) : Consumer K P where
  place := { task := some worker, inlineDrain := false, runtime := true }
  awaits := none
  phase := if place.runtime then .created else .unspawned

/-- Record an admitted batch. -/
def admitted (s : World K P) (ticket : Ticket) (events : List (HarnessEvent K P)) : World K P :=
  { s with
    tickets := s.tickets + 1
    admissions := s.admissions ++
      [{ ticket := ticket, events := events, listeners := s.bus.listeners,
         watchers := s.bus.watchers }] }

/-- Put an item at the back and schedule a worker unless one is. -/
def pushBack (s : World K P) (item : DeliveryItem K P) (worker : Consumer K P) : World K P :=
  { s with
    bus := { s.bus with
      queue := s.bus.queue ++ [item], running := true, workerScheduled := true }
    consumers := if s.bus.workerScheduled then s.consumers else s.consumers ++ [worker] }

/-- Put a nested batch behind the nested batches at the front; its future delivers inline. -/
def insertNested (s : World K P) (item : DeliveryItem K P) (inline : Consumer K P) : World K P :=
  { s with
    bus := { s.bus with
      queue := s.bus.queue.insertIdx s.bus.reentrantFront item
      reentrantFront := s.bus.reentrantFront + 1 }
    consumers := s.consumers ++ [inline] }

/-- Admit a batch. -/
def emitBatch (s : World K P) (caller : Caller) (events : List (HarnessEvent K P))
    (worker : Nat) : Option (World K P) :=
  match s.placeOf caller with
  | none => none
  | some place =>
    if events.isEmpty then some s
    else if s.bus.closed then some s
    else
      let ticket : Ticket := { number := s.tickets, source := s.sourceOf caller }
      let item := DeliveryItem.batch ticket (events.map s.bus.bind)
      if s.bus.reentrantFromDrain place then
        some ((s.admitted ticket events).insertNested item
          { place := place, awaits := some ticket, phase := .created })
      else some ((s.admitted ticket events).pushBack item (spawnDrain place worker))

/-- Put a barrier at the back.  Called from inside the drain it schedules nothing: its future
delivers inline. -/
def enqueueBarrier (s : World K P) (caller : Caller) (worker : Nat) : Option (World K P) :=
  match s.placeOf caller with
  | none => none
  | some place =>
    let ticket : Ticket := { number := s.tickets, source := .barrier }
    let s := { s with tickets := s.tickets + 1 }
    if s.bus.reentrantFromDrain place then
      some { s with
        bus := { s.bus with queue := s.bus.queue ++ [.barrier ticket] }
        consumers := s.consumers ++ [{ place := place, awaits := some ticket, phase := .created }] }
    else some (s.pushBack (.barrier ticket) (spawnBarrierDrain place worker))

/-- A future that finds work and no worker becomes one. -/
def ensureDrain (s : World K P) (place : Place) : World K P :=
  if s.bus.running && !s.bus.workerScheduled then
    { s with
      bus := { s.bus with workerScheduled := true }
      consumers := s.consumers ++ [{ place := place, awaits := none, phase := .created }] }
  else s

/-! ## Taking items off the queue -/

/-- Start on an item; a barrier is done at once. -/
def take (s : World K P) (index : Nat) (consumer : Consumer K P) (item : DeliveryItem K P)
    (bus : BusState K P) : World K P :=
  match item with
  | .batch done events =>
    { s with bus := bus }.put index
      { consumer with phase := .delivering done (events.flatMap BoundEvent.calls) }
  | .barrier done => { s with bus := bus, fired := s.fired ++ [done] }

/-- What a consumer that looks at the queue does. -/
def look (s : World K P) (index : Nat) (consumer : Consumer K P) : World K P :=
  match consumer.awaits with
  | none =>
    match s.bus.popFront with
    | none => { s with bus := s.bus.handOff }.put index { consumer with phase := .finished }
    | some (item, bus) => s.take index consumer item bus
  | some ticket =>
    if s.observed ticket then
      { s with resolved := s.resolved ++ [ticket] }.put index { consumer with phase := .finished }
    else
      match s.bus.popFront with
      | none =>
        { s with resolved := s.resolved ++ [ticket] }.put index { consumer with phase := .finished }
      | some (item, bus) => s.take index consumer item bus

/-- The next section of a consumer. -/
def consume (s : World K P) (index : Nat) (consumer : Consumer K P) : Option (World K P) :=
  match consumer.phase with
  | .created =>
    match consumer.awaits with
    | none =>
      some ({ s with bus := { s.bus with drainTask := consumer.place.task } }.put index
        { consumer with phase := .ready })
    | some _ => none
  | .unspawned =>
    some ({ s with bus := { s.bus with workerScheduled := false } }.put index
      { consumer with phase := .finished })
  | .ready => some (s.look index consumer)
  | .delivering done [] =>
    some ({ s with sent := s.sent ++ [done] }.put index { consumer with phase := .ready })
  | .delivering done (call :: rest) =>
    some ({ s with made := s.made ++ [(done, call)] }.put index
      { consumer with phase := .calling done call rest })
  | .calling done _ rest => some (s.put index { consumer with phase := .delivering done rest })
  | .finished => none
  | .dropped => none

/-- Drop the future of a consumer; an item it holds goes with it. -/
def dropConsumer (s : World K P) (index : Nat) (consumer : Consumer K P) : Option (World K P) :=
  let s := s.put index { consumer with phase := .dropped }
  match consumer.phase with
  | .delivering done _ => some { s with lost := s.lost ++ [done] }
  | .calling done _ _ => some { s with lost := s.lost ++ [done] }
  | .finished => none
  | .dropped => none
  | _ => some s

variable [DecidableEq K]

/-- One section, one call or one return. -/
def step (s : World K P) : Event K P → Option (World K P)
  | .on eventType =>
    if s.bus.closed then some s
    else
      some { s with bus := { s.bus with
        listeners := Function.update s.bus.listeners eventType
          (s.bus.listeners eventType ++ [s.bus.nextId])
        nextId := BusState.nextIdAfter s.bus.nextId } }
  | .installWatcher =>
    if s.bus.closed then some s
    else
      some { s with bus := { s.bus with
        watchers := s.bus.watchers ++ [s.bus.nextId]
        nextId := BusState.nextIdAfter s.bus.nextId } }
  | .off eventType id =>
    some { s with bus := { s.bus with
      listeners := Function.update s.bus.listeners eventType
        ((s.bus.listeners eventType).filter (· ≠ id)) } }
  | .unwatch id =>
    some { s with bus := { s.bus with watchers := s.bus.watchers.filter (· ≠ id) } }
  | .emitBatch caller events worker => s.emitBatch caller events worker
  | .enqueueBarrier caller worker => s.enqueueBarrier caller worker
  | .close => some { s with bus := s.bus.close }
  | .ensureDrain place => some (s.ensureDrain place)
  | .resolve ticket =>
    if s.observed ticket then some { s with resolved := s.resolved ++ [ticket] } else none
  | .poll index place =>
    match s.consumers[index]? with
    | none => none
    | some consumer =>
      if consumer.phase matches .created then
        if consumer.awaits.isSome then
          some (s.put index { consumer with place := place, phase := .ready })
        else none
      else none
  | .advance index =>
    match s.consumers[index]? with
    | none => none
    | some consumer => s.consume index consumer
  | .drop index =>
    match s.consumers[index]? with
    | none => none
    | some consumer => s.dropConsumer index consumer

/-- A bus with everything that can happen to it. -/
def machine : Machine (World K P) (Event K P) where
  start s := s = new
  step := step

end World

end HarnessBus

end PiOxidized.Harness
