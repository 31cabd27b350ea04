/-
# The stream of a subscription

One subscription, from the publications of its provider to the listener of the client.  Updates
are named by the order of their publication, and pass two bounded queues: the server's, closed
until the subscribe response is sent, and the client's, closed until the subscription starts.
Each is drained by one worker at a time.

The route of the subscription stays current, updates are encoded and decoded in the order they
pass, a frame arrives in the order it was handed over or not at all, and a worker is not dropped.
-/

import Mathlib.Data.Option.Defs
import PiOxidized.Math.Transition

namespace PiOxidized.Remote

open Math

def maxQueuedSubscriptionUpdates : Nat := 1024

def maxQueuedServiceUpdates : Nat := 4096

/-! ## The server's queue -/

structure PendingUpdates where
  active : Bool := false
  draining : Bool := false
  queue : List Nat := []
  overflowed : Bool := false
  deriving DecidableEq

/-- What becomes of a publication. -/
inductive EnqueuedPublication
  | buffered
  /-- The publisher drains what is queued. -/
  | claimed (batch : List Nat)
  | deferred
  /-- The publisher closes the connection. -/
  | overflow
  deriving DecidableEq

namespace PendingUpdates

def enqueue (p : PendingUpdates) (update : Nat) : EnqueuedPublication × PendingUpdates :=
  if p.active = false then
    if maxQueuedSubscriptionUpdates ≤ p.queue.length then
      (.buffered, { p with overflowed := true })
    else (.buffered, { p with queue := p.queue ++ [update] })
  else if maxQueuedSubscriptionUpdates ≤ p.queue.length then (.overflow, p)
  else if p.draining then (.deferred, { p with queue := p.queue ++ [update] })
  else (.claimed (p.queue ++ [update]), { p with draining := true, queue := [] })

def activate (p : PendingUpdates) : List Nat × PendingUpdates :=
  (p.queue, { p with active := true, draining := true, queue := [] })

def nextBatch (p : PendingUpdates) : Option (List Nat) × PendingUpdates :=
  if p.queue = [] then (none, { p with draining := false })
  else (some p.queue, { p with queue := [] })

end PendingUpdates

/-! ## The client's queue -/

structure ActiveServiceState where
  hydrated : Bool := false
  ready : Bool := false
  delivering : Bool := false
  queuedWire : List Nat := []
  queued : List Nat := []
  deriving DecidableEq

/-! ## The whole stream -/

/-- How far the handler of the subscribe call has got. -/
inductive SubscribePhase
  | invoking
  /-- It returned a snapshot, and the encoder is installed. -/
  | installed
  /-- The buffer had not overflowed when it was looked at. -/
  | accepted
  /-- The response is sent. -/
  | responded
  | activated
  /-- About to send an error. -/
  | refusing
  | refused
  /-- The response could not be sent. -/
  | unsent
  deriving DecidableEq

inductive StreamFrame
  | response
  | responseError
  | update (update : Nat)
  | close
  deriving DecidableEq

structure Stream where
  /-- How many updates were published since the snapshot. -/
  published : Nat := 0
  pending : PendingUpdates := {}
  phase : SubscribePhase := .invoking
  /-- What the worker of the server has still to send of its batch. -/
  worker : Option (List Nat) := none
  /-- The publishers that overflowed the queue and have not closed the connection yet. -/
  closers : Nat := 0
  /-- The first update that was lost to a full queue after activation. -/
  lost : Option Nat := none
  /-- Whether the close of the connection is handed over. -/
  closing : Bool := false
  /-- Whether the server's end of the connection is disconnected. -/
  terminal : Bool := false
  /-- Frames on their way, oldest first. -/
  wire : List StreamFrame := []
  /-- The reply the subscribing task of the client has not seen yet. -/
  reply : Option Bool := none
  state : ActiveServiceState := {}
  /-- Whether the listener is registered. -/
  registered : Bool := true
  disposed : Bool := false
  /-- Whether the client's end of the connection has failed. -/
  failed : Bool := false
  /-- The update that is delivered as it arrives. -/
  direct : Option Nat := none
  /-- What `start` has still to deliver of its batch. -/
  starter : Option (List Nat) := none
  /-- What the listener was called with. -/
  received : List Nat := []
  deriving DecidableEq

inductive StreamEvent
  | publish
  /-- An overflowed publisher closes the connection. -/
  | close
  /-- The handler returns. -/
  | result (ok : Bool)
  /-- The next section of the subscribe request after its handler. -/
  | advance
  /-- The worker of the server sends an update. -/
  | send
  | nextBatch
  | disconnect
  /-- A frame arrives, and decodes or not. -/
  | receive (decodes : Bool)
  /-- The subscribing task sees the reply. -/
  | hydrate (decodes : Bool)
  | start
  /-- `start` delivers an update. -/
  | deliver
  | startNext
  | deliverDirect
  | dispose
  /-- The client's connection fails. -/
  | fail
  /-- The listeners of a failed connection are forgotten. -/
  | forget
  deriving DecidableEq

/-- Whether the buffer has been looked at for the last time before activation. -/
def SubscribePhase.gated : SubscribePhase → Bool
  | accepted | responded => true
  | _ => false

namespace Stream

/-- Hand a frame to the connection. -/
def hand (s : Stream) (frame : StreamFrame) : Stream :=
  if s.terminal || s.closing then s else { s with wire := s.wire ++ [frame] }

def publish (s : Stream) : Stream := match s.pending.enqueue s.published with
  | (.buffered, pending) | (.deferred, pending) =>
    { s with published := s.published + 1, pending := pending }
  | (.claimed batch, pending) =>
    { s with published := s.published + 1, pending := pending, worker := some batch }
  | (.overflow, pending) =>
    { s with
      published := s.published + 1
      pending := pending
      closers := s.closers + 1
      lost := s.lost <|> some s.published }

/-- The next section of the subscribe request. -/
def advance (s : Stream) : Option Stream := match s.phase with
  | .installed =>
    some { s with phase := if s.pending.overflowed then .refusing else .accepted }
  | .accepted =>
    if s.terminal || s.closing then some { s with phase := .unsent }
    else some { s.hand .response with phase := .responded }
  | .responded =>
    match s.pending.activate with
    | (batch, pending) =>
      some { s with phase := .activated, pending := pending, worker := some batch }
  | .refusing => some { s.hand .responseError with phase := .refused }
  | _ => none

def nextBatch (s : Stream) : Stream := match s.pending.nextBatch with
  | (batch, pending) => { s with pending := pending, worker := batch }

/-- An update arrives at the client. -/
def onServiceUpdate (s : Stream) (update : Nat) (decodes : Bool) : Stream :=
  if s.registered = false then s
  else if s.state.hydrated = false then
    if maxQueuedServiceUpdates ≤ s.state.queuedWire.length then { s with failed := true }
    else { s with state := { s.state with queuedWire := s.state.queuedWire ++ [update] } }
  else if decodes = false then { s with failed := true }
  else if s.state.ready && !s.state.delivering then { s with direct := some update }
  else if maxQueuedServiceUpdates ≤ s.state.queued.length then { s with failed := true }
  else { s with state := { s.state with queued := s.state.queued ++ [update] } }

/-- A frame arrives at the client. -/
def receive (s : Stream) (decodes : Bool) : Option Stream :=
  if s.failed || s.direct.isSome then none
  else
    match s.wire with
    | [] => none
    | .response :: wire => some { s with wire := wire, reply := some true }
    | .responseError :: wire => some { s with wire := wire, reply := some false }
    | .update update :: wire => some ({ s with wire := wire }.onServiceUpdate update decodes)
    | .close :: wire => some { s with wire := wire, failed := true }

/-- The reply of the server is seen. -/
def hydrate (s : Stream) (decodes : Bool) : Option Stream := match s.reply with
  | none => none
  | some false => some { s with reply := none, registered := false }
  | some true =>
    if decodes then
      some { s with
        reply := none
        state := { s.state with
          hydrated := true
          queued := s.state.queued ++ s.state.queuedWire
          queuedWire := [] } }
    else some { s with reply := none, registered := false, failed := true }

/-- Call the listener, unless it is not registered any more. -/
def deliver (s : Stream) (update : Nat) : Stream :=
  if s.registered then { s with received := s.received ++ [update] } else s

def step (s : Stream) : StreamEvent → Option Stream
  | .publish => some s.publish
  | .close =>
    if 0 < s.closers then
      some { s.hand .close with closing := true, closers := s.closers - 1 }
    else none
  | .result ok =>
    if s.phase = .invoking then
      some { s with phase := if ok then .installed else .refusing }
    else none
  | .advance => s.advance
  | .send =>
    match s.worker with
    | some (update :: batch) => some { s.hand (.update update) with worker := some batch }
    | _ => none
  | .nextBatch => if s.worker = some [] then some s.nextBatch else none
  | .disconnect => some { s with terminal := true }
  | .receive decodes => s.receive decodes
  | .hydrate decodes => s.hydrate decodes
  | .start =>
    if s.state.hydrated && !s.state.ready && !s.disposed then
      some { s with
        starter := some s.state.queued
        state := { s.state with ready := true, delivering := true, queued := [] } }
    else none
  | .deliver =>
    match s.starter with
    | some (update :: batch) => some { s.deliver update with starter := some batch }
    | _ => none
  | .startNext =>
    if s.starter = some [] then
      if s.state.queued = [] then
        some { s with starter := none, state := { s.state with delivering := false } }
      else
        some { s with starter := some s.state.queued, state := { s.state with queued := [] } }
    else none
  | .deliverDirect =>
    match s.direct with
    | some update => some { s.deliver update with direct := none }
    | none => none
  | .dispose => some { s with disposed := true, registered := false }
  | .fail => some { s with failed := true }
  | .forget => if s.failed then some { s with registered := false } else none

/-- A subscribe call that has just reached its handler. -/
def machine : Machine Stream StreamEvent where
  start s := s = {}
  step := step

end Stream

end PiOxidized.Remote
