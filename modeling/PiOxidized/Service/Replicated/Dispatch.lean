/-
# Dispatch of a mutable state

Publications and hydrations leave the lock by one of three routes: the first
thread to find no drain running starts one, a call made by the draining thread
itself is dispatched inline, and every other call queues.  Only the draining
thread calls listeners, so what it has still to do is a stack of frames: the
dispatch it was started with or took off the queue, and on top of it the ones its
callbacks made inline.

Callbacks are identified with the ids they are registered under.  A hydration's
listener is called right after it was inserted, with nothing of this thread in
between, and both are one step.
-/

import Mathlib.Order.Lattice.Nat
import PiOxidized.Math.Transition
import PiOxidized.Service.Replicated.State

namespace PiOxidized.Service.Replicated

open Math
open Service.Delta

/-- Whether a delivery is a hydration or an update. -/
inductive ReplicatedStateDeliveryKind
  | hydrate
  | update
  deriving DecidableEq

/-- One call of a listener. -/
structure Delivery where
  kind : ReplicatedStateDeliveryKind
  sequence : JsInteger
  value : JsonValue

/-- A dispatch in progress on the draining thread. -/
inductive Frame
  /-- The source listeners have not been collected yet. -/
  | publication (publication : PendingPublication)
  /-- Source listeners still to be called. -/
  | sources (publication : PendingPublication) (rest : List Nat)
  /-- Listeners still to be called. -/
  | updates (publication : PendingPublication) (rest : List Nat)
  /-- The hydration's listener has not been inserted yet. -/
  | hydrating (hydration : PendingHydration)
  /-- The hydration's listener has been called. -/
  | hydrated

/-- The ids of a listener map in the order it is iterated. -/
def keys (ids : Finset Nat) : List Nat :=
  (List.range ((ids.sup fun key => key) + 1)).filter (· ∈ ids)

theorem mem_keys {ids : Finset Nat} {key : Nat} : key ∈ keys ids ↔ key ∈ ids := by
  rw [keys, List.mem_filter, List.mem_range, decide_eq_true_iff, and_iff_right_iff_imp]
  intro hmem
  exact Nat.lt_succ_of_le (Finset.le_sup (f := fun key => key) hmem)

theorem nodup_keys (ids : Finset Nat) : (keys ids).Nodup := List.nodup_range.filter _

/-- The frame a dispatch starts with. -/
def PendingDispatch.frame : PendingDispatch → Frame
  | .publication flushed => .publication flushed
  | .hydration captured => .hydrating captured

/-- Whether a callback of the frame may be running. -/
def Frame.calling : Frame → Bool
  | .sources _ _ => true
  | .updates _ _ => true
  | .hydrated => true
  | _ => false

/-- A mutable state with its listeners and the stack of its draining thread, the
log of listener calls, the revisions published so far, and the ids whose
unsubscribe found their listener not yet inserted. -/
structure Replicator where
  inner : MutableInner
  listeners : Finset Nat
  sourceListeners : Finset Nat
  nextListener : Nat
  nextSourceListener : Nat
  /-- Ids allocated to subscribe calls that have not captured a revision yet. -/
  reserved : Finset Nat
  /-- Ids whose remove handle has been called. -/
  closed : Finset Nat
  stack : List Frame
  log : List (Nat × Delivery)
  revisions : List (JsInteger × JsonValue)
  withdrawn : Finset Nat

/-- A step of some thread. -/
inductive Event
  /-- A mutation of the tracked value ends. -/
  | mutate (root : JsonValue)
  | publish (thread : Nat)
  /-- A subscribe call allocates its id. -/
  | allocate
  /-- A subscribe call captures the current revision. -/
  | subscribe (thread id : Nat)
  | unsubscribe (id : Nat)
  | subscribeSource
  | unsubscribeSource (id : Nat)
  | collectSources
  | callSource
  | collectListeners
  | callListener
  | hydrate
  | finish
  | drain

namespace Replicator

/-- A fresh state. -/
def new (initial : JsonValue) : Replicator where
  inner := MutableInner.new initial
  listeners := ∅
  sourceListeners := ∅
  nextListener := 0
  nextSourceListener := 0
  reserved := ∅
  closed := ∅
  stack := []
  log := []
  revisions := [(JsInteger.zero, initial)]
  withdrawn := ∅

/-- The calls of one listener, in order. -/
def deliveries (replicator : Replicator) (id : Nat) : List Delivery :=
  replicator.log.filterMap fun entry => if entry.1 = id then some entry.2 else none

/-- Whether a thread can make a call: the draining thread only from a callback. -/
def mayCall (replicator : Replicator) (thread : Nat) : Bool :=
  match replicator.inner.route thread with
  | .inline => replicator.stack.head?.any Frame.calling
  | _ => true

/-- Route a dispatch of a thread. -/
def dispatch (replicator : Replicator) (thread : Nat) (pending : PendingDispatch) : Replicator :=
  match replicator.inner.route thread with
  | .start =>
    { replicator with
      inner := { replicator.inner with draining := true, drainingThread := some thread }
      stack := pending.frame :: replicator.stack }
  | .inline => { replicator with stack := pending.frame :: replicator.stack }
  | .queued =>
    { replicator with
      inner := { replicator.inner with pending := replicator.inner.pending ++ [pending] } }

section

variable [SerdeJson]

/-- Publish the tracked value. -/
def publish (replicator : Replicator) (thread : Nat) : Replicator :=
  match replicator.inner.flushPublication with
  | (.ok (some publication), inner) =>
    { replicator with
      inner := inner
      revisions := replicator.revisions ++ [(publication.sequence, publication.value)]
      : Replicator }.dispatch thread (.publication publication)
  | (_, inner) => { replicator with inner := inner }

/-- One step; absent when it is not enabled. -/
def step (replicator : Replicator) : Event → Option Replicator
  | .mutate root =>
    some { replicator with
      inner := { replicator.inner with tracker := replicator.inner.tracker.stateMut root } }
  | .publish thread =>
    if replicator.mayCall thread then some (replicator.publish thread) else none
  | .allocate =>
    some { replicator with
      nextListener := replicator.nextListener + 1
      reserved := insert replicator.nextListener replicator.reserved }
  | .subscribe thread id =>
    if id ∈ replicator.reserved ∧ replicator.mayCall thread then
      some ({ replicator with reserved := replicator.reserved.erase id : Replicator }.dispatch
        thread (.hydration ⟨id, replicator.inner.published, replicator.inner.sequence⟩))
    else none
  | .unsubscribe id =>
    if id < replicator.nextListener ∧ id ∉ replicator.reserved ∧ id ∉ replicator.closed then
      if id ∈ replicator.listeners then
        some { replicator with
          closed := insert id replicator.closed
          listeners := replicator.listeners.erase id }
      else
        some { replicator with
          closed := insert id replicator.closed
          inner := { replicator.inner with retired := insert id replicator.inner.retired }
          withdrawn := insert id replicator.withdrawn }
    else none
  | .subscribeSource =>
    some { replicator with
      nextSourceListener := replicator.nextSourceListener + 1
      sourceListeners := insert replicator.nextSourceListener replicator.sourceListeners }
  | .unsubscribeSource id =>
    some { replicator with sourceListeners := replicator.sourceListeners.erase id }
  | .collectSources =>
    match replicator.stack with
    | .publication publication :: stack =>
      some { replicator with
        stack := .sources publication (keys replicator.sourceListeners) :: stack }
    | _ => none
  | .callSource =>
    match replicator.stack with
    | .sources publication (_ :: rest) :: stack =>
      some { replicator with stack := .sources publication rest :: stack }
    | _ => none
  | .collectListeners =>
    match replicator.stack with
    | .sources publication [] :: stack =>
      some { replicator with stack := .updates publication (keys replicator.listeners) :: stack }
    | _ => none
  | .callListener =>
    match replicator.stack with
    | .updates publication (id :: rest) :: stack =>
      some { replicator with
        stack := .updates publication rest :: stack
        log := replicator.log ++ [(id, ⟨.update, publication.sequence, publication.value⟩)] }
    | _ => none
  | .hydrate =>
    match replicator.stack with
    | .hydrating hydration :: stack =>
      if hydration.id ∈ replicator.inner.retired then
        some { replicator with
          inner := { replicator.inner with
            retired := replicator.inner.retired.erase hydration.id }
          stack := stack }
      else
        some { replicator with
          listeners := insert hydration.id replicator.listeners
          stack := .hydrated :: stack
          log := replicator.log ++
            [(hydration.id, ⟨.hydrate, hydration.sequence, hydration.value⟩)] }
    | _ => none
  | .finish =>
    match replicator.stack with
    | .updates _ [] :: stack => some { replicator with stack := stack }
    | .hydrated :: stack => some { replicator with stack := stack }
    | _ => none
  | .drain =>
    match replicator.stack, replicator.inner.draining, replicator.inner.pending with
    | [], true, next :: pending =>
      some { replicator with
        inner := { replicator.inner with pending := pending }
        stack := [next.frame] }
    | [], true, [] =>
      some { replicator with
        inner := { replicator.inner with draining := false, drainingThread := none } }
    | _, _, _ => none

end

end Replicator

/-- A mutable state as a transition system. -/
def replicator [SerdeJson] (initial : JsonValue) : Machine Replicator Event where
  start state := state = Replicator.new initial
  step := Replicator.step

end PiOxidized.Service.Replicated
