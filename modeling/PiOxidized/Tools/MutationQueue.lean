/-
# The queue of file mutations

Calls that mutate the same file wait for each other at a gate with one permit.  A registry maps the
key of a file to its gate by a weak reference; the gate lives as long as a call has a reference to
it.  Registering a call and taking a key out of the registry are done under a lock, each in one
step; acquiring and releasing the permit and dropping a reference are not.

Which of the waiting calls is given a free permit is left open.  A call can be cancelled at each of
its three awaits: while its key is resolved, while it waits for the permit, and while its closure
runs.  A permit that is granted to a waiting call can be lost to a cancellation before the call is
resumed.
-/

import PiOxidized.Math.Transition
import Mathlib.Logic.Function.Basic

namespace PiOxidized.Tools

open Math Function

/-- What a call with a registration has come to. -/
inductive Stage
  /-- The registration has the only reference of the call to the gate. -/
  | registered
  /-- The future that acquires the permit has another one. -/
  | waiting
  | granted
  | running
  /-- The closure has ended or was dropped, and the permit is still held. -/
  | finished
  /-- The permit is released, and its reference is still held. -/
  | released
  | leaving
  /-- The locked part of the deregistration is over, and the reference is still held. -/
  | deregistered
  deriving DecidableEq

inductive Call (K : Type)
  | resolving
  | keyed (key : K)
  | held (stage : Stage) (key : K) (gate : Nat)
  | done
  deriving DecidableEq

structure Queue (K : Type) where
  registry : K → Option Nat
  /-- How many strong references there are to a gate. -/
  strongCount : Nat → Nat
  permits : Nat → Nat
  nextGate : Nat
  calls : List (Call K)

inductive QueueEvent (K : Type)
  | call
  | resolve (call : Nat) (key : K)
  | fail (call : Nat)
  | register (call : Nat)
  | clone (call : Nat)
  | acquire (call : Nat)
  | resume (call : Nat)
  | finish (call : Nat)
  | release (call : Nat)
  | dropPermit (call : Nat)
  | deregister (call : Nat)
  | dropGate (call : Nat)
  | cancel (call : Nat)

namespace Queue

variable {K : Type} [DecidableEq K]

/-- No call has begun. -/
def empty : Queue K := ⟨fun _ => none, fun _ => 0, fun _ => 0, 0, []⟩

def setCall (queue : Queue K) (i : Nat) (call : Call K) : Queue K :=
  { queue with calls := queue.calls.set i call }

def addReference (queue : Queue K) (gate : Nat) : Queue K := { queue with
    strongCount := update queue.strongCount gate (queue.strongCount gate + 1) }

def dropReference (queue : Queue K) (gate : Nat) : Queue K := { queue with
    strongCount := update queue.strongCount gate (queue.strongCount gate - 1) }

def addPermit (queue : Queue K) (gate : Nat) : Queue K :=
  { queue with permits := update queue.permits gate (queue.permits gate + 1) }

def takePermit (queue : Queue K) (gate : Nat) : Queue K :=
  { queue with permits := update queue.permits gate (queue.permits gate - 1) }

/-- A new gate with one permit and one reference, registered for a key. -/
def newGate (queue : Queue K) (key : K) : Queue K := { queue with
    registry := update queue.registry key (some queue.nextGate)
    strongCount := update queue.strongCount queue.nextGate 1
    permits := update queue.permits queue.nextGate 1
    nextGate := queue.nextGate + 1 }

/-- The gate of a key that can still be upgraded to a strong reference. -/
def liveGate (queue : Queue K) (key : K) : Option Nat :=
  (queue.registry key).filter fun gate => 0 < queue.strongCount gate

def register (queue : Queue K) (i : Nat) (key : K) : Queue K := match queue.liveGate key with
  | some gate => (queue.addReference gate).setCall i (.held .registered key gate)
  | none => (queue.newGate key).setCall i (.held .registered key queue.nextGate)

/-- The locked part of dropping a registration: the key is taken out when it maps to the gate of
the registration and there is no other reference to the gate. -/
def deregister (queue : Queue K) (key : K) (gate : Nat) : Queue K :=
  if queue.registry key = some gate ∧ queue.strongCount gate = 1 then
    { queue with registry := update queue.registry key none }
  else queue

/-- A step of a call that is at a stage. -/
def atStage (queue : Queue K) (i : Nat) (stage : Stage) (next : K → Nat → Queue K) :
    Option (Queue K) :=
  match queue.calls[i]? with
  | some (.held current key gate) => if current = stage then some (next key gate) else none
  | _ => none

def step (queue : Queue K) : QueueEvent K → Option (Queue K)
  | .call => some { queue with calls := queue.calls ++ [.resolving] }
  | .resolve i key =>
    if queue.calls[i]? = some .resolving then some (queue.setCall i (.keyed key)) else none
  | .fail i => if queue.calls[i]? = some .resolving then some (queue.setCall i .done) else none
  | .register i =>
    match queue.calls[i]? with
    | some (.keyed key) => some (queue.register i key)
    | _ => none
  | .clone i => queue.atStage i .registered fun key gate =>
    (queue.addReference gate).setCall i (.held .waiting key gate)
  | .acquire i =>
    match queue.calls[i]? with
    | some (.held .waiting key gate) =>
      if 0 < queue.permits gate then
        some ((queue.takePermit gate).setCall i (.held .granted key gate))
      else none
    | _ => none
  | .resume i => queue.atStage i .granted fun key gate => queue.setCall i (.held .running key gate)
  | .finish i => queue.atStage i .running fun key gate => queue.setCall i (.held .finished key gate)
  | .release i => queue.atStage i .finished fun key gate =>
    (queue.addPermit gate).setCall i (.held .released key gate)
  | .dropPermit i => queue.atStage i .released fun key gate =>
    (queue.dropReference gate).setCall i (.held .leaving key gate)
  | .deregister i => queue.atStage i .leaving fun key gate =>
    (queue.deregister key gate).setCall i (.held .deregistered key gate)
  | .dropGate i => queue.atStage i .deregistered fun _ gate =>
    (queue.dropReference gate).setCall i .done
  | .cancel i =>
    match queue.calls[i]? with
    | some .resolving => some (queue.setCall i .done)
    | some (.held .waiting key gate) =>
      some ((queue.dropReference gate).setCall i (.held .leaving key gate))
    | some (.held .granted key gate) => some (queue.setCall i (.held .finished key gate))
    | some (.held .running key gate) => some (queue.setCall i (.held .finished key gate))
    | _ => none

/-- The queue from its start on. -/
def machine (K : Type) [DecidableEq K] : Machine (Queue K) (QueueEvent K) where
  start queue := queue = empty
  step := step

end Queue

end PiOxidized.Tools
