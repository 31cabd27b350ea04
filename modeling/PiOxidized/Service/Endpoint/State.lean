/-
# Endpoint state

The state behind the endpoint's lock and the sections that run under it.  A
subscribe call registers at most once, so the number of the call stands for the
provider subscription it opened and for the token allocated at registration.
-/

import PiOxidized.Service.Error
import Mathlib.Data.Finset.Basic

namespace PiOxidized.Service.Endpoint

open Math

/-- A registered subscription. -/
structure EndpointSubscription where
  subscription : Nat
  token : Nat
  deriving DecidableEq

/-- What an unfinished operation reserves. -/
inductive Reservation
  | pending (id : JsString)
  | closing (id : JsString)
  deriving DecidableEq

/-- The state behind the lock. -/
structure EndpointState where
  subscriptions : OrderedMap JsString EndpointSubscription
  deliveryErrors : OrderedMap JsString ServiceError
  pendingIds : Finset JsString
  closingIds : Finset JsString
  pendingOperations : Nat
  disposed : Bool

namespace EndpointState

/-- The state of a fresh endpoint. -/
def new : EndpointState where
  subscriptions := ∅
  deliveryErrors := ∅
  pendingIds := ∅
  closingIds := ∅
  pendingOperations := 0
  disposed := false

/-- Finish an operation and release what it reserved. -/
def complete (state : EndpointState) (reservation : Option Reservation) : EndpointState :=
  let released := match reservation with
    | some (.pending id) => { state with pendingIds := state.pendingIds.erase id }
    | some (.closing id) => { state with closingIds := state.closingIds.erase id }
    | none => state
  { released with pendingOperations := state.pendingOperations - 1 }

/-- Reserve an id for a subscribe call. -/
def admitSubscribe (state : EndpointState) (id : JsString) : Except ServiceError EndpointState :=
  if state.disposed then .error (.disposed "Remote service endpoint is disposed")
  else if state.subscriptions.contains id || decide (id ∈ state.pendingIds) ||
      decide (id ∈ state.closingIds) then
    .error (.localUsage "Service subscription ID is already active")
  else
    .ok { state with
        deliveryErrors := state.deliveryErrors.erase id
        pendingIds := insert id state.pendingIds
        pendingOperations := state.pendingOperations + 1 }

/-- Take a live subscription for closing. -/
def admitUnsubscribe (state : EndpointState) (id : JsString) :
    Except ServiceError (Nat × EndpointState) :=
  if state.disposed then .error (.disposed "Remote service endpoint is disposed")
  else
    match state.subscriptions.get? id with
    | none => .error (.localUsage "Service subscription was not found")
    | some entry =>
      .ok (entry.subscription, { state with
          subscriptions := state.subscriptions.erase id
          closingIds := insert id state.closingIds
          pendingOperations := state.pendingOperations + 1 })

/-- Register the subscription a call opened, unless the endpoint is disposed. -/
def registerSubscription (state : EndpointState) (id : JsString) (subscription : Nat) :
    Bool × EndpointState :=
  let released := { state with pendingIds := state.pendingIds.erase id }
  if state.disposed then (false, released)
  else
    (true, { released with
      subscriptions := state.subscriptions.insert id ⟨subscription, subscription⟩ })

/-- Start disposal; only the first call does. -/
def beginDispose (state : EndpointState) : Bool × EndpointState :=
  if state.disposed then (false, state) else (true, { state with disposed := true })

/-- Take every registered subscription. -/
def takeSubscriptions (state : EndpointState) : List Nat × EndpointState :=
  (state.subscriptions.values.map EndpointSubscription.subscription,
    { state with subscriptions := ∅ })

/-- Whether the subscription registered under an id is the one a token was issued for. -/
def subscriptionIsCurrent (state : EndpointState) (id : JsString) (token : Option Nat) : Bool :=
  (state.subscriptions.get? id).any fun entry => token == some entry.token

/-- Record a delivery failure and remove the subscription it belongs to. -/
def failSubscription (state : EndpointState) (id : JsString) (token : Option Nat)
    (error : ServiceError) : Option Nat × EndpointState :=
  if state.subscriptionIsCurrent id token then
    ((state.subscriptions.get? id).map EndpointSubscription.subscription, { state with
        deliveryErrors := state.deliveryErrors.insert id error
        subscriptions := state.subscriptions.erase id })
  else (none, state)

/-- Admit the delivery of one update. -/
def admitDelivery (state : EndpointState) : Option EndpointState := if state.disposed then none
  else some { state with pendingOperations := state.pendingOperations + 1 }

/-- Take the recorded delivery failure of one subscription. -/
def takeDeliveryError (state : EndpointState) (id : JsString) :
    Option ServiceError × EndpointState :=
  (state.deliveryErrors.get? id, { state with deliveryErrors := state.deliveryErrors.erase id })

/-- Drain every recorded delivery failure. -/
def takeDeliveryErrors (state : EndpointState) : List ServiceError × EndpointState :=
  (state.deliveryErrors.values, { state with deliveryErrors := ∅ })

end EndpointState

end PiOxidized.Service.Endpoint
