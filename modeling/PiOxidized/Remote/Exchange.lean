/-
# A client and a server over one link

The link is reliable and ordered both ways: the server takes the frames of the client in the
order they were sent, and the client those of the server.  Requests go to the server itself, any
of them may be cancelled at any time, and handlers complete in any order.
-/

import PiOxidized.Remote.Client
import PiOxidized.Remote.Server

namespace PiOxidized.Remote

open Math

structure Exchange (R : Type) where
  client : Client R
  server : Server R
  /-- How many frames of the client the server has taken. -/
  received : Nat := 0
  /-- How many frames of the server the client has taken. -/
  arrived : Nat := 0

inductive ExchangeEvent (R : Type)
  | request (call : R)
  | advance (request : Nat) (event : RequestEvent)
  /-- A callback of the client goes on. -/
  | handle (call : Nat)
  /-- The next frame of the client reaches the server. -/
  | deliver
  /-- The next frame of the server reaches the client. -/
  | arrive
  | serve (handler : Nat) (event : HandlerEvent R)

/-- The writer of a reliable link is never gone. -/
def RequestEvent.isReliable : RequestEvent → Bool
  | send (.closed _) => false
  | _ => true

variable {R : Type}

/-- The id and the reply of a message that answers a request. -/
def ServerMessage.answer? : ServerMessage R → Option (String × Reply R)
  | response id result => some (id, .ok result)
  | responseError id error => some (id, .error (.server error))
  | _ => none

/-- Whether the caller of a request has cancelled it and left. -/
def RequestPhase.gaveUp : RequestPhase R → Bool
  | cancelling => true
  | returned (.error .cancelled) => true
  | _ => false

/-- What a caller gets of the result of a handler. -/
def replyOf : HandlerResult R → Reply R
  | .ok result => .ok result
  | .error error => .error (.server (toProtocolError error))

/-- The answer of a task, once it is sent. -/
def HandlerPhase.result? : HandlerPhase R → Option (HandlerResult R)
  | answered result => some result
  | removed result => some result
  | _ => none

/-- Whether the caller of the request with an id has cancelled it and left. -/
def Client.gaveUp (s : Client R) (id : String) : Bool := s.requests.any fun request =>
    request.phase.gaveUp && request.entry.any fun entry => entry.2 == id

namespace Exchange

/-- The client has just connected. -/
def opened (serverId : String) (version : U64) : Exchange R where
  client := {
    serverId := serverId
    connection := some 0
    connections := [{ id := wrappingSucc U64.zero, lifecycle := .connected }]
    nextConnectionId := wrappingSucc U64.zero
    hello := some (⟨version, serverId⟩, 0)
    messages := [.done] }
  server := { serverId := serverId }

def setClient (x : Exchange R) (client : Client R) : Exchange R := { x with client := client }

def step (x : Exchange R) : ExchangeEvent R → Option (Exchange R)
  | .request call =>
    (x.client.step (.request (.server x.client.serverId) call)).map x.setClient
  | .advance index event =>
    if event.isReliable then (x.client.step (.advance index event)).map x.setClient else none
  | .handle call => (x.client.step (.handle call none)).map x.setClient
  | .deliver =>
    match x.client.sent[x.received]? with
    | none => none
    | some frame =>
      some { x with server := x.server.dispatchMessage frame.2, received := x.received + 1 }
  | .arrive =>
    match x.server.sent[x.arrived]? with
    | none => none
    | some message =>
      (x.client.step (.receive 0 message)).map fun client =>
        { x with client := client, arrived := x.arrived + 1 }
  | .serve index event =>
    match x.server.handlers[index]? with
    | none => none
    | some handler =>
      (x.server.handlerStep index handler event).map fun server => { x with server := server }

/-- A client and a server that have just connected, with everything that can happen to them. -/
def machine (R : Type) : Machine (Exchange R) (ExchangeEvent R) where
  start x := ∃ serverId version, x = opened serverId version
  step := step

/-- Whether the client handles no answer to a request whose caller has cancelled it and left, and
takes no request number twice. -/
def Uncrossed (x : Exchange R) : ExchangeEvent R → Prop
  | .handle call =>
    ∀ index message id reply, x.client.messages[call]? = some (.message index message) →
      message.answer? = some (id, reply) → x.client.gaveUp id = false
  | .advance _ .register => x.client.nextRequestId ≠ U64.max
  | _ => True

/-- Whether a request is answered by the result of its own handler. -/
def OwnResult (x : Exchange R) (request : Request R) (id : String) (reply : Reply R) : Prop :=
  ∃ handler ∈ x.server.handlers, handler.id = id ∧ handler.target = request.target ∧
    handler.call = request.call ∧ ∃ result, handler.phase.result? = some result ∧
      reply = replyOf result

/-- Whether a request was handed to the writer. -/
def IsSent (x : Exchange R) (request : Request R) (id : String) : Prop :=
  (0, ClientMessage.request id request.target request.call) ∈ x.client.sent

/-- No side has failed the connection or is about to, an uncancelled request that was answered has
and returns the result of its own handler, and a cancelled one returns cancelled or that. -/
structure Unbroken (x : Exchange R) : Prop where
  client : ∀ connection ∈ x.client.connections, connection.lifecycle = .connected
  callbacks : ∀ index error, MessageCall.failing index error ∉ x.client.messages
  server : x.server.failed = none
  answered : ∀ (index : Nat) (request : Request R) (id : String),
    x.client.requests[index]? = some request → request.entry = some (0, id) →
      (index, .response id) ∈ x.client.resolved → request.cancelled = false →
        ∃ reply, request.channel = some reply ∧ x.OwnResult request id reply
  uncancelled : ∀ (index : Nat) (request : Request R) (id : String) (reply : Reply R),
    x.client.requests[index]? = some request → request.entry = some (0, id) →
      x.IsSent request id → request.phase = .returned reply → request.cancelled = false →
        x.OwnResult request id reply
  cancelled : ∀ (index : Nat) (request : Request R) (id : String) (reply : Reply R),
    x.client.requests[index]? = some request → request.entry = some (0, id) →
      x.IsSent request id → request.phase = .returned reply → request.cancelled = true →
        reply = .error .cancelled ∨ x.OwnResult request id reply

end Exchange

end PiOxidized.Remote
