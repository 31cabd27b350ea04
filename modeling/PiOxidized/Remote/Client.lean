/-
# A remote client

A client holds one registered connection and tables of what waits on it.  Calls, transport
callbacks, cancellation, failure and disposal run concurrently: each section under the lock of
the client, or of a connection, is one step, and so is each answer sent into the channel of a
request.

Failing a connection takes two sections.  The first marks it, and only the call that marks it
goes on to the second, which drains the tables of the client if the connection is still the
registered one.
-/

import PiOxidized.Math.Transition
import PiOxidized.Remote.Message
import Mathlib.Data.String.Basic

namespace PiOxidized.Remote

open Math

inductive Lifecycle
  | connecting
  | connected
  | disconnected
  deriving DecidableEq

/-- How far the call that failed a connection has got. -/
inductive FailCall
  /-- The connection is marked and the client not yet told. -/
  | marked (error : ClientError)
  /-- What the tables held is being told, by the senders of the requests. -/
  | telling (error : ClientError) (senders : List Nat)
  | returned
  deriving DecidableEq

structure Connection where
  id : U64
  lifecycle : Lifecycle := .connecting
  failCall : Option FailCall := none
  deriving DecidableEq

/-- A table entry: where the answer goes to is the request call with this number. -/
structure PendingRequest where
  target : RpcTarget
  sender : Nat
  deriving DecidableEq

/-- How far a request call has got. -/
inductive RequestPhase (R : Type)
  /-- The client was connected and not disposed. -/
  | admitted
  | validated
  /-- Entered into the table and about to be sent. -/
  | registered
  /-- Sending failed and the table entry is still to be given up. -/
  | unsent (error : ClientError)
  | waiting
  /-- Cancelled with the table entry taken. -/
  | cancelling
  /-- Cancelled when the table entry was gone: the answer is on its way. -/
  | outrun
  | returned (reply : Reply R)
  deriving DecidableEq

structure Request (R : Type) where
  target : RpcTarget
  call : R
  cancelled : Bool := false
  /-- The connection the request was registered for, and its id. -/
  entry : Option (Nat × String) := none
  channel : Option (Reply R) := none
  phase : RequestPhase R := .admitted
  deriving DecidableEq

/-- A transport callback that handles one message. -/
inductive MessageCall (R : Type)
  /-- The server said hello and the connection is marked connected. -/
  | handshake (connection : Nat) (hello : ServerHello)
  /-- The message was found to come over the current connection. -/
  | message (connection : Nat) (message : ServerMessage R)
  /-- The table entry of an answer is taken. -/
  | answering (id : String) (pending : PendingRequest) (reply : Reply R)
  /-- The message was refused. -/
  | failing (connection : Nat) (error : ClientError)
  | done
  deriving DecidableEq

/-- A listener, with the connection it was registered under. -/
structure ServiceListener where
  target : RpcTarget
  under : Option Nat
  deriving DecidableEq

/-- How far disposal has got. -/
inductive Disposal
  | telling (senders : List Nat)
  | failing
  /-- Waiting for the fail call it made itself, if it made one. -/
  | clearing (own : Option Nat)
  | finished
  deriving DecidableEq

/-- How a registered request came to its end. -/
inductive Resolution
  | response (id : String)
  | cancelled
  | unsent
  | failed (connection : Nat)
  | disposed
  /-- Another entry took the place of its entry. -/
  | dropped
  deriving DecidableEq

structure Client (R : Type) where
  serverId : String
  /-- The registered connection. -/
  connection : Option Nat := none
  connections : List Connection := []
  nextConnectionId : U64 := U64.zero
  nextRequestId : U64 := U64.zero
  nextServiceId : U64 := U64.zero
  pending : OrderedMap String PendingRequest := ∅
  serviceListeners : OrderedMap String ServiceListener := ∅
  /-- The accepted hello, with the connection it came over. -/
  hello : Option (ServerHello × Nat) := none
  /-- The attachment route, with the connection it came over. -/
  attachment : Option (SessionTarget × Nat) := none
  /-- How far disposal has got, once the client is disposed. -/
  disposal : Option Disposal := none
  requests : List (Request R) := []
  messages : List (MessageCall R) := []
  /-- Frames handed to the writers, oldest first. -/
  sent : List (Nat × ClientMessage R) := []
  /-- The ends of registered requests, oldest first. -/
  resolved : List (Nat × Resolution) := []

/-- What the queue of a writer does with a frame. -/
inductive Admission
  | admitted
  /-- The message does not fit a frame, or the frame not the queue. -/
  | refused (error : ClientError)
  /-- The writer is gone. -/
  | closed (error : ClientError)
  deriving DecidableEq

/-- A step of a request call. -/
inductive RequestEvent
  /-- The caller cancels the token of the request. -/
  | cancelToken
  | validate (parsed : Except ClientError Unit)
  | register
  | send (admission : Admission)
  /-- After a failed send. -/
  | giveUp
  | reply
  /-- The cancellation is noticed. -/
  | cancel
  | sendCancel (admitted : Bool)

inductive Event (R : Type)
  | connect
  | hello (connection : Nat) (hello : ServerHello)
  | fail (connection : Nat) (error : ClientError)
  | disconnected (connection : Nat)
  | tell (connection : Nat)
  | receive (connection : Nat) (message : ServerMessage R)
  /-- A callback goes on; a service update may turn out to be refused. -/
  | handle (call : Nat) (refusal : Option ClientError)
  | request (target : RpcTarget) (call : R)
  | advance (request : Nat) (event : RequestEvent)
  | listen (target : RpcTarget)
  | unlisten (subscriptionId : String)
  | dispose
  | tellDisposed
  | failDisposed
  | clearDisposed

/-- The next number of a counter. -/
def wrappingSucc (n : U64) : U64 := ⟨(n.val + 1) % 2 ^ 64, Nat.mod_lt _ (by decide)⟩

def requestId (n : U64) : String := "request-" ++ toString n.val

def subscriptionId (n : U64) : String := "service-" ++ toString n.val

/-- What is wrong with a session route. -/
def validateSessionTarget (target : SessionTarget) : Except ClientError Unit :=
  if target.sessionId = "" ∨ target.attachmentId = "" then
    .error (.protocol "Session target identifiers must be non-empty")
  else .ok ()

def validateTarget : RpcTarget → Except ClientError Unit
  | .server _ => .ok ()
  | .session target => validateSessionTarget target

namespace Client

variable {R : Type}

def disposed (s : Client R) : Bool := s.disposal.isSome

def putConnection (s : Client R) (index : Nat) (connection : Connection) : Client R :=
  { s with connections := s.connections.set index connection }

def putRequest (s : Client R) (index : Nat) (request : Request R) : Client R :=
  { s with requests := s.requests.set index request }

def putMessage (s : Client R) (index : Nat) (call : MessageCall R) : Client R :=
  { s with messages := s.messages.set index call }

/-- The registered connection itself. -/
def registered (s : Client R) : Option Connection :=
  s.connection.bind fun index => s.connections[index]?

def connected (s : Client R) : Bool :=
  s.registered.any fun connection => connection.lifecycle == .connected

def isCurrent (s : Client R) (connectionId : U64) : Bool :=
  s.registered.any fun connection => connection.id == connectionId

/-- Whether the identified connection is registered and connected. -/
def isLive (s : Client R) (connectionId : U64) : Bool := s.registered.any fun connection =>
    connection.id == connectionId && connection.lifecycle == .connected

/-- Whether a route is the one of the current hello or attachment. -/
def targetIsCurrent (s : Client R) : RpcTarget → Bool
  | .server serverId => s.hello.any fun hello => hello.1.serverId == serverId
  | .session target => s.attachment.any fun attachment => attachment.1 == target

/-- Send an answer into the channel of a request. -/
def answer (s : Client R) (index : Nat) (reply : Reply R) (resolution : Resolution) : Client R :=
  match s.requests[index]? with
  | none => s
  | some request =>
    { s.putRequest index { request with channel := some reply } with
      resolved := s.resolved ++ [(index, resolution)] }

/-- The senders of the table. -/
def senders (s : Client R) : List Nat := s.pending.values.map PendingRequest.sender

/-! ## Connections -/

def connect (s : Client R) : Option (Client R) :=
  if s.disposed || s.registered.any fun existing => existing.lifecycle != .disconnected then none
  else
    let connectionId := wrappingSucc s.nextConnectionId
    some { s with
      hello := none
      nextConnectionId := connectionId
      connections := s.connections ++ [{ id := connectionId }]
      connection := some s.connections.length }

/-- The first section of failing a connection. -/
def fail (s : Client R) (index : Nat) (error : ClientError) : Client R :=
  match s.connections[index]? with
  | none => s
  | some connection =>
    if connection.lifecycle = .disconnected then s
    else
      s.putConnection index
        { connection with lifecycle := .disconnected, failCall := some (.marked error) }

/-- The second section: a connection that is registered no more leaves the tables alone. -/
def onDisconnected (s : Client R) (index : Nat) : Option (Client R) :=
  match s.connections[index]? with
  | none => none
  | some connection =>
    match connection.failCall with
    | some (.marked error) =>
      if s.isCurrent connection.id then
        some { s.putConnection index
            { connection with failCall := some (.telling error s.senders) } with
          hello := none
          attachment := none
          pending := ∅
          serviceListeners := ∅ }
      else some (s.putConnection index { connection with failCall := some .returned })
    | _ => none

/-- Tell the next of the requests a failed connection had. -/
def tell (s : Client R) (index : Nat) : Option (Client R) := match s.connections[index]? with
  | none => none
  | some connection =>
    match connection.failCall with
    | some (.telling error (sender :: senders)) =>
      some ((s.putConnection index
        { connection with failCall := some (.telling error senders) }).answer sender
          (.error error) (.failed index))
    | some (.telling _ []) =>
      some (s.putConnection index { connection with failCall := some .returned })
    | _ => none

/-- The hello of the expected server completes a connection attempt. -/
def onHello (s : Client R) (index : Nat) (hello : ServerHello) : Option (Client R) :=
  match s.connections[index]? with
  | none => none
  | some connection =>
    if connection.lifecycle = .connecting ∧ hello.serverId = s.serverId then
      some { s.putConnection index { connection with lifecycle := .connected } with
        messages := s.messages ++ [.handshake index hello] }
    else none

/-! ## Messages -/

/-- The entry of an answer is taken; an answer without an entry is refused. -/
def takeAnswer (s : Client R) (call connection : Nat) (id : String) (reply : Reply R) : Client R :=
  match s.pending.get? id with
  | some pending =>
    { s.putMessage call (.answering id pending reply) with pending := s.pending.erase id }
  | none =>
    s.putMessage call (.failing connection (.protocol "Response has no matching request"))

def setAttachment (s : Client R) (call index : Nat) (connectionId : U64)
    (attachment : Option SessionTarget) : Client R :=
  if !s.isLive connectionId || s.disposed || s.attachment.map Prod.fst == attachment then
    s.putMessage call .done
  else
    { s.putMessage call .done with attachment := attachment.map fun target => (target, index) }

def checkAttachment (s : Client R) : Option SessionTarget → Except ClientError Unit
  | none => .ok ()
  | some attachment =>
    match validateSessionTarget attachment with
    | .error error => .error error
    | .ok () =>
      if attachment.serverId = s.serverId then .ok ()
      else .error (.protocol "Attachment update belongs to another server")

def onMessage (s : Client R) (call index : Nat) (connectionId : U64)
    (refusal : Option ClientError) : ServerMessage R → Client R
  | .response id result => s.takeAnswer call index id (.ok result)
  | .responseError id error =>
    if error.code = "" then
      s.putMessage call (.failing index (.protocol "Response error has an empty code"))
    else s.takeAnswer call index id (.error (.server error))
  | .serviceUpdate subscriptionId _ =>
    if subscriptionId = "" then
      s.putMessage call (.failing index (.protocol "Service update has an empty subscription id"))
    else
      match refusal with
      | some error =>
        if s.serviceListeners.contains subscriptionId then
          s.putMessage call (.failing index error)
        else s.putMessage call .done
      | none => s.putMessage call .done
  | .attachment attachment =>
    match s.checkAttachment attachment with
    | .error error => s.putMessage call (.failing index error)
    | .ok () => s.setAttachment call index connectionId attachment
  | .hello _ => s.putMessage call (.failing index (.protocol "Unexpected handshake message"))
  | .helloError _ => s.putMessage call (.failing index (.protocol "Unexpected handshake message"))

/-- The next section of a transport callback. -/
def handle (s : Client R) (call : Nat) (refusal : Option ClientError) : Option (Client R) :=
  match s.messages[call]? with
  | some (.handshake index hello) =>
    match s.connections[index]? with
    | none => none
    | some connection =>
      if s.isLive connection.id && !s.disposed then
        some { s.putMessage call .done with hello := some (hello, index) }
      else some (s.putMessage call .done)
  | some (.message index message) =>
    match s.connections[index]? with
    | none => none
    | some connection => some (s.onMessage call index connection.id refusal message)
  | some (.answering id pending reply) =>
    let reply := if s.targetIsCurrent pending.target then reply
      else .error (.disconnected "Request route is no longer current")
    some ((s.putMessage call .done).answer pending.sender reply (.response id))
  | some (.failing index error) =>
    match s.connections[index]? with
    | none => none
    | some connection =>
      if s.isCurrent connection.id then some ((s.putMessage call .done).fail index error)
      else some (s.putMessage call .done)
  | _ => none

/-! ## Requests -/

/-- The checks of a request that was admitted. -/
def validateRequest (request : Request R) (parsed : Except ClientError Unit) : RequestPhase R :=
  if request.cancelled then .returned (.error .cancelled)
  else
    match validateTarget request.target with
    | .error error => .returned (.error error)
    | .ok () =>
      match parsed with
      | .error error => .returned (.error error)
      | .ok () => .validated

/-- Enter a request into the table of the registered connection. -/
def register (s : Client R) (index : Nat) (request : Request R) : Client R :=
  if s.disposed then s.putRequest index { request with phase := .returned (.error .disposed) }
  else
    match s.connection with
    | some connection =>
      if s.connected then
        let number := wrappingSucc s.nextRequestId
        let id := requestId number
        -- An entry that is replaced drops its sender.
        let s := match s.pending.get? id with
          | some replaced =>
            s.answer replaced.sender (.error (.disconnected "Client is disconnected")) .dropped
          | none => s
        { s.putRequest index
            { request with phase := .registered, entry := some (connection, id) } with
          nextRequestId := number
          pending := s.pending.insert id ⟨request.target, index⟩ }
      else
        s.putRequest index
          { request with phase := .returned (.error (.disconnected "Client is disconnected")) }
    | none =>
      s.putRequest index
        { request with phase := .returned (.error (.disconnected "Client is disconnected")) }

/-- Hand the frame of a request to the writer of its connection. -/
def send (s : Client R) (index : Nat) (request : Request R) (connection : Nat) (id : String)
    (admission : Admission) : Client R :=
  if (s.connections[connection]?).any fun found => found.lifecycle == .connected then
    match admission with
    | .admitted =>
      { s.putRequest index { request with phase := .waiting } with
        sent := s.sent ++ [(connection, .request id request.target request.call)] }
    | .refused error => s.putRequest index { request with phase := .unsent error }
    | .closed error => (s.putRequest index { request with phase := .unsent error }).fail connection error
  else
    s.putRequest index { request with phase := .unsent (.disconnected "Client is not connected") }

/-- Take the table entry of a request, if it is there, and note how the request ended. -/
def takePending (s : Client R) (id : String) (resolution : Resolution) : Client R :=
  match s.pending.get? id with
  | some pending =>
    { s with
      pending := s.pending.erase id
      resolved := s.resolved ++ [(pending.sender, resolution)] }
  | none => s

/-- The cancellation of a waiting request takes its table entry, unless that is gone. -/
def cancel (s : Client R) (index : Nat) (request : Request R) (id : String) : Client R :=
  let phase := if (s.pending.get? id).isSome then .cancelling else .outrun
  (s.takePending id .cancelled).putRequest index { request with phase := phase }

/-- The next section of a request call. -/
def requestStep (s : Client R) (index : Nat) (request : Request R) :
    RequestEvent → Option (Client R)
  | .cancelToken => some (s.putRequest index { request with cancelled := true })
  | .validate parsed =>
    if request.phase matches .admitted then
      some (s.putRequest index { request with phase := validateRequest request parsed })
    else none
  | .register =>
    if request.phase matches .validated then some (s.register index request) else none
  | .send admission =>
    match request.phase, request.entry with
    | .registered, some (connection, id) => some (s.send index request connection id admission)
    | _, _ => none
  | .giveUp =>
    match request.phase, request.entry with
    | .unsent error, some (_, id) =>
      some ((s.takePending id .unsent).putRequest index
        { request with phase := .returned (.error error) })
    | _, _ => none
  | .reply =>
    match request.phase, request.channel with
    | .waiting, some reply => some (s.putRequest index { request with phase := .returned reply })
    | .outrun, some reply => some (s.putRequest index { request with phase := .returned reply })
    | _, _ => none
  | .cancel =>
    match request.phase, request.entry with
    | .waiting, some (_, id) =>
      if request.cancelled then some (s.cancel index request id) else none
    | _, _ => none
  | .sendCancel admitted =>
    match request.phase, request.entry with
    | .cancelling, some (connection, id) =>
      let s' := s.putRequest index { request with phase := .returned (.error .cancelled) }
      if admitted && (s.connections[connection]?).any fun found =>
          found.lifecycle == .connected then
        some { s' with sent := s.sent ++ [(connection, .cancel id request.target)] }
      else some s'
    | _, _ => none

/-! ## Listeners and disposal -/

/-- Register a listener, under the connection that is up. -/
def listen (s : Client R) (target : RpcTarget) : Option (Client R) := if s.disposed then none else
    let number := wrappingSucc s.nextServiceId
    let under :=
      if s.registered.any fun connection => connection.lifecycle != .disconnected then s.connection
      else none
    some { s with
      nextServiceId := number
      serviceListeners := s.serviceListeners.insert (subscriptionId number) ⟨target, under⟩ }

def dispose (s : Client R) : Option (Client R) := if s.disposed then none
  else some { s with disposal := some (.telling s.senders), pending := ∅ }

def tellDisposed (s : Client R) : Option (Client R) := match s.disposal with
  | some (.telling (sender :: senders)) =>
    some ({ s with disposal := some (.telling senders) }.answer sender (.error .disposed) .disposed)
  | some (.telling []) => some { s with disposal := some .failing }
  | _ => none

/-- Disposal fails the registered connection, which may have failed already. -/
def failDisposed (s : Client R) : Option (Client R) := match s.disposal with
  | some .failing =>
    let up := s.registered.any fun connection => connection.lifecycle != .disconnected
    let own := if up then s.connection else none
    match s.connection with
    | some index => some { s.fail index .disposed with disposal := some (.clearing own) }
    | none => some { s with disposal := some (.clearing none) }
  | _ => none

def clearDisposed (s : Client R) : Option (Client R) := match s.disposal with
  | some (.clearing own) =>
    if own.all fun index =>
        (s.connections[index]?).any fun connection => connection.failCall == some .returned then
      some { s with
        hello := none
        attachment := none
        serviceListeners := ∅
        disposal := some .finished }
    else none
  | _ => none

/-- One section, or one answer. -/
def step (s : Client R) : Event R → Option (Client R)
  | .connect => s.connect
  | .hello index hello => s.onHello index hello
  | .fail index error => some (s.fail index error)
  | .disconnected index => s.onDisconnected index
  | .tell index => s.tell index
  | .receive index message =>
    match s.connections[index]? with
    | none => none
    | some connection =>
      if s.isCurrent connection.id ∧ connection.lifecycle ≠ .connecting then
        some { s with messages := s.messages ++ [.message index message] }
      else none
  | .handle call refusal => s.handle call refusal
  | .request target call =>
    if s.connected && !s.disposed then
      some { s with requests := s.requests ++ [{ target := target, call := call }] }
    else none
  | .advance index event =>
    match s.requests[index]? with
    | none => none
    | some request => s.requestStep index request event
  | .listen target => s.listen target
  | .unlisten id => some { s with serviceListeners := s.serviceListeners.erase id }
  | .dispose => s.dispose
  | .tellDisposed => s.tellDisposed
  | .failDisposed => s.failDisposed
  | .clearDisposed => s.clearDisposed

/-- A client that has not connected yet, with everything that can happen to it. -/
def machine (R : Type) : Machine (Client R) (Event R) where
  start s := ∃ serverId, s = { serverId := serverId }
  step := step

end Client

end PiOxidized.Remote
