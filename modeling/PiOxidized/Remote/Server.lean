/-
# A remote server

One connection of a server past its handshake.  Messages are dispatched in the order they
arrive; a request runs in a task of its own, so the tasks go on in any order, and a cancellation
only cancels the token of the task that is in the table.  Calls arrive parsed, and what a handler
answers is chosen by the run.
-/

import PiOxidized.Remote.Message
import Mathlib.Data.String.Basic

namespace PiOxidized.Remote

open Math

/-- The result of a handler. -/
abbrev HandlerResult (R : Type) := Except HostError (Option R)

/-- How far the task of a request has got. -/
inductive HandlerPhase (R : Type)
  | spawned
  /-- The id was not in the table. -/
  | checked
  /-- The id was in the table. -/
  | duplicate
  | refused
  /-- In the table, with its handler running. -/
  | invoking
  | finishing (result : HandlerResult R)
  /-- The answer is sent and the table entry still there. -/
  | answered (result : HandlerResult R)
  | removed (result : HandlerResult R)
  deriving DecidableEq

/-- The task of a request. -/
structure Handler (R : Type) where
  id : String
  target : RpcTarget
  call : R
  cancelled : Bool := false
  phase : HandlerPhase R := .spawned
  deriving DecidableEq

/-- A table entry, with the task whose token it has. -/
structure ActiveRequest where
  target : RpcTarget
  handler : Nat
  deriving DecidableEq

structure Server (R : Type) where
  serverId : String
  activeRequests : OrderedMap String ActiveRequest := ∅
  handlers : List (Handler R) := []
  /-- Frames handed to the connection, oldest first. -/
  sent : List (ServerMessage R) := []
  /-- Why the connection was failed. -/
  failed : Option ProtocolError := none

/-- A step of the task of a request. -/
inductive HandlerEvent (R : Type)
  | check
  | refuse
  | insert
  /-- The handler completes. -/
  | complete (result : HandlerResult R)
  | finish
  | remove

/-- The answer to a request. -/
def answerMessage {R : Type} (id : String) (cancelled : Bool) : HandlerResult R → ServerMessage R
  | .ok result => .response id result
  | .error error =>
    .responseError id
      (if cancelled then ⟨"cancelled", "RPC request cancelled"⟩ else toProtocolError error)

namespace Server

variable {R : Type}

def putHandler (s : Server R) (index : Nat) (handler : Handler R) : Server R :=
  { s with handlers := s.handlers.set index handler }

/-- A failed connection sends nothing more. -/
def sendMessage (s : Server R) (message : ServerMessage R) : Server R :=
  if s.failed.isSome then s else { s with sent := s.sent ++ [message] }

def failProtocol (s : Server R) (error : ProtocolError) : Server R := if s.failed.isSome then s
  else { s with failed := some error, sent := s.sent ++ [.helloError error] }

/-- A cancellation of a request that is unknown, or has another route, is ignored. -/
def handleCancel (s : Server R) (id : String) (target : RpcTarget) : Server R :=
  if target.serverId ≠ s.serverId then s
  else
    match s.activeRequests.get? id with
    | none => s
    | some active =>
      if active.target = target then
        match s.handlers[active.handler]? with
        | none => s
        | some handler => s.putHandler active.handler { handler with cancelled := true }
      else s

def dispatchMessage (s : Server R) : ClientMessage R → Server R
  | .cancel id target => if s.failed.isSome then s else s.handleCancel id target
  | .request id target call =>
    if s.failed.isSome then s
    else { s with handlers := s.handlers ++ [{ id := id, target := target, call := call }] }
  | .hello _ =>
    s.failProtocol ⟨"invalid_request", "hello may only be sent as the first message"⟩

/-- What a handler answers counts only for the server it is on. -/
def invokeRequest (s : Server R) (target : RpcTarget) (result : HandlerResult R) :
    HandlerResult R :=
  if target.serverId ≠ s.serverId then
    .error (.server .wrongServer "Request was addressed to another server")
  else result

/-- The next section of the task of a request. -/
def handlerStep (s : Server R) (index : Nat) (handler : Handler R) :
    HandlerEvent R → Option (Server R)
  | .check =>
    if handler.phase matches .spawned then
      some (s.putHandler index { handler with
        phase := if s.activeRequests.contains handler.id then .duplicate else .checked })
    else none
  | .refuse =>
    if handler.phase matches .duplicate then
      some ((s.putHandler index { handler with phase := .refused }).sendMessage
        (.responseError handler.id ⟨"invalid_request", "Request ID is already active"⟩))
    else none
  | .insert =>
    if handler.phase matches .checked then
      some { s.putHandler index { handler with phase := .invoking } with
        activeRequests := s.activeRequests.insert handler.id ⟨handler.target, index⟩ }
    else none
  | .complete result =>
    if handler.phase matches .invoking then
      some (s.putHandler index { handler with
        phase := .finishing (s.invokeRequest handler.target result) })
    else none
  | .finish =>
    match handler.phase with
    | .finishing result =>
      some ((s.putHandler index { handler with phase := .answered result }).sendMessage
        (answerMessage handler.id handler.cancelled result))
    | _ => none
  | .remove =>
    match handler.phase with
    | .answered result =>
      some { s.putHandler index { handler with phase := .removed result } with
        activeRequests := s.activeRequests.erase handler.id }
    | _ => none

end Server

end PiOxidized.Remote
