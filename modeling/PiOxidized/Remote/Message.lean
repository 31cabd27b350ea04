/-
# Messages between a client and a server

The envelopes of the remote protocol, with the payloads of calls and results as one opaque
type, and the errors on both sides.
-/

import PiOxidized.Service.Error
import PiOxidized.Math.U64

namespace PiOxidized.Remote

open Math
open Service (RemoteServiceErrorCode ServiceError)

/-- A session route, fenced to a server, a durable session and a live attachment. -/
structure SessionTarget where
  serverId : String
  sessionId : String
  attachmentId : String
  deriving DecidableEq

/-- A route. -/
inductive RpcTarget
  | server (serverId : String)
  | session (target : SessionTarget)
  deriving DecidableEq

/-- The server a route is fenced to. -/
def RpcTarget.serverId : RpcTarget → String
  | server serverId => serverId
  | session target => target.serverId

/-- An error as it crosses the wire. -/
structure ProtocolError where
  code : String
  message : String
  deriving DecidableEq

structure ServerHello where
  version : U64
  serverId : String
  deriving DecidableEq

inductive ClientMessage (R : Type)
  | hello (version : U64)
  | request (id : String) (target : RpcTarget) (call : R)
  | cancel (id : String) (target : RpcTarget)
  deriving DecidableEq

inductive ServerMessage (R : Type)
  | hello (hello : ServerHello)
  | helloError (error : ProtocolError)
  | response (id : String) (result : Option R)
  | responseError (id : String) (error : ProtocolError)
  | serviceUpdate (subscriptionId : String) (update : R)
  | attachment (attachment : Option SessionTarget)
  deriving DecidableEq

/-- What a client operation fails with. -/
inductive ClientError
  | server (error : ProtocolError)
  | disconnected (message : String)
  | disposed
  | protocol (message : String)
  | cancelled
  deriving DecidableEq

/-- The result of a request. -/
abbrev Reply (R : Type) := Except ClientError (Option R)

/-! ## Errors of a server -/

/-- The wire spelling of a service error. -/
def remoteCode : RemoteServiceErrorCode → String
  | .serviceNotAllowed => "service_not_allowed"
  | .serviceNotFound => "service_not_found"
  | .serviceModeMismatch => "service_mode_mismatch"
  | .serviceMemberNotFound => "service_member_not_found"
  | .serviceMemberMismatch => "service_member_mismatch"
  | .serviceInstanceNotFound => "service_instance_not_found"
  | .serviceStaleInstance => "service_stale_instance"
  | .serviceInvalidValue => "service_invalid_value"

inductive ServerErrorCode
  | remote (code : RemoteServiceErrorCode)
  | wrongServer
  | sessionNotFound
  | sessionAmbiguous
  | sessionNotAttached
  | serverDraining
  deriving DecidableEq

/-- The wire spelling of a server error. -/
def ServerErrorCode.asStr : ServerErrorCode → String
  | remote code => remoteCode code
  | wrongServer => "wrong_server"
  | sessionNotFound => "session_not_found"
  | sessionAmbiguous => "session_ambiguous"
  | sessionNotAttached => "session_not_attached"
  | serverDraining => "server_draining"

/-- A failure of the host; the retained cause of any other failure is kept as its text. -/
inductive HostError
  | server (code : ServerErrorCode) (message : String)
  | service (error : ServiceError)
  | protocol (message : String)
  | other (source : String)
  deriving DecidableEq

/-- What of a failure is safe to send. -/
def toProtocolError : HostError → ProtocolError
  | .server code message => ⟨code.asStr, message⟩
  | .service (.remote error) => ⟨remoteCode error.code, error.message⟩
  | .protocol message => ⟨"invalid_request", message⟩
  | .service _ => ⟨"internal_error", "Internal server error"⟩
  | .other _ => ⟨"internal_error", "Internal server error"⟩

theorem remoteCode_ne_empty (code : RemoteServiceErrorCode) : remoteCode code ≠ "" := by
  cases code <;> decide

/-- Every error that is sent has a code. -/
theorem code_toProtocolError_ne_empty (error : HostError) : (toProtocolError error).code ≠ "" := by
  cases error with
  | server code message =>
    cases code with
    | remote code => exact remoteCode_ne_empty code
    | wrongServer | sessionNotFound | sessionAmbiguous | sessionNotAttached | serverDraining =>
      simp [toProtocolError, ServerErrorCode.asStr]
  | service error =>
    cases error with
    | remote error => exact remoteCode_ne_empty error.code
    | localUsage | disposed | cancelled | delta | state | handler | transport | internal =>
      simp [toProtocolError]
  | protocol | other => simp [toProtocolError]

end PiOxidized.Remote
