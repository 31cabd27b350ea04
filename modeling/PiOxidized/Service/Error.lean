/-
# Errors crossing the service boundary
-/

import PiOxidized.Service.Delta.Grammar

namespace PiOxidized.Service

/-- The errors whose codes are part of the remote service protocol. -/
inductive RemoteServiceErrorCode
  | serviceNotAllowed
  | serviceNotFound
  | serviceModeMismatch
  | serviceMemberNotFound
  | serviceMemberMismatch
  | serviceInstanceNotFound
  | serviceStaleInstance
  | serviceInvalidValue
  deriving DecidableEq

/-- A coded service failure. -/
structure RemoteServiceError where
  code : RemoteServiceErrorCode
  message : String
  deriving DecidableEq

/-- Why a replicated state refuses an operation batch. -/
inductive ServiceStateError
  | notBaseBatch
  | updateBeforeHydration
  | sequenceGap
  | delta (error : Delta.DeltaError)
  deriving DecidableEq

/-- Failures of lifecycle and transport operations.  A retained cause is kept as
its text. -/
inductive ServiceError
  | remote (error : RemoteServiceError)
  | localUsage (message : String)
  | disposed (message : String)
  | cancelled
  | delta (error : Delta.DeltaError)
  | state (error : ServiceStateError)
  | handler (source : String)
  | transport (source : String)
  | internal (message : String) (source : Option String)
  deriving DecidableEq

end PiOxidized.Service
