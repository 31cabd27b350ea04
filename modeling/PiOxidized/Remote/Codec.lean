/-
# The message codec

A message is checked, turned into a value, encoded and framed; a frame is taken apart in the
opposite order.  What one side refuses before it encodes, the other refuses after it has decoded.
-/

import PiOxidized.Remote.Envelope

namespace PiOxidized.Remote.Codec

open Math
open Service (JsonValue JsString)

def protocolVersion : Nat := 1

def maxJsonDepth : Nat := 512

/-- Why an envelope is refused. -/
inductive InvalidMessage
  | jsonDepthExceeded (limit : Nat)
  | jsonNonFinite
  | jsonUnsafeInteger
  | jsonUnicode
  | empty (field : String)
  | serverId
  | malformed (error : SerError)
  deriving DecidableEq

inductive CodecError
  | frame (error : FrameError)
  | cbor (error : CborError)
  | invalidClient (message : InvalidMessage)
  | invalidServer (message : InvalidMessage)
  | unknownDiscriminant
  | versionMismatch (expected got : Nat)
  deriving DecidableEq

/-! ## Validation -/

mutual

def validateJsonValue : JsonValue → Nat → Except InvalidMessage Unit
  | value, depth =>
    if maxJsonDepth < depth then .error (.jsonDepthExceeded maxJsonDepth)
    else
      match value with
      | .null | .bool _ => .ok ()
      | .number number =>
        if number.isFinite = false then .error .jsonNonFinite
        else if unsafeNumber number then .error .jsonUnsafeInteger
        else .ok ()
      | .string value => if value.tryToUtf8.isSome then .ok () else .error .jsonUnicode
      | .array items => validateJsonItems items (depth + 1)
      | .object members => validateJsonMembers members (depth + 1)

def validateJsonItems : List JsonValue → Nat → Except InvalidMessage Unit
  | [], _ => .ok ()
  | item :: items, depth => do
    validateJsonValue item depth
    validateJsonItems items depth

def validateJsonMembers : List (JsString × JsonValue) → Nat → Except InvalidMessage Unit
  | [], _ => .ok ()
  | (key, item) :: members, depth =>
    if key.tryToUtf8.isSome then do
      validateJsonValue item depth
      validateJsonMembers members depth
    else .error .jsonUnicode

end

def validateId (id field : String) : Except InvalidMessage Unit :=
  if id = "" then .error (.empty field) else .ok ()

def validateProtocolError (error : ProtocolError) : Except InvalidMessage Unit :=
  validateId error.code "error code"

def validateServerId (serverId : String) : Except InvalidMessage Unit :=
  if isServerId serverId then .ok () else .error .serverId

def validateSessionTarget (target : SessionTarget) : Except InvalidMessage Unit := do
  validateServerId target.serverId
  validateId target.sessionId "sessionId"
  validateId target.attachmentId "attachmentId"

def validateTarget : RpcTarget → Except InvalidMessage Unit
  | .server serverId => validateServerId serverId
  | .session target => validateSessionTarget target

def validateClientMessage : ClientMessage OpaqueJson → Except CodecError Unit
  | .hello _ => .ok ()
  | .request id target call => do
    Except.mapError .invalidClient (validateId id "request id")
    Except.mapError .invalidClient (validateTarget target)
    Except.mapError .invalidClient (validateJsonValue call.value 0)
  | .cancel id target => do
    Except.mapError .invalidClient (validateId id "cancel id")
    Except.mapError .invalidClient (validateTarget target)

def validateServerMessage : ServerMessage OpaqueJson → Except CodecError Unit
  | .hello hello =>
    if hello.version.val ≠ protocolVersion then
      .error (.versionMismatch protocolVersion hello.version.val)
    else Except.mapError .invalidServer (validateServerId hello.serverId)
  | .helloError error => Except.mapError .invalidServer (validateProtocolError error)
  | .response id none => Except.mapError .invalidServer (validateId id "response id")
  | .response id (some result) => do
    Except.mapError .invalidServer (validateId id "response id")
    Except.mapError .invalidServer (validateJsonValue result.value 0)
  | .responseError id error => do
    Except.mapError .invalidServer (validateId id "response id")
    Except.mapError .invalidServer (validateProtocolError error)
  | .serviceUpdate subscriptionId update => do
    Except.mapError .invalidServer (validateId subscriptionId "subscriptionId")
    Except.mapError .invalidServer (validateJsonValue update.value 0)
  | .attachment none => .ok ()
  | .attachment (some target) => Except.mapError .invalidServer (validateSessionTarget target)

/-- Refuse a map whose type is not one of those of its side. -/
def checkDiscriminant (value : CborValue) (tag : String) (allowed : List String) :
    Except CodecError Unit :=
  match value with
  | .map entries =>
    match entries.lookup tag with
    | none => .ok ()
    | some (.text discriminant) =>
      if discriminant ∈ allowed then .ok () else .error .unknownDiscriminant
    | some _ => .error .unknownDiscriminant
  | _ => .ok ()

def clientDiscriminants : List String := ["hello", "request", "cancel"]

def serverDiscriminants : List String :=
  ["hello", "hello_error", "response", "service_update", "attachment"]

/-! ## One side of the codec -/

/-- The messages of one side: their check, their values and their types. -/
structure Side (M : Type) where
  invalid : InvalidMessage → CodecError
  discriminants : List String
  validate : M → Except CodecError Unit
  serialize : M → Except SerError CborValue
  parse : CborValue → Except SerError M

variable {M : Type}

def Side.encode (side : Side M) (message : M) (options : Option FrameDecoderOptions) :
    Except CodecError (List UInt8) := do
  side.validate message
  let value ← Except.mapError (fun error => side.invalid (.malformed error)) (side.serialize message)
  Except.mapError .cbor (validateCborValue value 0)
  let payload ← Except.mapError .cbor (encodeCborValue (CborOptions.fromFrame options) value)
  Except.mapError .frame (assertCompleteFrame (encodeFrame payload) options)
  .ok (encodeFrame payload)

def Side.decodePayload (side : Side M) (payload : List UInt8) (options : CborOptions) :
    Except CodecError M := do
  let value ← Except.mapError .cbor (decodeCborValue payload options)
  checkDiscriminant value "type" side.discriminants
  let message ← Except.mapError (fun error => side.invalid (.malformed error)) (side.parse value)
  side.validate message
  .ok message

def Side.decode (side : Side M) (frame : List UInt8) (options : Option FrameDecoderOptions) :
    Except CodecError M := do
  Except.mapError .frame (assertCompleteFrame frame options)
  side.decodePayload (frame.drop frameHeaderLength) (CborOptions.fromFrame options)

def clientSide : Side (ClientMessage OpaqueJson) where
  invalid := .invalidClient
  discriminants := clientDiscriminants
  validate := validateClientMessage
  serialize := serializeClient
  parse := parseClientValue

def serverSide : Side (ServerMessage OpaqueJson) where
  invalid := .invalidServer
  discriminants := serverDiscriminants
  validate := validateServerMessage
  serialize := serializeServer
  parse := parseServerValue

def encodeClientMessage (message : ClientMessage OpaqueJson)
    (options : Option FrameDecoderOptions) : Except CodecError (List UInt8) :=
  clientSide.encode message options

def encodeServerMessage (message : ServerMessage OpaqueJson)
    (options : Option FrameDecoderOptions) : Except CodecError (List UInt8) :=
  serverSide.encode message options

def decodeClientMessage (frame : List UInt8) (options : Option FrameDecoderOptions) :
    Except CodecError (ClientMessage OpaqueJson) :=
  clientSide.decode frame options

def decodeServerMessage (frame : List UInt8) (options : Option FrameDecoderOptions) :
    Except CodecError (ServerMessage OpaqueJson) :=
  serverSide.decode frame options

end PiOxidized.Remote.Codec
