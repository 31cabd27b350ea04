/-
# Messages as values

What a message is in the value encoding, and which values are messages.  Payloads are strict JSON:
an integral number travels as an integer, and an object keeps its members in the order of their
keys.  Every other part of an envelope is a map whose fields are all known.
-/

import PiOxidized.Math.Fallible
import PiOxidized.Remote.Cbor
import PiOxidized.Remote.Message
import PiOxidized.Service.Utf16

namespace PiOxidized.Remote

open List Math
open Service (JsonValue JsObject JsString)

/-- What a value was expected to be. -/
inductive Expected
  | bool
  | string
  | u64
  | map
  | struct
  deriving DecidableEq

inductive SerError
  | expected (what : Expected)
  | byteString
  | unicode
  | duplicateKey
  | serverId
  | unknownField (name : String)
  | duplicateField (name : String)
  | missingField (name : String)
  | invalidLength (length : Nat)
  | noVariant
  | notObject
  | typeNotString
  | unexpectedType (expected : String)
  | okNotBool
  | unexpectedOk
  | unknownVariant (name : String)
  deriving DecidableEq

/-! ## Payloads -/

/-- The value of a number: an integer where it is one other than negative zero and small enough. -/
def serializeF64 (number : Binary64) : CborValue :=
  if number.isIntegral ∧ number ≠ Binary64.negZero ∧ number.magnitude < Binary64.scale * 2 ^ 53 then
    if 0 ≤ number.trunc then .uint number.trunc.toNat else .nint number.trunc
  else .float number

mutual

/-- The value of a strict JSON value. -/
def serializeJson : JsonValue → Except SerError CborValue
  | .null => .ok .null
  | .bool value => .ok (.bool value)
  | .number value => .ok (serializeF64 value)
  | .string value =>
    match value.tryToUtf8 with
    | none => .error .unicode
    | some text => .ok (.text text)
  | .array items => do
    let values ← serializeItems items
    .ok (.array values)
  | .object members => do
    let entries ← serializeMembers members []
    .ok (.map entries)

def serializeItems : List JsonValue → Except SerError (List CborValue)
  | [] => .ok []
  | item :: items => do
    let value ← serializeJson item
    let values ← serializeItems items
    .ok (value :: values)

/-- The entries of an object, whose keys are not among those seen before. -/
def serializeMembers :
    List (JsString × JsonValue) → List String → Except SerError (List (String × CborValue))
  | [], _ => .ok []
  | (key, item) :: members, keys =>
    match key.tryToUtf8 with
    | none => .error .unicode
    | some name => do
      let value ← serializeJson item
      if name ∈ keys then .error .duplicateKey
      else do
        let entries ← serializeMembers members (name :: keys)
        .ok ((name, value) :: entries)

end

mutual

/-- The strict JSON value of a value. -/
def deserializeJson : CborValue → Except SerError JsonValue
  | .null => .ok .null
  | .bool value => .ok (.bool value)
  | .uint number => .ok (.number (Binary64.ofInt number))
  | .nint number => .ok (.number (Binary64.ofInt number))
  | .float number => .ok (.number number)
  | .text value => .ok (.string (JsString.fromUtf8 value))
  | .bytes _ => .error .byteString
  | .array values => do
    let items ← deserializeItems values
    .ok (.array items)
  | .map entries => do
    let object ← deserializeEntries entries []
    .ok (.object object)

def deserializeItems : List CborValue → Except SerError (List JsonValue)
  | [] => .ok []
  | value :: values => do
    let item ← deserializeJson value
    let items ← deserializeItems values
    .ok (item :: items)

/-- Add entries to an object that has none of their keys. -/
def deserializeEntries : List (String × CborValue) → JsObject → Except SerError JsObject
  | [], object => .ok object
  | (key, value) :: entries, object => do
    let item ← deserializeJson value
    if (object.lookup (JsString.fromUtf8 key)).isSome then .error .duplicateKey
    else deserializeEntries entries (Assoc.insert (JsString.fromUtf8 key) item object)

end

variable {value : CborValue}

theorem ordered_items {values : List CborValue} {items : List JsonValue}
    (h : ∀ value ∈ values, ∀ item, deserializeJson value = .ok item → item.Ordered)
    (hitems : deserializeItems values = .ok items) : ∀ item ∈ items, item.Ordered := by
  induction values generalizing items with
  | nil =>
    rw [deserializeItems] at hitems
    rw [← Except.ok.inj hitems]
    exact fun _ hmem => absurd hmem not_mem_nil
  | cons value values ih =>
    rw [deserializeItems] at hitems
    obtain ⟨first, hfst, hitems⟩ := bind_ok hitems
    obtain ⟨others, hoth, hitems⟩ := bind_ok hitems
    rw [← Except.ok.inj hitems, forall_mem_cons]
    refine ⟨h value mem_cons_self first hfst, ?_⟩
    exact ih (fun other hmem => h other (mem_cons_of_mem _ hmem)) hoth

theorem ordered_entries {entries : List (String × CborValue)} {object result : JsObject}
    (h : ∀ entry ∈ entries, ∀ item, deserializeJson entry.2 = .ok item → item.Ordered)
    (hobject : (JsonValue.object object).Ordered)
    (hret : deserializeEntries entries object = .ok result) :
    (JsonValue.object result).Ordered := by
  induction entries generalizing object with
  | nil =>
    rw [deserializeEntries] at hret
    rw [← Except.ok.inj hret]
    exact hobject
  | cons entry entries ih =>
    obtain ⟨key, value⟩ := entry
    rw [deserializeEntries] at hret
    obtain ⟨item, hitem, hret⟩ := bind_ok hret
    split_ifs at hret
    refine ih (fun other hmem => h other (mem_cons_of_mem _ hmem)) ?_ hret
    rw [JsonValue.ordered_object] at hobject ⊢
    refine ⟨hobject.1.insert _ _, ?_⟩
    intro member hmem
    rcases Assoc.mem_insert hmem with rfl | hmem
    · exact h _ mem_cons_self item hitem
    · exact hobject.2 member hmem

/-- Objects are put in the order of their keys. -/
theorem deserializeJson_ordered {item : JsonValue} (h : deserializeJson value = .ok item) :
    item.Ordered := by
  induction value using CborValue.induction generalizing item with
  | null | bool _ | uint _ | nint _ | float _ | text _ =>
    rw [deserializeJson] at h
    rw [← Except.ok.inj h]
    trivial
  | bytes _ =>
    rw [deserializeJson] at h
    cases h
  | array values ih =>
    rw [deserializeJson] at h
    obtain ⟨items, hitems, h⟩ := bind_ok h
    rw [← Except.ok.inj h, JsonValue.ordered_array]
    exact ordered_items (fun value hmem _ => ih value hmem) hitems
  | map entries ih =>
    rw [deserializeJson] at h
    obtain ⟨object, hobject, h⟩ := bind_ok h
    rw [← Except.ok.inj h]
    refine ordered_entries (fun entry hmem _ => ih entry hmem) ?_ hobject
    exact JsonValue.ordered_object.mpr ⟨Assoc.sorted_nil, fun _ hmem => absurd hmem not_mem_nil⟩

/-- A payload of a message: a strict JSON value whose objects are in order. -/
structure OpaqueJson where
  value : JsonValue
  ordered : value.Ordered

@[ext]
theorem OpaqueJson.ext {first second : OpaqueJson} (h : first.value = second.value) :
    first = second := by
  cases first
  cases h
  rfl

/-- The payload some value is. -/
def opaqueJson (value : CborValue) : Except SerError OpaqueJson :=
  match h : deserializeJson value with
  | .error error => .error error
  | .ok item => .ok ⟨item, deserializeJson_ordered h⟩

theorem opaqueJson_eq_ok_iff {payload : OpaqueJson} :
    opaqueJson value = .ok payload ↔ deserializeJson value = .ok payload.value := by
  rw [opaqueJson]
  split
  · next error herror =>
      rw [herror]
      exact iff_of_false (fun h => nomatch h) fun h => nomatch h
  · next item hitem =>
      rw [Except.ok.injEq, OpaqueJson.ext_iff]
      exact ⟨fun h => hitem.trans (congrArg Except.ok h),
        fun h => Except.ok.inj (hitem.symm.trans h)⟩

/-! ## Fields -/

def deserializeBool : CborValue → Except SerError Bool
  | .bool value => .ok value
  | _ => .error (.expected .bool)

def deserializeU64 : CborValue → Except SerError U64
  | .uint number => if h : number < 2 ^ 64 then .ok ⟨number, h⟩ else .error (.expected .u64)
  | _ => .error (.expected .u64)

def deserializeString : CborValue → Except SerError String
  | .text value => .ok value
  | _ => .error (.expected .string)

def deserializeMap : CborValue → Except SerError (List (String × CborValue))
  | .map entries => .ok entries
  | _ => .error (.expected .map)

/-- Go over the fields of a record, none of which may be unknown or there twice. -/
def visitFields (known : List String) :
    List (String × CborValue) → List String → Except SerError Unit
  | [], _ => .ok ()
  | (name, _) :: entries, seen =>
    if name ∉ known then .error (.unknownField name)
    else if name ∈ seen then .error (.duplicateField name)
    else visitFields known entries (name :: seen)

/-- A field that has to be there. -/
def field (entries : List (String × CborValue)) (name : String) : Except SerError CborValue :=
  match entries.lookup name with
  | none => .error (.missingField name)
  | some value => .ok value

/-! ## Parts of envelopes -/

/-- Whether some text is a UUID of version 4 in lower case. -/
def isServerId (value : String) : Bool := (textBytes value).length == 36 &&
    (textBytes value).zipIdx.all fun (byte, index) =>
      if index ∈ [8, 13, 18, 23] then byte == 0x2d
      else if index = 14 then byte == 0x34
      else if index = 19 then byte ∈ [0x38, 0x39, 0x61, 0x62]
      else (0x30 ≤ byte && byte ≤ 0x39) || (0x61 ≤ byte && byte ≤ 0x66)

/-- The identity of a server, whose text is read in some way. -/
def serverIdOf (string : CborValue → Except SerError String) (value : CborValue) :
    Except SerError String := do
  let text ← string value
  if isServerId text then .ok text else .error .serverId

/-- A session route from its fields, whose texts are read in some way. -/
def sessionTargetOf (string : CborValue → Except SerError String)
    (entries : List (String × CborValue)) : Except SerError SessionTarget := do
  visitFields ["serverId", "sessionId", "attachmentId"] entries []
  let serverId ← serverIdOf string (← field entries "serverId")
  let sessionId ← string (← field entries "sessionId")
  let attachmentId ← string (← field entries "attachmentId")
  .ok ⟨serverId, sessionId, attachmentId⟩

def deserializeServerId (value : CborValue) : Except SerError String :=
  serverIdOf deserializeString value

def deserializeSessionTarget (value : CborValue) : Except SerError SessionTarget := do
  sessionTargetOf deserializeString (← deserializeMap value)

def deserializeProtocolError (value : CborValue) : Except SerError ProtocolError := do
  let entries ← deserializeMap value
  visitFields ["code", "message"] entries []
  let code ← deserializeString (← field entries "code")
  let message ← deserializeString (← field entries "message")
  .ok ⟨code, message⟩

/-! An untagged route is buffered before its variants are tried.  A buffered text may also be the
bytes of one, and a buffered record may also be the list of its fields. -/

def contentString : CborValue → Except SerError String
  | .text value => .ok value
  | .bytes value =>
    match Utf8.decode value with
    | none => .error (.expected .string)
    | some text => .ok (String.ofList text)
  | _ => .error (.expected .string)

def contentServerTarget : CborValue → Except SerError String
  | .map entries => do
    visitFields ["serverId"] entries []
    serverIdOf contentString (← field entries "serverId")
  | .array [serverId] => serverIdOf contentString serverId
  | .array values => .error (.invalidLength values.length)
  | _ => .error (.expected .struct)

def contentSessionTarget : CborValue → Except SerError SessionTarget
  | .map entries => sessionTargetOf contentString entries
  | .array [serverId, sessionId, attachmentId] => do
    let serverId ← serverIdOf contentString serverId
    let sessionId ← contentString sessionId
    let attachmentId ← contentString attachmentId
    .ok ⟨serverId, sessionId, attachmentId⟩
  | .array values => .error (.invalidLength values.length)
  | _ => .error (.expected .struct)

def deserializeTarget (value : CborValue) : Except SerError RpcTarget :=
  match contentServerTarget value with
  | .ok serverId => .ok (.server serverId)
  | .error _ =>
    match contentSessionTarget value with
    | .ok target => .ok (.session target)
    | .error _ => .error .noVariant

def serializeSessionTarget (target : SessionTarget) : CborValue :=
  .map [("serverId", .text target.serverId), ("sessionId", .text target.sessionId),
    ("attachmentId", .text target.attachmentId)]

def serializeTarget : RpcTarget → CborValue
  | .server serverId => .map [("serverId", .text serverId)]
  | .session target => serializeSessionTarget target

def serializeProtocolError (error : ProtocolError) : CborValue :=
  .map [("code", .text error.code), ("message", .text error.message)]

/-! ## Messages -/

def objectType : CborValue → Except SerError String
  | .map entries =>
    match entries.lookup "type" with
    | some (.text value) => .ok value
    | _ => .error .typeNotString
  | _ => .error .notObject

def requireType (actual expected : String) : Except SerError Unit :=
  if actual = expected then .ok () else .error (.unexpectedType expected)

def serializeClient : ClientMessage OpaqueJson → Except SerError CborValue
  | .hello version => .ok (.map [("type", .text "hello"), ("version", .uint version.val)])
  | .request id target call => do
    let payload ← serializeJson call.value
    .ok (.map [("type", .text "request"), ("id", .text id), ("target", serializeTarget target),
      ("call", payload)])
  | .cancel id target =>
    .ok (.map [("type", .text "cancel"), ("id", .text id), ("target", serializeTarget target)])

def deserializeClientHello (value : CborValue) : Except SerError (ClientMessage OpaqueJson) := do
  let entries ← deserializeMap value
  visitFields ["type", "version"] entries []
  let typeField ← deserializeString (← field entries "type")
  let version ← deserializeU64 (← field entries "version")
  requireType typeField "hello"
  .ok (.hello version)

def deserializeRequest (value : CborValue) : Except SerError (ClientMessage OpaqueJson) := do
  let entries ← deserializeMap value
  visitFields ["type", "id", "target", "call"] entries []
  let typeField ← deserializeString (← field entries "type")
  let id ← deserializeString (← field entries "id")
  let target ← deserializeTarget (← field entries "target")
  let call ← opaqueJson (← field entries "call")
  requireType typeField "request"
  .ok (.request id target call)

def deserializeCancel (value : CborValue) : Except SerError (ClientMessage OpaqueJson) := do
  let entries ← deserializeMap value
  visitFields ["type", "id", "target"] entries []
  let typeField ← deserializeString (← field entries "type")
  let id ← deserializeString (← field entries "id")
  let target ← deserializeTarget (← field entries "target")
  requireType typeField "cancel"
  .ok (.cancel id target)

def parseClientValue (value : CborValue) : Except SerError (ClientMessage OpaqueJson) := do
  let typeName ← objectType value
  if typeName = "hello" then deserializeClientHello value
  else if typeName = "request" then deserializeRequest value
  else if typeName = "cancel" then deserializeCancel value
  else .error (.unknownVariant typeName)

def serializeServer : ServerMessage OpaqueJson → Except SerError CborValue
  | .hello hello =>
    .ok (.map [("type", .text "hello"), ("version", .uint hello.version.val),
      ("serverId", .text hello.serverId)])
  | .helloError error =>
    .ok (.map [("type", .text "hello_error"), ("error", serializeProtocolError error)])
  | .response id none =>
    .ok (.map [("type", .text "response"), ("id", .text id), ("ok", .bool true)])
  | .response id (some result) => do
    let payload ← serializeJson result.value
    .ok (.map [("type", .text "response"), ("id", .text id), ("ok", .bool true),
      ("result", payload)])
  | .responseError id error =>
    .ok (.map [("type", .text "response"), ("id", .text id), ("ok", .bool false),
      ("error", serializeProtocolError error)])
  | .serviceUpdate subscriptionId update => do
    let payload ← serializeJson update.value
    .ok (.map [("type", .text "service_update"), ("subscriptionId", .text subscriptionId),
      ("update", payload)])
  | .attachment attachment =>
    .ok (.map [("type", .text "attachment"),
      ("attachment", attachment.elim .null serializeSessionTarget)])

def deserializeServerHello (value : CborValue) : Except SerError (ServerMessage OpaqueJson) := do
  let entries ← deserializeMap value
  visitFields ["type", "version", "serverId"] entries []
  let typeField ← deserializeString (← field entries "type")
  let version ← deserializeU64 (← field entries "version")
  let serverId ← deserializeServerId (← field entries "serverId")
  requireType typeField "hello"
  .ok (.hello ⟨version, serverId⟩)

def deserializeHelloError (value : CborValue) : Except SerError (ServerMessage OpaqueJson) := do
  let entries ← deserializeMap value
  visitFields ["type", "error"] entries []
  let typeField ← deserializeString (← field entries "type")
  let error ← deserializeProtocolError (← field entries "error")
  requireType typeField "hello_error"
  .ok (.helloError error)

/-- A result that may be absent, which is not the same as null. -/
def optionalJson (entries : List (String × CborValue)) (name : String) :
    Except SerError (Option OpaqueJson) :=
  match entries.lookup name with
  | none => .ok none
  | some value => do
    let result ← opaqueJson value
    .ok (some result)

def deserializeSuccess (value : CborValue) : Except SerError (ServerMessage OpaqueJson) := do
  let entries ← deserializeMap value
  visitFields ["type", "id", "ok", "result"] entries []
  let typeField ← deserializeString (← field entries "type")
  let id ← deserializeString (← field entries "id")
  let ok ← deserializeBool (← field entries "ok")
  let result ← optionalJson entries "result"
  requireType typeField "response"
  if ok then .ok (.response id result) else .error .unexpectedOk

def deserializeFailure (value : CborValue) : Except SerError (ServerMessage OpaqueJson) := do
  let entries ← deserializeMap value
  visitFields ["type", "id", "ok", "error"] entries []
  let typeField ← deserializeString (← field entries "type")
  let id ← deserializeString (← field entries "id")
  let ok ← deserializeBool (← field entries "ok")
  let error ← deserializeProtocolError (← field entries "error")
  requireType typeField "response"
  if ok then .error .unexpectedOk else .ok (.responseError id error)

def parseResponseValue (value : CborValue) : Except SerError (ServerMessage OpaqueJson) := do
  requireType (← objectType value) "response"
  match value with
  | .map entries =>
    match entries.lookup "ok" with
    | some (.bool true) => deserializeSuccess value
    | some (.bool false) => deserializeFailure value
    | _ => .error .okNotBool
  | _ => .error .okNotBool

def deserializeServiceUpdate (value : CborValue) : Except SerError (ServerMessage OpaqueJson) := do
  let entries ← deserializeMap value
  visitFields ["type", "subscriptionId", "update"] entries []
  let typeField ← deserializeString (← field entries "type")
  let subscriptionId ← deserializeString (← field entries "subscriptionId")
  let update ← opaqueJson (← field entries "update")
  requireType typeField "service_update"
  .ok (.serviceUpdate subscriptionId update)

/-- A route that may be absent or null. -/
def optionalTarget (entries : List (String × CborValue)) (name : String) :
    Except SerError (Option SessionTarget) :=
  match entries.lookup name with
  | none | some .null => .ok none
  | some value => do
    let target ← deserializeSessionTarget value
    .ok (some target)

def deserializeAttachment (value : CborValue) : Except SerError (ServerMessage OpaqueJson) := do
  let entries ← deserializeMap value
  visitFields ["type", "attachment"] entries []
  let typeField ← deserializeString (← field entries "type")
  let attachment ← optionalTarget entries "attachment"
  requireType typeField "attachment"
  .ok (.attachment attachment)

def parseServerValue (value : CborValue) : Except SerError (ServerMessage OpaqueJson) := do
  let typeName ← objectType value
  if typeName = "hello" then deserializeServerHello value
  else if typeName = "hello_error" then deserializeHelloError value
  else if typeName = "response" then parseResponseValue value
  else if typeName = "service_update" then deserializeServiceUpdate value
  else if typeName = "attachment" then deserializeAttachment value
  else .error (.unknownVariant typeName)

end PiOxidized.Remote
