/-
# Frames of messages

A frame that was encoded is decoded to its message under the same limit.  A frame that was decoded
is encoded again in a frame that is not longer, unless it lists the fields of a route.
-/

import PiOxidized.Remote.Canonical

namespace PiOxidized.Remote.Codec

open List Math

variable {M : Type} {side : Side M} {msg : M} {frame payload : List UInt8}
  {opts : Option FrameDecoderOptions} {value written : CborValue}

/-! ## One frame -/

/-- The bytes a payload may have. -/
def limit (options : Option FrameDecoderOptions) : Nat :=
  (CborOptions.fromFrame options).maxByteLength

theorem resolveMax_eq_ok_iff {max : Nat} :
    resolveMax opts = .ok max ↔ max = limit opts ∧ limit opts ≤ maxUint32 := by
  have hlim : opts.elim defaultMaxFrameLength FrameDecoderOptions.maxFrameLength =
      limit opts := rfl
  rw [resolveMax, hlim]
  split_ifs with hmax
  · rw [Except.ok.injEq]
    exact ⟨fun h => ⟨h.symm, hmax⟩, fun h => h.1.symm⟩
  · exact iff_of_false (by rintro ⟨⟩) fun h => hmax h.2

theorem assertCompleteFrame_eq_ok (h : assertCompleteFrame frame opts = .ok ()) :
    limit opts ≤ maxUint32 ∧ (frame.drop frameHeaderLength).length ≤ limit opts ∧
      frame.length = frameHeaderLength + (frame.drop frameHeaderLength).length := by
  rw [assertCompleteFrame] at h
  split_ifs at h with hhead
  dsimp only at h
  split at h
  · cases h
  · next max hmax =>
      obtain ⟨rfl, hlim⟩ := resolveMax_eq_ok_iff.mp hmax
      split_ifs at h with hlong hcomp
      rw [length_drop]
      omega

/-- A payload within the limit is framed completely. -/
theorem assertCompleteFrame_encodeFrame (hmax : limit opts ≤ maxUint32)
    (hpay : payload.length ≤ limit opts) :
    assertCompleteFrame (encodeFrame payload) opts = .ok () := by
  have hword : payload.length ≤ maxUint32 := hpay.trans hmax
  have hfrm : encodeFrame payload = toBeBytes payload.length ++ payload := by
    rw [encodeFrame, if_pos hword]
  have htake : (encodeFrame payload).take frameHeaderLength = toBeBytes payload.length := by
    rw [hfrm, ← length_toBeBytes payload.length, take_left]
  have hlen : (encodeFrame payload).length = frameHeaderLength + payload.length := by
    rw [hfrm, length_append, length_toBeBytes]
  rw [assertCompleteFrame, hlen, htake, fromBeBytes_toBeBytes hword,
    resolveMax_eq_ok_iff.mpr ⟨rfl, hmax⟩]
  simp only [if_neg (Nat.not_lt.mpr hpay)]
  rw [if_neg (by omega), if_neg (not_not_intro rfl)]

theorem drop_encodeFrame (payload : List UInt8) :
    (encodeFrame payload).drop frameHeaderLength = payload := by
  rw [encodeFrame]
  exact drop_left' (length_toBeBytes _)

theorem length_encodeFrame (payload : List UInt8) :
    (encodeFrame payload).length = frameHeaderLength + payload.length := by
  rw [encodeFrame, length_append, length_toBeBytes]

theorem limit_le_safe (h : limit opts ≤ maxUint32) : limit opts ≤ maxSafeCborInteger :=
  h.trans (by decide)

/-! ## One side -/

/-- What encoding has done when it succeeds. -/
theorem Side.encode_eq_ok (h : side.encode msg opts = .ok frame) :
    ∃ written, (side.validate msg = .ok () ∧ side.serialize msg = .ok written) ∧
      Admitted (-(maxSafeCborInteger : Int)) written (defaultMaxCborDepth + 1) ∧
      frame = encodeFrame (encoding written) ∧ limit opts ≤ maxUint32 ∧
      (encoding written).length ≤ limit opts := by
  obtain ⟨⟨⟩, hval, h⟩ := bind_ok h
  obtain ⟨written, hwrit, h⟩ := bind_ok h
  obtain ⟨⟨⟩, hads, h⟩ := bind_ok h
  obtain ⟨payload, hpay, h⟩ := bind_ok h
  obtain ⟨⟨⟩, hcomp, h⟩ := bind_ok h
  obtain ⟨hadm, rfl⟩ := encodeCborValue_eq_ok (mapError_eq_ok hads) (mapError_eq_ok hpay)
  obtain ⟨hmax, hlim, -⟩ := assertCompleteFrame_eq_ok (mapError_eq_ok hcomp)
  rw [drop_encodeFrame] at hlim
  exact ⟨written, ⟨hval, mapError_eq_ok hwrit⟩, hadm, (Except.ok.inj h).symm, hmax, hlim⟩

theorem Side.encode_of_written (hval : side.validate msg = .ok ())
    (hwrit : side.serialize msg = .ok written)
    (hadm : Admitted (-(maxSafeCborInteger : Int)) written (defaultMaxCborDepth + 1))
    (hmax : limit opts ≤ maxUint32) (hlim : (encoding written).length ≤ limit opts) :
    side.encode msg opts = .ok (encodeFrame (encoding written)) := by
  have hads := hadm.validate (Nat.zero_add _)
  have hpay := encodeCborValue_encoding (CborOptions.standard_fromFrame opts) hadm hlim
  have hcomp := assertCompleteFrame_encodeFrame hmax hlim
  refine bind_ok_iff.mpr ⟨(), hval, ?_⟩
  refine bind_ok_iff.mpr ⟨written, congrArg _ hwrit, ?_⟩
  refine bind_ok_iff.mpr ⟨(), congrArg _ hads, ?_⟩
  refine bind_ok_iff.mpr ⟨encoding written, congrArg _ hpay, ?_⟩
  exact bind_ok_iff.mpr ⟨(), congrArg _ hcomp, rfl⟩

/-- What decoding has done when it succeeds. -/
theorem Side.decode_eq_ok (h : side.decode frame opts = .ok msg) :
    ∃ value, decodeCborValue (frame.drop frameHeaderLength) (CborOptions.fromFrame opts) =
        .ok value ∧ (side.parse value = .ok msg ∧ side.validate msg = .ok ()) ∧
      limit opts ≤ maxUint32 ∧ (frame.drop frameHeaderLength).length ≤ limit opts ∧
      frame.length = frameHeaderLength + (frame.drop frameHeaderLength).length := by
  obtain ⟨⟨⟩, hcomp, h⟩ := bind_ok h
  obtain ⟨value, hvalue, h⟩ := bind_ok h
  obtain ⟨⟨⟩, -, h⟩ := bind_ok h
  obtain ⟨found, hfnd, h⟩ := bind_ok h
  obtain ⟨⟨⟩, hval, h⟩ := bind_ok h
  cases h
  exact ⟨value, mapError_eq_ok hvalue, ⟨mapError_eq_ok hfnd, hval⟩,
    assertCompleteFrame_eq_ok (mapError_eq_ok hcomp)⟩

/-- The shortest bytes of a value are decoded to the message it is parsed as. -/
theorem Side.decode_of_parsed (hadm : Admitted leastRead value (defaultMaxCborDepth + 1))
    (hmax : limit opts ≤ maxUint32) (hlim : (encoding value).length ≤ limit opts)
    (htype : checkDiscriminant value "type" side.discriminants = .ok ())
    (hparse : side.parse value = .ok msg) (hval : side.validate msg = .ok ()) :
    side.decode (encodeFrame (encoding value)) opts = .ok msg := by
  have hvalue := decodeCborValue_encoding (CborOptions.standard_fromFrame opts) hadm
    (limit_le_safe hmax) hlim
  have hcomp := assertCompleteFrame_encodeFrame hmax hlim
  refine bind_ok_iff.mpr ⟨(), congrArg _ hcomp, ?_⟩
  rw [drop_encodeFrame]
  refine bind_ok_iff.mpr ⟨value, congrArg _ hvalue, ?_⟩
  refine bind_ok_iff.mpr ⟨(), htype, ?_⟩
  refine bind_ok_iff.mpr ⟨msg, congrArg _ hparse, ?_⟩
  exact bind_ok_iff.mpr ⟨(), hval, rfl⟩

/-- A side whose values are read back. -/
def Side.ReadsBack (side : Side M) : Prop :=
  ∀ {message : M} {written : CborValue}, side.validate message = .ok () →
    side.serialize message = .ok written →
    side.parse written = .ok message ∧ checkDiscriminant written "type" side.discriminants = .ok ()

theorem least_le : leastRead ≤ -(maxSafeCborInteger : Int) := by
  simp only [leastRead]
  omega

theorem Side.ReadsBack.decode_encode (hside : side.ReadsBack)
    (h : side.encode msg opts = .ok frame) : side.decode frame opts = .ok msg := by
  obtain ⟨written, ⟨hval, hwrit⟩, hadm, rfl, hmax, hlim⟩ := Side.encode_eq_ok h
  obtain ⟨hparse, htype⟩ := hside hval hwrit
  exact Side.decode_of_parsed (hadm.mono least_le) hmax hlim htype hparse hval

/-- Encoding again what was decoded. -/
theorem Side.ReadsBack.encode_decoded (hside : side.ReadsBack)
    (hval : side.validate msg = .ok ()) (hwrit : side.serialize msg = .ok written)
    (hadm : Admitted (-(maxSafeCborInteger : Int)) written (defaultMaxCborDepth + 1))
    (hmax : limit opts ≤ maxUint32) (hlim : (encoding written).length ≤ limit opts) :
    side.encode msg opts = .ok (encodeFrame (encoding written)) ∧
      side.decode (encodeFrame (encoding written)) opts = .ok msg := by
  have henc := Side.encode_of_written hval hwrit hadm hmax hlim
  exact ⟨henc, hside.decode_encode henc⟩

theorem clientSide_readsBack : clientSide.ReadsBack := client_read_back

theorem serverSide_readsBack : serverSide.ReadsBack := server_read_back

/-! ## Frames under the default limit -/

/-- Whether the client message in a frame has its route as a list of fields. -/
def RouteListed (frame : List UInt8) : Prop :=
  ∃ value, decodeCborValue (frame.drop frameHeaderLength) (CborOptions.fromFrame none) = .ok value ∧
    TargetListed value

/-- Whether the attachment message in a frame leaves out the key of its route. -/
def AttachmentLeftOut (frame : List UInt8) : Prop :=
  ∃ value, decodeCborValue (frame.drop frameHeaderLength) (CborOptions.fromFrame none) = .ok value ∧
    AttachmentOmitted value

/-- What a frame is decoded to is encoded in a frame that is not longer, and decoded from it. -/
def ClientCanonical (frame : List UInt8) : Prop :=
  ∀ message, decodeClientMessage frame none = .ok message →
    ∃ shortest, encodeClientMessage message none = .ok shortest ∧
      shortest.length ≤ frame.length ∧ decodeClientMessage shortest none = .ok message

/-- The same for a server, where an omitted route may be written as null. -/
def ServerCanonical (frame : List UInt8) : Prop :=
  ∀ message, decodeServerMessage frame none = .ok message →
    ∃ shortest, encodeServerMessage message none = .ok shortest ∧
      (shortest.length ≤ frame.length ∨ AttachmentLeftOut frame) ∧
      decodeServerMessage shortest none = .ok message

/-- A frame that holds a longer payload than some value is not shorter than the frame of it. -/
theorem length_frame_le (hvalue : decodeCborValue (frame.drop frameHeaderLength)
      (CborOptions.fromFrame none) = .ok value)
    (hfrm : frame.length = frameHeaderLength + (frame.drop frameHeaderLength).length)
    (hcov : Covers (defaultMaxCborDepth + 1) value written) :
    (encoding written).length ≤ (frame.drop frameHeaderLength).length ∧
      (encodeFrame (encoding written)).length ≤ frame.length := by
  obtain ⟨-, hshort⟩ := decodeCborValue_eq_ok (CborOptions.standard_fromFrame none) hvalue
  have hle := hcov.2.trans hshort
  rw [length_encodeFrame, hfrm]
  exact ⟨hle, Nat.add_le_add_left hle _⟩

theorem clientCanonical_of_record (hrec : ¬ RouteListed frame) : ClientCanonical frame := by
  intro msg h
  obtain ⟨value, hvalue, ⟨hparse, hval⟩, hmax, hlim, hfrm⟩ := Side.decode_eq_ok h
  obtain ⟨hadm, -⟩ := decodeCborValue_eq_ok (CborOptions.standard_fromFrame none) hvalue
  have hlist : ¬ TargetListed value := fun hlist => hrec ⟨value, hvalue, hlist⟩
  obtain ⟨written, hwrit, hcov⟩ := client_shorter hadm hlist hparse hval
  obtain ⟨hpay, hshort⟩ := length_frame_le hvalue hfrm hcov
  obtain ⟨henc, hdec⟩ := clientSide_readsBack.encode_decoded hval hwrit hcov.1 hmax
    (hpay.trans hlim)
  exact ⟨_, henc, hshort, hdec⟩

/-- The value of a message without a route. -/
theorem detached_admitted : Admitted (-(maxSafeCborInteger : Int))
    (.map [("type", .text "attachment"), ("attachment", .null)]) (defaultMaxCborDepth + 1) := by
  refine .map (by decide) (by decide) ?_
  rw [forall_mem_cons, forall_mem_singleton]
  exact ⟨.text "attachment" 63, .null 63⟩

theorem serverCanonical (frame : List UInt8) : ServerCanonical frame := by
  intro msg h
  obtain ⟨value, hvalue, ⟨hparse, hval⟩, hmax, hlim, hfrm⟩ := Side.decode_eq_ok h
  obtain ⟨hadm, -⟩ := decodeCborValue_eq_ok (CborOptions.standard_fromFrame none) hvalue
  rcases server_shorter hadm hparse hval with ⟨written, hwrit, hcov⟩ | ⟨homitted, rfl⟩
  · obtain ⟨hpay, hshort⟩ := length_frame_le hvalue hfrm hcov
    obtain ⟨henc, hdec⟩ := serverSide_readsBack.encode_decoded hval hwrit hcov.1 hmax
      (hpay.trans hlim)
    exact ⟨_, henc, .inl hshort, hdec⟩
  · have hsmall : (encoding (.map [("type", .text "attachment"), ("attachment", .null)])).length ≤
        limit none := by
      decide +kernel
    obtain ⟨henc, hdec⟩ :=
      serverSide_readsBack.encode_decoded hval rfl detached_admitted hmax hsmall
    exact ⟨_, henc, .inr ⟨value, hvalue, homitted⟩, hdec⟩

/-! ## Listed routes -/

/-- The fields of a route. -/
def routeFields : RpcTarget → List CborValue
  | .server serverId => [.text serverId]
  | .session target => [.text target.serverId, .text target.sessionId, .text target.attachmentId]

/-- A route as the list of its fields. -/
def listedTarget (target : RpcTarget) : CborValue := .array (routeFields target)

/-- Whether a client message has a route. -/
def Routed : ClientMessage OpaqueJson → Prop
  | .hello _ => False
  | .request _ _ _ | .cancel _ _ => True

/-- A list of fields is read as the route it lists. -/
theorem deserializeTarget_listed {tgt : RpcTarget} (h : validateTarget tgt = .ok ()) :
    deserializeTarget (listedTarget tgt) = .ok tgt := by
  cases tgt with
  | server serverId =>
    have hserver := validateServerId_eq_ok h
    simp [deserializeTarget, listedTarget, routeFields, contentServerTarget, serverIdOf,
      contentString, bind, Except.bind, hserver]
  | session tgt =>
    have hserver := validateSessionTarget_eq_ok h
    simp [deserializeTarget, listedTarget, routeFields, contentServerTarget, contentSessionTarget,
      serverIdOf, contentString, bind, Except.bind, hserver]

theorem admitted_listedTarget {low : Int} (tgt : RpcTarget) (levels : Nat) :
    Admitted low (listedTarget tgt) (levels + 1 + 1) := by
  cases tgt with
  | server serverId =>
    refine .array (show 1 ≤ 1000000 by omega) ?_
    rw [routeFields, forall_mem_singleton]
    exact .text serverId levels
  | session tgt =>
    refine .array (show 3 ≤ 1000000 by omega) ?_
    rw [routeFields, forall_mem_cons, forall_mem_cons, forall_mem_singleton]
    exact ⟨.text _ levels, .text _ levels, .text _ levels⟩

theorem length_textEncoding_pos (text : String) : 0 < (textEncoding text).length := by
  rw [textEncoding, length_append, length_argumentBytes]
  split_ifs <;> omega

/-- A list of fields needs no bytes for their names. -/
theorem length_listedTarget_lt (tgt : RpcTarget) :
    (encoding (listedTarget tgt)).length < (encoding (serializeTarget tgt)).length := by
  have hname := length_textEncoding_pos "serverId"
  cases tgt with
  | server serverId =>
    simp only [listedTarget, routeFields, serializeTarget, encoding, itemsEncoding, entriesEncoding,
      length_append, length_cons, length_nil, length_argumentBytes]
    omega
  | session tgt =>
    simp only [listedTarget, routeFields, serializeTarget, serializeSessionTarget, encoding, itemsEncoding,
      entriesEncoding, length_append, length_cons, length_nil,
      length_argumentBytes]
    omega

/-- With its route as a list, a message has a value that is read as it and is shorter. -/
theorem exists_listed {msg : ClientMessage OpaqueJson} (hrouted : Routed msg)
    (hval : validateClientMessage msg = .ok ()) (hwrit : serializeClient msg = .ok written)
    (hadm : Admitted leastRead written (defaultMaxCborDepth + 1)) :
    ∃ listed, Admitted leastRead listed (defaultMaxCborDepth + 1) ∧ TargetListed listed ∧
      (encoding listed).length < (encoding written).length ∧
      parseClientValue listed = .ok msg ∧
      checkDiscriminant listed "type" clientDiscriminants = .ok () := by
  cases msg with
  | hello version => exact absurd hrouted id
  | request id target call =>
    obtain ⟨payload, hpay, hwrit⟩ := bind_ok hwrit
    obtain ⟨⟨⟩, -, hval⟩ := bind_ok hval
    obtain ⟨⟨⟩, htgt, -⟩ := bind_ok hval
    have hroute := deserializeTarget_listed (mapError_eq_ok htgt)
    have hcall := opaqueJson_serialize hpay
    have hshort := length_listedTarget_lt target
    rw [← Except.ok.inj hwrit] at hadm ⊢
    have hlook : lookup "call" [("type", CborValue.text "request"), ("id", .text id),
        ("target", serializeTarget target), ("call", payload)] = some payload := by
      simp [lookup_cons]
    have hlast := admitted_of_lookup hadm hlook
    refine ⟨.map [("type", .text "request"), ("id", .text id), ("target", listedTarget target),
      ("call", payload)], ?_, ?_, ?_, ?_⟩
    · refine .map (show 4 ≤ 1000000 by omega) (by simp) ?_
      rw [forall_mem_cons, forall_mem_cons, forall_mem_cons, forall_mem_singleton]
      exact ⟨.text _ 63, .text _ 63, admitted_listedTarget target 62, hlast⟩
    · exact ⟨_, routeFields target, rfl, by simp [lookup_cons, listedTarget]⟩
    · simp only [encoding, entriesEncoding, length_append, length_cons, length_nil]
      omega
    · simp [parseClientValue, objectType, deserializeRequest, deserializeMap, visitFields, field,
        deserializeString, requireType, checkDiscriminant, clientDiscriminants, lookup_cons,
        bind, Except.bind, hroute, hcall]
  | cancel id target =>
    obtain ⟨⟨⟩, -, hval⟩ := bind_ok hval
    have hroute := deserializeTarget_listed (mapError_eq_ok hval)
    have hshort := length_listedTarget_lt target
    rw [← Except.ok.inj hwrit]
    refine ⟨.map [("type", .text "cancel"), ("id", .text id), ("target", listedTarget target)],
      ?_, ?_, ?_, ?_⟩
    · refine .map (show 3 ≤ 1000000 by omega) (by simp) ?_
      rw [forall_mem_cons, forall_mem_cons, forall_mem_singleton]
      exact ⟨.text _ 63, .text _ 63, admitted_listedTarget target 62⟩
    · exact ⟨_, routeFields target, rfl, by simp [lookup_cons, listedTarget]⟩
    · simp only [encoding, entriesEncoding, length_append, length_cons, length_nil]
      omega
    · simp [parseClientValue, objectType, deserializeCancel, deserializeMap, visitFields, field,
        deserializeString, requireType, checkDiscriminant, clientDiscriminants, lookup_cons,
        bind, Except.bind, hroute]

/-- Every frame of a message with a route has a shorter one that lists the fields of the route, and
from it the message is encoded in a longer frame. -/
theorem exists_routeListed {msg : ClientMessage OpaqueJson} (hrouted : Routed msg)
    (h : encodeClientMessage msg none = .ok frame) :
    ∃ listed, RouteListed listed ∧ decodeClientMessage listed none = .ok msg ∧
      listed.length < frame.length ∧ ¬ ClientCanonical listed := by
  obtain ⟨written, ⟨hval, hwrit⟩, hadm, rfl, hmax, hlim⟩ := Side.encode_eq_ok h
  obtain ⟨value, hvalue, hlist, hshort, hparse, htype⟩ :=
    exists_listed hrouted hval hwrit (hadm.mono least_le)
  have hfits : (encoding value).length ≤ limit none := (Nat.le_of_lt hshort).trans hlim
  have hdec : decodeClientMessage (encodeFrame (encoding value)) none = .ok msg :=
    Side.decode_of_parsed hvalue hmax hfits htype hparse hval
  have hlt : (encodeFrame (encoding value)).length < (encodeFrame (encoding written)).length := by
    rw [length_encodeFrame, length_encodeFrame]
    omega
  have hread := decodeCborValue_encoding (CborOptions.standard_fromFrame none) hvalue
    (limit_le_safe hmax) hfits
  refine ⟨encodeFrame (encoding value), ⟨value, ?_, hlist⟩, hdec, hlt, ?_⟩
  · rw [drop_encodeFrame]
    exact hread
  · intro hcanonical
    obtain ⟨shortest, henc, hle, -⟩ := hcanonical msg hdec
    rw [h] at henc
    rw [← Except.ok.inj henc] at hle
    omega

/-! ## The codec -/

/-- Under any limit an encoded message is decoded from its frame.  Under the default limit a
decoded message is encoded in a frame that is not longer, as long as the route of a client message
is a record; and every message with a route has a frame where it is not. -/
theorem messages_canonical (frame : List UInt8) :
    ((∀ msg opts, encodeClientMessage msg opts = .ok frame →
        decodeClientMessage frame opts = .ok msg) ∧
      ∀ msg opts, encodeServerMessage msg opts = .ok frame →
        decodeServerMessage frame opts = .ok msg) ∧
    ((¬ RouteListed frame → ClientCanonical frame) ∧ ServerCanonical frame) ∧
    ∀ msg, Routed msg → encodeClientMessage msg none = .ok frame →
      ∃ listed, RouteListed listed ∧ decodeClientMessage listed none = .ok msg ∧
        listed.length < frame.length ∧ ¬ ClientCanonical listed := by
  refine ⟨⟨?_, ?_⟩, ⟨clientCanonical_of_record, serverCanonical frame⟩, ?_⟩
  · intro msg opts h
    exact clientSide_readsBack.decode_encode h
  · intro msg opts h
    exact serverSide_readsBack.decode_encode h
  · intro msg hrouted h
    exact exists_routeListed hrouted h

/-- The cancellation of a request to a server. -/
def cancellation : ClientMessage OpaqueJson :=
  .cancel "1" (.server "00000000-0000-4000-8000-000000000001")

/-- The frame of the cancellation. -/
def cancellationFrame : List UInt8 :=
  encodeFrame (encoding (.map [("type", .text "cancel"), ("id", .text "1"),
    ("target", .map [("serverId", .text "00000000-0000-4000-8000-000000000001")])]))

/-- A call with numbers and a nested object. -/
def nestedCall : OpaqueJson where
  value := .object [(.fromUtf8 "args", .array [.number ⟨0x4038000000000000⟩,
    .number ⟨0x3FF8000000000000⟩, .object [(.fromUtf8 "é", .null)]])]
  ordered := by
    simp [Service.JsonValue.ordered_object, Service.JsonValue.ordered_array, Assoc.Sorted]
    exact ⟨trivial, trivial, trivial⟩

/-- A request of the call, to a server. -/
def callRequest : ClientMessage OpaqueJson :=
  .request "2" (.server "00000000-0000-4000-8000-000000000001") nestedCall

/-- The frame of the request. -/
def callFrame : List UInt8 :=
  encodeFrame (encoding (.map [("type", .text "request"), ("id", .text "2"),
    ("target", .map [("serverId", .text "00000000-0000-4000-8000-000000000001")]),
    ("call", .map [("args", .array [.uint 24, .float ⟨0x3FF8000000000000⟩,
      .map [("é", .null)]])])]))

/-- The request is decoded from its frame. -/
theorem request_canonical : decodeClientMessage callFrame none = .ok callRequest :=
  (messages_canonical callFrame).1.1 callRequest none (by decide +kernel)

/-- The cancellation with the field of its route in a list. -/
def listedFrame : List UInt8 :=
  encodeFrame (encoding (.map [("type", .text "cancel"), ("id", .text "1"),
    ("target", .array [.text "00000000-0000-4000-8000-000000000001"])]))

/-- A frame that is accepted, whose message is encoded in a longer one. -/
theorem listed_not_canonical : ¬ ClientCanonical listedFrame := by
  intro h
  have hagain : (decodeClientMessage listedFrame none >>= fun msg =>
      encodeClientMessage msg none) = .ok cancellationFrame := by
    decide +kernel
  obtain ⟨msg, hdecode, hencode⟩ := bind_ok hagain
  obtain ⟨shortest, hshortest, hle, -⟩ := h msg hdecode
  rw [hencode] at hshortest
  rw [← Except.ok.inj hshortest] at hle
  exact absurd hle (by decide +kernel)

end PiOxidized.Remote.Codec
