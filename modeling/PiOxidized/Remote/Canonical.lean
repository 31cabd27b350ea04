/-
# Canonical frames

What is encoded is decoded to the message it came from.  What is decoded is encoded again in a
frame that is not longer, and decoded again to the same message, as long as the route of a client
message is not written as the list of its fields.
-/

import Mathlib.Data.List.Nodup
import PiOxidized.Remote.Enveloped

namespace PiOxidized.Remote.Codec

open List Math
open Service (JsonValue JsString)

variable {levels : Nat} {value written : CborValue} {entries wanted : List (String × CborValue)}
  {name text : String}

/-! ## Fields that were read -/

theorem deserializeMap_eq_ok (h : deserializeMap value = .ok entries) : value = .map entries := by
  cases value with
  | map found => rw [Except.ok.inj h]
  | _ => cases h

variable {X B : Type} {res : B}

/-- The entries of a record that was read. -/
theorem record_eq_ok {known : List String} {next : List (String × CborValue) → Except SerError B}
    (h : (deserializeMap value >>= fun entries =>
      visitFields known entries [] >>= fun _ => next entries) = .ok res) :
    ∃ entries, value = .map entries ∧ next entries = .ok res := by
  obtain ⟨entries, hents, h⟩ := bind_ok h
  obtain ⟨⟨⟩, -, h⟩ := bind_ok h
  exact ⟨entries, deserializeMap_eq_ok hents, h⟩

theorem lookup_of_field (h : field entries name = .ok value) :
    entries.lookup name = some value := by
  rw [field] at h
  split at h
  · cases h
  · next found hfnd => rw [hfnd, Except.ok.inj h]

/-- A required field that was read. -/
theorem field_eq_ok {read : CborValue → Except SerError X} {next : X → Except SerError B}
    (h : (field entries name >>= fun value => read value >>= next) = .ok res) :
    ∃ value found, entries.lookup name = some value ∧ read value = .ok found ∧
      next found = .ok res := by
  obtain ⟨value, hvalue, h⟩ := bind_ok h
  obtain ⟨found, hfnd, h⟩ := bind_ok h
  exact ⟨value, found, lookup_of_field hvalue, hfnd, h⟩

theorem deserializeString_eq_ok (h : deserializeString value = .ok text) : value = .text text := by
  cases value with
  | text found => rw [Except.ok.inj h]
  | _ => cases h

theorem deserializeBool_eq_ok {flag : Bool} (h : deserializeBool value = .ok flag) :
    value = .bool flag := by
  cases value with
  | bool found => rw [Except.ok.inj h]
  | _ => cases h

theorem deserializeU64_eq_ok {number : U64} (h : deserializeU64 value = .ok number) :
    value = .uint number.val := by
  cases value with
  | uint found =>
    rw [deserializeU64] at h
    split_ifs at h
    rw [← Except.ok.inj h]
  | _ => cases h

theorem requireType_eq_ok {actual expected : String} {next : Except SerError B}
    (h : (requireType actual expected >>= fun _ => next) = .ok res) :
    actual = expected ∧ next = .ok res := by
  obtain ⟨⟨⟩, hrequired, h⟩ := bind_ok h
  rw [requireType] at hrequired
  split_ifs at hrequired with heq
  exact ⟨heq, h⟩

/-- Fields that are found under different names are some of the entries. -/
theorem subperm_of_lookup (hkeys : (wanted.map Prod.fst).Nodup)
    (h : ∀ entry ∈ wanted, entries.lookup entry.1 = some entry.2) : wanted.Subperm entries := by
  refine subperm_of_subset (List.Nodup.of_map _ hkeys) ?_
  intro entry hmem
  obtain ⟨before, after, rfl, -⟩ := lookup_eq_some_iff.mp (h entry hmem)
  exact mem_append_right _ mem_cons_self

theorem admitted_of_lookup {low : Int} (h : Admitted low (.map entries) (levels + 1))
    (hlook : entries.lookup name = some value) : Admitted low value levels := by
  obtain ⟨before, after, rfl, -⟩ := lookup_eq_some_iff.mp hlook
  cases h with
  | map _ _ hents =>
    exact hents (name, value) (mem_append_right _ mem_cons_self)

/-- Fields that are written in no more bytes than those read make a shorter record. -/
theorem covers_record {shorter : List (String × CborValue)}
    (hadm : Admitted leastRead (.map entries) (levels + 1))
    (hkeys : (shorter.map Prod.fst).Nodup) (h : shorter.Forall fun entry =>
      ∃ value, entries.lookup entry.1 = some value ∧ Covers levels value entry.2) :
    Covers (levels + 1) (.map entries) (.map shorter) := by
  have hwanted : ∃ wanted, CoversEntries levels wanted shorter ∧
      ∀ entry ∈ wanted, entries.lookup entry.1 = some entry.2 := by
    clear hkeys
    rw [forall_iff_forall_mem] at h
    induction shorter with
    | nil => exact ⟨[], .nil, nofun⟩
    | cons entry rest ih =>
      rw [forall_mem_cons] at h
      obtain ⟨⟨value, hlook, hcov⟩, hrest⟩ := h
      obtain ⟨wanted, hwanted, hall⟩ := ih hrest
      exact ⟨(entry.1, value) :: wanted, .cons ⟨rfl, hcov⟩ hwanted,
        forall_mem_cons.mpr ⟨hlook, hall⟩⟩
  obtain ⟨wanted, hwanted, hall⟩ := hwanted
  exact covers_map hadm (subperm_of_lookup (map_fst_eq hwanted ▸ hkeys) hall) hwanted

/-- A reader of texts whose shortest bytes are not longer than those of the value read. -/
def Shortens (string : CborValue → Except SerError String) : Prop :=
  ∀ {value : CborValue} {text : String}, string value = .ok text →
    (textEncoding text).length ≤ (encoding value).length

theorem shortens_deserializeString : Shortens deserializeString := by
  intro value text h
  rw [deserializeString_eq_ok h, encoding]

theorem shortens_contentString : Shortens contentString := by
  intro value text h
  cases value with
  | text found =>
    rw [← Except.ok.inj h, encoding]
  | bytes found =>
    rw [contentString] at h
    split at h
    · cases h
    · next chars hchars =>
        obtain rfl := Utf8.decode_eq_some_iff.mp hchars
        rw [← Except.ok.inj h, encoding, textEncoding, textBytes, String.toList_ofList,
          length_append, length_append, length_argumentBytes, length_argumentBytes]
  | _ => cases h

variable {string : CborValue → Except SerError String}

variable {tgt : SessionTarget}

theorem covers_text (hstring : Shortens string) (h : string value = .ok text) :
    Covers (levels + 1) value (.text text) := by
  refine ⟨.text text levels, ?_⟩
  rw [encoding]
  exact hstring h

/-- A text that is read as itself. -/
theorem covers_string (h : deserializeString value = .ok text) :
    Covers (levels + 1) value (.text text) := covers_text shortens_deserializeString h

theorem serverIdOf_eq_ok (h : serverIdOf string value = .ok text) : string value = .ok text := by
  obtain ⟨found, hfnd, h⟩ := bind_ok h
  split_ifs at h
  rw [hfnd, Except.ok.inj h]

theorem covers_sessionTargetOf (hstring : Shortens string)
    (hadm : Admitted leastRead (.map entries) (levels + 1 + 1))
    (h : sessionTargetOf string entries = .ok tgt) :
    Covers (levels + 1 + 1) (.map entries) (serializeSessionTarget tgt) := by
  obtain ⟨⟨⟩, -, h⟩ := bind_ok h
  obtain ⟨first, serverId, hfst, hsid, h⟩ := field_eq_ok h
  obtain ⟨snd, sessionId, hsnd, hsessionId, h⟩ := field_eq_ok h
  obtain ⟨third, attachmentId, hthird, hattachmentId, h⟩ := field_eq_ok h
  rw [← Except.ok.inj h]
  exact covers_record hadm (by simp) ⟨⟨_, hfst, covers_text hstring (serverIdOf_eq_ok hsid)⟩,
     ⟨_, hsnd, covers_text hstring hsessionId⟩, _, hthird, covers_text hstring hattachmentId⟩

theorem covers_protocolError {error : ProtocolError}
    (hadm : Admitted leastRead value (levels + 1 + 1))
    (h : deserializeProtocolError value = .ok error) :
    Covers (levels + 1 + 1) value (serializeProtocolError error) := by
  obtain ⟨entries, rfl, hread⟩ := record_eq_ok h
  obtain ⟨first, code, hfst, hcode, h⟩ := field_eq_ok hread
  obtain ⟨snd, msg, hsnd, hmsg, h⟩ := field_eq_ok h
  rw [← Except.ok.inj h]
  exact covers_record hadm (by simp) ⟨⟨_, hfst, covers_string hcode⟩, _, hsnd, covers_string hmsg⟩

/-- A route that is read from a record is written in no more bytes. -/
theorem covers_target {tgt : RpcTarget} (hadm : Admitted leastRead value (levels + 1 + 1))
    (hrec : ∀ values, value ≠ .array values) (h : deserializeTarget value = .ok tgt) :
    Covers (levels + 1 + 1) value (serializeTarget tgt) := by
  cases value with
  | map entries =>
    rw [deserializeTarget] at h
    split at h
    · next serverId hsid =>
        obtain ⟨⟨⟩, -, hsid⟩ := bind_ok hsid
        obtain ⟨first, hfst, hsid⟩ := bind_ok hsid
        rw [← Except.ok.inj h]
        exact covers_record hadm (by simp)
          ⟨_, lookup_of_field hfst, covers_text shortens_contentString (serverIdOf_eq_ok hsid)⟩
    · split at h
      · next tgt htgt =>
          rw [← Except.ok.inj h]
          exact covers_sessionTargetOf shortens_contentString hadm htgt
      · cases h
  | array values => exact absurd rfl (hrec values)
  | _ => cases h

/-! ## Messages that were read -/

/-- A message is written in no more bytes than it was read from. -/
abbrev WritesShorter {M : Type} (serialize : M → Except SerError CborValue) (value : CborValue)
    (message : M) : Prop :=
  ∃ written, serialize message = .ok written ∧ Covers (defaultMaxCborDepth + 1) value written

variable {payload : OpaqueJson}

theorem covers_version {version : U64} (hadm : Admitted leastRead value levels)
    (h : deserializeU64 value = .ok version) : Covers levels value (.uint version.val) := by
  rw [deserializeU64_eq_ok h] at hadm ⊢
  cases hadm with
  | uint below hsafe => exact ⟨.uint below hsafe, le_rfl⟩

theorem covers_bool {flag : Bool} (h : deserializeBool value = .ok flag) :
    Covers (levels + 1) value (.bool flag) := by
  rw [deserializeBool_eq_ok h]
  exact ⟨.bool flag levels, le_rfl⟩

theorem exists_covers_json (hadm : Admitted leastRead value levels)
    (h : opaqueJson value = .ok payload) (hval : validateJsonValue payload.value 0 = .ok ()) :
    ∃ written, serializeJson payload.value = .ok written ∧ Covers levels value written :=
  rewrites value hadm (opaqueJson_eq_ok_iff.mp h) hval

/-- A check that is reported as another error has passed. -/
theorem mapError_eq_ok {E E' X : Type} {f : E → E'} {res : Except E X} {a : X}
    (h : Except.mapError f res = .ok a) : res = .ok a := by
  cases res with
  | error error => cases h
  | ok found => rw [Except.ok.inj h]

theorem clientHello_shorter {msg : ClientMessage OpaqueJson}
    (hadm : Admitted leastRead value (defaultMaxCborDepth + 1))
    (h : deserializeClientHello value = .ok msg) :
    WritesShorter serializeClient value msg := by
  obtain ⟨entries, rfl, hread⟩ := record_eq_ok h
  obtain ⟨first, typeField, hfst, htype, h⟩ := field_eq_ok hread
  obtain ⟨snd, version, hsnd, hver, h⟩ := field_eq_ok h
  obtain ⟨rfl, hsent⟩ := requireType_eq_ok h
  rw [← Except.ok.inj hsent]
  have hsndAdm := admitted_of_lookup hadm hsnd
  exact ⟨_, rfl, covers_record hadm (by simp)
    ⟨⟨_, hfst, covers_string htype⟩, _, hsnd, covers_version hsndAdm hver⟩⟩

/-- Whether a client message has its route as a list of fields. -/
def TargetListed (value : CborValue) : Prop :=
  ∃ entries values, value = .map entries ∧ entries.lookup "target" = some (.array values)

variable {msg : ServerMessage OpaqueJson}

section

variable (hadm : Admitted leastRead value (defaultMaxCborDepth + 1))

include hadm

theorem request_shorter {msg : ClientMessage OpaqueJson} (hrec : ¬ TargetListed value)
    (h : deserializeRequest value = .ok msg) (hval : validateClientMessage msg = .ok ()) :
    WritesShorter serializeClient value msg := by
  obtain ⟨entries, rfl, hread⟩ := record_eq_ok h
  obtain ⟨first, typeField, hfst, htype, h⟩ := field_eq_ok hread
  obtain ⟨snd, id, hsnd, hid, h⟩ := field_eq_ok h
  obtain ⟨third, tgt, hthird, htgt, h⟩ := field_eq_ok h
  obtain ⟨fourth, call, hfourth, hcall, h⟩ := field_eq_ok h
  obtain ⟨rfl, hsent⟩ := requireType_eq_ok h
  rw [← Except.ok.inj hsent] at hval ⊢
  obtain ⟨⟨⟩, -, hval⟩ := bind_ok hval
  obtain ⟨⟨⟩, -, hval⟩ := bind_ok hval
  have hthirdAdmitted := admitted_of_lookup hadm hthird
  have hfourthAdmitted := admitted_of_lookup hadm hfourth
  have hnotListed (values) (heq : third = .array values) : False :=
    hrec ⟨entries, values, rfl, heq ▸ hthird⟩
  obtain ⟨payload, hpay, hcov⟩ := exists_covers_json hfourthAdmitted hcall (mapError_eq_ok hval)
  exact ⟨_, bind_ok_iff.mpr ⟨payload, hpay, rfl⟩, covers_record hadm (by simp)
    ⟨⟨_, hfst, covers_string htype⟩, ⟨_, hsnd, covers_string hid⟩,
     ⟨_, hthird, covers_target hthirdAdmitted hnotListed htgt⟩, _, hfourth, hcov⟩⟩

theorem cancel_shorter {msg : ClientMessage OpaqueJson} (hrec : ¬ TargetListed value)
    (h : deserializeCancel value = .ok msg) : WritesShorter serializeClient value msg := by
  obtain ⟨entries, rfl, hread⟩ := record_eq_ok h
  obtain ⟨first, typeField, hfst, htype, h⟩ := field_eq_ok hread
  obtain ⟨snd, id, hsnd, hid, h⟩ := field_eq_ok h
  obtain ⟨third, tgt, hthird, htgt, h⟩ := field_eq_ok h
  obtain ⟨rfl, hsent⟩ := requireType_eq_ok h
  rw [← Except.ok.inj hsent]
  have hthirdAdmitted := admitted_of_lookup hadm hthird
  have hnotListed (values) (heq : third = .array values) : False :=
    hrec ⟨entries, values, rfl, heq ▸ hthird⟩
  exact ⟨_, rfl, covers_record hadm (by simp)
    ⟨⟨_, hfst, covers_string htype⟩, ⟨_, hsnd, covers_string hid⟩,
     _, hthird, covers_target hthirdAdmitted hnotListed htgt⟩⟩

/-- A client message whose route is a record is written in no more bytes. -/
theorem client_shorter {msg : ClientMessage OpaqueJson} (hrec : ¬ TargetListed value)
    (h : parseClientValue value = .ok msg) (hval : validateClientMessage msg = .ok ()) :
    WritesShorter serializeClient value msg := by
  obtain ⟨typeName, -, h⟩ := bind_ok h
  split_ifs at h
  · exact clientHello_shorter hadm h
  · exact request_shorter hadm hrec h hval
  · exact cancel_shorter hadm hrec h

theorem serverHello_shorter (h : deserializeServerHello value = .ok msg) :
    WritesShorter serializeServer value msg := by
  obtain ⟨entries, rfl, hread⟩ := record_eq_ok h
  obtain ⟨first, typeField, hfst, htype, h⟩ := field_eq_ok hread
  obtain ⟨snd, version, hsnd, hver, h⟩ := field_eq_ok h
  obtain ⟨third, serverId, hthird, hsid, h⟩ := field_eq_ok h
  obtain ⟨rfl, hsent⟩ := requireType_eq_ok h
  rw [← Except.ok.inj hsent]
  have hsndAdm := admitted_of_lookup hadm hsnd
  exact ⟨_, rfl, covers_record hadm (by simp)
    ⟨⟨_, hfst, covers_string htype⟩, ⟨_, hsnd, covers_version hsndAdm hver⟩,
     _, hthird, covers_string (serverIdOf_eq_ok hsid)⟩⟩

theorem helloError_shorter (h : deserializeHelloError value = .ok msg) :
    WritesShorter serializeServer value msg := by
  obtain ⟨entries, rfl, hread⟩ := record_eq_ok h
  obtain ⟨first, typeField, hfst, htype, h⟩ := field_eq_ok hread
  obtain ⟨snd, error, hsnd, herror, h⟩ := field_eq_ok h
  obtain ⟨rfl, hsent⟩ := requireType_eq_ok h
  rw [← Except.ok.inj hsent]
  have hsndAdm := admitted_of_lookup hadm hsnd
  exact ⟨_, rfl, covers_record hadm (by simp)
    ⟨⟨_, hfst, covers_string htype⟩, _, hsnd, covers_protocolError hsndAdm herror⟩⟩

theorem success_shorter (h : deserializeSuccess value = .ok msg)
    (hval : validateServerMessage msg = .ok ()) :
    WritesShorter serializeServer value msg := by
  obtain ⟨entries, rfl, hread⟩ := record_eq_ok h
  obtain ⟨first, typeField, hfst, htype, h⟩ := field_eq_ok hread
  obtain ⟨snd, id, hsnd, hid, h⟩ := field_eq_ok h
  obtain ⟨third, flag, hthird, hflag, h⟩ := field_eq_ok h
  obtain ⟨res, hret, h⟩ := bind_ok h
  obtain ⟨rfl, hsent⟩ := requireType_eq_ok h
  split_ifs at hsent with hok
  rw [hok] at hflag
  rw [← Except.ok.inj hsent] at hval ⊢
  rw [optionalJson] at hret
  split at hret
  · rw [← Except.ok.inj hret]
    exact ⟨_, rfl, covers_record hadm (by simp)
      ⟨⟨_, hfst, covers_string htype⟩, ⟨_, hsnd, covers_string hid⟩,
       _, hthird, covers_bool hflag⟩⟩
  · next fourth hfourth =>
      obtain ⟨answer, hans, hret⟩ := bind_ok hret
      rw [← Except.ok.inj hret] at hval ⊢
      obtain ⟨⟨⟩, -, hval⟩ := bind_ok hval
      obtain ⟨payload, hpay, hcov⟩ := exists_covers_json
        (admitted_of_lookup hadm hfourth) hans (mapError_eq_ok hval)
      exact ⟨_, bind_ok_iff.mpr ⟨payload, hpay, rfl⟩, covers_record hadm (by simp)
        ⟨⟨_, hfst, covers_string htype⟩, ⟨_, hsnd, covers_string hid⟩,
         ⟨_, hthird, covers_bool hflag⟩, _, hfourth, hcov⟩⟩

theorem failure_shorter (h : deserializeFailure value = .ok msg) :
    WritesShorter serializeServer value msg := by
  obtain ⟨entries, rfl, hread⟩ := record_eq_ok h
  obtain ⟨first, typeField, hfst, htype, h⟩ := field_eq_ok hread
  obtain ⟨snd, id, hsnd, hid, h⟩ := field_eq_ok h
  obtain ⟨third, flag, hthird, hflag, h⟩ := field_eq_ok h
  obtain ⟨fourth, error, hfourth, herror, h⟩ := field_eq_ok h
  obtain ⟨rfl, hsent⟩ := requireType_eq_ok h
  split_ifs at hsent with hok
  rw [Bool.eq_false_of_not_eq_true hok] at hflag
  rw [← Except.ok.inj hsent]
  have hfourthAdmitted := admitted_of_lookup hadm hfourth
  exact ⟨_, rfl, covers_record hadm (by simp)
    ⟨⟨_, hfst, covers_string htype⟩, ⟨_, hsnd, covers_string hid⟩,
     ⟨_, hthird, covers_bool hflag⟩, _, hfourth, covers_protocolError hfourthAdmitted herror⟩⟩

theorem serviceUpdate_shorter (h : deserializeServiceUpdate value = .ok msg)
    (hval : validateServerMessage msg = .ok ()) :
    WritesShorter serializeServer value msg := by
  obtain ⟨entries, rfl, hread⟩ := record_eq_ok h
  obtain ⟨first, typeField, hfst, htype, h⟩ := field_eq_ok hread
  obtain ⟨snd, subscriptionId, hsnd, hsub, h⟩ := field_eq_ok h
  obtain ⟨third, update, hthird, hupd, h⟩ := field_eq_ok h
  obtain ⟨rfl, hsent⟩ := requireType_eq_ok h
  rw [← Except.ok.inj hsent] at hval ⊢
  obtain ⟨⟨⟩, -, hval⟩ := bind_ok hval
  have hthirdAdmitted := admitted_of_lookup hadm hthird
  obtain ⟨payload, hpay, hcov⟩ := exists_covers_json hthirdAdmitted hupd (mapError_eq_ok hval)
  exact ⟨_, bind_ok_iff.mpr ⟨payload, hpay, rfl⟩, covers_record hadm (by simp)
    ⟨⟨_, hfst, covers_string htype⟩, ⟨_, hsnd, covers_string hsub⟩, _, hthird, hcov⟩⟩

end

/-- Whether an attachment message leaves out the key of its route. -/
def AttachmentOmitted (value : CborValue) : Prop :=
  ∃ entries, value = .map entries ∧ entries.lookup "type" = some (.text "attachment") ∧
    entries.lookup "attachment" = none

theorem attachment_shorter (hadm : Admitted leastRead value (defaultMaxCborDepth + 1))
    (h : deserializeAttachment value = .ok msg) :
    WritesShorter serializeServer value msg ∨ AttachmentOmitted value ∧ msg = .attachment none := by
  obtain ⟨entries, rfl, hread⟩ := record_eq_ok h
  obtain ⟨first, typeField, hfst, htype, h⟩ := field_eq_ok hread
  obtain ⟨attachment, hatt, h⟩ := bind_ok h
  obtain ⟨rfl, hsent⟩ := requireType_eq_ok h
  rw [← Except.ok.inj hsent]
  rw [optionalTarget] at hatt
  split at hatt
  · next hmiss =>
      rw [← Except.ok.inj hatt]
      rw [deserializeString_eq_ok htype] at hfst
      exact .inr ⟨⟨entries, rfl, hfst, hmiss⟩, rfl⟩
  · next hnull =>
      rw [← Except.ok.inj hatt]
      exact .inl ⟨_, rfl, covers_record hadm (by simp)
        ⟨⟨_, hfst, covers_string htype⟩, _, hnull, .null _, le_rfl⟩⟩
  · next snd _ hsnd =>
      obtain ⟨tgt, htgt, hatt⟩ := bind_ok hatt
      rw [← Except.ok.inj hatt]
      have hsndAdm := admitted_of_lookup hadm hsnd
      obtain ⟨fields, hfields, htgt⟩ := bind_ok htgt
      have hcov : Covers defaultMaxCborDepth snd (serializeSessionTarget tgt) := by
        rw [deserializeMap_eq_ok hfields] at hsndAdm ⊢
        exact covers_sessionTargetOf shortens_deserializeString hsndAdm htgt
      exact .inl ⟨_, rfl, covers_record hadm (by simp)
        ⟨⟨_, hfst, covers_string htype⟩, _, hsnd, hcov⟩⟩

/-- A server message is written in no more bytes, unless it leaves out the key of a route. -/
theorem server_shorter (hadm : Admitted leastRead value (defaultMaxCborDepth + 1))
    (h : parseServerValue value = .ok msg) (hval : validateServerMessage msg = .ok ()) :
    WritesShorter serializeServer value msg ∨ AttachmentOmitted value ∧ msg = .attachment none := by
  obtain ⟨typeName, -, h⟩ := bind_ok h
  split_ifs at h
  · exact .inl (serverHello_shorter hadm h)
  · exact .inl (helloError_shorter hadm h)
  · obtain ⟨found, -, h⟩ := bind_ok h
    obtain ⟨⟨⟩, -, h⟩ := bind_ok h
    split at h
    · split at h
      · exact .inl (success_shorter hadm h hval)
      · exact .inl (failure_shorter hadm h)
      · cases h
    · cases h
  · exact .inl (serviceUpdate_shorter hadm h hval)
  · exact attachment_shorter hadm h

/-! ## Messages that were written -/

theorem validateServerId_eq_ok (h : validateServerId text = .ok ()) : isServerId text = true := by
  rw [validateServerId] at h
  split_ifs at h with hval
  exact hval

theorem validateSessionTarget_eq_ok (h : validateSessionTarget tgt = .ok ()) :
    isServerId tgt.serverId = true := by
  obtain ⟨⟨⟩, hsrv, -⟩ := bind_ok h
  exact validateServerId_eq_ok hsrv

theorem deserializeU64_val (number : U64) : deserializeU64 (.uint number.val) = .ok number := by
  rw [deserializeU64, dif_pos number.isLt]

attribute [local simp] Except.bind List.lookup_cons bind checkDiscriminant clientDiscriminants
  deserializeAttachment deserializeBool deserializeCancel deserializeClientHello deserializeFailure
  deserializeHelloError deserializeMap deserializeRequest deserializeServerHello deserializeServerId
  deserializeServiceUpdate deserializeString deserializeSuccess deserializeU64_val field objectType
  optionalJson optionalTarget parseClientValue parseResponseValue parseServerValue requireType
  serializeSessionTarget serverDiscriminants serverIdOf visitFields

theorem deserializeSessionTarget_serialize (h : isServerId tgt.serverId = true) :
    deserializeSessionTarget (serializeSessionTarget tgt) = .ok tgt := by
  simp [deserializeSessionTarget, sessionTargetOf, h]

theorem deserializeProtocolError_serialize (error : ProtocolError) :
    deserializeProtocolError (serializeProtocolError error) = .ok error := by
  simp [deserializeProtocolError, serializeProtocolError]

/-- A valid route is read back. -/
theorem deserializeTarget_serialize {tgt : RpcTarget} (h : validateTarget tgt = .ok ()) :
    deserializeTarget (serializeTarget tgt) = .ok tgt := by
  cases tgt with
  | server serverId =>
    have hserver := validateServerId_eq_ok h
    simp [deserializeTarget, serializeTarget, contentServerTarget, contentString, hserver]
  | session tgt =>
    have hserver := validateSessionTarget_eq_ok h
    simp [deserializeTarget, serializeTarget, contentServerTarget, contentSessionTarget,
      sessionTargetOf, contentString, hserver]

theorem opaqueJson_serialize (h : serializeJson payload.value = .ok value) :
    opaqueJson value = .ok payload :=
  opaqueJson_eq_ok_iff.mpr (deserializeJson_serializeJson payload.ordered h)

/-- A valid client message is read back from its value. -/
theorem client_read_back {msg : ClientMessage OpaqueJson}
    (hval : validateClientMessage msg = .ok ())
    (h : serializeClient msg = .ok written) :
    parseClientValue written = .ok msg ∧
      checkDiscriminant written "type" clientDiscriminants = .ok () := by
  cases msg with
  | hello version =>
    rw [← Except.ok.inj h]
    simp
  | request id tgt call =>
    obtain ⟨payload, hpay, h⟩ := bind_ok h
    obtain ⟨⟨⟩, -, hval⟩ := bind_ok hval
    obtain ⟨⟨⟩, htgt, -⟩ := bind_ok hval
    have hroute := deserializeTarget_serialize (mapError_eq_ok htgt)
    have hcall := opaqueJson_serialize hpay
    rw [← Except.ok.inj h]
    simp [hroute, hcall]
  | cancel id tgt =>
    obtain ⟨⟨⟩, -, hval⟩ := bind_ok hval
    have hroute := deserializeTarget_serialize (mapError_eq_ok hval)
    rw [← Except.ok.inj h]
    simp [hroute]

/-- A valid server message is read back from its value. -/
theorem server_read_back (hval : validateServerMessage msg = .ok ())
    (h : serializeServer msg = .ok written) :
    parseServerValue written = .ok msg ∧
      checkDiscriminant written "type" serverDiscriminants = .ok () := by
  cases msg with
  | hello hello =>
    rw [validateServerMessage] at hval
    split_ifs at hval
    have hsrv := validateServerId_eq_ok (mapError_eq_ok hval)
    rw [← Except.ok.inj h]
    simp [hsrv]
  | helloError error | responseError id error =>
    have herror := deserializeProtocolError_serialize error
    rw [← Except.ok.inj h]
    simp [herror]
  | response id res =>
    cases res with
    | none =>
      rw [← Except.ok.inj h]
      simp
    | some res =>
      obtain ⟨payload, hpay, h⟩ := bind_ok h
      have hret := opaqueJson_serialize hpay
      rw [← Except.ok.inj h]
      simp [hret]
  | serviceUpdate subscriptionId update =>
    obtain ⟨payload, hpay, h⟩ := bind_ok h
    have hupd := opaqueJson_serialize hpay
    rw [← Except.ok.inj h]
    simp [hupd]
  | attachment attachment =>
    cases attachment with
    | none =>
      rw [← Except.ok.inj h]
      simp
    | some tgt =>
      have htgt := deserializeSessionTarget_serialize
        (validateSessionTarget_eq_ok (mapError_eq_ok hval))
      rw [← Except.ok.inj h]
      rw [serializeSessionTarget] at htgt
      simp [htgt]

end PiOxidized.Remote.Codec
