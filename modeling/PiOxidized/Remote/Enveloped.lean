/-
# Values in place of values

Reading a message and writing it again turns a value into another one that the encoder admits and
that is not longer.  For payloads this holds of every value that is read; for the fields of an
envelope it follows from their parts.
-/

import Mathlib.Data.List.Perm.Subperm
import PiOxidized.Remote.Codec
import PiOxidized.Remote.Decoded

namespace PiOxidized.Remote

open List Bool Math
open Service (JsonValue JsObject JsString)

/-! ## Shorter values -/

/-- The encoder admits a value that is not longer than another. -/
def Covers (levels : Nat) (value written : CborValue) : Prop :=
  Admitted (-(maxSafeCborInteger : Int)) written levels ∧
    (encoding written).length ≤ (encoding value).length

theorem forall_right {X B : Type} {R : X → B → Prop} {P : B → Prop} {first : List X}
    {second : List B} (h : List.Forall₂ R first second) (hR : ∀ a b, R a b → P b) :
    ∀ b ∈ second, P b := by
  induction h with
  | nil => exact fun _ hmem => absurd hmem not_mem_nil
  | cons hhead _ ih => exact forall_mem_cons.mpr ⟨hR _ _ hhead, ih⟩

/-- Entries with the same keys and shorter values. -/
abbrev CoversEntries (levels : Nat) :
    List (String × CborValue) → List (String × CborValue) → Prop :=
  List.Forall₂ fun entry written => entry.1 = written.1 ∧ Covers levels entry.2 written.2

variable {levels depth : Nat} {value written : CborValue} {values others : List CborValue}
  {entries wanted : List (String × CborValue)}

theorem length_itemsEncoding_le (h : List.Forall₂ (Covers levels) values others) :
    (itemsEncoding others).length ≤ (itemsEncoding values).length := by
  induction h with
  | nil => exact le_rfl
  | cons hhead _ ih =>
    rw [itemsEncoding, itemsEncoding, length_append, length_append]
    exact Nat.add_le_add hhead.2 ih

/-- Shorter values make a shorter array. -/
theorem covers_array (hlen : values.length ≤ defaultMaxCborContainerLength)
    (h : List.Forall₂ (Covers levels) values others) :
    Covers (levels + 1) (.array values) (.array others) := by
  refine ⟨.array (h.length_eq ▸ hlen) (forall_right h fun _ _ hcov => hcov.1), ?_⟩
  rw [encoding, encoding, h.length_eq, length_append, length_append]
  exact Nat.add_le_add_left (length_itemsEncoding_le h) _

theorem length_entriesEncoding (entries : List (String × CborValue)) :
    (entriesEncoding entries).length =
      (entries.map fun entry => (textEncoding entry.1).length + (encoding entry.2).length).sum := by
  induction entries with
  | nil => rfl
  | cons entry entries ih =>
    obtain ⟨key, value⟩ := entry
    rw [entriesEncoding, length_append, length_append, ih, map_cons, sum_cons, Nat.add_assoc]

/-- Some of the entries are not longer than all of them. -/
theorem length_entriesEncoding_le_of_subperm (h : wanted.Subperm entries) :
    (entriesEncoding wanted).length ≤ (entriesEncoding entries).length := by
  obtain ⟨others, hperm, hsublist⟩ := h
  have hsame : (entriesEncoding wanted).length = (entriesEncoding others).length := by
    rw [length_entriesEncoding, length_entriesEncoding, (hperm.map _).sum_nat]
  rw [hsame]
  clear hsame hperm
  induction hsublist with
  | slnil => exact le_rfl
  | cons entry _ ih =>
    rw [entriesEncoding, length_append, length_append]
    omega
  | cons_cons entry _ ih =>
    rw [entriesEncoding, entriesEncoding]
    simp only [length_append]
    omega

theorem length_entriesEncoding_le (h : CoversEntries levels wanted entries) :
    (entriesEncoding entries).length ≤ (entriesEncoding wanted).length := by
  induction h with
  | nil => exact le_rfl
  | @cons entry written _ _ hhead _ ih =>
    obtain ⟨key, value⟩ := entry
    obtain ⟨name, shorter⟩ := written
    obtain ⟨rfl, hcov⟩ := hhead
    rw [entriesEncoding, entriesEncoding]
    simp only [length_append]
    have hle := hcov.2
    dsimp only at hle
    omega

theorem map_fst_eq (h : CoversEntries levels wanted entries) :
    wanted.map Prod.fst = entries.map Prod.fst := by
  induction h with
  | nil => rfl
  | cons hhead _ ih => rw [map_cons, map_cons, hhead.1, ih]

/-- Shorter values under some of the keys make a shorter map. -/
theorem covers_map {shorter : List (String × CborValue)} {low : Int}
    (hadm : Admitted low (.map entries) (levels + 1)) (hwanted : wanted.Subperm entries)
    (h : CoversEntries levels wanted shorter) :
    Covers (levels + 1) (.map entries) (.map shorter) := by
  cases hadm with
  | map hlen hkeys hents =>
    have hcnt : shorter.length ≤ entries.length := h.length_eq ▸ hwanted.length_le
    refine ⟨.map (hcnt.trans hlen) ?_ ?_, ?_⟩
    · rw [← map_fst_eq h]
      obtain ⟨others, hperm, hsublist⟩ := hwanted
      exact (hperm.map Prod.fst).nodup_iff.mp ((hsublist.map Prod.fst).nodup hkeys)
    · exact forall_right h fun _ _ hcov => hcov.2.1
    · have hbytes := (length_entriesEncoding_le h).trans
        (length_entriesEncoding_le_of_subperm hwanted)
      have hhead := length_argumentBytes_mono 5 hcnt
      rw [encoding, encoding, length_append, length_append]
      exact Nat.add_le_add hhead hbytes

/-! ## Payloads are read back -/

variable {num : Binary64}

variable {items : List JsonValue} {members : JsObject} {keys : List String}

theorem serializeF64_of_integral (h : num.isIntegral = true) (hzero : num ≠ Binary64.negZero)
    (hsafe : num.absExceeds maxSafeCborInteger = false) :
    serializeF64 num = if 0 ≤ num.trunc then .uint num.trunc.toNat else .nint num.trunc := by
  have hlt : num.magnitude < Binary64.scale * 2 ^ 53 := by
    have hle : ¬ maxSafeCborInteger < num.trunc.natAbs := by
      rw [← Binary64.absExceeds_iff h, hsafe]
      decide
    rw [Binary64.natAbs_trunc, maxSafeCborInteger] at hle
    rw [← Binary64.scale_mul_toNat h]
    exact Nat.mul_lt_mul_of_pos_left (by omega) Binary64.scale_pos
  exact if_pos ⟨h, hzero, hlt⟩

/-- A number is read back bit for bit. -/
theorem deserializeJson_serializeF64 (num : Binary64) :
    deserializeJson (serializeF64 num) = .ok (.number num) := by
  rw [serializeF64]
  split_ifs with h hpos
  · have hback : ((num.trunc.toNat : Int)) = num.trunc := Int.toNat_of_nonneg hpos
    rw [deserializeJson, hback, Binary64.ofInt_trunc h.1 h.2.1]
  · rw [deserializeJson, Binary64.ofInt_trunc h.1 h.2.1]
  · rw [deserializeJson]

theorem deserializeItems_serializeItems
    (h : ∀ item ∈ items, ∀ value, serializeJson item = .ok value →
      deserializeJson value = .ok item) (hvals : serializeItems items = .ok values) :
    deserializeItems values = .ok items := by
  induction items generalizing values with
  | nil =>
    rw [serializeItems] at hvals
    rw [← Except.ok.inj hvals, deserializeItems]
  | cons item items ih =>
    rw [serializeItems] at hvals
    obtain ⟨value, hvalue, hvals⟩ := bind_ok hvals
    obtain ⟨rest, hrest, hvals⟩ := bind_ok hvals
    have hhead := h item mem_cons_self value hvalue
    have htail := ih (fun other hmem => h other (mem_cons_of_mem _ hmem)) hrest
    rw [← Except.ok.inj hvals, deserializeItems]
    exact bind_ok_iff.mpr ⟨item, hhead, bind_ok_iff.mpr ⟨items, htail, rfl⟩⟩

theorem deserializeEntries_serializeMembers (object : JsObject)
    (h : ∀ member ∈ members, ∀ value, serializeJson member.2 = .ok value →
      deserializeJson value = .ok member.2) (hsort : Assoc.Sorted (object ++ members))
    (hents : serializeMembers members keys = .ok entries) :
    deserializeEntries entries object = .ok (object ++ members) := by
  induction members generalizing object keys entries with
  | nil =>
    rw [serializeMembers] at hents
    rw [← Except.ok.inj hents, deserializeEntries, append_nil]
  | cons member members ih =>
    obtain ⟨key, item⟩ := member
    rw [serializeMembers] at hents
    split at hents
    · cases hents
    · next name hname =>
        obtain ⟨value, hvalue, hents⟩ := bind_ok hents
        split_ifs at hents
        obtain ⟨rest, hrest, hents⟩ := bind_ok hents
        have hkey := JsString.fromUtf8_of_tryToUtf8 hname
        have hlast : ∀ other ∈ object, other.1 < key := by
          intro other hmem
          exact (pairwise_append.mp hsort).2.2 other hmem _ mem_cons_self
        obtain ⟨hlook, hinsert⟩ := Assoc.insert_of_forall_lt item hlast
        rw [append_cons] at hsort ⊢
        rw [← Except.ok.inj hents, deserializeEntries, h _ mem_cons_self value hvalue, hkey]
        refine (if_neg (not_eq_true _ ▸ hlook)).trans ?_
        rw [hinsert]
        exact ih _ (fun other hmem => h other (mem_cons_of_mem _ hmem)) hsort hrest

/-- A payload is read back from its value. -/
theorem deserializeJson_serializeJson {item : JsonValue} (hord : item.Ordered)
    (h : serializeJson item = .ok value) : deserializeJson value = .ok item := by
  induction item using JsonValue.induction generalizing value with
  | null | bool _ =>
    rw [serializeJson] at h
    rw [← Except.ok.inj h, deserializeJson]
  | number number =>
    rw [serializeJson] at h
    rw [← Except.ok.inj h, deserializeJson_serializeF64]
  | string text =>
    rw [serializeJson] at h
    split at h
    · cases h
    · next chars hchars =>
        rw [← Except.ok.inj h, deserializeJson, JsString.fromUtf8_of_tryToUtf8 hchars]
  | array items ih =>
    rw [serializeJson] at h
    obtain ⟨values, hvals, h⟩ := bind_ok h
    rw [JsonValue.ordered_array] at hord
    have hread := deserializeItems_serializeItems
      (fun item hmem value => ih item hmem (hord item hmem)) hvals
    rw [← Except.ok.inj h, deserializeJson, hread]
    rfl
  | object members ih =>
    rw [serializeJson] at h
    obtain ⟨entries, hents, h⟩ := bind_ok h
    rw [JsonValue.ordered_object] at hord
    have hread := deserializeEntries_serializeMembers []
      (fun member hmem value => ih member hmem (hord.2 member hmem)) hord.1 hents
    rw [← Except.ok.inj h, deserializeJson, hread]
    rfl

/-! ## Payloads are written shorter -/

theorem absExceeds_of_unsafeNumber (h : num.isIntegral = true) :
    unsafeNumber num = num.absExceeds maxSafeCborInteger := by
  rw [Binary64.isIntegral, and_eq_true] at h
  rw [unsafeNumber, h.2, Bool.true_and]

/-- A small integer is written as itself. -/
theorem serializeF64_ofInt {num : Int} (h : num.natAbs ≤ maxSafeCborInteger) :
    serializeF64 (Binary64.ofInt num) = if 0 ≤ num then .uint num.toNat else .nint num := by
  have hbound : num.natAbs ≤ 2 ^ 53 := by
    simp only [maxSafeCborInteger] at h
    omega
  have hintegral := Binary64.isIntegral_ofInt hbound
  have htrunc := Binary64.trunc_ofInt hbound
  have hzero : Binary64.ofInt num ≠ Binary64.negZero := by
    intro heq
    have hsign := Binary64.isSignNegative_ofInt num
    have hmag := (Binary64.magnitude_ofInt hbound).2
    rw [heq] at hsign hmag
    have hneg : num < 0 := of_decide_eq_true (hsign.symm.trans (by decide))
    have hnone : 0 = Binary64.scale * num.natAbs := hmag
    have hpos : 0 < Binary64.scale * num.natAbs := Nat.mul_pos Binary64.scale_pos (by omega)
    omega
  have hsafe : (Binary64.ofInt num).absExceeds maxSafeCborInteger = false := by
    rw [← not_eq_true, Binary64.absExceeds_iff hintegral, htrunc]
    exact Nat.not_lt.mpr h
  rw [serializeF64_of_integral hintegral hzero hsafe, htrunc]

theorem length_argumentBytes_le (majorType num : Nat) :
    (argumentBytes majorType num).length ≤ 9 := by
  rw [length_argumentBytes]
  split_ifs <;> omega

/-- A number is written in no more bytes than a number with a fraction. -/
theorem covers_float (hfin : num.isFinite = true) (hsafe : unsafeNumber num = false) :
    Covers (levels + 1) (.float num) (serializeF64 num) := by
  rw [Covers]
  have hnine : (encoding (.float num)).length = 9 := by
    rw [encoding, length_cons, BigEndian.length_encode]
  rw [hnine, serializeF64]
  split_ifs with h hpos
  · rw [absExceeds_of_unsafeNumber h.1, ← not_eq_true, Binary64.absExceeds_iff h.1] at hsafe
    refine ⟨.uint levels (by omega), ?_⟩
    rw [encoding]
    exact length_argumentBytes_le _ _
  · rw [absExceeds_of_unsafeNumber h.1, ← not_eq_true, Binary64.absExceeds_iff h.1] at hsafe
    refine ⟨.nint levels (Int.not_le.mp hpos) (by omega), ?_⟩
    rw [encoding]
    exact length_argumentBytes_le _ _
  · exact ⟨.float levels hfin hsafe, hnine.le⟩

/-- What every read of a payload that is valid comes with. -/
abbrev Rewrites (value : CborValue) : Prop :=
  ∀ {levels depth : Nat} {item : JsonValue}, Admitted leastRead value levels →
    deserializeJson value = .ok item → Codec.validateJsonValue item depth = .ok () →
    ∃ written, serializeJson item = .ok written ∧ Covers levels value written

theorem rewrites_items (h : ∀ value ∈ values, Rewrites value)
    (hadm : ∀ value ∈ values, Admitted leastRead value levels)
    (hitems : deserializeItems values = .ok items)
    (hval : Codec.validateJsonItems items depth = .ok ()) :
    ∃ others, serializeItems items = .ok others ∧ List.Forall₂ (Covers levels) values others := by
  induction values generalizing items with
  | nil =>
    rw [deserializeItems] at hitems
    rw [← Except.ok.inj hitems, serializeItems]
    exact ⟨[], rfl, .nil⟩
  | cons value values ih =>
    rw [deserializeItems] at hitems
    obtain ⟨item, hitem, hitems⟩ := bind_ok hitems
    obtain ⟨rest, hrest, hitems⟩ := bind_ok hitems
    rw [← Except.ok.inj hitems] at hval ⊢
    rw [Codec.validateJsonItems] at hval
    obtain ⟨⟨⟩, hhead, htail⟩ := bind_ok hval
    rw [forall_mem_cons] at h hadm
    obtain ⟨written, hwrit, hcov⟩ := h.1 hadm.1 hitem hhead
    obtain ⟨others, hoth, hall⟩ := ih h.2 hadm.2 hrest htail
    refine ⟨written :: others, ?_, .cons hcov hall⟩
    rw [serializeItems]
    exact bind_ok_iff.mpr ⟨written, hwrit, bind_ok_iff.mpr ⟨others, hoth, rfl⟩⟩

/-- An entry and the member it is read as. -/
abbrev Reading (entry : String × CborValue) (member : JsString × JsonValue) : Prop :=
  member.1 = JsString.fromUtf8 entry.1 ∧ deserializeJson entry.2 = .ok member.2

/-- An object has the members its entries are read as, in another order. -/
theorem exists_readings {object result : JsObject}
    (h : deserializeEntries entries object = .ok result) :
    ∃ members, List.Forall₂ Reading entries members ∧ (members ++ object).Perm result := by
  induction entries generalizing object with
  | nil =>
    rw [deserializeEntries] at h
    exact ⟨[], .nil, List.Perm.of_eq (Except.ok.inj h)⟩
  | cons entry entries ih =>
    obtain ⟨key, value⟩ := entry
    rw [deserializeEntries] at h
    obtain ⟨item, hitem, h⟩ := bind_ok h
    split_ifs at h with hnew
    obtain ⟨members, hmems, hperm⟩ := ih h
    rw [not_eq_true, Option.isSome_eq_false_iff, Option.isNone_iff_eq_none] at hnew
    refine ⟨(JsString.fromUtf8 key, item) :: members, .cons ⟨rfl, hitem⟩ hmems, ?_⟩
    refine List.Perm.trans ?_ hperm
    exact perm_middle.symm.trans ((Assoc.insert_perm hnew item).symm.append_left members)

theorem rewrites_members (h : ∀ entry ∈ entries, Rewrites entry.2) (hfrs : Fresh entries keys)
    (hadm : ∀ entry ∈ entries, Admitted leastRead entry.2 levels)
    (hmems : List.Forall₂ Reading entries members)
    (hval : Codec.validateJsonMembers members depth = .ok ()) :
    ∃ shorter, serializeMembers members keys = .ok shorter ∧
      CoversEntries levels entries shorter := by
  induction hmems generalizing keys with
  | nil => exact ⟨[], by rw [serializeMembers], .nil⟩
  | @cons entry member entries members hhead _ ih =>
    obtain ⟨key, value⟩ := entry
    obtain ⟨name, item⟩ := member
    obtain ⟨rfl, hitem⟩ := hhead
    obtain ⟨hnew, hfrs⟩ := fresh_cons.mp hfrs
    rw [Codec.validateJsonMembers] at hval
    split_ifs at hval
    obtain ⟨⟨⟩, hfst, hrest⟩ := bind_ok hval
    rw [forall_mem_cons] at h hadm
    obtain ⟨written, hwrit, hcov⟩ := h.1 hadm.1 hitem hfst
    obtain ⟨shorter, hshorter, hall⟩ := ih h.2 hfrs hadm.2 hrest
    refine ⟨(key, written) :: shorter, ?_, .cons ⟨rfl, hcov⟩ hall⟩
    rw [serializeMembers, JsString.tryToUtf8_fromUtf8]
    refine bind_ok_iff.mpr ⟨written, hwrit, (if_neg hnew).trans ?_⟩
    exact bind_ok_iff.mpr ⟨shorter, hshorter, rfl⟩

theorem rewrites_map (h : ∀ entry ∈ entries, Rewrites entry.2) : Rewrites (.map entries) := by
  intro levels depth item hadm hitem hval
  rw [deserializeJson] at hitem
  obtain ⟨object, hobject, hitem⟩ := bind_ok hitem
  obtain ⟨below, rfl⟩ := hadm.exists_succ
  obtain ⟨members, hmems, hperm⟩ := exists_readings hobject
  rw [append_nil] at hperm
  -- The entries in the order of the members of the object.
  have hsort : Relation.Comp List.Perm (List.Forall₂ Reading) entries object := by
    rw [← forall₂_comp_perm_eq_perm_comp_forall₂]
    exact ⟨members, hmems, hperm⟩
  obtain ⟨ordered, horder, hread⟩ := hsort
  have hkeys : ((ordered.map Prod.fst).Nodup) := by
    cases hadm with
    | map _ hkeys _ => exact (horder.map Prod.fst).nodup_iff.mp hkeys
  have hlow : ∀ entry ∈ ordered, Admitted leastRead entry.2 below := by
    cases hadm with
    | map _ _ hents => exact fun entry hmem => hents entry (horder.mem_iff.mpr hmem)
  rw [← Except.ok.inj hitem] at hval ⊢
  rw [Codec.validateJsonValue] at hval
  split_ifs at hval
  obtain ⟨shorter, hshorter, hall⟩ := rewrites_members
    (fun entry hmem => h entry (horder.mem_iff.mpr hmem)) (fresh_iff.mpr hkeys) hlow hread hval
  refine ⟨.map shorter, ?_, covers_map hadm horder.symm.subperm hall⟩
  rw [serializeJson]
  exact bind_ok_iff.mpr ⟨shorter, hshorter, rfl⟩

/-- A valid payload is written in no more bytes than it was read from. -/
theorem rewrites (value : CborValue) : Rewrites value := by
  induction value using CborValue.induction with
  | null =>
    intro levels depth item hadm hitem hval
    obtain ⟨below, rfl⟩ := hadm.exists_succ
    rw [deserializeJson] at hitem
    rw [← Except.ok.inj hitem, serializeJson]
    exact ⟨.null, rfl, .null below, le_rfl⟩
  | bool value =>
    intro levels depth item hadm hitem hval
    obtain ⟨below, rfl⟩ := hadm.exists_succ
    rw [deserializeJson] at hitem
    rw [← Except.ok.inj hitem, serializeJson]
    exact ⟨.bool value, rfl, .bool value below, le_rfl⟩
  | uint num =>
    intro levels depth item hadm hitem hval
    rw [deserializeJson] at hitem
    rw [← Except.ok.inj hitem, serializeJson]
    cases hadm with
    | uint below hsafe =>
      rw [serializeF64_ofInt (by omega), if_pos (Int.natCast_nonneg num), Int.toNat_natCast]
      exact ⟨.uint num, rfl, .uint below hsafe, le_rfl⟩
  | nint num =>
    intro levels depth item hadm hitem hval
    rw [deserializeJson] at hitem
    rw [← Except.ok.inj hitem] at hval ⊢
    cases hadm with
    | nint below hneg hsafe =>
      -- The least integer that is read is no JSON number of the protocol.
      have hbound : num.natAbs ≤ 2 ^ 53 := by
        simp only [leastRead, maxSafeCborInteger] at hsafe
        omega
      have hintegral := Binary64.isIntegral_ofInt hbound
      rw [Codec.validateJsonValue] at hval
      split_ifs at hval with _ _ hunsafe
      rw [absExceeds_of_unsafeNumber hintegral, Binary64.absExceeds_iff hintegral,
        Binary64.trunc_ofInt hbound] at hunsafe
      rw [serializeJson, serializeF64_ofInt (Nat.not_lt.mp hunsafe), if_neg (Int.not_le.mpr hneg)]
      exact ⟨.nint num, rfl, .nint below hneg (by omega), le_rfl⟩
  | float num =>
    intro levels depth item hadm hitem hval
    rw [deserializeJson] at hitem
    rw [← Except.ok.inj hitem, serializeJson]
    cases hadm with
    | float below hfin hsafe =>
      exact ⟨serializeF64 num, rfl, covers_float hfin hsafe⟩
  | text value =>
    intro levels depth item hadm hitem hval
    obtain ⟨below, rfl⟩ := hadm.exists_succ
    rw [deserializeJson] at hitem
    rw [← Except.ok.inj hitem, serializeJson, JsString.tryToUtf8_fromUtf8]
    exact ⟨.text value, rfl, .text value below, le_rfl⟩
  | bytes value =>
    intro levels depth item hadm hitem hval
    rw [deserializeJson] at hitem
    cases hitem
  | array values ih =>
    intro levels depth item hadm hitem hval
    rw [deserializeJson] at hitem
    obtain ⟨items, hitems, hitem⟩ := bind_ok hitem
    rw [← Except.ok.inj hitem] at hval ⊢
    rw [Codec.validateJsonValue] at hval
    split_ifs at hval
    cases hadm with
    | array hlen hvals =>
      obtain ⟨others, hoth, hall⟩ := rewrites_items ih hvals hitems hval
      refine ⟨.array others, ?_, covers_array hlen hall⟩
      rw [serializeJson]
      exact bind_ok_iff.mpr ⟨others, hoth, rfl⟩
  | map entries ih => exact rewrites_map ih

end PiOxidized.Remote
