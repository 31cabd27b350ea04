/-
# The wire codec

The encoder interns a path on its second use and elides the path of an operation
that repeats the previous one of its batch; the decoder follows the dictionary
records.  Both look paths up by the derived equality, which folds the two zeros,
so a decoded path may be an earlier spelling of the same path.  The lockstep
invariant relates the two dictionaries and the two previous paths.
-/

import PiOxidized.Math.Dict
import PiOxidized.Service.Delta.Grammar

namespace PiOxidized.Service.Delta

open List Math

/-! ## Encoding -/

/-- A stateful path encoder. -/
structure DeltaEncoder where
  seen : Dict StatePath Unit
  ids : Dict StatePath JsInteger
  nextId : JsInteger

namespace DeltaEncoder

/-- An empty encoder. -/
def new : DeltaEncoder := ⟨Dict.empty, Dict.empty, JsInteger.zero⟩

/-- Clear the dictionary. -/
def reset (_encoder : DeltaEncoder) : DeltaEncoder := new

/-- The encoder within a batch, with the previous path of that batch. -/
structure Batch where
  encoder : DeltaEncoder
  previous : Option StatePath

/-- The reference to a path that does not repeat the previous one, and the
dictionary record it needs. -/
def refer (encoder : DeltaEncoder) (path : StatePath) : DeltaEncoder × List WireOp × PathRef :=
  match encoder.ids.get? path with
  | some id => (encoder, [], .id id)
  | none =>
    if encoder.seen.contains path then
      ({ encoder with
          nextId := encoder.nextId.next
          ids := encoder.ids.insert path encoder.nextId },
        [.define encoder.nextId path], .id encoder.nextId)
    else ({ encoder with seen := encoder.seen.insert path () }, [], .inline path)

/-- Emit an operation at a path, given its full and its short wire form. -/
def Batch.emit (batch : Batch) (path : StatePath) (full : PathRef → WireOp) (short : WireOp) :
    Batch × List WireOp :=
  if batch.previous == some path then (batch, [short])
  else
    let (encoder, records, ref) := batch.encoder.refer path
    (⟨encoder, some path⟩, records ++ [full ref])

/-- Encode one operation. -/
def Batch.encodeOp (batch : Batch) : DeltaOp → Batch × List WireOp
  | .replace value => (⟨batch.encoder.reset, none⟩, [.replace value])
  | .set path value => batch.emit path (fun ref => .set ref value) (.setShort value)
  | .delete path => batch.emit path (fun ref => .delete ref) .deleteShort
  | .append path text => batch.emit path (fun ref => .append ref text) (.appendShort text)
  | .truncate path count => batch.emit path (fun ref => .truncate ref count) (.truncateShort count)
  | .splice path index deleteCount values =>
    batch.emit path (fun ref => .splice ref index deleteCount values)
      (.spliceShort index deleteCount values)

/-- Encode operations in order. -/
def Batch.encodeOps (batch : Batch) : List DeltaOp → Batch × List WireOp
  | [] => (batch, [])
  | op :: ops =>
    let (next, wire) := batch.encodeOp op
    let (last, rest) := next.encodeOps ops
    (last, wire ++ rest)

/-- Encode one batch; every operation is checked before the first is encoded. -/
def encode (encoder : DeltaEncoder) (ops : List DeltaOp) :
    Except DeltaError (List WireOp) × DeltaEncoder :=
  match validateAll ops with
  | .error error => (.error error, encoder)
  | .ok () =>
    let (batch, wire) := Batch.encodeOps ⟨encoder, none⟩ ops
    (.ok wire, batch.encoder)

end DeltaEncoder

/-! ## Decoding -/

/-- Reject reserved keys and an empty path in a decoded operation. -/
def requireDecodedNonEmpty (path : StatePath) : Except DeltaError Unit := do
  validatePath path
  if path.isEmpty then throw (.path path)

/-- The path a reference stands for. -/
def resolvePathRef (paths : Dict JsInteger StatePath) : PathRef → Except DeltaError StatePath
  | .inline path => .ok path
  | .id id =>
    match paths.get? id with
    | some path => .ok path
    | none => .error (.pathId id)

/-- A stateful path decoder. -/
structure DeltaDecoder where
  paths : Dict JsInteger StatePath

namespace DeltaDecoder

/-- An empty decoder. -/
def new : DeltaDecoder := ⟨Dict.empty⟩

/-- Clear the dictionary. -/
def reset (_decoder : DeltaDecoder) : DeltaDecoder := new

/-- Whether a record changes the dictionary. -/
def isDictionaryMutating : WireOp → Bool
  | .define _ _ => true
  | .replace _ => true
  | _ => false

/-- The decoder within a batch, with the previous path of that batch. -/
structure Batch where
  decoder : DeltaDecoder
  previous : Option StatePath

/-- Decode an operation that repeats the previous path. -/
def Batch.short (batch : Batch) (check : StatePath → Except DeltaError Unit)
    (op : StatePath → DeltaOp) : Except DeltaError (Batch × List DeltaOp) :=
  match batch.previous with
  | none => .error (.path StatePath.root)
  | some path => do
    check path
    .ok (batch, [op path])

/-- Decode an operation that names its path. -/
def Batch.full (batch : Batch) (ref : PathRef) (check : StatePath → Except DeltaError Unit)
    (op : StatePath → DeltaOp) : Except DeltaError (Batch × List DeltaOp) := do
  let path ← resolvePathRef batch.decoder.paths ref
  check path
  .ok (⟨batch.decoder, some path⟩, [op path])

/-- A splice may address the root, so its decoded path is not checked. -/
def unchecked (_path : StatePath) : Except DeltaError Unit := .ok ()

/-- Decode one record; a failing one leaves the dictionary alone. -/
def Batch.decodeOp (batch : Batch) (op : WireOp) : Except DeltaError (Batch × List DeltaOp) := do
  op.validate
  match op with
  | .define id path => .ok ({ batch with decoder := ⟨batch.decoder.paths.insert id path⟩ }, [])
  | .replace value => .ok (⟨batch.decoder.reset, none⟩, [.replace value])
  | .setShort value => batch.short requireDecodedNonEmpty fun path => .set path value
  | .deleteShort => batch.short requireDecodedNonEmpty fun path => .delete path
  | .appendShort text => batch.short requireDecodedNonEmpty fun path => .append path text
  | .truncateShort count => batch.short requireDecodedNonEmpty fun path => .truncate path count
  | .spliceShort index deleteCount values =>
    batch.short unchecked fun path => .splice path index deleteCount values
  | .set ref value => batch.full ref requireDecodedNonEmpty fun path => .set path value
  | .delete ref => batch.full ref requireDecodedNonEmpty fun path => .delete path
  | .append ref text => batch.full ref requireDecodedNonEmpty fun path => .append path text
  | .truncate ref count => batch.full ref requireDecodedNonEmpty fun path => .truncate path count
  | .splice ref index deleteCount values =>
    batch.full ref unchecked fun path => .splice path index deleteCount values

/-- Decode records in order, with the dictionary the last one left. -/
def Batch.decodeBatch (batch : Batch) : List WireOp → Except DeltaError (List DeltaOp) × DeltaDecoder
  | [] => (.ok [], batch.decoder)
  | op :: wire =>
    match batch.decodeOp op with
    | .error error => (.error error, batch.decoder)
    | .ok (next, ops) =>
      let (result, decoder) := next.decodeBatch wire
      (result.map fun rest => ops ++ rest, decoder)

/-- Decode one batch, restoring the dictionary when it is rejected. -/
def decode (decoder : DeltaDecoder) (wire : List WireOp) :
    Except DeltaError (List DeltaOp) × DeltaDecoder :=
  let (result, next) := Batch.decodeBatch ⟨decoder, none⟩ wire
  match result with
  | .ok ops => (.ok ops, next)
  | .error error => (.error error, if wire.any isDictionaryMutating then decoder else next)

end DeltaDecoder

/-! ## One operation in lockstep -/

/-- The operation with another path. -/
def DeltaOp.withPath (path : StatePath) : DeltaOp → DeltaOp
  | .replace value => .replace value
  | .set _ value => .set path value
  | .delete _ => .delete path
  | .append _ text => .append path text
  | .truncate _ count => .truncate path count
  | .splice _ index deleteCount values => .splice path index deleteCount values

section

variable (P : StatePath → Prop)

/-- The same operation up to the spelling of its path, which satisfies `P`. -/
def SameOp (op decoded : DeltaOp) : Prop :=
  ∃ path, decoded = op.withPath path ∧ ∀ original, op.path = some original →
    path.identity = original.identity ∧ P path

/-- The decoder knows every path the encoder has interned, under the same id and
as a spelling that satisfies `P`; ids in use lie below the next one. -/
structure Lockstep (encoder : DeltaEncoder) (decoder : DeltaDecoder) : Prop where
  counted : encoder.nextId.toNat = encoder.ids.size
  below : ∀ path id, encoder.ids.get? path = some id → id.toNat < encoder.nextId.toNat
  known : ∀ path id, encoder.ids.get? path = some id → ∃ spelling,
    decoder.paths.get? id = some spelling ∧ spelling.identity = path.identity ∧ P spelling

/-- Lockstep within a batch: the previous paths agree as well. -/
structure BatchLockstep (encoding : DeltaEncoder.Batch) (decoding : DeltaDecoder.Batch) : Prop where
  dictionaries : Lockstep P encoding.encoder decoding.decoder
  previous : ∀ path, encoding.previous = some path → ∃ spelling,
    decoding.previous = some spelling ∧ spelling.identity = path.identity ∧ P spelling

/-- Decoding a list of records ends in a batch state and returns operations,
whatever follows the records. -/
def Decodes (start : DeltaDecoder.Batch) (wire : List WireOp) (next : DeltaDecoder.Batch)
    (ops : List DeltaOp) : Prop :=
  ∀ rest, start.decodeBatch (wire ++ rest) =
    ((next.decodeBatch rest).1.map fun more => ops ++ more, (next.decodeBatch rest).2)

variable {path : StatePath} {ops : List DeltaOp}

variable {more : List DeltaOp} {other : StatePath}

theorem Decodes.nil (batch : DeltaDecoder.Batch) : Decodes batch [] batch [] := by
  intro rest
  refine Prod.ext ?_ rfl
  simp only [nil_append]
  cases (batch.decodeBatch rest).1 <;> rfl

theorem Decodes.cons {start next last : DeltaDecoder.Batch} {record : WireOp} {wire : List WireOp}
    (hfst : start.decodeOp record = .ok (next, ops)) (hrest : Decodes next wire last more) :
    Decodes start (record :: wire) last (ops ++ more) := by
  intro rest
  rw [cons_append, DeltaDecoder.Batch.decodeBatch, hfst]
  simp only [hrest rest]
  refine Prod.ext ?_ rfl
  cases (last.decodeBatch rest).1 <;> simp [Except.map]

theorem Decodes.append {start next last : DeltaDecoder.Batch} {wire wire' : List WireOp}
    (hfst : Decodes start wire next ops) (hrest : Decodes next wire' last more) :
    Decodes start (wire ++ wire') last (ops ++ more) := by
  intro rest
  rw [append_assoc, hfst, hrest]
  refine Prod.ext ?_ rfl
  cases (last.decodeBatch rest).1 <;> simp [Except.map]

theorem safe_of_identity_eq (h : path.identity = other.identity) (hother : other.Safe) :
    path.Safe := by
  obtain ⟨segments⟩ := path
  obtain ⟨others⟩ := other
  simp only [StatePath.identity, StatePath.Safe] at *
  induction segments generalizing others with
  | nil => simp
  | cons segment segments ih =>
    cases others with
    | nil => simp at h
    | cons first others =>
      rw [map_cons, map_cons, cons.injEq] at h
      obtain ⟨hfst, hoth⟩ := forall_mem_cons.mp hother
      refine forall_mem_cons.mpr ⟨?_, ih others hoth h.2⟩
      cases segment <;> cases first <;> simp_all [PathSegment.identity, PathSegment.isReserved]

theorem isEmpty_of_identity_eq (h : path.identity = other.identity) :
    path.isEmpty = other.isEmpty := by
  obtain ⟨segments⟩ := path
  obtain ⟨others⟩ := other
  have hlen := congrArg length h
  cases segments <;> cases others <;> simp_all [StatePath.identity, StatePath.isEmpty]

theorem requireDecodedNonEmpty_eq_ok (hsafe : path.Safe) (hemp : path.isEmpty = false) :
    requireDecodedNonEmpty path = .ok () := by
  simp [requireDecodedNonEmpty, validatePath_eq_ok_iff.mpr hsafe, hemp, bind, Except.bind, pure,
    Except.pure]

variable {P} {enc : DeltaEncoder.Batch} {decoding : DeltaDecoder.Batch}

variable {enc : DeltaEncoder}

variable {spelling : StatePath}

/-- Referring to a path keeps lockstep, and the decoder resolves the reference to
a spelling of the path. -/
theorem Lockstep.refer {batch : DeltaDecoder.Batch} (h : Lockstep P enc batch.decoder)
    (hsafe : path.Safe) (hP : P path) (hroom : (enc.refer path).1.ids.size < 2 ^ 53) :
    ∃ next spelling, Decodes batch (enc.refer path).2.1 next [] ∧
      Lockstep P (enc.refer path).1 next.decoder ∧
      validatePathRef (enc.refer path).2.2 = .ok () ∧
      resolvePathRef next.decoder.paths (enc.refer path).2.2 = .ok spelling ∧
      spelling.identity = path.identity ∧ P spelling := by
  unfold DeltaEncoder.refer at hroom ⊢
  cases hid : enc.ids.get? path with
  | some id =>
    obtain ⟨spelling, hspelling, hident, hgood⟩ := h.known path id hid
    refine ⟨batch, spelling, Decodes.nil batch, h, rfl, ?_, hident, hgood⟩
    simp only [resolvePathRef, hspelling]
  | none =>
    simp only [hid] at hroom ⊢
    split_ifs at hroom ⊢ with hseen
    · simp only at hroom ⊢
      have hsize := Dict.size_insert_of_get?_eq_none hid enc.nextId
      have hnext : enc.nextId.next.toNat = enc.nextId.toNat + 1 :=
        JsInteger.toNat_next (by rw [h.counted]; omega)
      have hval : (WireOp.define enc.nextId path).validate = .ok () :=
        validatePath_eq_ok_iff.mpr hsafe
      have hdec : batch.decodeOp (.define enc.nextId path) =
          .ok ({ batch with decoder := ⟨batch.decoder.paths.insert enc.nextId path⟩ }, []) := by
        simp only [DeltaDecoder.Batch.decodeOp, hval, bind, Except.bind]
      refine ⟨_, path, Decodes.cons hdec (Decodes.nil _), ⟨?_, ?_, ?_⟩, rfl, ?_, rfl, hP⟩
      · rw [hnext, h.counted, hsize]
      · intro other id hoth
        rw [Dict.get?_insert] at hoth
        rw [hnext]
        split_ifs at hoth with hsame
        · rw [← Option.some.inj hoth]
          omega
        · have := h.below other id hoth
          omega
      · intro other id hoth
        rw [Dict.get?_insert] at hoth
        split_ifs at hoth with hsame
        · refine ⟨path, ?_, (StatePath.beq_iff.mp hsame).symm, hP⟩
          rw [← Option.some.inj hoth, Dict.get?_insert, if_pos BEq.rfl]
        · have hlt := h.below other id hoth
          have hne : ¬(id == enc.nextId) = true := fun heq => by
            have := JsInteger.eq_iff.mp heq
            omega
          obtain ⟨spelling, hspelling, hident, hgood⟩ := h.known other id hoth
          refine ⟨spelling, ?_, hident, hgood⟩
          rw [Dict.get?_insert, if_neg hne, hspelling]
      · simp only [resolvePathRef, Dict.get?_insert, BEq.rfl, if_true]
    · exact ⟨batch, path, Decodes.nil batch, ⟨h.counted, h.below, h.known⟩,
        validatePath_eq_ok_iff.mpr hsafe, rfl, rfl, hP⟩

/-- Emitting an operation keeps lockstep, and the records decode to the operation
at a spelling of its path. -/
theorem BatchLockstep.emit (h : BatchLockstep P encoding decoding) (hsafe : path.Safe) (hP : P path)
    {full : PathRef → WireOp} {short : WireOp} {check : StatePath → Except DeltaError Unit}
    {op : StatePath → DeltaOp} (hroom : (encoding.emit path full short).1.encoder.ids.size < 2 ^ 53)
    (hfull : ∀ (batch : DeltaDecoder.Batch) ref, validatePathRef ref = .ok () →
      batch.decodeOp (full ref) = batch.full ref check op)
    (hshort : ∀ batch : DeltaDecoder.Batch, batch.decodeOp short = batch.short check op)
    (hcheck : ∀ spelling : StatePath, spelling.identity = path.identity → check spelling = .ok ()) :
    ∃ next spelling, Decodes decoding (encoding.emit path full short).2 next [op spelling] ∧
      BatchLockstep P (encoding.emit path full short).1 next ∧
      spelling.identity = path.identity ∧ P spelling := by
  unfold DeltaEncoder.Batch.emit at hroom ⊢
  split_ifs at hroom ⊢ with hrepeat
  · cases hprev : encoding.previous with
    | none =>
      rw [hprev] at hrepeat
      cases hrepeat
    | some previous =>
      rw [hprev] at hrepeat
      have hsame : previous.identity = path.identity := StatePath.beq_iff.mp hrepeat
      obtain ⟨spelling, hspelling, hident, hgood⟩ := h.previous previous hprev
      have hdec : decoding.decodeOp short = .ok (decoding, [op spelling]) := by
        rw [hshort, DeltaDecoder.Batch.short, hspelling]
        simp only [hcheck spelling (hident.trans hsame), bind, Except.bind]
      exact ⟨decoding, spelling, Decodes.cons hdec (Decodes.nil _), h, hident.trans hsame, hgood⟩
  · obtain ⟨next, spelling, hdecs, hlockstep, hval, hresolve, hident, hgood⟩ :=
      h.dictionaries.refer hsafe hP hroom
    have hdec : next.decodeOp (full (encoding.encoder.refer path).2.2) =
        .ok (⟨next.decoder, some spelling⟩, [op spelling]) := by
      rw [hfull _ _ hval, DeltaDecoder.Batch.full]
      simp only [hresolve, hcheck spelling hident, bind, Except.bind]
    refine ⟨_, spelling, hdecs.append (Decodes.cons hdec (Decodes.nil _)),
      ⟨hlockstep, fun previous hprev => ?_⟩, hident, hgood⟩
    cases hprev
    exact ⟨spelling, rfl, hident, hgood⟩

theorem sameOp_withPath {op : DeltaOp} (hpath : op.path = some path)
    (hident : spelling.identity = path.identity) (hP : P spelling) :
    SameOp P op (op.withPath spelling) := by
  refine ⟨spelling, rfl, fun original horig => ?_⟩
  obtain rfl := Option.some.inj (hpath.symm.trans horig)
  exact ⟨hident, hP⟩

theorem requireDecodedNonEmpty_of_identity_eq (hval : validateNonEmpty path = .ok ())
    (h : spelling.identity = path.identity) :
    requireDecodedNonEmpty spelling = .ok () := by
  obtain ⟨hsafe, hemp⟩ := validateNonEmpty_eq_ok_iff.mp hval
  exact requireDecodedNonEmpty_eq_ok (safe_of_identity_eq h hsafe)
    ((isEmpty_of_identity_eq h).trans hemp)

/-- Encoding one operation keeps lockstep, and its records decode to it. -/
theorem BatchLockstep.encodeOp (h : BatchLockstep P encoding decoding) {op : DeltaOp}
    (hval : op.validate = .ok ()) (hP : ∀ path, op.path = some path → P path)
    (hroom : (encoding.encodeOp op).1.encoder.ids.size < 2 ^ 53) :
    ∃ next decoded, Decodes decoding (encoding.encodeOp op).2 next [decoded] ∧
      BatchLockstep P (encoding.encodeOp op).1 next ∧ SameOp P op decoded := by
  cases op with
  | replace value =>
    have hdec : decoding.decodeOp (.replace value) =
        .ok (⟨decoding.decoder.reset, none⟩, [.replace value]) := rfl
    refine ⟨_, .replace value, Decodes.cons hdec (Decodes.nil _), ⟨⟨?_, ?_, ?_⟩, ?_⟩,
      StatePath.root, rfl, fun original horig => by cases horig⟩
    · simp [DeltaEncoder.Batch.encodeOp, DeltaEncoder.reset, DeltaEncoder.new]
    · intro path id hid
      cases hid
    · intro path id hid
      cases hid
    · intro path hpath
      cases hpath
  | set path | delete path | append path | truncate path =>
    obtain ⟨next, spelling, hdecs, hnext, hident, hgood⟩ := h.emit
      (validateNonEmpty_eq_ok_iff.mp hval).1 (hP path rfl) hroom
      (fun batch ref href => by
        simp only [DeltaDecoder.Batch.decodeOp, WireOp.validate, href, bind, Except.bind])
      (fun _ => rfl) fun _ => requireDecodedNonEmpty_of_identity_eq hval
    exact ⟨next, _, hdecs, hnext, sameOp_withPath rfl hident hgood⟩
  | splice path i dels values =>
    obtain ⟨next, spelling, hdecs, hnext, hident, hgood⟩ := h.emit
      (validatePath_eq_ok_iff.mp hval) (hP path rfl) hroom
      (fun batch ref href => by
        simp only [DeltaDecoder.Batch.decodeOp, WireOp.validate, href, bind, Except.bind])
      (fun _ => rfl) fun _ _ => rfl
    exact ⟨next, _, hdecs, hnext, sameOp_withPath rfl hident hgood⟩

/-! ## Batches and streams -/

/-- At every point of a batch fewer than `2 ^ 53` paths are interned since the
last replacement. -/
def DeltaEncoder.Batch.Roomy (batch : DeltaEncoder.Batch) : List DeltaOp → Prop
  | [] => True
  | op :: ops =>
    (batch.encodeOp op).1.encoder.ids.size < 2 ^ 53 ∧ (batch.encodeOp op).1.Roomy ops

/-- Encoding operations keeps lockstep, and the records decode to them. -/
theorem BatchLockstep.encodeOps (h : BatchLockstep P encoding decoding)
    (hval : ∀ op ∈ ops, op.validate = .ok ())
    (hP : ∀ op ∈ ops, ∀ path, op.path = some path → P path) (hroom : encoding.Roomy ops) :
    ∃ next decoded, Decodes decoding (encoding.encodeOps ops).2 next decoded ∧
      BatchLockstep P (encoding.encodeOps ops).1 next ∧ List.Forall₂ (SameOp P) ops decoded := by
  induction ops generalizing encoding decoding with
  | nil => exact ⟨decoding, [], Decodes.nil _, h, List.Forall₂.nil⟩
  | cons op ops ih =>
    obtain ⟨hop, hops⟩ := forall_mem_cons.mp hval
    obtain ⟨hPop, hPops⟩ := forall_mem_cons.mp hP
    obtain ⟨middle, first, hfst, hmiddle, hsame⟩ := h.encodeOp hop hPop hroom.1
    obtain ⟨next, rest, hrest, hnext, hsames⟩ := ih hmiddle hops hPops hroom.2
    exact ⟨next, first :: rest, hfst.append hrest, hnext, List.Forall₂.cons hsame hsames⟩

/-- An accepted batch decodes to itself, and the dictionaries stay in lockstep. -/
theorem Lockstep.encode {dec : DeltaDecoder} (h : Lockstep P enc dec)
    (hval : validateAll ops = .ok ()) (hP : ∀ op ∈ ops, ∀ path, op.path = some path → P path)
    (hroom : DeltaEncoder.Batch.Roomy ⟨enc, none⟩ ops) :
    ∃ wire decoded, (enc.encode ops).1 = .ok wire ∧
      (dec.decode wire).1 = .ok decoded ∧ List.Forall₂ (SameOp P) ops decoded ∧
      Lockstep P (enc.encode ops).2 (dec.decode wire).2 := by
  have hsta : BatchLockstep P ⟨enc, none⟩ ⟨dec, none⟩ := ⟨h, fun path hpath => by cases hpath⟩
  obtain ⟨next, decoded, hdecs, hnext, hsame⟩ :=
    hsta.encodeOps (validateAll_eq_ok_iff.mp hval) hP hroom
  have henc : enc.encode ops = (.ok (DeltaEncoder.Batch.encodeOps ⟨enc, none⟩ ops).2,
        (DeltaEncoder.Batch.encodeOps ⟨enc, none⟩ ops).1.encoder) := by
    simp only [DeltaEncoder.encode, hval]
  have hbat : DeltaDecoder.Batch.decodeBatch ⟨dec, none⟩
      (DeltaEncoder.Batch.encodeOps ⟨enc, none⟩ ops).2 = (.ok decoded, next.decoder) := by
    have hall := hdecs []
    rw [append_nil] at hall
    rw [hall, DeltaDecoder.Batch.decodeBatch]
    simp [Except.map]
  have hdec : dec.decode (DeltaEncoder.Batch.encodeOps ⟨enc, none⟩ ops).2 =
      (.ok decoded, next.decoder) := by
    simp only [DeltaDecoder.decode, hbat]
  refine ⟨_, decoded, by rw [henc], by rw [hdec], hsame, ?_⟩
  rw [henc, hdec]
  exact hnext.dictionaries

/-- A rejected batch leaves the encoder as it was. -/
theorem DeltaEncoder.encode_of_error {error : DeltaError} (h : validateAll ops = .error error) :
    enc.encode ops = (.error error, enc) := by
  simp only [DeltaEncoder.encode, h]

theorem lockstep_new : Lockstep P DeltaEncoder.new DeltaDecoder.new where
  counted := JsInteger.toNat_zero
  below := by
    intro path id hid
    cases hid
  known := by
    intro path id hid
    cases hid

end

/-- At every point of a stream fewer than `2 ^ 53` paths are interned since the
last replacement. -/
def DeltaEncoder.Roomy (encoder : DeltaEncoder) : List (List DeltaOp) → Prop
  | [] => True
  | batch :: batches =>
    (validateAll batch = .ok () → DeltaEncoder.Batch.Roomy ⟨encoder, none⟩ batch) ∧
      (encoder.encode batch).2.Roomy batches

/-- Feed batches through an encoder and a decoder; a rejected batch is not sent. -/
def relay (encoder : DeltaEncoder) (decoder : DeltaDecoder) :
    List (List DeltaOp) → List (Option (Except DeltaError (List DeltaOp)))
  | [] => []
  | batch :: batches =>
    match encoder.encode batch with
    | (.error _, encoder) => none :: relay encoder decoder batches
    | (.ok wire, encoder) =>
      some (decoder.decode wire).1 :: relay encoder (decoder.decode wire).2 batches

/-- A batch arrives, up to the spelling of its paths, unless it is rejected. -/
def Delivered (P : StatePath → Prop) (batch : List DeltaOp) :
    Option (Except DeltaError (List DeltaOp)) → Prop
  | none => ∃ error, validateAll batch = .error error
  | some result => validateAll batch = .ok () ∧ ∃ decoded, result = .ok decoded ∧
      List.Forall₂ (SameOp P) batch decoded

/-- A stream through dictionaries in lockstep delivers every batch. -/
theorem Lockstep.relay {P : StatePath → Prop} {enc : DeltaEncoder} {dec : DeltaDecoder}
    (h : Lockstep P enc dec) {batches : List (List DeltaOp)}
    (hP : ∀ batch ∈ batches, ∀ op ∈ batch, ∀ path, op.path = some path → P path)
    (hroom : enc.Roomy batches) :
    List.Forall₂ (Delivered P) batches (relay enc dec batches) := by
  induction batches generalizing enc dec with
  | nil => exact List.Forall₂.nil
  | cons batch batches ih =>
    obtain ⟨hPbatch, hPrest⟩ := forall_mem_cons.mp hP
    obtain ⟨hbat, hrest⟩ := hroom
    rw [Delta.relay]
    cases hval : validateAll batch with
    | error error =>
      rw [DeltaEncoder.encode_of_error hval] at hrest ⊢
      exact List.Forall₂.cons ⟨error, hval⟩ (ih h hPrest hrest)
    | ok _ =>
      obtain ⟨wire, decoded, hwire, hdecoded, hsame, hnext⟩ := h.encode hval hPbatch (hbat hval)
      generalize enc.encode batch = outcome at hwire hrest hnext ⊢
      obtain ⟨result, next⟩ := outcome
      obtain rfl : result = .ok wire := hwire
      exact List.Forall₂.cons ⟨hval, decoded, hdecoded, hsame⟩ (ih hnext hPrest hrest)

/-! ## Ids in use -/

namespace DeltaEncoder

variable {batch : Batch}

theorem size_refer (enc : DeltaEncoder) (path : StatePath) :
    (enc.refer path).1.ids.size ≤ enc.ids.size + 1 := by
  rw [refer]
  split
  · exact Nat.le_succ _
  · rename_i hnone
    split_ifs
    · exact (Dict.size_insert_of_get?_eq_none hnone _).le
    · exact Nat.le_succ _

theorem Batch.size_encodeOp (op : DeltaOp) :
    (batch.encodeOp op).1.encoder.ids.size ≤ batch.encoder.ids.size + 1 := by
  have hemit (path : StatePath) (full short) :
      (batch.emit path full short).1.encoder.ids.size ≤ batch.encoder.ids.size + 1 := by
    rw [emit]
    split_ifs
    · exact Nat.le_succ _
    · exact size_refer _ _
  cases op with
  | replace value => exact Nat.zero_le _
  | _ => exact hemit _ _ _

theorem Batch.roomy_of_size (batch : Batch) {ops : List DeltaOp}
    (h : batch.encoder.ids.size + ops.length < 2 ^ 53) : batch.Roomy ops := by
  induction ops generalizing batch with
  | nil => trivial
  | cons op ops ih =>
    have hop := batch.size_encodeOp op
    rw [length_cons] at h
    exact ⟨by omega, ih _ (by omega)⟩

theorem size_encode (enc : DeltaEncoder) {ops : List DeltaOp} (hvalid : validateAll ops = .ok ()) :
    (enc.encode ops).2.ids.size ≤ enc.ids.size + ops.length := by
  have hall (batch : Batch) :
      (batch.encodeOps ops).1.encoder.ids.size ≤ batch.encoder.ids.size + ops.length := by
    clear hvalid
    induction ops generalizing batch with
    | nil => exact Nat.le_refl _
    | cons op ops ih =>
      have hop := batch.size_encodeOp op
      have hrest := ih (batch.encodeOp op).1
      rw [length_cons]
      show ((batch.encodeOp op).1.encodeOps ops).1.encoder.ids.size ≤ _
      omega
  rw [encode, hvalid]
  exact hall ⟨enc, none⟩

end DeltaEncoder

/-! ## Spellings -/

/-- No index of the path is the negative zero. -/
def StatePath.Canonical (path : StatePath) : Prop :=
  ∀ index, PathSegment.index index ∈ path.segments → index.value ≠ Binary64.negZero

variable {op : DeltaOp}

theorem PathSegment.eq_of_identity_eq {segment other : PathSegment}
    (hsegment : ∀ index, segment = .index index → index.value ≠ Binary64.negZero)
    (hoth : ∀ index, other = .index index → index.value ≠ Binary64.negZero)
    (h : segment.identity = other.identity) : segment = other := by
  cases segment with
  | key name =>
    cases other with
    | key name' => exact congrArg PathSegment.key (Sum.inl.inj h)
    | index value => cases h
  | index value =>
    cases other with
    | key name => cases h
    | index value' =>
      refine congrArg PathSegment.index (JsInteger.eq_of_toNat_eq (Sum.inr.inj h) ?_ ?_)
      · exact hsegment value rfl
      · exact hoth value' rfl

/-- Paths without a negative zero are the same when they are equal. -/
theorem StatePath.eq_of_identity_eq {path other : StatePath} (hpath : path.Canonical)
    (hoth : other.Canonical) (h : path.identity = other.identity) : path = other := by
  obtain ⟨segments⟩ := path
  obtain ⟨others⟩ := other
  refine congrArg StatePath.mk ?_
  simp only [StatePath.identity, StatePath.Canonical] at h hpath hoth
  induction segments generalizing others with
  | nil =>
    cases others with
    | nil => rfl
    | cons other others => cases h
  | cons segment segments ih =>
    cases others with
    | nil => cases h
    | cons other others =>
      rw [map_cons, map_cons, cons.injEq] at h
      have hhead : segment = other := PathSegment.eq_of_identity_eq
        (fun i hidx => hpath i (hidx ▸ mem_cons_self))
        (fun i hidx => hoth i (hidx ▸ mem_cons_self)) h.1
      rw [hhead, ih (fun i hmem => hpath i (mem_cons_of_mem _ hmem)) others
        (fun i hmem => hoth i (mem_cons_of_mem _ hmem)) h.2]

theorem DeltaOp.withPath_self {path : StatePath} (h : op.path = some path) :
    op.withPath path = op := by
  cases op <;> cases h <;> rfl

theorem DeltaOp.withPath_of_path_eq_none (h : op.path = none) (path : StatePath) :
    op.withPath path = op := by
  cases op with
  | replace value => rfl
  | set | delete | append | truncate | splice => cases h

theorem SameOp.eq {decoded : DeltaOp} (h : SameOp StatePath.Canonical op decoded)
    (hop : ∀ path, op.path = some path → path.Canonical) : decoded = op := by
  obtain ⟨path, rfl, hpath⟩ := h
  cases horig : op.path with
  | none => exact DeltaOp.withPath_of_path_eq_none horig path
  | some original =>
    obtain ⟨hident, hcanonical⟩ := hpath original horig
    rw [StatePath.eq_of_identity_eq hcanonical (hop original horig) hident]
    exact DeltaOp.withPath_self horig

theorem forall₂_sameOp_eq {ops decoded : List DeltaOp}
    (h : List.Forall₂ (SameOp StatePath.Canonical) ops decoded)
    (hops : ∀ op ∈ ops, ∀ path, op.path = some path → path.Canonical) : decoded = ops := by
  induction h with
  | nil => rfl
  | cons hop _ ih =>
    obtain ⟨hfst, hrest⟩ := forall_mem_cons.mp hops
    rw [hop.eq hfst, ih hrest]

/-- What a batch gives at the far end when no path is respelled. -/
def delivery (batch : List DeltaOp) : Option (Except DeltaError (List DeltaOp)) :=
  match validateAll batch with
  | .ok () => some (.ok batch)
  | .error _ => none

/-- Every stream round trips through a fresh encoder and a fresh decoder: a batch
is rejected only for an invalid operation, and then changes nothing; every other
batch decodes to the same operations with the same payloads, at paths equal to
the original ones, and to exactly the original batch when no path of the stream
spells an index as negative zero. -/
theorem relay_roundTrip {batches : List (List DeltaOp)} (hroom : DeltaEncoder.new.Roomy batches) :
    (∀ (enc : DeltaEncoder) batch error, (enc.encode batch).1 = .error error →
      validateAll batch = .error error ∧ (enc.encode batch).2 = enc) ∧
    List.Forall₂ (Delivered fun _ => True) batches
      (relay DeltaEncoder.new DeltaDecoder.new batches) ∧
    ((∀ batch ∈ batches, ∀ op ∈ batch, ∀ path, op.path = some path → path.Canonical) →
      relay DeltaEncoder.new DeltaDecoder.new batches = batches.map delivery) := by
  refine ⟨fun enc batch error herror => ?_,
    lockstep_new.relay (fun _ _ _ _ _ _ => trivial) hroom, fun hcanonical => ?_⟩
  · cases hvalid : validateAll batch with
    | error other =>
      rw [DeltaEncoder.encode_of_error hvalid] at herror ⊢
      exact ⟨congrArg Except.error (Except.error.inj herror), rfl⟩
    | ok _ =>
      rw [DeltaEncoder.encode, hvalid] at herror
      cases herror
  · have hall := lockstep_new.relay hcanonical hroom
    generalize relay DeltaEncoder.new DeltaDecoder.new batches = results at hall
    clear hroom
    induction hall with
    | nil => rfl
    | @cons batch result _ _ hbatch _ ih =>
      obtain ⟨hfirst, hrest⟩ := List.forall_mem_cons.mp hcanonical
      rw [ih hrest, map_cons, delivery]
      cases result with
      | none =>
        obtain ⟨error, herror⟩ := hbatch
        rw [herror]
      | some result =>
        obtain ⟨hvalid, decoded, rfl, hsame⟩ := hbatch
        rw [hvalid, forall₂_sameOp_eq hsame hfirst]

/-- The negative zero as an index. -/
def negZeroIndex : JsInteger := ⟨Binary64.negZero, by decide +kernel⟩

/-- One path spelled with both zeros. -/
def respelledBatch : List DeltaOp :=
  [.set ⟨[.index JsInteger.zero]⟩ .null, .set ⟨[.index negZeroIndex]⟩ .null]

theorem relay_roundTrip_respelled : DeltaEncoder.new.Roomy [respelledBatch] ∧
      List.Forall₂ (Delivered fun _ => True) [respelledBatch]
        (relay DeltaEncoder.new DeltaDecoder.new [respelledBatch]) := by
  have hroom : DeltaEncoder.new.Roomy [respelledBatch] :=
    ⟨fun _ => ⟨by decide +kernel, by decide +kernel, trivial⟩, trivial⟩
  exact ⟨hroom, (relay_roundTrip hroom).2.1⟩

/-- The second spelling decodes to the first. -/
theorem relay_respelled : relay DeltaEncoder.new DeltaDecoder.new [respelledBatch] =
        [some (.ok [.set ⟨[.index JsInteger.zero]⟩ .null, .set ⟨[.index JsInteger.zero]⟩ .null])] ∧
      relay DeltaEncoder.new DeltaDecoder.new [respelledBatch] ≠ [some (.ok respelledBatch)] := by
  have hrelay : relay DeltaEncoder.new DeltaDecoder.new [respelledBatch] =
      [some (.ok [.set ⟨[.index JsInteger.zero]⟩ .null,
        .set ⟨[.index JsInteger.zero]⟩ .null])] := rfl
  refine ⟨hrelay, fun h => ?_⟩
  rw [hrelay] at h
  have hindex : JsInteger.zero = negZeroIndex := by simpa [respelledBatch] using h
  exact absurd (congrArg JsInteger.value hindex) (by decide +kernel)

end PiOxidized.Service.Delta
