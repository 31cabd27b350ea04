/-
# Decoding as a transaction

Every path of the dictionary was checked when it was defined, and a short form repeats a path that
was named in its batch.  Hence what is decoded passes its own validation, and a rejected batch
leaves the dictionary as it was.
-/

import PiOxidized.Math.Fallible
import PiOxidized.Service.Delta.Codec

namespace PiOxidized.Service.Delta

open List Math

theorem safe_of_requireDecodedNonEmpty {path : StatePath}
    (h : requireDecodedNonEmpty path = .ok ()) : validateNonEmpty path = .ok () := by
  obtain ⟨_, hsafe, hrest⟩ := bind_ok h
  rw [validateNonEmpty, hsafe]
  cases hemp : path.isEmpty with
  | false => rfl
  | true =>
    rw [hemp] at hrest
    cases hrest

namespace DeltaDecoder

/-- The decoders that decoding and resetting make of an empty one. -/
inductive Reachable : DeltaDecoder → Prop
  | new : Reachable new
  | decode {decoder : DeltaDecoder} (wire : List WireOp) :
      Reachable decoder → Reachable (decoder.decode wire).2
  | reset {decoder : DeltaDecoder} : Reachable decoder → Reachable decoder.reset

/-- Every path of the dictionary is safe. -/
def Safe (decoder : DeltaDecoder) : Prop := ∀ id path, decoder.paths.get? id = some path → path.Safe

theorem safe_new : new.Safe := nofun

namespace Batch

/-- The paths of the dictionary and the previous path are safe. -/
structure Safe (batch : Batch) : Prop where
  decoder : batch.decoder.Safe
  previous : ∀ path, batch.previous = some path → path.Safe

variable {batch next : Batch} {ops : List DeltaOp} {op : StatePath → DeltaOp} {ref : PathRef}
  {check : StatePath → Except DeltaError Unit} {record : WireOp} {wire : List WireOp}

section

variable (h : batch.Safe)
  (hop : ∀ path : StatePath, path.Safe → check path = .ok () → (op path).validate = .ok ())

include h hop

/-- A short form repeats a safe path. -/
theorem Safe.short (hnext : batch.short check op = .ok (next, ops)) :
    next.Safe ∧ ∀ op ∈ ops, op.validate = .ok () := by
  rw [Batch.short] at hnext
  split at hnext
  · cases hnext
  · next path hprev =>
    obtain ⟨_, hcheck, hnext⟩ := bind_ok hnext
    cases hnext
    exact ⟨h, forall_mem_singleton.mpr (hop path (h.previous path hprev) hcheck)⟩

/-- A full form names a checked path or one of the dictionary. -/
theorem Safe.full (href : validatePathRef ref = .ok ())
    (hnext : batch.full ref check op = .ok (next, ops)) :
    next.Safe ∧ ∀ op ∈ ops, op.validate = .ok () := by
  obtain ⟨path, hpath, hnext⟩ := bind_ok hnext
  obtain ⟨_, hcheck, hnext⟩ := bind_ok hnext
  cases hnext
  have hsafe : path.Safe := by
    cases ref with
    | inline path =>
      cases hpath
      exact validatePath_eq_ok_iff.mp href
    | id id =>
      rw [resolvePathRef] at hpath
      split at hpath
      · next hfnd =>
        cases hpath
        exact h.decoder id path hfnd
      · cases hpath
  exact ⟨⟨h.decoder, fun _ heq => Option.some.inj heq ▸ hsafe⟩,
    forall_mem_singleton.mpr (hop path hsafe hcheck)⟩

end

/-- One record keeps the paths safe, and what it decodes to is valid. -/
theorem Safe.decodeOp (h : batch.Safe) (hnext : batch.decodeOp record = .ok (next, ops)) :
    next.Safe ∧ ∀ op ∈ ops, op.validate = .ok () := by
  obtain ⟨_, hval, hnext⟩ := bind_ok hnext
  have hchecked : ∀ path : StatePath, path.Safe → requireDecodedNonEmpty path = .ok () →
      validateNonEmpty path = .ok () := fun _ _ hcheck => safe_of_requireDecodedNonEmpty hcheck
  have hsafe : ∀ path : StatePath, path.Safe → unchecked path = .ok () →
      validatePath path = .ok () := fun _ hsafe _ => validatePath_eq_ok_iff.mpr hsafe
  cases record with
  | define id path =>
    cases hnext
    refine ⟨⟨fun id' path' hfnd => ?_, h.previous⟩, nofun⟩
    rw [Dict.get?_insert] at hfnd
    split_ifs at hfnd
    · rw [← Option.some.inj hfnd]
      exact validatePath_eq_ok_iff.mp hval
    · exact h.decoder id' path' hfnd
  | replace value =>
    cases hnext
    exact ⟨⟨safe_new, nofun⟩, forall_mem_singleton.mpr rfl⟩
  | setShort | deleteShort | appendShort | truncateShort => exact h.short hchecked hnext
  | spliceShort => exact h.short hsafe hnext
  | set | delete | append | truncate => exact h.full hchecked hval hnext
  | splice => exact h.full hsafe hval hnext

/-- The records of a batch keep the dictionary safe, and what they decode to is valid. -/
theorem Safe.decodeBatch (h : batch.Safe) : (batch.decodeBatch wire).2.Safe ∧
    ∀ ops, (batch.decodeBatch wire).1 = .ok ops → ∀ op ∈ ops, op.validate = .ok () := by
  induction wire generalizing batch with
  | nil =>
    refine ⟨h.decoder, fun ops hops => ?_⟩
    cases hops
    rintro _ ⟨⟩
  | cons record wire ih =>
    rw [Batch.decodeBatch]
    cases hrec : batch.decodeOp record with
    | error error => exact ⟨h.decoder, by rintro _ ⟨⟩⟩
    | ok outcome =>
      obtain ⟨next, decoded⟩ := outcome
      obtain ⟨hnext, hdecoded⟩ := h.decodeOp hrec
      obtain ⟨hsafe, hrest⟩ := ih hnext
      refine ⟨hsafe, fun ops hops => ?_⟩
      dsimp only at hops
      cases hbat : (next.decodeBatch wire).1 with
      | error error =>
        rw [hbat] at hops
        cases hops
      | ok more =>
        rw [hbat] at hops
        cases hops
        exact forall_mem_append.mpr ⟨hdecoded, hrest more hbat⟩

theorem decoder_short (hnext : batch.short check op = .ok (next, ops)) :
    next.decoder = batch.decoder := by
  rw [Batch.short] at hnext
  split at hnext
  · cases hnext
  · obtain ⟨_, -, hnext⟩ := bind_ok hnext
    cases hnext
    rfl

theorem decoder_full (hnext : batch.full ref check op = .ok (next, ops)) :
    next.decoder = batch.decoder := by
  obtain ⟨_, -, hnext⟩ := bind_ok hnext
  obtain ⟨_, -, hnext⟩ := bind_ok hnext
  cases hnext
  rfl

/-- A batch that defines and replaces nothing leaves the dictionary alone. -/
theorem decoder_decodeBatch (hwire : wire.any isDictionaryMutating = false) :
    (batch.decodeBatch wire).2 = batch.decoder := by
  induction wire generalizing batch with
  | nil => rfl
  | cons record wire ih =>
    rw [any_cons, Bool.or_eq_false_iff] at hwire
    rw [Batch.decodeBatch]
    cases hrec : batch.decodeOp record with
    | error error => rfl
    | ok outcome =>
      obtain ⟨next, decoded⟩ := outcome
      have hsame : next.decoder = batch.decoder := by
        obtain ⟨_, -, hnext⟩ := bind_ok hrec
        cases record with
        | define | replace => cases hwire.1
        | setShort | deleteShort | appendShort | truncateShort | spliceShort =>
          exact decoder_short hnext
        | set | delete | append | truncate | splice => exact decoder_full hnext
      exact (ih hwire.2).trans hsame

end Batch

variable {dec : DeltaDecoder} {wire : List WireOp}

/-- Decoding returns what its records decode to, with the dictionary they leave or the old one. -/
theorem decode_cases (dec : DeltaDecoder) (wire : List WireOp) :
    (∃ ops, (Batch.decodeBatch ⟨dec, none⟩ wire).1 = .ok ops ∧
      dec.decode wire = (.ok ops, (Batch.decodeBatch ⟨dec, none⟩ wire).2)) ∨
      ∃ error, dec.decode wire = (.error error, dec) := by
  rw [decode]
  dsimp only
  cases hbat : (Batch.decodeBatch ⟨dec, none⟩ wire).1 with
  | ok ops => exact .inl ⟨ops, rfl, rfl⟩
  | error error =>
    refine .inr ⟨error, Prod.ext rfl ?_⟩
    dsimp only
    split_ifs with hmutating
    · rfl
    · exact Batch.decoder_decodeBatch (Bool.eq_false_iff.mpr hmutating)

theorem Reachable.safe (h : Reachable dec) : dec.Safe := by
  induction h with
  | new | reset => exact safe_new
  | @decode dec wire _ ih =>
    have hbat : Batch.Safe ⟨dec, none⟩ := ⟨ih, nofun⟩
    rcases decode_cases dec wire with ⟨ops, -, heq⟩ | ⟨error, heq⟩
    · rw [heq]
      exact hbat.decodeBatch.1
    · rw [heq]
      exact ih

/-- A rejected batch leaves the dictionary as it was, and an accepted one decodes to operations
that pass their validation. -/
theorem Reachable.decode_transactional (h : Reachable dec) (wire : List WireOp) :
    (∀ error, (dec.decode wire).1 = .error error → (dec.decode wire).2 = dec) ∧
      ∀ ops, (dec.decode wire).1 = .ok ops → validateAll ops = .ok () := by
  have hbatch : Batch.Safe ⟨dec, none⟩ := ⟨h.safe, nofun⟩
  rcases decode_cases dec wire with ⟨ops, hops, heq⟩ | ⟨error, heq⟩
  · rw [heq]
    refine ⟨nofun, fun _ hsame => ?_⟩
    cases hsame
    exact validateAll_eq_ok_iff.mpr (hbatch.decodeBatch.2 ops hops)
  · rw [heq]
    exact ⟨fun _ _ => rfl, nofun⟩

/-- A short form after a splice of the root. -/
theorem decode_transactional_root :
    (new.decode [.splice (.inline StatePath.root) JsInteger.zero JsInteger.zero [], .deleteShort]).2 =
      new :=
  (Reachable.new.decode_transactional _).1 (.path StatePath.root) rfl

end DeltaDecoder

end PiOxidized.Service.Delta
