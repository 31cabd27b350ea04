/-
# Text as bytes

Characters and their UTF-8 bytes.  A text is recovered from its bytes, and the first
bytes of a text are a text exactly when they end at a character boundary.
-/

import Mathlib.Data.List.Basic

namespace PiOxidized.Math.Utf8

open List

/-- The bytes of a text. -/
def encode (text : List Char) : List UInt8 := text.flatMap String.utf8EncodeChar

/-- The text some bytes stand for, if they are valid. -/
def decode (bytes : List UInt8) : Option (List Char) :=
  bytes.toByteArray.utf8Decode?.map Array.toList

variable {text : List Char} {bytes : List UInt8}

theorem encode_append (text more : List Char) : encode (text ++ more) = encode text ++ encode more :=
  flatMap_append

theorem toByteArray_encode (text : List Char) : (encode text).toByteArray = text.utf8Encode := rfl

@[simp]
theorem decode_encode (text : List Char) : decode (encode text) = some text := by
  rw [decode, toByteArray_encode, utf8Decode?_utf8Encode]
  rfl

theorem toByteArray_injective : Function.Injective (toByteArray : List UInt8 → ByteArray) := by
  intro first second h
  have hdata := congrArg (fun array : ByteArray => array.data.toList) h
  simpa using hdata

/-- Bytes decode to the one text they are the bytes of. -/
theorem decode_eq_some_iff : decode bytes = some text ↔ bytes = encode text := by
  constructor
  · intro h
    obtain ⟨chars, hchars, rfl⟩ := Option.map_eq_some_iff.mp h
    have hget := ByteArray.utf8Encode_get_utf8Decode? (b := bytes.toByteArray)
      (h := Option.isSome_of_eq_some hchars)
    apply toByteArray_injective
    rw [toByteArray_encode, ← hget]
    simp only [hchars, Option.get_some]
  · rintro rfl
    exact decode_encode text

theorem encode_injective : Function.Injective encode := by
  intro first second h
  have hdec := decode_encode first
  rw [h, decode_encode] at hdec
  exact (Option.some.inj hdec).symm

/-- A text of which another text's bytes are the first bytes begins with that text. -/
theorem exists_append_of_encode_append {other : List Char} (h : encode text ++ bytes = encode other) :
    ∃ rest : List Char, other = text ++ rest ∧ bytes = encode rest := by
  have harray : text.utf8Encode ++ bytes.toByteArray = other.utf8Encode := by
    rw [← toByteArray_encode, ← toByteArray_encode, ← h, toByteArray_append]
  obtain ⟨rest, rfl⟩ := isPrefix_of_utf8Encode_append_eq_utf8Encode _ harray
  rw [encode_append] at h
  exact ⟨rest, rfl, append_cancel_left h⟩

/-- After a text the bytes decode as they do alone. -/
theorem decode_encode_append (text : List Char) (bytes : List UInt8) :
    decode (encode text ++ bytes) = (decode bytes).map (text ++ ·) := by
  cases hdec : decode bytes with
  | some rest =>
    rw [decode_eq_some_iff.mp hdec, ← encode_append, decode_encode]
    rfl
  | none =>
    cases hall : decode (encode text ++ bytes) with
    | none => rfl
    | some other =>
      obtain ⟨rest, -, rfl⟩ := exists_append_of_encode_append (decode_eq_some_iff.mp hall)
      rw [decode_encode] at hdec
      cases hdec

/-- A number of bytes after which a character of the text starts or the text ends. -/
def Boundary (text : List Char) (count : Nat) : Prop :=
  ∃ before rest : List Char, text = before ++ rest ∧ (encode before).length = count

variable {count : Nat}

theorem boundary_iff_exists_take :
    Boundary text count ↔ ∃ n ∈ range (text.length + 1), (encode (text.take n)).length = count := by
  constructor
  · rintro ⟨pre, rest, rfl, hcnt⟩
    refine ⟨pre.length, mem_range.mpr ?_, ?_⟩
    · rw [length_append]
      omega
    · rw [take_left', hcnt]
      rfl
  · rintro ⟨n, -, hcnt⟩
    exact ⟨text.take n, text.drop n, (take_append_drop n text).symm, hcnt⟩

instance (text : List Char) (count : Nat) : Decidable (Boundary text count) :=
  decidable_of_iff' _ boundary_iff_exists_take

/-- The first bytes of a text at a boundary are its first characters. -/
theorem Boundary.take (h : Boundary text count) : ∃ pre rest : List Char, text = pre ++ rest ∧
      (encode text).take count = encode pre := by
  obtain ⟨pre, rest, rfl, rfl⟩ := h
  refine ⟨pre, rest, rfl, ?_⟩
  rw [encode_append, take_left']
  rfl

/-- The first bytes of a text are valid exactly at its boundaries. -/
theorem decode_take_isSome_iff (hcnt : count ≤ (encode text).length) :
    (decode ((encode text).take count)).isSome ↔ Boundary text count := by
  constructor
  · intro h
    obtain ⟨pre, hpre⟩ := Option.isSome_iff_exists.mp h
    have hbytes := decode_eq_some_iff.mp hpre
    have happ : encode pre ++ (encode text).drop count = encode text := by
      rw [← hbytes, take_append_drop]
    obtain ⟨rest, hrest, -⟩ := exists_append_of_encode_append happ
    refine ⟨pre, rest, hrest, ?_⟩
    rw [← hbytes, length_take, Nat.min_eq_left hcnt]
  · intro h
    obtain ⟨pre, rest, -, htake⟩ := h.take
    rw [htake, decode_encode]
    rfl

end PiOxidized.Math.Utf8
