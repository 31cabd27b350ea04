/-
# Bytes that need not be text

The decoding of any bytes one after another, in which every maximal part of a character that does
not go on is one replacement character.  A validator that looks at whole slices and says how far
they are a text, and how long the invalid bytes behind it are, tells enough to decode slice by
slice.
-/

import PiOxidized.Math.Utf8

namespace PiOxidized.Math.Utf8

/-- What stands for bytes that are no character. -/
def replacement : Char := Char.ofNat 0xfffd

/-- The first bits of the character that a byte starts, and the ranges of the bytes behind it. -/
def lead (byte : Nat) : Option (Nat × List (Nat × Nat)) := if byte < 0x80 then some (byte, [])
  else if byte < 0xc2 then none
  else if byte < 0xe0 then some (byte - 0xc0, [(0x80, 0xbf)])
  else if byte < 0xf0 then
    some (byte - 0xe0,
      [(if byte = 0xe0 then 0xa0 else 0x80, if byte = 0xed then 0x9f else 0xbf), (0x80, 0xbf)])
  else if byte < 0xf5 then
    some (byte - 0xf0, [(if byte = 0xf0 then 0x90 else 0x80, if byte = 0xf4 then 0x8f else 0xbf),
      (0x80, 0xbf), (0x80, 0xbf)])
  else none

/-! ## One byte after another -/

/-- The bits of a character that is not over, the range of its next byte, and those of the bytes
behind that one. -/
abbrev Unfinished := Option (Nat × (Nat × Nat) × List (Nat × Nat))

/-- A byte between two characters. -/
def start (byte : UInt8) : List Char × Unfinished := match lead byte.toNat with
  | none => ([replacement], none)
  | some (code, []) => ([Char.ofNat code], none)
  | some (code, range :: ranges) => ([], some (code, range, ranges))

/-- A byte goes on with a character, or that one is replaced and the byte is looked at again. -/
def push : Unfinished → UInt8 → List Char × Unfinished
  | none, byte => start byte
  | some (code, (low, high), ranges), byte =>
    if low ≤ byte.toNat ∧ byte.toNat ≤ high then
      match ranges with
      | [] => ([Char.ofNat (code * 64 + byte.toNat % 64)], none)
      | range :: ranges => ([], some (code * 64 + byte.toNat % 64, range, ranges))
    else (replacement :: (start byte).1, (start byte).2)

def decodeFrom : Unfinished → List UInt8 → List Char × Unfinished
  | state, [] => ([], state)
  | state, byte :: bytes =>
    ((push state byte).1 ++ (decodeFrom (push state byte).2 bytes).1,
      (decodeFrom (push state byte).2 bytes).2)

/-- What is unfinished at the end is replaced. -/
def flush : Unfinished → List Char
  | none => []
  | some _ => [replacement]

/-- The text of any bytes. -/
def lossy (bytes : List UInt8) : List Char :=
  (decodeFrom none bytes).1 ++ flush (decodeFrom none bytes).2

variable {bytes seen : List UInt8} {state : Unfinished}

theorem decodeFrom_append (state : Unfinished) (bytes more : List UInt8) :
    decodeFrom state (bytes ++ more) =
      ((decodeFrom state bytes).1 ++ (decodeFrom (decodeFrom state bytes).2 more).1,
        (decodeFrom (decodeFrom state bytes).2 more).2) := by
  induction bytes generalizing state with
  | nil => simp [decodeFrom]
  | cons byte bytes ih => simp [decodeFrom, ih]

/-! ## Slice by slice -/

/-- Where bytes stop being a text: the bytes from there on, and how many of them are invalid unless
they end too early. -/
structure Utf8Error where
  rest : List UInt8
  errorLen : Option Nat
  deriving DecidableEq

/-- The text up to the first error, and that error, behind the bytes of a character that is not
over. -/
def validate : List UInt8 → Unfinished → List UInt8 → List Char × Option Utf8Error
  | _, none, [] => ([], none)
  | seen, some _, [] => ([], some ⟨seen, none⟩)
  | _, none, byte :: bytes =>
    match lead byte.toNat with
    | none => ([], some ⟨byte :: bytes, some 1⟩)
    | some (code, []) =>
      (Char.ofNat code :: (validate [] none bytes).1, (validate [] none bytes).2)
    | some (code, range :: ranges) => validate [byte] (some (code, range, ranges)) bytes
  | seen, some (code, (low, high), ranges), byte :: bytes =>
    if low ≤ byte.toNat ∧ byte.toNat ≤ high then
      match ranges with
      | [] =>
        (Char.ofNat (code * 64 + byte.toNat % 64) :: (validate [] none bytes).1,
          (validate [] none bytes).2)
      | range :: ranges =>
        validate (seen ++ [byte]) (some (code * 64 + byte.toNat % 64, range, ranges)) bytes
    else ([], some ⟨seen ++ byte :: bytes, some seen.length⟩)

def fromUtf8 (bytes : List UInt8) : List Char × Option Utf8Error := validate [] none bytes

/-- What a validator tells of the text that is decoded. -/
def Tells (bytes : List UInt8) : List Char × Option Utf8Error → Prop
  | (text, none) => decodeFrom none bytes = (text, none)
  | (text, some ⟨rest, some len⟩) => (rest.drop len).length < bytes.length ∧
      decodeFrom none bytes = (text ++ replacement :: (decodeFrom none (rest.drop len)).1,
        (decodeFrom none (rest.drop len)).2)
  | (text, some ⟨rest, none⟩) => ∃ unfinished, decodeFrom none rest = ([], some unfinished) ∧
      decodeFrom none bytes = (text, some unfinished)

theorem Tells.cons {c : Char} {result : List Char × Option Utf8Error} (h : Tells bytes result)
    (hseen : decodeFrom none seen = ([c], none)) :
    Tells (seen ++ bytes) (c :: result.1, result.2) := by
  have happ := decodeFrom_append none seen bytes
  rw [hseen] at happ
  rcases result with ⟨text, _ | ⟨rest, _ | len⟩⟩
  · exact happ.trans (by rw [show decodeFrom none bytes = (text, none) from h]; rfl)
  · obtain ⟨unfinished, hrest, hdec⟩ := h
    exact ⟨unfinished, hrest, happ.trans (by rw [hdec]; rfl)⟩
  · exact ⟨Nat.lt_of_lt_of_le h.1 (by simp), happ.trans (by rw [h.2]; rfl)⟩

/-- The validator goes byte by byte with the decoder. -/
theorem tells_validate (hseen : decodeFrom none seen = ([], state))
    (hnone : state = none → seen = []) : Tells (seen ++ bytes) (validate seen state bytes) := by
  induction bytes generalizing seen state with
  | nil =>
    rw [List.append_nil]
    cases state with
    | none => exact hseen
    | some unfinished => exact ⟨unfinished, hseen, hseen⟩
  | cons byte bytes ih =>
    have hpush : decodeFrom none (seen ++ [byte]) = push state byte := by
      simp [decodeFrom_append, hseen, decodeFrom]
    have hsplit : seen ++ byte :: bytes = seen ++ [byte] ++ bytes := by simp
    have hover (c : Char) (hc : push state byte = ([c], none)) : Tells (seen ++ byte :: bytes)
        (c :: (validate [] none bytes).1, (validate [] none bytes).2) := by
      rw [hsplit]
      exact (ih rfl fun _ => rfl).cons (hpush.trans hc)
    cases state with
    | none =>
      obtain rfl := hnone rfl
      rw [validate]
      cases hlead : lead byte.toNat with
      | none =>
        refine ⟨Nat.lt_succ_self _, ?_⟩
        simp [decodeFrom, push, start, hlead]
      | some found =>
        obtain ⟨code, _ | ⟨range, ranges⟩⟩ := found
        · exact hover _ (by simp [push, start, hlead])
        · exact @ih [byte] _ (hpush.trans (by simp [push, start, hlead])) nofun
    | some unfinished =>
      obtain ⟨code, ⟨low, high⟩, ranges⟩ := unfinished
      by_cases hrng : low ≤ byte.toNat ∧ byte.toNat ≤ high
      · cases ranges with
        | nil =>
          rw [validate.eq_def]
          simp only [if_pos hrng]
          exact hover _ (by simp [push, hrng])
        | cons range ranges =>
          rw [validate.eq_def, hsplit]
          simp only [if_pos hrng]
          exact ih (hpush.trans (by simp [push, hrng])) nofun
      · rw [validate.eq_def]
        simp only [if_neg hrng]
        have hpos : 0 < seen.length := by
          cases seen with
          | nil => cases hseen
          | cons first seen => exact Nat.succ_pos _
        refine ⟨by simp [hpos], ?_⟩
        rw [List.drop_left, decodeFrom_append, hseen]
        simp [decodeFrom, push, hrng]

/-- A validator tells what is decoded up to the first error, and where to go on behind it. -/
theorem tells_fromUtf8 (bytes : List UInt8) : Tells bytes (fromUtf8 bytes) :=
  tells_validate rfl fun _ => rfl

end PiOxidized.Math.Utf8
