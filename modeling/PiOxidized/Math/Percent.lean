/-
# Percent encoding

Bytes as text in which some bytes stand for themselves and the others are escaped.  When
every byte that stands for itself is an ASCII character other than the escape, the bytes
are read back, so no two lists of bytes have one text.
-/

import PiOxidized.Math.Utf8

namespace PiOxidized.Math.Percent

open List

/-- A hexadecimal digit, in upper case. -/
def hexDigit (n : Nat) : Char := Char.ofNat (if n < 10 then 48 + n else 55 + n)

/-- The value of a hexadecimal digit of either case. -/
def hexValue (c : Char) : Option Nat := if '0' ≤ c ∧ c ≤ '9' then some (c.toNat - 48)
  else if 'A' ≤ c ∧ c ≤ 'F' then some (c.toNat - 55)
  else if 'a' ≤ c ∧ c ≤ 'f' then some (c.toNat - 87)
  else none

/-- An escaped byte. -/
def escape (byte : UInt8) : List Char :=
  ['%', hexDigit (byte.toNat / 16), hexDigit (byte.toNat % 16)]

/-- Escape every byte that is not kept. -/
def encode (kept : UInt8 → Bool) (bytes : List UInt8) : List Char :=
  bytes.flatMap fun byte => if kept byte then [Char.ofNat byte.toNat] else escape byte

/-- The byte that two hexadecimal digits after the escape stand for, and what follows them. -/
def escaped? : List Char → Option (UInt8 × List Char)
  | high :: low :: rest =>
    match hexValue high, hexValue low with
    | some h, some l => some (UInt8.ofNat (16 * h + l), rest)
    | _, _ => none
  | _ => none

theorem length_escaped? {text rest : List Char} {byte : UInt8}
    (h : escaped? text = some (byte, rest)) : rest.length < text.length := by
  cases text with
  | nil => cases h
  | cons high text =>
    cases text with
    | nil => cases h
    | cons low text =>
      simp only [escaped?] at h
      split at h
      · cases h
        rw [length_cons, length_cons]
        omega
      · cases h

/-- Read escaped bytes; an escape without two digits stands for itself. -/
def decode : List Char → List UInt8
  | [] => []
  | c :: text =>
    if c = '%' then
      match _h : escaped? text with
      | some (byte, rest) => byte :: decode rest
      | none => String.utf8EncodeChar c ++ decode text
    else String.utf8EncodeChar c ++ decode text
termination_by text => text.length
decreasing_by
  all_goals simp only [length_cons]
  · have := length_escaped? _h
    omega
  · omega
  · omega

variable {n : Nat}

theorem decode_nil : decode [] = [] := by
  rw [decode]

theorem hexValue_hexDigit (h : n < 16) : hexValue (hexDigit n) = some n := by
  revert n
  decide +kernel

theorem utf8EncodeChar_ofNat (h : n < 128) :
    String.utf8EncodeChar (Char.ofNat n) = [UInt8.ofNat n] := by
  revert n
  decide +kernel

theorem ofNat_eq_percent_iff (h : n < 128) : Char.ofNat n = '%' ↔ n = 37 := by
  revert n
  decide +kernel

/-- An escaped byte is read back. -/
theorem decode_escape (byte : UInt8) (text : List Char) :
    decode (escape byte ++ text) = byte :: decode text := by
  have hbyte := byte.toNat_lt
  have hescaped : escaped? (hexDigit (byte.toNat / 16) :: hexDigit (byte.toNat % 16) :: text) =
      some (byte, text) := by
    rw [escaped?, hexValue_hexDigit (by omega), hexValue_hexDigit (Nat.mod_lt _ (by omega))]
    simp only [Nat.div_add_mod, UInt8.ofNat_toNat]
  change decode ('%' :: hexDigit (byte.toNat / 16) :: hexDigit (byte.toNat % 16) :: text) = _
  rw [decode, if_pos rfl]
  split
  · rename_i other rest hsome
    rw [hescaped] at hsome
    cases hsome
    rfl
  · rename_i hnone
    rw [hescaped] at hnone
    cases hnone

/-- A byte that stands for itself is read back. -/
theorem decode_kept {byte : UInt8} (hascii : byte.toNat < 128) (hpercent : byte.toNat ≠ 37)
    (text : List Char) : decode (Char.ofNat byte.toNat :: text) = byte :: decode text := by
  rw [decode, if_neg (fun h => hpercent ((ofNat_eq_percent_iff hascii).mp h)),
    utf8EncodeChar_ofNat hascii, UInt8.ofNat_toNat]
  rfl

variable {kept : UInt8 → Bool}

/-- The bytes are read back. -/
theorem decode_encode (hkept : ∀ byte, kept byte = true → byte.toNat < 128 ∧ byte.toNat ≠ 37)
    (bytes : List UInt8) : decode (encode kept bytes) = bytes := by
  induction bytes with
  | nil => exact decode_nil
  | cons byte bytes ih =>
    rw [encode, flatMap_cons, ← encode]
    cases hbyte : kept byte with
    | true =>
      obtain ⟨hascii, hpercent⟩ := hkept byte hbyte
      rw [if_pos rfl, singleton_append, decode_kept hascii hpercent, ih]
    | false => rw [if_neg Bool.false_ne_true, decode_escape, ih]

theorem encode_injective (hkept : ∀ byte, kept byte = true → byte.toNat < 128 ∧ byte.toNat ≠ 37) :
    Function.Injective (encode kept) :=
  Function.LeftInverse.injective (decode_encode hkept)

end PiOxidized.Math.Percent
