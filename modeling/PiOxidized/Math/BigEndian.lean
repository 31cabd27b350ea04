/-
# Numbers in bytes

A number in a fixed count of bytes, the most significant first.
-/

import Mathlib.Data.List.Basic
import Mathlib.Tactic.Ring

namespace PiOxidized.Math.BigEndian

open List

/-- The last bytes of a number. -/
def encode : Nat → Nat → List UInt8
  | 0, _ => []
  | count + 1, n => UInt8.ofNat (n / 256 ^ count) :: encode count n

/-- The number some bytes stand for. -/
def decode (bytes : List UInt8) : Nat := bytes.foldl (fun n b => n * 256 + b.toNat) 0

@[simp]
theorem length_encode (count n : Nat) : (encode count n).length = count := by
  induction count with
  | zero => rfl
  | succ count ih => rw [encode, length_cons, ih]

theorem foldl_eq (bytes : List UInt8) (n : Nat) :
    bytes.foldl (fun n b => n * 256 + b.toNat) n = n * 256 ^ bytes.length + decode bytes := by
  induction bytes generalizing n with
  | nil => simp [decode]
  | cons b bytes ih =>
    rw [decode, foldl_cons, foldl_cons, ih, ih (0 * 256 + b.toNat), length_cons]
    ring

theorem decode_cons (b : UInt8) (bytes : List UInt8) :
    decode (b :: bytes) = b.toNat * 256 ^ bytes.length + decode bytes := by
  rw [decode, foldl_cons, foldl_eq, Nat.zero_mul, Nat.zero_add]

theorem decode_encode_mod (count n : Nat) : decode (encode count n) = n % 256 ^ count := by
  induction count with
  | zero => simp [encode, decode, Nat.mod_one]
  | succ count ih =>
    have hbyte : (UInt8.ofNat (n / 256 ^ count)).toNat = n / 256 ^ count % 256 := UInt8.toNat_ofNat'
    rw [encode, decode_cons, length_encode, ih, hbyte, Nat.pow_succ, Nat.mod_mul, Nat.mul_comm,
      Nat.add_comm]

/-- A number that fits is recovered. -/
theorem decode_encode {count n : Nat} (h : n < 256 ^ count) : decode (encode count n) = n := by
  rw [decode_encode_mod, Nat.mod_eq_of_lt h]

theorem decode_lt (bytes : List UInt8) : decode bytes < 256 ^ bytes.length := by
  induction bytes with
  | nil => exact Nat.one_pos
  | cons b bytes ih =>
    have hbyte : b.toNat ≤ 255 := Nat.le_of_lt_succ b.toNat_lt
    rw [decode_cons, length_cons, Nat.pow_succ]
    calc
      b.toNat * 256 ^ bytes.length + decode bytes
          < b.toNat * 256 ^ bytes.length + 256 ^ bytes.length := Nat.add_lt_add_left ih _
      _ = (b.toNat + 1) * 256 ^ bytes.length := by ring
      _ ≤ 256 * 256 ^ bytes.length := Nat.mul_le_mul_right _ (Nat.succ_le_succ hbyte)
      _ = 256 ^ bytes.length * 256 := Nat.mul_comm _ _

end PiOxidized.Math.BigEndian
