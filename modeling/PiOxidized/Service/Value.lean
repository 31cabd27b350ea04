/-
# The canonical value domain

Strings own UTF-16 code units, numbers are binary64 bit patterns, and objects
keep their members in code-unit key order.  Equality, cloning and admission are
written over explicit work lists, as the source writes them so that deep
documents do not exhaust the call stack; each is shown to compute the structural
notion it stands for.
-/

import PiOxidized.Math.Binary64
import PiOxidized.Math.OrderedMap

namespace PiOxidized.Service

open Math

/-! ## Strings -/

/-- A string of UTF-16 code units, unpaired surrogates included. -/
structure JsString where
  /-- The exact code units. -/
  units : List UInt16
  deriving DecidableEq, Inhabited

namespace JsString

/-- The code units as numbers, the key strings are ordered by. -/
def ordinals (s : JsString) : List Nat := s.units.map UInt16.toNat

theorem ordinals_injective : Function.Injective ordinals := by
  rintro ⟨first⟩ ⟨second⟩ h
  have hunits : Function.Injective UInt16.toNat := fun _ _ => UInt16.toNat_inj.mp
  simpa using List.map_injective_iff.mpr hunits h

/-- Strings are ordered by their code units, lexicographically. -/
instance : LinearOrder JsString where
  le a b := a.ordinals ≤ b.ordinals
  lt a b := a.ordinals < b.ordinals
  le_refl a := le_refl a.ordinals
  le_trans _ _ _ := le_trans
  le_antisymm _ _ hab hba := ordinals_injective (le_antisymm hab hba)
  le_total a b := le_total a.ordinals b.ordinals
  lt_iff_le_not_ge a b := lt_iff_le_not_ge (a := a.ordinals) (b := b.ordinals)
  toDecidableLE a b := inferInstanceAs (Decidable (a.ordinals ≤ b.ordinals))
  toDecidableLT a b := inferInstanceAs (Decidable (a.ordinals < b.ordinals))
  toDecidableEq := inferInstance

/-- The UTF-16 encoding of one scalar value. -/
def encodeUtf16 (c : Char) : List UInt16 := if c.toNat < 0x10000 then [UInt16.ofNat c.toNat] else
    [UInt16.ofNat (0xD800 + (c.toNat - 0x10000) / 0x400),
      UInt16.ofNat (0xDC00 + (c.toNat - 0x10000) % 0x400)]

/-- Encode text into UTF-16 code units. -/
def fromUtf8 (text : String) : JsString := ⟨text.toList.flatMap encodeUtf16⟩

end JsString

/-! ## Integers -/

/-- Why a conversion into or out of the value domain failed. -/
inductive ValueError
  | notInteger (value : Binary64)
  | nonFinite (value : Binary64)
  | loneSurrogate (index : Nat)
  deriving DecidableEq

/-- A nonnegative finite integral binary64.  The stored bits keep the sign of
zero; identity folds it. -/
structure JsInteger where
  /-- The stored number. -/
  value : Binary64
  /-- The domain check every constructor performs. -/
  valid : value.isNonnegInteger = true
  deriving DecidableEq

namespace JsInteger

/-- Validate and store one nonnegative finite integral number. -/
def new (value : Binary64) : Except ValueError JsInteger :=
  if h : value.isNonnegInteger = true then .ok ⟨value, h⟩ else .error (.notInteger value)

/-- Positive zero. -/
def zero : JsInteger := ⟨Binary64.zero, by decide +kernel⟩

/-- One. -/
def one : JsInteger := ⟨Binary64.one, by decide +kernel⟩

instance : Inhabited JsInteger := ⟨zero⟩

/-- Add one in binary64 arithmetic; past `2 ^ 53` this may be the input again. -/
def next (n : JsInteger) : JsInteger :=
  ⟨n.value.add Binary64.one, Binary64.isNonnegInteger_add_one n.valid⟩

/-- The integer denoted by the stored number. -/
def toNat (n : JsInteger) : Nat := n.value.toNat

/-- Clamp to a collection length.  The conversion goes through `u128`, whose
saturation is not observable behind the `usize` conversion. -/
def clampToLen (n : JsInteger) (len : Nat) : Nat :=
  if min n.toNat (2 ^ 128 - 1) < 2 ^ 64 then min n.toNat len else len

/-- Fold negative zero to positive zero for identity operations. -/
def normalized (n : JsInteger) : Binary64 := n.value.normalized

/-- Equality compares normalized bits. -/
def eq (m n : JsInteger) : Bool := m.normalized.bits == n.normalized.bits

instance : BEq JsInteger := ⟨eq⟩

/-- A collection size or index in the binary64 integer domain, rounding to
nearest. -/
def count (n : Nat) : JsInteger := (new (Binary64.ofNat n)).toOption.getD zero

variable {n : JsInteger}

theorem isZero_iff_toNat : n.value.isZero = true ↔ n.toNat = 0 := by
  have hmag := Binary64.toNat_mul n.valid
  have hscale := Binary64.scale_pos
  have hfields := n.value.word_mod_eq
  rw [Binary64.isZero_iff, hfields]
  constructor
  · intro hzero
    have hexpo : n.value.exponent = 0 := by omega
    have hfraction : n.value.fraction = 0 := by omega
    simp [toNat, Binary64.toNat, Binary64.magnitude, hexpo, hfraction]
  · intro hzero
    have hvanish : n.value.magnitude = 0 := by
      rw [← hmag, show n.value.toNat = 0 from hzero, Nat.mul_zero]
    have hfin := (Binary64.isNonnegInteger_iff.mp n.valid).1
    have hround := Binary64.roundWord_magnitude hfin
    rw [hvanish, hfields] at hround
    rw [← hround]
    decide

/-- Identity of integers is identity of the integers they denote. -/
theorem eq_iff {m : JsInteger} : (m == n) = true ↔ m.toNat = n.toNat := by
  show m.eq n = true ↔ _
  simp only [eq, normalized, Binary64.normalized, beq_iff_eq]
  constructor
  · intro hbits
    by_cases hm : m.value.isZero = true <;> by_cases hn : n.value.isZero = true
    · rw [isZero_iff_toNat.mp hm, isZero_iff_toNat.mp hn]
    · rw [if_pos hm, if_neg hn] at hbits
      have : n.value = Binary64.zero := Binary64.eq_of_word_eq (by simp [Binary64.word, hbits])
      exact absurd (by rw [this]; decide) hn
    · rw [if_neg hm, if_pos hn] at hbits
      have : m.value = Binary64.zero := Binary64.eq_of_word_eq (by simp [Binary64.word, hbits])
      exact absurd (by rw [this]; decide) hm
    · rw [if_neg hm, if_neg hn] at hbits
      have : m.value = n.value := Binary64.eq_of_word_eq (by simp [Binary64.word, hbits])
      simp [toNat, this]
  · intro h
    rcases Binary64.word_eq_or_isZero m.valid n.valid h with heq | ⟨hm, hn⟩
    · rw [heq]
    · rw [if_pos hm, if_pos hn]

/-- Apart from the negative zero, an integer has one spelling. -/
theorem eq_of_toNat_eq {m : JsInteger} (h : m.toNat = n.toNat) (hm : m.value ≠ Binary64.negZero)
    (hn : n.value ≠ Binary64.negZero) : m = n := by
  have hvalue : m.value = n.value := by
    rcases Binary64.word_eq_or_isZero m.valid n.valid h with heq | ⟨hmzero, hnzero⟩
    · exact heq
    · rw [(Binary64.eq_zero_or_negZero hmzero).resolve_right hm,
        (Binary64.eq_zero_or_negZero hnzero).resolve_right hn]
  obtain ⟨value, valid⟩ := m
  obtain ⟨value', valid'⟩ := n
  obtain rfl : value = value' := hvalue
  rfl

instance : EquivBEq JsInteger where
  symm h := eq_iff.mpr (eq_iff.mp h).symm
  trans h h' := eq_iff.mpr ((eq_iff.mp h).trans (eq_iff.mp h'))
  rfl := eq_iff.mpr rfl

@[simp]
theorem toNat_zero : zero.toNat = 0 := isZero_iff_toNat.mp (by decide +kernel)

theorem new_of_isNonnegInteger {x : Binary64} (h : x.isNonnegInteger = true) :
    new x = .ok ⟨x, h⟩ := dif_pos h

theorem value_getD_new {x : Binary64} (h : x.isNonnegInteger = true) (fallback : JsInteger) :
    ((new x).toOption.getD fallback).value = x := by
  rw [new_of_isNonnegInteger h]
  rfl

theorem count_value {n : Nat} (h : n ≤ 2 ^ 53) : (count n).value = Binary64.ofNat n :=
  value_getD_new (Binary64.isNonnegInteger_ofNat h) zero

@[simp]
theorem toNat_count {n : Nat} (h : n ≤ 2 ^ 53) : (count n).toNat = n := by
  rw [toNat, count_value h]
  exact Binary64.toNat_ofNat h

theorem toNat_next (h : n.toNat < 2 ^ 53) : n.next.toNat = n.toNat + 1 := by
  simp only [next, toNat] at *
  rw [Binary64.add_one n.valid, Binary64.toNat_ofNat h]

/-- A small count is clamped by the length alone. -/
theorem clampToLen_count {n len : Nat} (h : n ≤ 2 ^ 53) : (count n).clampToLen len = min n len := by
  simp only [clampToLen, toNat_count h]
  rw [if_pos (by omega)]

/-- An index inside a collection is the same inside every longer one. -/
theorem clampToLen_of_lt {len len' : Nat} (h : n.clampToLen len < len) (hle : len ≤ len') :
    n.clampToLen len' = n.clampToLen len := by
  simp only [clampToLen] at h ⊢
  split_ifs at h ⊢ with hsmall
  · omega
  · omega

end JsInteger

end PiOxidized.Service
