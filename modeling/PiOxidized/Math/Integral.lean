/-
# Integers among the binary64 numbers

The numbers without a fractional part, the integers they denote, and the number that denotes an
integer.  Apart from negative zero, either determines the other.
-/

import PiOxidized.Math.Binary64

namespace PiOxidized.Math.Binary64

variable {x : Binary64}

/-- A finite number without a fractional part. -/
def isIntegral (x : Binary64) : Bool := x.isFinite && x.magnitude % scale == 0

/-- The integer part of a finite number. -/
def trunc (x : Binary64) : Int := if x.isSignNegative then -(x.toNat : Int) else x.toNat

/-- Whether the absolute value of a finite number is greater than a natural number. -/
def absExceeds (x : Binary64) (n : Nat) : Bool := scale * n < x.magnitude

/-- Conversion of a signed integer, rounding to nearest. -/
def ofInt (n : Int) : Binary64 := ofMagnitude (n < 0) (scale * n.natAbs)

variable {n : Int}

theorem isIntegral_iff : x.isIntegral = true ↔ x.isFinite = true ∧ scale ∣ x.magnitude := by
  simp [isIntegral, Nat.dvd_iff_mod_eq_zero]

/-- The magnitude of an integral number is its integer value, rescaled. -/
theorem scale_mul_toNat (h : x.isIntegral = true) : scale * x.toNat = x.magnitude :=
  Nat.mul_div_cancel' (isIntegral_iff.mp h).2

theorem natAbs_trunc (x : Binary64) : x.trunc.natAbs = x.toNat := by
  rw [trunc]
  split_ifs <;> simp

theorem absExceeds_iff (h : x.isIntegral = true) {n : Nat} :
    x.absExceeds n = true ↔ n < x.trunc.natAbs := by
  rw [absExceeds, decide_eq_true_iff, ← scale_mul_toNat h, natAbs_trunc,
    Nat.mul_lt_mul_left scale_pos]

/-- A finite number of the magnitude zero is one of the zeros. -/
theorem isZero_of_toNat_eq_zero (h : x.isIntegral = true) (hzero : x.toNat = 0) :
    x.isZero = true := by
  have hmag := scale_mul_toNat h
  rw [hzero, Nat.mul_zero] at hmag
  have hround := roundWord_magnitude (isIntegral_iff.mp h).1
  rw [← hmag] at hround
  rw [isZero_iff, ← hround]
  decide

/-- An integral number other than negative zero is the number of its integer. -/
theorem ofInt_trunc (h : x.isIntegral = true) (hzero : x ≠ negZero) : ofInt x.trunc = x := by
  have hlt := x.word_lt
  apply eq_of_word_eq
  rw [ofInt, word_ofMagnitude, natAbs_trunc, scale_mul_toNat h,
    roundWord_magnitude (isIntegral_iff.mp h).1]
  by_cases hsign : x.isSignNegative = true
  · have hpos : 0 < x.toNat := by
      by_contra hnot
      have hzeros := isZero_of_toNat_eq_zero h (Nat.eq_zero_of_not_pos hnot)
      rcases eq_zero_or_negZero hzeros with rfl | rfl
      · exact absurd hsign (by decide)
      · exact hzero rfl
    have hneg : x.trunc < 0 := by
      rw [trunc, if_pos hsign]
      omega
    rw [decide_eq_true hneg, if_pos rfl]
    simp only [isSignNegative, decide_eq_true_iff] at hsign
    omega
  · have hneg : ¬ x.trunc < 0 := by
      rw [trunc, if_neg hsign]
      omega
    rw [decide_eq_false hneg, if_neg (by decide)]
    simp only [isSignNegative, decide_eq_true_iff, Nat.not_le] at hsign
    omega

/-- Every integer up to `2 ^ 53` in absolute value is represented. -/
theorem magnitude_ofInt (h : n.natAbs ≤ 2 ^ 53) :
    (ofInt n).isFinite = true ∧ (ofInt n).magnitude = scale * n.natAbs := by
  rcases Nat.lt_or_ge n.natAbs (2 ^ 53) with hlt | hge
  · rw [ofInt, scale, Nat.mul_comm]
    exact magnitude_ofMagnitude_mul_two_pow _ hlt (by omega)
  · have hexact : n.natAbs = 2 ^ 53 := by omega
    have hscale : scale * 2 ^ 53 = 1 * 2 ^ (1074 + 53) := by
      rw [scale, ← pow_add, one_mul]
    rw [ofInt, hexact, hscale]
    exact magnitude_ofMagnitude_mul_two_pow _ (by omega) (by omega)

theorem isIntegral_ofInt (h : n.natAbs ≤ 2 ^ 53) : (ofInt n).isIntegral = true := by
  obtain ⟨hfin, hmag⟩ := magnitude_ofInt h
  exact isIntegral_iff.mpr ⟨hfin, hmag ▸ Nat.dvd_mul_right _ _⟩

theorem isSignNegative_ofInt (n : Int) : (ofInt n).isSignNegative = decide (n < 0) := by
  have hround : roundWord (scale * n.natAbs) ≤ infinityWord := Nat.min_le_right _ _
  simp only [infinityWord] at hround
  rw [isSignNegative, ofInt, word_ofMagnitude]
  by_cases hneg : n < 0
  · rw [decide_eq_true hneg, if_pos rfl]
    exact decide_eq_true (Nat.le_add_left _ _)
  · rw [decide_eq_false hneg, if_neg (by decide)]
    exact decide_eq_false (by omega)

/-- An integer is the integer of its number. -/
theorem trunc_ofInt (h : n.natAbs ≤ 2 ^ 53) : (ofInt n).trunc = n := by
  have hnat : (ofInt n).toNat = n.natAbs := by
    rw [toNat, (magnitude_ofInt h).2, Nat.mul_div_cancel_left _ scale_pos]
  rw [trunc, isSignNegative_ofInt, hnat]
  by_cases hneg : n < 0
  · rw [decide_eq_true hneg, if_pos rfl]
    omega
  · rw [decide_eq_false hneg, if_neg (by decide)]
    omega

end PiOxidized.Math.Binary64
