/-
# Binary64 numbers as bit patterns

A binary64 number is kept as its sixty-four bits, because the programs verified
over this library observe the sign of zero and the payload of a number exactly.
Arithmetic is read off the bits through one integer scale: every finite number is
a whole multiple of `2 ^ (-1074)`, so a magnitude is a natural number, an exact
sum is an integer, and rounding is one function from magnitudes back to bits.

Only the integral part of the theory is developed: which naturals are
represented, that rounding fixes every represented magnitude, and that adding
one stays inside the nonnegative integral numbers.
-/

import Mathlib.Data.Nat.Log
import Mathlib.Tactic.Linarith
import Mathlib.Tactic.Ring

namespace PiOxidized.Math

/-- A binary64 number, identified with its bit pattern. -/
structure Binary64 where
  /-- The interchange encoding: sign, eleven exponent bits, fraction. -/
  bits : UInt64
  deriving DecidableEq

namespace Binary64

/-- The bit pattern as a natural number. -/
def word (x : Binary64) : Nat := x.bits.toNat

/-- The sign bit, which is set for negative zero as well. -/
def isSignNegative (x : Binary64) : Bool := 2 ^ 63 ≤ x.word

/-- The biased exponent field. -/
def exponent (x : Binary64) : Nat := x.word / 2 ^ 52 % 2 ^ 11

/-- The fraction field. -/
def fraction (x : Binary64) : Nat := x.word % 2 ^ 52

/-- Neither an infinity nor a NaN. -/
def isFinite (x : Binary64) : Bool := x.exponent != 2047

/-- A NaN of any payload. -/
def isNaN (x : Binary64) : Bool := x.exponent == 2047 && x.fraction != 0

/-- One of the two zeros. -/
def isZero (x : Binary64) : Bool := x.word % 2 ^ 63 == 0

/-- How many units of `2 ^ (-1074)` make one. -/
def scale : Nat := 2 ^ 1074

/-- The absolute value of a finite number in units of `2 ^ (-1074)`. -/
def magnitude (x : Binary64) : Nat := if x.exponent = 0 then x.fraction
  else (2 ^ 52 + x.fraction) * 2 ^ (x.exponent - 1)

/-- The value of a finite number in units of `2 ^ (-1074)`. -/
def signed (x : Binary64) : Int := if x.isSignNegative then -(x.magnitude : Int) else x.magnitude

/-- Binary64 equality: NaN is unequal to everything and the zeros are equal. -/
def eq (x y : Binary64) : Bool :=
  !x.isNaN && !y.isNaN && (x.bits == y.bits || (x.isZero && y.isZero))

/-- Positive zero. -/
def zero : Binary64 := ⟨0⟩

/-- Fold negative zero to positive zero. -/
def normalized (x : Binary64) : Binary64 := if x.isZero then zero else x

/-! ## Rounding -/

/-- How many low bits of a magnitude do not fit a fifty-three bit significand. -/
def excess (n : Nat) : Nat := n.log2 - 52

/-- Divide by `2 ^ s`, rounding to nearest with ties to even. -/
def roundQuotient (n s : Nat) : Nat :=
  if 2 ^ s < 2 * (n % 2 ^ s) ∨ (2 * (n % 2 ^ s) = 2 ^ s ∧ n / 2 ^ s % 2 = 1) then
    n / 2 ^ s + 1
  else n / 2 ^ s

/-- The encoding of positive infinity. -/
def infinityWord : Nat := 2047 * 2 ^ 52

/-- The encoding of a rounded magnitude.  The implicit leading bit carries into
the exponent field by itself, and every overflow lands on infinity. -/
def roundWord (n : Nat) : Nat := min (excess n * 2 ^ 52 + roundQuotient n (excess n)) infinityWord

/-- The number nearest to a magnitude, with the requested sign bit. -/
def ofMagnitude (negative : Bool) (n : Nat) : Binary64 :=
  ⟨UInt64.ofNat (roundWord n + if negative then 2 ^ 63 else 0)⟩

/-- Conversion of an unsigned integer, rounding to nearest. -/
def ofNat (n : Nat) : Binary64 := ofMagnitude false (scale * n)

/-- Negative zero. -/
def negZero : Binary64 := ⟨0x8000000000000000⟩

/-- One. -/
def one : Binary64 := ⟨0x3FF0000000000000⟩

/-- The quiet NaN. -/
def nan : Binary64 := ⟨0x7FF8000000000000⟩

/-- Addition: the exact sum, rounded once. -/
def add (x y : Binary64) : Binary64 := if x.isNaN || y.isNaN then nan else if !x.isFinite then
    if !y.isFinite && x.isSignNegative != y.isSignNegative then nan else x
  else if !y.isFinite then y
  else if x.signed + y.signed = 0 then
    if x.isSignNegative && y.isSignNegative then negZero else zero
  else ofMagnitude (x.signed + y.signed < 0) (x.signed + y.signed).natAbs

/-- A finite nonnegative number without a fractional part; negative zero
qualifies. -/
def isNonnegInteger (x : Binary64) : Bool :=
  x.isFinite && (!x.isSignNegative || x.isZero) && x.magnitude % scale == 0

/-- The integer part of the absolute value of a finite number. -/
def toNat (x : Binary64) : Nat := x.magnitude / scale

/-! ## Fields -/

variable {x : Binary64}

variable {y : Binary64}

theorem word_lt (x : Binary64) : x.word < 2 ^ 64 := x.bits.toNat_lt

theorem fraction_lt (x : Binary64) : x.fraction < 2 ^ 52 := Nat.mod_lt _ (by decide)

theorem exponent_lt (x : Binary64) : x.exponent < 2048 := Nat.mod_lt _ (by decide)

theorem eq_of_word_eq (h : x.word = y.word) : x = y := by
  cases x
  cases y
  simpa [word, UInt64.toNat_inj] using h

/-- Without the sign bit a word is its exponent and fraction fields. -/
theorem word_mod_eq (x : Binary64) : x.word % 2 ^ 63 = x.exponent * 2 ^ 52 + x.fraction := by
  have := x.word_lt
  simp only [exponent, fraction]
  omega

theorem isZero_iff : x.isZero = true ↔ x.word % 2 ^ 63 = 0 := by
  simp [isZero]

/-- Equal-comparing numbers differ at most in the sign of zero. -/
theorem normalized_eq_of_eq (h : x.eq y = true) : x.normalized = y.normalized := by
  simp only [eq, Bool.and_eq_true, Bool.or_eq_true, beq_iff_eq] at h
  rcases h.2 with hbits | ⟨hx, hy⟩
  · rw [eq_of_word_eq (congrArg UInt64.toNat hbits)]
  · simp [normalized, hx, hy]

theorem eq_zero_or_negZero (h : x.isZero = true) : x = zero ∨ x = negZero := by
  have hword := isZero_iff.mp h
  have hlt := x.bits.toNat_lt
  rw [word] at hword
  rcases (show x.bits.toNat = 0 ∨ x.bits.toNat = 2 ^ 63 by omega) with hzero | htop
  · exact .inl (eq_of_word_eq hzero)
  · exact .inr (eq_of_word_eq htop)

theorem isNaN_of_isZero (h : x.isZero = true) : x.isNaN = false := by
  have hfields := x.word_mod_eq
  rw [isZero_iff.mp h] at hfields
  have hexpo : x.exponent = 0 := by omega
  simp [isNaN, hexpo]

/-- Apart from NaN, numbers compare equal when they fold to the same bits. -/
theorem eq_of_normalized_eq (h : x.normalized = y.normalized) (hy : y.isNaN = false) :
    x.eq y = true := by
  by_cases hx : x.isZero = true
  · by_cases hzero : y.isZero = true
    · simp [eq, isNaN_of_isZero hx, hy, hx, hzero]
    · rw [normalized, normalized, if_pos hx, if_neg hzero] at h
      exact absurd (by rw [← h]; decide) hzero
  · by_cases hzero : y.isZero = true
    · rw [normalized, normalized, if_neg hx, if_pos hzero] at h
      exact absurd (by rw [h]; decide) hx
    · rw [normalized, normalized, if_neg hx, if_neg hzero] at h
      simp [eq, h, hy]

theorem word_ofMagnitude (negative : Bool) (n : Nat) :
    (ofMagnitude negative n).word = roundWord n + if negative then 2 ^ 63 else 0 := by
  have hround : roundWord n ≤ infinityWord := Nat.min_le_right _ _
  simp only [word, ofMagnitude, infinityWord] at *
  rw [UInt64.toNat_ofNat', Nat.mod_eq_of_lt]
  cases negative <;> simp <;> omega

/-! ## Rounding represented magnitudes -/

variable {n s : Nat}

theorem excess_le_of_lt (h : n < 2 ^ (53 + s)) : excess n ≤ s := by
  rcases Nat.eq_zero_or_pos n with rfl | hpos
  · simp [excess]
  · have : n.log2 < 53 + s := (Nat.log2_lt hpos.ne').mpr h
    simp only [excess]
    omega

/-- Dividing by a power of two that divides exactly never rounds. -/
theorem roundQuotient_of_dvd (h : 2 ^ s ∣ n) : roundQuotient n s = n / 2 ^ s := by
  have hmod : n % 2 ^ s = 0 := Nat.mod_eq_zero_of_dvd h
  have hpos : 0 < 2 ^ s := Nat.two_pow_pos s
  rw [roundQuotient, if_neg]
  rw [hmod]
  omega

theorem roundQuotient_le (n s : Nat) : roundQuotient n s ≤ n / 2 ^ s + 1 := by
  simp only [roundQuotient]
  split <;> omega

theorem le_roundQuotient (n s : Nat) : n / 2 ^ s ≤ roundQuotient n s := by
  simp only [roundQuotient]
  split <;> omega

/-- The significand before rounding fits fifty-three bits. -/
theorem quotient_excess_lt (n : Nat) : n / 2 ^ excess n < 2 ^ 53 := by
  rw [Nat.div_lt_iff_lt_mul (Nat.two_pow_pos _)]
  calc
    n < 2 ^ (n.log2 + 1) := Nat.lt_log2_self
    _ ≤ 2 ^ (53 + excess n) := Nat.pow_le_pow_right (by decide) (by simp only [excess]; omega)
    _ = 2 ^ 53 * 2 ^ excess n := Nat.pow_add _ _ _

/-- A positive excess leaves a normalized significand. -/
theorem le_quotient_excess (h : 0 < excess n) : 2 ^ 52 ≤ n / 2 ^ excess n := by
  have hlog : n.log2 = 52 + excess n := by
    simp only [excess] at *
    omega
  have hne : n ≠ 0 := by
    rintro rfl
    simp [excess] at h
  rw [Nat.le_div_iff_mul_le (Nat.two_pow_pos _), ← Nat.pow_add, ← hlog]
  exact Nat.log2_self_le hne

/-- A normalized significand scaled by `2 ^ s` has excess exactly `s`. -/
theorem excess_mul_two_pow {m : Nat} (hlow : 2 ^ 52 ≤ m) (hhigh : m < 2 ^ 53) :
    excess (m * 2 ^ s) = s := by
  have hlog : (m * 2 ^ s).log2 = 52 + s := by
    have hpos : 0 < m * 2 ^ s := Nat.mul_pos (by omega) (Nat.two_pow_pos s)
    refine (Nat.log2_eq_iff hpos.ne').mpr ⟨?_, ?_⟩
    · rw [Nat.pow_add]
      exact Nat.mul_le_mul_right _ hlow
    · rw [show 52 + s + 1 = 53 + s by omega, Nat.pow_add]
      exact Nat.mul_lt_mul_of_pos_right hhigh (Nat.two_pow_pos s)
  rw [excess, hlog]
  omega

/-- Rounding fixes the magnitude of every finite number, so a magnitude
determines its number up to the sign bit. -/
theorem roundWord_magnitude (hfin : x.isFinite = true) :
    roundWord x.magnitude = x.word % 2 ^ 63 := by
  have hfraction := x.fraction_lt
  have hexpo : x.exponent < 2047 := by
    have := x.exponent_lt
    simp only [isFinite, bne_iff_ne] at hfin
    omega
  rw [word_mod_eq]
  by_cases hzero : x.exponent = 0
  · have hexcess : excess x.fraction = 0 := by
      have := excess_le_of_lt (n := x.fraction) (s := 0) (by omega)
      omega
    simp only [magnitude, hzero, if_true, roundWord, hexcess]
    rw [roundQuotient_of_dvd (one_dvd _)]
    simp only [infinityWord, Nat.pow_zero, Nat.div_one]
    omega
  · have hexcess : excess ((2 ^ 52 + x.fraction) * 2 ^ (x.exponent - 1)) = x.exponent - 1 :=
      excess_mul_two_pow (by omega) (by omega)
    simp only [magnitude, hzero, if_false, roundWord, hexcess]
    rw [roundQuotient_of_dvd (Nat.dvd_mul_left _ _), Nat.mul_div_cancel _ (Nat.two_pow_pos _)]
    obtain ⟨e, he⟩ := Nat.exists_eq_succ_of_ne_zero hzero
    simp only [he, infinityWord, Nat.succ_eq_add_one, Nat.add_sub_cancel]
    omega

/-- Two finite numbers of one magnitude differ at most in the sign bit. -/
theorem word_mod_eq_of_magnitude_eq (hx : x.isFinite = true) (hy : y.isFinite = true)
    (h : x.magnitude = y.magnitude) :
    x.word % 2 ^ 63 = y.word % 2 ^ 63 := by
  rw [← roundWord_magnitude hx, ← roundWord_magnitude hy, h]

/-- Decoding a word assembled from an excess and a significand.  The word may
carry out of the significand, which is where `2 ^ 53` is admitted. -/
theorem magnitude_of_word {q : Nat} (hword : x.word % 2 ^ 63 = s * 2 ^ 52 + q) (hhigh : q ≤ 2 ^ 53)
    (hnormal : s = 0 ∨ 2 ^ 52 ≤ q) (hfits : s * 2 ^ 52 + q < infinityWord) :
    x.isFinite = true ∧ x.magnitude = q * 2 ^ s := by
  have hfraction := x.fraction_lt
  rw [word_mod_eq] at hword
  have hfin : x.exponent ≠ 2047 := by
    simp only [infinityWord] at hfits
    omega
  refine ⟨by simpa [isFinite] using hfin, ?_⟩
  rcases Nat.lt_or_ge q (2 ^ 52) with hsmall | hlarge
  · obtain rfl : s = 0 := by omega
    have hzero : x.exponent = 0 := by omega
    simp only [magnitude, hzero, if_true, Nat.pow_zero, Nat.mul_one]
    omega
  · rcases Nat.lt_or_ge q (2 ^ 53) with hin | hcarry
    · have hexpo : x.exponent = s + 1 := by omega
      have hsignificand : 2 ^ 52 + x.fraction = q := by omega
      simp only [magnitude, hexpo, hsignificand]
      rw [if_neg (by omega), Nat.add_sub_cancel]
    · have hexpo : x.exponent = s + 2 := by omega
      have hsignificand : 2 ^ 52 + x.fraction = 2 ^ 52 := by omega
      obtain rfl : q = 2 ^ 53 := by omega
      simp only [magnitude, hexpo, hsignificand]
      rw [if_neg (by omega), show s + 2 - 1 = 1 + s by omega, Nat.pow_add]
      ring

/-- The magnitude of a rounded number that did not overflow. -/
theorem magnitude_ofMagnitude (negative : Bool)
    (hfits : excess n * 2 ^ 52 + roundQuotient n (excess n) < infinityWord) :
    (ofMagnitude negative n).isFinite = true ∧
      (ofMagnitude negative n).magnitude = roundQuotient n (excess n) * 2 ^ excess n := by
  have hlow := le_roundQuotient n (excess n)
  have hhigh := roundQuotient_le n (excess n)
  have hquotient := quotient_excess_lt n
  refine magnitude_of_word ?_ (by omega) ?_ hfits
  · rw [word_ofMagnitude, roundWord, Nat.min_eq_left hfits.le]
    simp only [infinityWord] at hfits
    cases negative <;> simp <;> omega
  · rcases Nat.eq_zero_or_pos (excess n) with hzero | hpos
    · exact .inl hzero
    · have := le_quotient_excess hpos
      exact .inr (by omega)

/-- A magnitude with at most fifty-three significant bits is represented
exactly. -/
theorem magnitude_ofMagnitude_mul_two_pow (negative : Bool) {m : Nat} (hm : m < 2 ^ 53)
    (hs : s ≤ 2045) :
    (ofMagnitude negative (m * 2 ^ s)).isFinite = true ∧
      (ofMagnitude negative (m * 2 ^ s)).magnitude = m * 2 ^ s := by
  have hexcess : excess (m * 2 ^ s) ≤ s := by
    apply excess_le_of_lt
    rw [Nat.pow_add]
    exact Nat.mul_lt_mul_of_pos_right hm (Nat.two_pow_pos s)
  have hdvd : 2 ^ excess (m * 2 ^ s) ∣ m * 2 ^ s := Dvd.dvd.mul_left (Nat.pow_dvd_pow 2 hexcess) m
  have hquotient := quotient_excess_lt (m * 2 ^ s)
  have hexact := roundQuotient_of_dvd hdvd
  obtain ⟨hfin, hmag⟩ := magnitude_ofMagnitude negative
    (n := m * 2 ^ s) (by simp only [infinityWord]; omega)
  refine ⟨hfin, ?_⟩
  rw [hmag, hexact, Nat.div_mul_cancel hdvd]

/-! ## Nonnegative integers -/

theorem scale_pos : 0 < scale := by
  rw [scale]
  exact pow_pos two_pos 1074

theorem isNonnegInteger_iff : x.isNonnegInteger = true ↔
      x.isFinite = true ∧ (x.isSignNegative = false ∨ x.isZero = true) ∧ scale ∣ x.magnitude := by
  simp [isNonnegInteger, Nat.dvd_iff_mod_eq_zero, and_assoc]

/-- The magnitude of an integral number is its integer value, rescaled. -/
theorem toNat_mul (h : x.isNonnegInteger = true) : scale * x.toNat = x.magnitude :=
  Nat.mul_div_cancel' (isNonnegInteger_iff.mp h).2.2

theorem isSignNegative_ofMagnitude_false (n : Nat) :
    (ofMagnitude false n).isSignNegative = false := by
  have hround : roundWord n ≤ infinityWord := Nat.min_le_right _ _
  simp only [infinityWord] at hround
  simp only [isSignNegative, word_ofMagnitude]
  simp
  omega

/-- Every natural number up to `2 ^ 53` is represented. -/
theorem magnitude_ofNat (h : n ≤ 2 ^ 53) :
    (ofNat n).isFinite = true ∧ (ofNat n).magnitude = scale * n := by
  rcases Nat.lt_or_ge n (2 ^ 53) with hlt | hge
  · rw [ofNat, scale, Nat.mul_comm]
    exact magnitude_ofMagnitude_mul_two_pow false hlt (by omega)
  · obtain rfl : n = 2 ^ 53 := by omega
    have hscale : scale * 2 ^ 53 = 1 * 2 ^ (1074 + 53) := by
      rw [scale, ← pow_add, one_mul]
    rw [ofNat, hscale]
    exact magnitude_ofMagnitude_mul_two_pow false (by omega) (by omega)

theorem isNonnegInteger_ofNat (h : n ≤ 2 ^ 53) : (ofNat n).isNonnegInteger = true := by
  obtain ⟨hfin, hmag⟩ := magnitude_ofNat h
  refine isNonnegInteger_iff.mpr ⟨hfin, .inl ?_, hmag ▸ Nat.dvd_mul_right _ _⟩
  exact isSignNegative_ofMagnitude_false _

@[simp]
theorem toNat_ofNat (h : n ≤ 2 ^ 53) : (ofNat n).toNat = n := by
  rw [toNat, (magnitude_ofNat h).2, Nat.mul_div_cancel_left _ scale_pos]

/-- Integers of one value are equal except for the sign of zero. -/
theorem word_eq_or_isZero (hx : x.isNonnegInteger = true) (hy : y.isNonnegInteger = true)
    (h : x.toNat = y.toNat) :
    x = y ∨ (x.isZero = true ∧ y.isZero = true) := by
  have hmag : x.magnitude = y.magnitude := by
    rw [← toNat_mul hx, ← toNat_mul hy, h]
  obtain ⟨hxf, hxs, -⟩ := isNonnegInteger_iff.mp hx
  obtain ⟨hyf, hys, -⟩ := isNonnegInteger_iff.mp hy
  have hword := word_mod_eq_of_magnitude_eq hxf hyf hmag
  simp only [isSignNegative, isZero_iff, decide_eq_false_iff_not, Nat.not_le] at *
  have := x.word_lt
  have := y.word_lt
  by_cases hzero : x.word % 2 ^ 63 = 0
  · exact .inr ⟨hzero, hword ▸ hzero⟩
  · left
    apply eq_of_word_eq
    omega

theorem magnitude_one : one.magnitude = scale := by
  have hexpo : one.exponent = 1023 := by decide
  have hfraction : one.fraction = 0 := by decide
  rw [magnitude, hexpo, hfraction, if_neg (by omega), scale, Nat.add_zero, ← pow_add]

/-- Adding one to an integral number rounds its successor. -/
theorem add_one (h : x.isNonnegInteger = true) : x.add one = ofNat (x.toNat + 1) := by
  obtain ⟨hfin, hsign, -⟩ := isNonnegInteger_iff.mp h
  have hnan : x.isNaN = false := by
    simp only [isFinite, bne_iff_ne] at hfin
    simp [isNaN, hfin]
  have hsigned : x.signed = x.magnitude := by
    rcases hsign with hpos | hzero
    · simp [signed, hpos]
    · have hmag : x.magnitude = 0 := by
        have hfields := x.word_mod_eq
        rw [isZero_iff.mp hzero] at hfields
        have hexpo : x.exponent = 0 := by omega
        simp only [magnitude, hexpo, if_true]
        omega
      simp [signed, hmag]
  have hone : one.signed = scale := by
    have hpositive : one.isSignNegative = false := by decide
    rw [signed, hpositive, magnitude_one]
    rfl
  have hsum : x.signed + one.signed = (scale * (x.toNat + 1) : Nat) := by
    rw [hsigned, hone, ← toNat_mul h]
    push_cast
    ring
  have hpos : 0 < scale * (x.toNat + 1) := Nat.mul_pos scale_pos (Nat.succ_pos _)
  have honeNaN : one.isNaN = false := by decide
  have honeFinite : one.isFinite = true := by decide
  simp only [add, hnan, honeNaN, hfin, honeFinite, hsum, ofNat, Bool.or_self, Bool.not_true,
    Bool.false_eq_true, if_false]
  rw [if_neg (by omega), Int.natAbs_natCast, decide_eq_false (by omega)]

theorem magnitude_le (hfin : x.isFinite = true) : x.magnitude ≤ (2 ^ 53 - 1) * 2 ^ 2045 := by
  have hfraction := x.fraction_lt
  have hexpo := x.exponent_lt
  simp only [isFinite, bne_iff_ne] at hfin
  simp only [magnitude]
  split
  · exact le_trans (by omega : x.fraction ≤ (2 ^ 53 - 1) * 1)
      (Nat.mul_le_mul_left _ (one_le_pow₀ one_le_two))
  · exact Nat.mul_le_mul (by omega) (pow_le_pow_right₀ one_le_two (by omega))

/-- The successor of the largest finite integer still rounds below infinity. -/
theorem fits_of_le (h : n ≤ (2 ^ 53 - 1) * 2 ^ 2045 + scale) :
    excess n * 2 ^ 52 + roundQuotient n (excess n) < infinityWord := by
  have hscale : 2 * scale < 2 ^ 2045 := by
    rw [scale, ← pow_succ']
    exact pow_lt_pow_right₀ one_lt_two (by decide)
  have hexcess : excess n ≤ 2045 := by
    apply excess_le_of_lt
    rw [Nat.pow_add]
    omega
  have hquotient := quotient_excess_lt n
  have hround := roundQuotient_le n (excess n)
  simp only [infinityWord]
  rcases Nat.lt_or_ge (excess n) 2045 with hlt | hge
  · omega
  · have hexact : excess n = 2045 := by omega
    rw [hexact] at hquotient hround ⊢
    rcases Nat.lt_or_ge (n / 2 ^ 2045) (2 ^ 53 - 1) with hbelow | htop
    · omega
    · -- only a remainder of at most one unit is left, far below the tie
      have hdiv := Nat.div_add_mod n (2 ^ 2045)
      have hquot : n / 2 ^ 2045 = 2 ^ 53 - 1 := by omega
      rw [hquot, Nat.mul_comm] at hdiv
      have hexactRound : roundQuotient n 2045 = n / 2 ^ 2045 := by
        rw [roundQuotient, if_neg]
        omega
      omega

/-- The float nearest to an integer of 64 bits is finite. -/
theorem isFinite_ofMagnitude_scale (negative : Bool) (h : n ≤ 2 ^ 64) :
    (ofMagnitude negative (scale * n)).isFinite = true := by
  have hscale : ∀ k, k ≤ 971 → scale * 2 ^ k ≤ 2 ^ 2045 := by
    intro k hk
    rw [scale, ← pow_add]
    have hexpo : 1074 + k ≤ 2045 := by omega
    exact pow_le_pow_right₀ one_le_two hexpo
  have hle : scale * n ≤ 2 ^ 2045 := (Nat.mul_le_mul_left scale h).trans (hscale 64 (by decide))
  have hfits : ∀ m, scale * n ≤ m → scale * n ≤ (2 ^ 53 - 1) * m + scale := by
    intro m hm
    omega
  exact (magnitude_ofMagnitude negative (fits_of_le (hfits (2 ^ 2045) hle))).1

theorem scale_dvd_two_pow (h : 1074 ≤ s) : scale ∣ 2 ^ s := by
  rw [scale]
  exact pow_dvd_pow 2 h

theorem two_pow_dvd_scale (h : s ≤ 1074) : 2 ^ s ∣ scale := by
  rw [scale]
  exact pow_dvd_pow 2 h

/-- The integral numbers are closed under adding one. -/
theorem isNonnegInteger_add_one (h : x.isNonnegInteger = true) :
    (x.add one).isNonnegInteger = true := by
  have hmag := toNat_mul h
  have hle := magnitude_le (isNonnegInteger_iff.mp h).1
  rw [add_one h]
  have hfits : scale * (x.toNat + 1) ≤ (2 ^ 53 - 1) * 2 ^ 2045 + scale := by
    rw [Nat.mul_succ]
    omega
  obtain ⟨hfin, hvalue⟩ := magnitude_ofMagnitude false (fits_of_le hfits)
  refine isNonnegInteger_iff.mpr ⟨hfin, .inl (isSignNegative_ofMagnitude_false _), ?_⟩
  rw [ofNat, hvalue]
  rcases Nat.le_total 1074 (excess (scale * (x.toNat + 1))) with hlarge | hsmall
  · exact Dvd.dvd.mul_left (scale_dvd_two_pow hlarge) _
  · have hdvd : 2 ^ excess (scale * (x.toNat + 1)) ∣ scale * (x.toNat + 1) :=
      Dvd.dvd.mul_right (two_pow_dvd_scale hsmall) _
    rw [roundQuotient_of_dvd hdvd, Nat.div_mul_cancel hdvd]
    exact Nat.dvd_mul_right _ _

end Binary64

end PiOxidized.Math
