/-
# Hexadecimal texts in groups

A number written with a fixed number of hexadecimal digits, with hyphens at fixed places.  Of two
such texts the one of the smaller number comes first.
-/

import Mathlib.Algebra.Order.Ring.Nat

namespace PiOxidized.Math

/-- The lowest digits of a number, with a hyphen wherever so many digits are left. -/
def hyphenated (hyphens : List Nat) : Nat → Nat → List Char
  | 0, _ => []
  | digits + 1, n =>
    let rest := hyphenated hyphens digits (n % 16 ^ digits)
    Nat.digitChar (n / 16 ^ digits) :: if digits ∈ hyphens then '-' :: rest else rest

theorem digitChar_lt : ∀ d < 16, ∀ e < 16, d < e → Nat.digitChar d < Nat.digitChar e := by decide

theorem hyphenated_lt (hyphens : List Nat) {digits n m : Nat} (hlt : n < m)
    (hm : m < 16 ^ digits) : hyphenated hyphens digits n < hyphenated hyphens digits m := by
  induction digits generalizing n m with
  | zero =>
    rw [Nat.pow_zero] at hm
    omega
  | succ digits ih =>
    have hpos : 0 < 16 ^ digits := Nat.pow_pos (by decide)
    have hdigit : m / 16 ^ digits < 16 := by
      rw [Nat.div_lt_iff_lt_mul hpos, ← Nat.pow_succ']
      exact hm
    rw [hyphenated, hyphenated, List.cons_lt_cons_iff]
    rcases Nat.lt_or_eq_of_le (Nat.div_le_div_right (Nat.le_of_lt hlt)) with hfst | hfst
    · exact .inl (digitChar_lt _ (Nat.lt_trans hfst hdigit) _ hdigit hfst)
    · have hrest := @ih (n % 16 ^ digits) (m % 16 ^ digits) (by
          have hn := Nat.div_add_mod n (16 ^ digits)
          have hm := Nat.div_add_mod m (16 ^ digits)
          rw [hfst] at hn
          omega)
        (Nat.mod_lt m hpos)
      rw [hfst]
      refine .inr ⟨rfl, ?_⟩
      split
      · exact List.cons_lt_cons_iff.mpr (.inr ⟨rfl, hrest⟩)
      · exact hrest

end PiOxidized.Math
