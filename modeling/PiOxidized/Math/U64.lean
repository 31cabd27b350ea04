/-
# Saturating and checked arithmetic on unsigned 64-bit numbers
-/

import Mathlib.Algebra.Order.Ring.Nat
import Mathlib.Order.Fin.Basic

namespace PiOxidized.Math

/-- An unsigned 64-bit number. -/
abbrev U64 := Fin (2 ^ 64)

namespace U64

/-- The largest number. -/
def max : U64 := ⟨2 ^ 64 - 1, by decide⟩

/-- Zero. -/
def zero : U64 := ⟨0, by decide⟩

/-- One. -/
def one : U64 := ⟨1, by decide⟩

/-- Addition that stops at the largest number. -/
def saturatingAdd (a b : U64) : U64 :=
  if h : a.val + b.val < 2 ^ 64 then ⟨a.val + b.val, h⟩ else max

/-- Subtraction that stops at zero. -/
def saturatingSub (a b : U64) : U64 := ⟨a.val - b.val, lt_of_le_of_lt (Nat.sub_le _ _) a.isLt⟩

/-- Addition of a natural number, absent on overflow. -/
def checkedAdd (a : U64) (n : Nat) : Option U64 :=
  if h : a.val + n < 2 ^ 64 then some ⟨a.val + n, h⟩ else none

theorem val_max : max.val = 2 ^ 64 - 1 := rfl

theorem val_one : one.val = 1 := rfl

theorem val_saturatingAdd (a b : U64) :
    (a.saturatingAdd b).val = min (a.val + b.val) (2 ^ 64 - 1) := by
  unfold saturatingAdd
  split_ifs with h
  · simp only
    omega
  · rw [val_max]
    omega

theorem val_saturatingSub (a b : U64) : (a.saturatingSub b).val = a.val - b.val := rfl

theorem checkedAdd_eq_some {a c : U64} {n : Nat} (h : a.checkedAdd n = some c) :
    c.val = a.val + n := by
  unfold checkedAdd at h
  split_ifs at h
  rw [← Option.some.inj h]

theorem checkedAdd_of_lt {a : U64} {n : Nat} (h : a.val + n < 2 ^ 64) :
    a.checkedAdd n = some ⟨a.val + n, h⟩ := dif_pos h

end U64

end PiOxidized.Math
