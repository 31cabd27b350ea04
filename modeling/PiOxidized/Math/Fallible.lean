/-
# Computations that may fail

A computation that succeeds has succeeded at each of its steps.
-/

import Mathlib.Data.List.Basic

namespace PiOxidized.Math

open List

universe u v

variable {E : Type u} {X B : Type v}

variable {items : List X}

/-- A sequence of two computations succeeds when both do. -/
theorem bind_ok_iff {x : Except E X} {f : X → Except E B} {b : B} :
    (x >>= f) = .ok b ↔ ∃ a, x = .ok a ∧ f a = .ok b := by
  cases x with
  | error e =>
    constructor
    · intro h
      cases h
    · rintro ⟨a, h, -⟩
      cases h
  | ok a =>
    constructor
    · intro h
      exact ⟨a, rfl, h⟩
    · rintro ⟨a', h, hf⟩
      rw [← Except.ok.inj h] at hf
      exact hf

theorem bind_ok {x : Except E X} {f : X → Except E B} {b : B} (h : (x >>= f) = .ok b) :
    ∃ a, x = .ok a ∧ f a = .ok b := bind_ok_iff.mp h

/-- What every successful step of a loop preserves holds after the loop. -/
theorem Except.foldlM_preserves {f : B → X → Except E B} {P : B → Prop}
    (hstep : ∀ acc item next, item ∈ items → P acc → f acc item = .ok next → P next)
    {acc result : B} (hacc : P acc) (h : items.foldlM f acc = .ok result) : P result := by
  induction items generalizing acc with
  | nil =>
    rw [← Except.ok.inj h]
    exact hacc
  | cons item items ih =>
    rw [foldlM_cons] at h
    obtain ⟨next, hnext, hrest⟩ := bind_ok h
    refine ih ?_ (hstep acc item next mem_cons_self hacc hnext) hrest
    intro acc other result hmem
    exact hstep acc other result (mem_cons_of_mem _ hmem)

/-- A loop without a result succeeds only when every step does. -/
theorem Except.forM_eq_ok {f : X → Except E PUnit.{v + 1}} (h : items.forM f = .ok PUnit.unit) :
    ∀ item ∈ items, f item = .ok PUnit.unit := by
  induction items with
  | nil =>
    intro item hmem
    cases hmem
  | cons first items ih =>
    have hbind : (f first >>= fun _ => items.forM f) = .ok PUnit.unit := h
    obtain ⟨_, hfst, hrest⟩ := bind_ok_iff.mp hbind
    intro item hmem
    rcases mem_cons.mp hmem with rfl | hmem
    · exact hfst
    · exact ih hrest item hmem

end PiOxidized.Math
