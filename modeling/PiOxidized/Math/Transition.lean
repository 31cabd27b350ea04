/-
# Labelled transition systems

A system is given by its start states and a partial step function over events.
Runs are the states reached by steps that meet a condition; an invariant is
proved for the start and for one step.
-/

import Mathlib.Logic.Relation
import Mathlib.Tactic.SplitIfs

namespace PiOxidized.Math

universe u v

/-- Start states and labelled partial steps. -/
structure Machine (S : Type u) (E : Type v) where
  start : S → Prop
  step : S → E → Option S

namespace Machine

variable {S : Type u} {E : Type v} {M : Machine S E} {condition : S → E → Prop} {s s' : S}

/-- The states reached by steps that meet a condition. -/
inductive Run (M : Machine S E) (condition : S → E → Prop) : S → Prop
  | start {s : S} : M.start s → Run M condition s
  | step {s s' : S} (event : E) :
      Run M condition s → condition s event → M.step s event = some s' → Run M condition s'

variable {P : S → Prop}

/-- What holds at the start and is kept by every step of a run holds along the run. -/
theorem Run.invariant (h : Run M condition s) (hsta : ∀ s, M.start s → P s)
    (hstep : ∀ s s' event, P s → condition s event → M.step s event = some s' → P s') : P s := by
  induction h with
  | start h => exact hsta _ h
  | step event _ hcond hnext ih => exact hstep _ _ event ih hcond hnext

/-- A run of steps that meet a condition is one of every weaker condition. -/
theorem Run.mono {weaker : S → E → Prop} (h : Run M condition s)
    (hweaker : ∀ s event, condition s event → weaker s event) : Run M weaker s := by
  induction h with
  | start h => exact .start h
  | step event _ hcond hnext ih => exact .step event ih (hweaker _ event hcond) hnext

/-- The states that follow a state by steps that meet a condition. -/
def Follows (M : Machine S E) (condition : S → E → Prop) : S → S → Prop :=
  Relation.ReflTransGen fun s s' => ∃ event, condition s event ∧ M.step s event = some s'

/-- What every step keeps from a state on holds in every state that follows it. -/
theorem Follows.invariant (h : M.Follows condition s s') (hs : P s)
    (hstep : ∀ s s' event, P s → condition s event → M.step s event = some s' → P s') : P s' := by
  induction h with
  | refl => exact hs
  | tail _ hlast ih =>
    obtain ⟨event, hcond, hnext⟩ := hlast
    exact hstep _ _ event ih hcond hnext

/-- Take a list of steps, each of which passes a check. -/
def execute (M : Machine S E) (check : S → E → Bool) (s : S) : List E → Option S
  | [] => some s
  | event :: events =>
    if check s event then (M.step s event).bind fun next => M.execute check next events else none

/-- A computed list of steps is a run of every condition its check implies. -/
theorem Run.execute (h : Run M condition s) (check : S → E → Bool) (events : List E)
    (p : S → Bool) (hcheck : ∀ s event, check s event = true → condition s event)
    (hp : (M.execute check s events).any p = true) : ∃ s', Run M condition s' ∧ p s' = true := by
  induction events generalizing s with
  | nil => exact ⟨s, h, hp⟩
  | cons event events ih =>
    rw [Machine.execute] at hp
    split_ifs at hp with hevent
    · cases hstep : M.step s event with
      | none =>
        rw [hstep] at hp
        cases hp
      | some next =>
        rw [hstep] at hp
        exact ih (.step event h (hcheck s event hevent) hstep) hp
    · cases hp

/-- A computed list of steps from a state leads to one that follows it. -/
theorem Follows.execute (M : Machine S E) (check : S → E → Bool) (s : S) (events : List E)
    (p : S → Bool) (hcheck : ∀ s event, check s event = true → condition s event)
    (hp : (M.execute check s events).any p = true) :
    ∃ s', M.Follows condition s s' ∧ p s' = true := by
  induction events generalizing s with
  | nil => exact ⟨s, .refl, hp⟩
  | cons event events ih =>
    rw [Machine.execute] at hp
    split_ifs at hp with hevent
    · cases hstep : M.step s event with
      | none =>
        rw [hstep] at hp
        cases hp
      | some next =>
        rw [hstep] at hp
        obtain ⟨s', hfol, hs'⟩ := ih next hp
        exact ⟨s', .head ⟨event, hcheck s event hevent, hstep⟩ hfol, hs'⟩
    · cases hp

end Machine

end PiOxidized.Math
