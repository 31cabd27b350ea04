/-
# Labelled paths

Consecutive labelled moves from one point to another, and how paths compose.
-/

namespace PiOxidized.Math

universe u v

variable {S : Type u} {X : Type v} {R : S → X → S → Prop}

/-- Consecutive moves along a list of labels. -/
inductive Path (R : S → X → S → Prop) : S → List X → S → Prop
  | nil {s : S} : Path R s [] s
  | cons {s t u : S} {a : X} {labels : List X} :
      R s a t → Path R t labels u → Path R s (a :: labels) u

namespace Path

theorem append {s t u : S} {first second : List X} (h : Path R s first t)
    (h' : Path R t second u) : Path R s (first ++ second) u := by
  induction h with
  | nil => exact h'
  | cons hmove _ ih => exact .cons hmove (ih h')

/-- A path along a concatenation splits at the seam. -/
theorem split {s u : S} {first second : List X} (h : Path R s (first ++ second) u) :
    ∃ t, Path R s first t ∧ Path R t second u := by
  induction first generalizing s with
  | nil => exact ⟨s, .nil, h⟩
  | cons a first ih =>
    cases h with
    | cons hmove hrest =>
      obtain ⟨t, hfst, hsnd⟩ := ih hrest
      exact ⟨t, .cons hmove hfst, hsnd⟩

theorem snoc {s t u : S} {labels : List X} {a : X} (h : Path R s labels t) (hmove : R t a u) :
    Path R s (labels ++ [a]) u :=
  h.append (.cons hmove .nil)

end Path

end PiOxidized.Math
