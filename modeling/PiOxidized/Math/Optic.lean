/-
# Partial lenses and paths of them

An optic focuses on a part of a structure that may be absent.  Optics compose,
and a path is a list of steps composed from the outside inward; reading and
writing along a path obey the laws of its steps.
-/

import Mathlib.Data.Option.Basic

namespace PiOxidized.Math

open Option

universe u v w

/-- A part of a structure that can be read when present and overwritten. -/
structure Optic (S : Type u) (X : Type v) where
  /-- The focused part, if present. -/
  get? : S → Option X
  /-- Overwrite the focused part; a structure without it stays as it is or
  changes where `get?` does not look. -/
  put : X → S → S
  /-- Writing back what is there changes nothing. -/
  put_get? : ∀ {s a}, get? s = some a → put a s = s
  /-- What was written over a present part is read back. -/
  get?_put : ∀ {s a} b, get? s = some a → get? (put b s) = some b
  /-- The last write wins. -/
  put_put : ∀ a b s, put b (put a s) = put b s

namespace Optic

variable {S : Type u} {X : Type v} {B : Type w} {I : Type w}

/-- The optic of the whole structure. -/
def whole : Optic S S where
  get? := some
  put a _ := a
  put_get? := by
    intro s a h
    exact (some.inj h).symm
  get?_put := by
    intro s a b _
    rfl
  put_put := by
    intro a b s
    rfl

/-- Write through an outer optic into an inner one. -/
def putThrough (outer : Optic S X) (inner : Optic X B) (b : B) (s : S) : S :=
  match outer.get? s with
  | none => s
  | some a => outer.put (inner.put b a) s

theorem putThrough_of_get? {outer : Optic S X} {inner : Optic X B} {s : S} {a : X}
    (h : outer.get? s = some a) (b : B) :
    putThrough outer inner b s = outer.put (inner.put b a) s := by
  rw [putThrough, h]

/-- Focus on a part of a part. -/
def comp (outer : Optic S X) (inner : Optic X B) : Optic S B where
  get? s := (outer.get? s).bind inner.get?
  put := putThrough outer inner
  put_get? := by
    intro s b h
    obtain ⟨a, houter, hinner⟩ := Option.bind_eq_some_iff.mp h
    rw [putThrough_of_get? houter, inner.put_get? hinner, outer.put_get? houter]
  get?_put := by
    intro s b c h
    obtain ⟨a, houter, hinner⟩ := Option.bind_eq_some_iff.mp h
    rw [putThrough_of_get? houter, outer.get?_put _ houter]
    exact inner.get?_put c hinner
  put_put := by
    intro b c s
    cases houter : outer.get? s with
    | none => simp only [putThrough, houter]
    | some a =>
      rw [putThrough_of_get? houter, putThrough_of_get? (outer.get?_put _ houter),
        putThrough_of_get? houter, outer.put_put, inner.put_put]

/-- The composite of a path of steps, from the outside inward. -/
def along (step : I → Optic S S) : List I → Optic S S
  | [] => whole
  | i :: rest => (step i).comp (along step rest)

section

variable {step : I → Optic S S}

variable {front : List I}

@[simp]
theorem along_nil_get? (s : S) : (along step []).get? s = some s := rfl

@[simp]
theorem along_nil_put (a s : S) : (along step []).put a s = a := rfl

@[simp]
theorem along_singleton_get? (i : I) (s : S) : (along step [i]).get? s = (step i).get? s :=
  bind_fun_some _

theorem along_cons_get? (i : I) (rest : List I) (s : S) :
    (along step (i :: rest)).get? s = ((step i).get? s).bind (along step rest).get? := rfl

theorem along_cons_put {i : I} {s child : S} (h : (step i).get? s = some child)
    (rest : List I) (a : S) :
    (along step (i :: rest)).put a s = (step i).put ((along step rest).put a child) s :=
  putThrough_of_get? h a

theorem along_append_get? (front back : List I) (s : S) : (along step (front ++ back)).get? s =
      ((along step front).get? s).bind (along step back).get? := by
  induction front generalizing s with
  | nil => rfl
  | cons i rest ih =>
    rw [List.cons_append, along_cons_get?, along_cons_get?, bind_assoc]
    exact bind_congr fun child _ => ih child

theorem along_append_put {s part : S} (h : (along step front).get? s = some part) (back : List I)
    (a : S) :
    (along step (front ++ back)).put a s =
      (along step front).put ((along step back).put a part) s := by
  induction front generalizing s with
  | nil =>
    cases h
    rfl
  | cons i rest ih =>
    obtain ⟨child, hchild, hpart⟩ := bind_eq_some_iff.mp h
    rw [List.cons_append, along_cons_put hchild, along_cons_put hchild, ih hpart]

/-- Reading one step below a present part. -/
theorem along_snoc_get? {s part : S} (h : (along step front).get? s = some part) (i : I) :
    (along step (front ++ [i])).get? s = (step i).get? part := by
  rw [along_append_get?, h, bind_some, along_singleton_get?]

/-- Writing one step below a present part. -/
theorem along_snoc_put {s part child : S} (h : (along step front).get? s = some part) {i : I}
    (hchild : (step i).get? part = some child) (a : S) :
    (along step (front ++ [i])).put a s = (along step front).put ((step i).put a part) s := by
  rw [along_append_put h, along_cons_put hchild, along_nil_put]

end

end Optic

end PiOxidized.Math
