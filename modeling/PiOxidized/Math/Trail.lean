/-
# Trails of pending steps

A value moves by steps, each from the value it finds to a next one, and a follower takes the
same steps later, one at a time and in any order in which each finds its own starting value.
The steps the follower has not taken yet form a trail from the follower's value to the value
itself: counted with multiplicity, every value is left as often as it is entered, the two ends
apart.
-/

import Mathlib.Data.List.Perm.Basic

namespace PiOxidized.Math

open List

universe u v

variable {S : Type u} {here there next : S} {steps steps' : List (S × S)}

/-- The steps lead from one value to another. -/
def Trail (here there : S) (steps : List (S × S)) : Prop :=
  (here :: steps.map Prod.snd).Perm (there :: steps.map Prod.fst)

theorem Trail.refl (here : S) : Trail here here [] := List.Perm.refl [here]

/-- A trail without steps leads nowhere. -/
theorem Trail.eq_of_nil (h : Trail here there []) : here = there := singleton_perm_singleton.mp h

theorem Trail.perm (h : Trail here there steps) (hperm : steps'.Perm steps) :
    Trail here there steps' :=
  (List.Perm.cons here (hperm.map Prod.snd)).trans
    (List.Perm.trans h (List.Perm.cons there (hperm.map Prod.fst)).symm)

/-- A step that starts where the trail ends makes the trail longer. -/
theorem Trail.extend (h : Trail here there steps) (hperm : steps'.Perm ((there, next) :: steps)) :
    Trail here next steps' := by
  have hsteps : Trail here next ((there, next) :: steps) :=
    (List.Perm.swap _ _ _).trans (List.Perm.cons next h)
  exact hsteps.perm hperm

/-- A step that starts where the trail starts can be taken. -/
theorem Trail.advance (h : Trail here there steps) (hperm : steps.Perm ((here, next) :: steps')) :
    Trail next there steps' := by
  have hsteps : (here :: next :: steps'.map Prod.snd).Perm (there :: here :: steps'.map Prod.fst) :=
    Trail.perm h hperm.symm
  exact (hsteps.trans (List.Perm.swap _ _ _)).cons_inv

/-! ## Steps listed by their parties -/

variable {X : Type u} {B : Type v} {l : List X}

theorem filterMap_cons_eq_append (f : X → Option B) (a : X) (l : List X) :
    (a :: l).filterMap f = (f a).toList ++ l.filterMap f := by
  cases hfa : f a with
  | none => exact filterMap_cons_none hfa
  | some b => exact filterMap_cons_some hfa

/-- What is read off the members of a list, after one of them has changed. -/
theorem filterMap_modify_perm {i : Nat} {a : X} (f : X → Option B) (g : X → X)
    (h : l[i]? = some a) :
    ((f a).toList ++ (l.modify i g).filterMap f).Perm ((f (g a)).toList ++ l.filterMap f) := by
  induction l generalizing i with
  | nil => cases h
  | cons b l ih =>
    cases i with
    | zero =>
      obtain rfl : b = a := Option.some.inj h
      rw [modify_zero_cons, filterMap_cons_eq_append, filterMap_cons_eq_append,
        ← append_assoc, ← append_assoc]
      exact List.Perm.append_right _ perm_append_comm
    | succ i =>
      have hrest := ih (i := i) h
      rw [modify_succ_cons, filterMap_cons_eq_append, filterMap_cons_eq_append]
      calc ((f a).toList ++ ((f b).toList ++ (l.modify i g).filterMap f)).Perm
            ((f b).toList ++ ((f a).toList ++ (l.modify i g).filterMap f)) :=
          perm_append_comm_assoc _ _ _
        List.Perm _ ((f b).toList ++ ((f (g a)).toList ++ l.filterMap f)) :=
          List.Perm.append_left _ hrest
        List.Perm _ ((f (g a)).toList ++ ((f b).toList ++ l.filterMap f)) :=
          perm_append_comm_assoc _ _ _

end PiOxidized.Math
