/-
# The kill ring of the editor

Killed texts are kept with the newest last.  Consecutive kills are merged into one entry, and the
entries take turns as the newest while what was yanked is popped.
-/

import Mathlib.Data.List.Rotate

namespace PiOxidized.Screen

open List

structure KillPushOptions where
  /-- Merge a backward kill in front. -/
  prepend : Bool
  accumulate : Bool

structure KillRing where
  /-- The entries, newest last. -/
  ring : List String

namespace KillRing

def push (r : KillRing) (text : String) (opts : KillPushOptions) : KillRing :=
  if text = "" then r
  else match r.ring.getLast? with
    | some last =>
      if opts.accumulate then
        ⟨r.ring.dropLast ++ [if opts.prepend then text ++ last else last ++ text]⟩
      else ⟨r.ring ++ [text]⟩
    | none => ⟨r.ring ++ [text]⟩

def peek (r : KillRing) : Option String := r.ring.getLast?

/-- The newest entry becomes the oldest. -/
def rotate (r : KillRing) : KillRing :=
  match r.ring.getLast? with
  | some last => if 1 < r.ring.length then ⟨last :: r.ring.dropLast⟩ else r
  | none => r

variable {r : KillRing}

/-- With the newest first, an entry moves from the front to the back. -/
theorem reverse_rotate (r : KillRing) : r.rotate.ring.reverse = r.ring.reverse.rotate 1 := by
  obtain ⟨ring⟩ := r
  rw [rotate]
  obtain rfl | ⟨older, last, rfl⟩ := eq_nil_or_concat' ring
  · rfl
  · rw [getLast?_concat]
    dsimp only
    rw [dropLast_concat, reverse_concat, rotate_cons_succ, rotate_zero]
    split_ifs with hlen
    · rw [reverse_cons]
    · have hnil : older = [] := by
        rw [length_append, length_singleton] at hlen
        exact length_eq_zero_iff.mp (by omega)
      rw [hnil]
      rfl

theorem reverse_iterate_rotate (r : KillRing) (k : Nat) :
    (rotate^[k] r).ring.reverse = r.ring.reverse.rotate k := by
  induction k with
  | zero => exact (rotate_zero _).symm
  | succ k ih => rw [Function.iterate_succ_apply', reverse_rotate, ih, rotate_rotate]

/-- Popping goes through the entries from the newest on and ends where it started. -/
theorem pops_cycle (r : KillRing) (k : Nat) :
    (rotate^[k] r).peek = r.ring.reverse[k % r.ring.length]? ∧ rotate^[r.ring.length] r = r := by
  constructor
  · rw [peek, ← head?_reverse, reverse_iterate_rotate, head?_eq_getElem?]
    rcases Nat.eq_zero_or_pos r.ring.length with hzero | hpos
    · rw [length_eq_zero_iff.mp hzero]
      rfl
    · rw [getElem?_rotate (by simpa using hpos), Nat.zero_add, length_reverse]
  · have hback := reverse_iterate_rotate r r.ring.length
    rw [← length_reverse, rotate_length, length_reverse] at hback
    exact congrArg mk (reverse_injective hback)

/-- Kills of a run are merged in the order of the text: those in front of it backwards, the others
behind it. -/
theorem kills_merge (older : List String) (newest : String) (kills : List (String × Bool)) :
    (kills.foldl (fun (r : KillRing) kill => r.push kill.1 ⟨kill.2, true⟩)
        ⟨older ++ [newest]⟩).ring =
      older ++ [String.join ((kills.filter Prod.snd).map Prod.fst).reverse ++ newest ++
        String.join ((kills.filter fun kill => !kill.2).map Prod.fst)] := by
  induction kills generalizing newest with
  | nil => simp
  | cons kill kills ih =>
    obtain ⟨text, prepend⟩ := kill
    rw [foldl_cons]
    have hpush : push ⟨older ++ [newest]⟩ text ⟨prepend, true⟩ =
        ⟨older ++ [if prepend then text ++ newest else newest ++ text]⟩ := by
      rw [push, getLast?_concat]
      by_cases hempty : text = ""
      · cases prepend <;> simp [hempty]
      · rw [if_neg hempty]
        simp
    rw [hpush, ih]
    cases prepend with
    | true => simp [String.append_assoc]
    | false => simp [String.append_assoc]

end KillRing

end PiOxidized.Screen
