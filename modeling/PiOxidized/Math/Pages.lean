/-
# Reading page after page

A reader asks for the page behind the last item it has, until a page is empty.  When a page is the
beginning of what follows that item in a sorted list, the reader gets the whole list.
-/

import Mathlib.Data.List.Basic

namespace PiOxidized.Math

open List

universe u v

variable {E : Type u} {X : Type v}

/-- The beginning of a list up to and with the first item that stops it. -/
def upTo (stop : X → Bool) : List X → List X
  | [] => []
  | item :: items => if stop item then [item] else item :: upTo stop items

theorem upTo_cons (stop : X → Bool) (item : X) (items : List X) :
    upTo stop (item :: items) = item :: if stop item then [] else upTo stop items := by
  rw [upTo]
  split
  · rfl
  · rfl

theorem upTo_sublist (stop : X → Bool) (items : List X) : upTo stop items <+ items := by
  induction items with
  | nil => exact Sublist.refl _
  | cons item items ih =>
    rw [upTo_cons]
    split
    · exact (nil_sublist items).cons_cons item
    · exact ih.cons_cons item

theorem upTo_of_none {stop : X → Bool} (h : ∀ item, stop item = false) (items : List X) :
    upTo stop items = items := by
  induction items with
  | nil => rfl
  | cons item items ih => rw [upTo_cons, h, ih, if_neg Bool.false_ne_true]

/-- What a reader gets that starts behind an item. -/
inductive Reads (page : Option X → Except E (List X)) : Option X → List X → Prop
  | done {last : Option X} : page last = .ok [] → Reads page last []
  | more {last : Option X} {items rest : List X} {next : X} : page last = .ok items →
      items.getLast? = some next → Reads page (some next) rest → Reads page last (items ++ rest)

variable {page : Option X → Except E (List X)} {follows : X → X → Bool} {items : List X}
  {limit : Nat}

/-- In a sorted list, what follows the last item read is what is left. -/
theorem filter_follows {done rest : List X} (hsort : (done ++ rest).Pairwise (follows · ·))
    (hasymm : ∀ x y, follows x y = true → follows y x = false) :
    (done ++ rest).filter (fun item => done.getLast?.all (follows · item)) = rest := by
  obtain ⟨hdone, -, hacross⟩ := pairwise_append.mp hsort
  cases hlast : done.getLast? with
  | none =>
    rw [getLast?_eq_none_iff.mp hlast]
    exact filter_true _
  | some last =>
    obtain ⟨front, rfl⟩ := getLast?_eq_some_iff.mp hlast
    simp only [Option.all_some]
    rw [filter_append, filter_eq_self.mpr fun item hitem => hacross last mem_concat_self item hitem,
      filter_eq_nil_iff.mpr, nil_append]
    intro item hitem
    rw [Bool.not_eq_true]
    rcases mem_append.mp hitem with hfront | hself
    · exact hasymm item last ((pairwise_append.mp hdone).2.2 item hfront last (mem_singleton_self _))
    · rw [mem_singleton.mp hself]
      cases hsame : follows last last with
      | false => rfl
      | true => exact hsame.symm.trans (hasymm last last hsame)

/-- Pages that begin what follows in a sorted list give the whole list. -/
theorem reads_of_sorted (hlim : 0 < limit) (hsort : items.Pairwise (follows · ·))
    (hasymm : ∀ x y, follows x y = true → follows y x = false)
    (hpage : ∀ last : Option X,
      page last = .ok ((items.filter fun item => last.all (follows · item)).take limit)) :
    Reads page none items := by
  suffices hrest : ∀ done rest, items = done ++ rest → Reads page done.getLast? rest from
    hrest [] items rfl
  intro done rest hitems
  induction hn : rest.length using Nat.strongRecOn generalizing done rest with
  | ind n ih =>
    have hnext : page done.getLast? = .ok (rest.take limit) := by
      rw [hpage, hitems, filter_follows (hitems ▸ hsort) hasymm]
    cases hlast : (rest.take limit).getLast? with
    | none =>
      have hempty := getLast?_eq_none_iff.mp hlast
      obtain rfl : rest = [] := (take_eq_nil_iff.mp hempty).resolve_left (Nat.ne_of_gt hlim)
      exact .done (hnext.trans (congrArg Except.ok hempty))
    | some next =>
      have hshorter : (rest.drop limit).length < n := by
        have hne : rest ≠ [] := by
          rintro rfl
          rw [take_nil] at hlast
          cases hlast
        have hpos := length_pos_of_ne_nil hne
        rw [length_drop]
        omega
      have hrest := ih _ hshorter (done ++ rest.take limit) (rest.drop limit)
        (by rw [append_assoc, take_append_drop, hitems]) rfl
      rw [getLast?_append, hlast, Option.some_or] at hrest
      have hreads := Reads.more hnext hlast hrest
      rwa [take_append_drop] at hreads

end PiOxidized.Math
