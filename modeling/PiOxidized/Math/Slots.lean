/-
# Slots of a list

A list of parties that grows at its end and whose members are replaced in place:
who stands in a slot after a change, and how a total weight moves with it.
-/

import Mathlib.Algebra.Order.BigOperators.Group.List
import Mathlib.Algebra.Order.Ring.Nat
import Mathlib.Data.Multiset.AddSub

namespace PiOxidized.Math

open List

universe u v

variable {X : Type u} {f : X → Nat} {l : List X}

variable {i : Nat} {a : X}

variable {j : Nat}

variable {b c : X}

/-- After a replacement a slot holds the new member or what it held before. -/
theorem getElem?_set_cases (h : (l.set i a)[j]? = some c) :
    (j = i ∧ c = a) ∨ (j ≠ i ∧ l[j]? = some c) := by
  rw [getElem?_set] at h
  split_ifs at h with hij hlt
  · exact .inl ⟨hij.symm, (Option.some.inj h).symm⟩
  · exact .inr ⟨Ne.symm hij, h⟩

theorem getElem?_set_of_some (h : l[i]? = some a) : (l.set i b)[i]? = some b := by
  obtain ⟨hlt, -⟩ := List.getElem?_eq_some_iff.mp h
  rw [getElem?_set_self hlt]

/-- After an addition a slot holds what it held before or is the new one. -/
theorem getElem?_append_cases (h : (l ++ [a])[j]? = some c) :
    l[j]? = some c ∨ (j = l.length ∧ c = a) := by
  rcases Nat.lt_trichotomy j l.length with hlt | heq | hgt
  · rw [getElem?_append_left hlt] at h
    exact .inl h
  · rw [heq, getElem?_concat_length] at h
    exact .inr ⟨heq, (Option.some.inj h).symm⟩
  · rw [getElem?_eq_none (by rw [length_append, length_singleton]; omega)] at h
    cases h

theorem getElem?_append_of_some (h : l[j]? = some c) : (l ++ [a])[j]? = some c := by
  obtain ⟨hlt, -⟩ := List.getElem?_eq_some_iff.mp h
  rw [getElem?_append_left hlt]
  exact h

/-- What holds of every slot holds after a replacement of which it holds. -/
theorem forall_set {P : Nat → X → Prop} (h : ∀ j c, l[j]? = some c → P j c) (ha : P i a) :
    ∀ j c, (l.set i a)[j]? = some c → P j c := by
  intro j c hc
  rcases getElem?_set_cases hc with ⟨rfl, rfl⟩ | ⟨-, hc⟩
  · exact ha
  · exact h j c hc

theorem forall_concat {P : Nat → X → Prop} (h : ∀ j c, l[j]? = some c → P j c)
    (ha : P l.length a) : ∀ j c, (l ++ [a])[j]? = some c → P j c := by
  intro j c hc
  rcases getElem?_append_cases hc with hc | ⟨rfl, rfl⟩
  · exact h j c hc
  · exact ha

theorem forall_set₁ {B : Type v} {P : Nat → X → B → Prop}
    (h : ∀ j c b, l[j]? = some c → P j c b) (ha : ∀ b, P i a b) :
    ∀ j c b, (l.set i a)[j]? = some c → P j c b :=
  fun j c b => forall_set (P := fun j c => P j c b) (h · · b) (ha b) j c

theorem forall_concat₁ {B : Type v} {P : Nat → X → B → Prop}
    (h : ∀ j c b, l[j]? = some c → P j c b) (ha : ∀ b, P l.length a b) :
    ∀ j c b, (l ++ [a])[j]? = some c → P j c b :=
  fun j c b => forall_concat (P := fun j c => P j c b) (h · · b) (ha b) j c

/-- What holds of every member holds with one more of which it holds. -/
theorem forall_mem_concat {P : X → Prop} (h : ∀ c ∈ l, P c) (ha : P a) : ∀ c ∈ l ++ [a], P c :=
  forall_mem_append.mpr ⟨h, forall_mem_singleton.mpr ha⟩

/-- A replacement that keeps what is read off a member keeps the list of it. -/
theorem map_set_of_eq {B : Type v} (g : X → B) (h : l[i]? = some a) (hb : g b = g a) :
    (l.set i b).map g = l.map g := by
  obtain ⟨hlt, rfl⟩ := List.getElem?_eq_some_iff.mp h
  rw [map_set, hb, ← getElem_map g]
  · exact set_getElem_self _
  · rw [length_map]
    exact hlt

/-- A replacement exchanges what is read off one member and leaves the rest. -/
theorem exists_filterMap_set {B : Type v} (g : X → Option B) (h : l[i]? = some a) (b : X) :
    ∃ others : Multiset B, (l.filterMap g : Multiset B) = ((g a).toList : Multiset B) + others ∧
        ((l.set i b).filterMap g : Multiset B) = ((g b).toList : Multiset B) + others := by
  induction l generalizing i with
  | nil => cases h
  | cons c l ih =>
    cases i with
    | zero =>
      obtain rfl : c = a := Option.some.inj h
      refine ⟨(l.filterMap g : Multiset B), ?_, ?_⟩
      · cases hc : g c <;> simp [hc]
      · cases hb : g b <;> simp [hb]
    | succ i =>
      obtain ⟨others, hpre, haft⟩ := ih (i := i) h
      refine ⟨((g c).toList : Multiset B) + others, ?_, ?_⟩
      · rw [← Multiset.add_assoc, Multiset.add_comm _ ((g c).toList : Multiset B), Multiset.add_assoc,
          ← hpre]
        cases hc : g c <;> simp [hc]
      · rw [← Multiset.add_assoc, Multiset.add_comm _ ((g c).toList : Multiset B), Multiset.add_assoc,
          ← haft]
        cases hc : g c <;> simp [hc]

/-- Inserting at the length of a front part puts the member behind it. -/
theorem insertIdx_length_append (front back : List X) (a : X) :
    (front ++ back).insertIdx front.length a = front ++ a :: back := by
  induction front with
  | nil => rfl
  | cons b front ih =>
    rw [cons_append, length_cons, insertIdx_succ_cons, ih, cons_append]

/-- Total weight of the members. -/
def weigh (f : X → Nat) (l : List X) : Nat := (l.map f).sum

theorem weigh_append_singleton (f : X → Nat) (l : List X) (a : X) :
    weigh f (l ++ [a]) = weigh f l + f a := by
  simp [weigh]

/-- Replacing a member exchanges its weight. -/
theorem weigh_set (f : X → Nat) (h : l[i]? = some a) (b : X) :
    weigh f (l.set i b) + f a = weigh f l + f b := by
  induction l generalizing i with
  | nil => cases h
  | cons c l ih =>
    cases i with
    | zero =>
      obtain rfl : c = a := Option.some.inj h
      simp only [weigh, set_cons_zero, map_cons, sum_cons]
      omega
    | succ i =>
      have hrest := ih (i := i) h
      simp only [weigh, set_cons_succ, map_cons, sum_cons] at hrest ⊢
      omega

theorem weigh_set_of_eq (h : l[i]? = some a) (hb : f b = f a) :
    weigh f (l.set i b) = weigh f l := by
  have hexch := weigh_set f h b
  omega

theorem le_weigh (f : X → Nat) (h : a ∈ l) : f a ≤ weigh f l := le_sum_of_mem (mem_map_of_mem h)

theorem le_weigh_of_getElem? (f : X → Nat) (h : l[i]? = some a) : f a ≤ weigh f l :=
  le_weigh f (mem_of_getElem? h)

/-- Two members in different slots weigh no more than all. -/
theorem add_le_weigh (f : X → Nat) (hij : i ≠ j) (hi : l[i]? = some a) (hj : l[j]? = some b) :
    f a + f b ≤ weigh f l := by
  induction l generalizing i j with
  | nil => cases hi
  | cons c l ih =>
    have hsplit : weigh f (c :: l) = f c + weigh f l := by
      rw [weigh, map_cons, sum_cons, weigh]
    cases i with
    | zero =>
      cases j with
      | zero => exact absurd rfl hij
      | succ j =>
        have hltr := le_weigh_of_getElem? f (l := l) (i := j) hj
        rw [hsplit, Option.some.inj hi]
        omega
    | succ i =>
      cases j with
      | zero =>
        have hlater := le_weigh_of_getElem? f (l := l) (i := i) hi
        rw [hsplit, Option.some.inj hj]
        omega
      | succ j =>
        have hltr := ih (i := i) (j := j) (fun heq => hij (congrArg _ heq)) hi hj
        omega

theorem weigh_pos_iff : 0 < weigh f l ↔ ∃ a ∈ l, 0 < f a := by
  constructor
  · intro h
    by_contra hnone
    have hzero : ∀ x ∈ l.map f, x = 0 := by
      intro x hx
      obtain ⟨a, ha, rfl⟩ := mem_map.mp hx
      exact Nat.eq_zero_of_not_pos fun hpos => hnone ⟨a, ha, hpos⟩
    rw [weigh, sum_eq_zero hzero] at h
    exact Nat.lt_irrefl _ h
  · rintro ⟨a, ha, hpos⟩
    exact Nat.lt_of_lt_of_le hpos (le_weigh f ha)

end PiOxidized.Math
