/-
# Finite maps as sorted association lists

An ordered map is a list of key-value pairs with strictly increasing keys.  The
operations are stated on bare lists first, so that a recursive data type can
nest them; `OrderedMap` then bundles a list with the proof that it is sorted, so
that equal lookups mean equal maps.
-/

import Mathlib.Order.Lattice
import Mathlib.Data.List.Lex
import Mathlib.Data.List.Forall2
import Mathlib.Data.List.Pairwise

namespace PiOxidized.Math

open List

universe u v w

namespace Assoc

variable {K : Type u} {N : Type v} {M : Type w} [LinearOrder K]

/-- Keys strictly increase along the list. -/
def Sorted (m : List (K × N)) : Prop := m.Pairwise fun a b => a.1 < b.1

/-- Store a value under its key, replacing what was there. -/
@[simp]
def insert (k : K) (v : N) : List (K × N) → List (K × N)
  | [] => [(k, v)]
  | (k', v') :: rest =>
    if k < k' then (k, v) :: (k', v') :: rest
    else if k = k' then (k, v) :: rest
    else (k', v') :: insert k v rest

/-- Drop the value stored under a key, if any. -/
def erase (k : K) (m : List (K × N)) : List (K × N) := m.filter fun e => e.1 ≠ k

/-- Overwrite the value stored under a key, in place. -/
@[simp]
def replace (k : K) (v : N) : List (K × N) → List (K × N)
  | [] => []
  | e :: rest => if k = e.1 then (e.1, v) :: rest else e :: replace k v rest

variable {m : List (K × N)} {e : K × N} {k : K} {v : N}

theorem sorted_nil : Sorted ([] : List (K × N)) := List.Pairwise.nil

theorem sorted_cons : Sorted (e :: m) ↔ (∀ e' ∈ m, e.1 < e'.1) ∧ Sorted m := pairwise_cons

theorem mem_insert (h : e ∈ insert k v m) : e = (k, v) ∨ e ∈ m := by
  induction m with
  | nil => simpa [insert] using h
  | cons head rest ih =>
    obtain ⟨k', v'⟩ := head
    simp only [insert] at h
    split_ifs at h with hlt heq
    · simpa using h
    · rcases mem_cons.mp h with rfl | hrest
      · exact .inl rfl
      · exact .inr (mem_cons_of_mem _ hrest)
    · rcases mem_cons.mp h with rfl | hrest
      · exact .inr mem_cons_self
      · exact (ih hrest).imp id (mem_cons_of_mem _)

theorem Sorted.insert (h : Sorted m) (k : K) (v : N) : Sorted (Assoc.insert k v m) := by
  induction m with
  | nil => simp [Assoc.insert, Sorted]
  | cons head rest ih =>
    obtain ⟨k', v'⟩ := head
    obtain ⟨hhead, hrest⟩ := sorted_cons.mp h
    simp only [Assoc.insert]
    split_ifs with hlt heq
    · refine sorted_cons.mpr ⟨fun e he => ?_, h⟩
      rcases mem_cons.mp he with rfl | he
      · exact hlt
      · exact lt_trans hlt (hhead e he)
    · subst heq
      exact sorted_cons.mpr ⟨hhead, hrest⟩
    · refine sorted_cons.mpr ⟨fun e he => ?_, ih hrest⟩
      rcases mem_insert he with rfl | he
      · exact lt_of_le_of_ne (not_lt.mp hlt) (Ne.symm heq)
      · exact hhead e he

theorem Sorted.erase (h : Sorted m) (k : K) : Sorted (Assoc.erase k m) := h.filter _

theorem lookup_cons (e : K × N) (m : List (K × N)) (k : K) :
    (e :: m).lookup k = if k = e.1 then some e.2 else m.lookup k := by
  rw [List.lookup_cons]
  by_cases h : k = e.1
  · rw [if_pos h, beq_iff_eq.mpr h]
  · rw [if_neg h, beq_false_of_ne h]

theorem lookup_eq_none_of_lt (h : ∀ e ∈ m, k < e.1) : m.lookup k = none := by
  rw [lookup_eq_none_iff]
  intro e he
  simpa using (h e he).ne

/-- A key above all others is added at the end. -/
theorem insert_of_forall_lt (v : N) (h : ∀ e ∈ m, e.1 < k) :
    (m.lookup k).isSome = false ∧ insert k v m = m ++ [(k, v)] := by
  induction m with
  | nil => exact ⟨rfl, rfl⟩
  | cons e m ih =>
    obtain ⟨k', v'⟩ := e
    rw [forall_mem_cons] at h
    obtain ⟨hlook, hinsert⟩ := ih h.2
    have hne : k ≠ k' := h.1.ne'
    rw [lookup_cons, if_neg hne, insert, if_neg h.1.not_gt, if_neg hne, hinsert]
    exact ⟨hlook, rfl⟩

theorem lookup_insert (k k' : K) (v : N) (m : List (K × N)) :
    (insert k v m).lookup k' = if k' = k then some v else m.lookup k' := by
  induction m with
  | nil => simp only [insert, lookup_cons]
  | cons head rest ih =>
    obtain ⟨k₀, v₀⟩ := head
    by_cases hlt : k < k₀
    · simp only [insert, hlt, if_true, lookup_cons]
    · by_cases heq : k = k₀
      · subst heq
        by_cases hk : k' = k <;> simp [insert, lookup_cons, hk]
      · simp only [insert, hlt, heq, if_false, lookup_cons, ih]
        by_cases hk : k' = k
        · rw [if_pos hk, if_neg (fun h : k' = k₀ => heq (hk ▸ h)), if_pos hk]
        · simp only [hk, if_false]

theorem lookup_erase (k k' : K) (m : List (K × N)) :
    (erase k m).lookup k' = if k' = k then none else m.lookup k' := by
  induction m with
  | nil => simp [erase]
  | cons head rest ih =>
    obtain ⟨k₀, v₀⟩ := head
    by_cases h₀ : k₀ = k
    · have hdrop : erase k ((k₀, v₀) :: rest) = erase k rest := by simp [erase, h₀]
      rw [hdrop, ih, lookup_cons]
      by_cases hk : k' = k
      · rw [if_pos hk, if_pos hk]
      · rw [if_neg hk, if_neg hk, if_neg (h₀ ▸ hk)]
    · have hkeep : erase k ((k₀, v₀) :: rest) = (k₀, v₀) :: erase k rest := by
        simp [erase, h₀]
      rw [hkeep, lookup_cons, ih, lookup_cons]
      by_cases hk : k' = k
      · rw [if_pos hk, if_neg (fun h : k' = k₀ => h₀ (hk ▸ h.symm))]
        simp [hk]
      · simp [hk]

theorem replace_of_lookup (h : m.lookup k = some v) : replace k v m = m := by
  induction m with
  | nil => rfl
  | cons head rest ih =>
    rw [lookup_cons] at h
    simp only [replace]
    split_ifs at h ⊢ with hk
    · rw [← Option.some.inj h]
    · rw [ih h]

theorem replace_replace (k : K) (v v' : N) (m : List (K × N)) :
    replace k v' (replace k v m) = replace k v' m := by
  induction m with
  | nil => rfl
  | cons head rest ih =>
    by_cases hk : k = head.1 <;> simp [replace, hk, ih]

theorem lookup_replace (h : (m.lookup k).isSome = true) (v : N) (k' : K) :
    (replace k v m).lookup k' = if k' = k then some v else m.lookup k' := by
  induction m with
  | nil => simp at h
  | cons head rest ih =>
    by_cases hk : k = head.1
    · simp only [replace, if_pos hk]
      rw [lookup_cons, lookup_cons, hk]
      split_ifs <;> rfl
    · have hrest : (rest.lookup k).isSome = true := by
        rwa [lookup_cons, if_neg hk] at h
      simp only [replace, if_neg hk]
      rw [lookup_cons, lookup_cons, ih hrest]
      by_cases hk' : k' = k
      · have hne : k' ≠ head.1 := fun h => hk (hk'.symm.trans h)
        rw [if_neg hne, if_pos hk', if_pos hk']
      · rw [if_neg hk', if_neg hk']

theorem Sorted.replace (h : Sorted m) (k : K) (v : N) : Sorted (Assoc.replace k v m) := by
  have hkeys : (Assoc.replace k v m).map Prod.fst = m.map Prod.fst := by
    induction m with
    | nil => rfl
    | cons head rest ih =>
      by_cases hk : k = head.1
      · simp [Assoc.replace, hk]
      · simp [Assoc.replace, hk, ih (sorted_cons.mp h).2]
  have hsort : (m.map Prod.fst).Pairwise (· < ·) := pairwise_map.mpr h
  exact pairwise_map.mp (hkeys ▸ hsort)

theorem mem_replace (h : e ∈ replace k v m) : e = (k, v) ∨ e ∈ m := by
  induction m with
  | nil => cases h
  | cons head rest ih =>
    by_cases hk : k = head.1
    · simp only [replace, if_pos hk] at h
      rcases mem_cons.mp h with rfl | hrest
      · exact .inl (by rw [hk])
      · exact .inr (mem_cons_of_mem _ hrest)
    · simp only [replace, if_neg hk] at h
      rcases mem_cons.mp h with rfl | hrest
      · exact .inr mem_cons_self
      · exact (ih hrest).imp id (mem_cons_of_mem _)

/-- Inserting over a stored key overwrites it in place. -/
theorem insert_eq_replace (h : Sorted m) (hk : (m.lookup k).isSome = true) (v : N) :
    insert k v m = replace k v m := by
  induction m with
  | nil => simp at hk
  | cons head rest ih =>
    obtain ⟨k', v'⟩ := head
    obtain ⟨hhead, hrest⟩ := sorted_cons.mp h
    by_cases heq : k = k'
    · subst heq
      simp only [insert, replace, lt_irrefl, if_false, if_true]
    · have hrestk : (rest.lookup k).isSome = true := by
        rwa [lookup_cons, if_neg heq] at hk
      have hlt : ¬k < k' := fun hlt => by
        rw [lookup_eq_none_of_lt fun e he => lt_trans hlt (hhead e he)] at hrestk
        cases hrestk
      simp only [insert, replace, hlt, heq, if_false, ih hrest hrestk]

/-- Inserting a fresh key adds one entry. -/
theorem insert_perm (hk : m.lookup k = none) (v : N) : (insert k v m).Perm ((k, v) :: m) := by
  induction m with
  | nil => exact List.Perm.refl _
  | cons head rest ih =>
    obtain ⟨k', v'⟩ := head
    rw [lookup_cons] at hk
    have hne : k ≠ k' := fun heq => by
      rw [if_pos heq] at hk
      cases hk
    rw [if_neg hne] at hk
    simp only [insert]
    split_ifs with hlt
    · exact List.Perm.refl _
    · exact ((ih hk).cons _).trans (List.Perm.swap _ _ _)

/-- Erasing a stored key drops its entry. -/
theorem erase_perm (h : Sorted m) (hk : m.lookup k = some v) : m.Perm ((k, v) :: erase k m) := by
  induction m with
  | nil => cases hk
  | cons head rest ih =>
    obtain ⟨k', v'⟩ := head
    obtain ⟨hhead, hrest⟩ := sorted_cons.mp h
    rw [lookup_cons] at hk
    by_cases heq : k = k'
    · subst heq
      rw [if_pos rfl] at hk
      cases hk
      have hkeep : rest.filter (fun e => decide (e.1 ≠ k)) = rest := by
        rw [filter_eq_self]
        intro e he
        exact decide_eq_true (hhead e he).ne'
      rw [erase, filter_cons_of_neg (by simp), hkeep]
    · rw [if_neg heq] at hk
      rw [erase, filter_cons_of_pos (by simpa using Ne.symm heq)]
      exact ((ih hrest hk).cons _).trans (List.Perm.swap _ _ _)

theorem lookup_map_snd (f : N → M) (m : List (K × N)) (k : K) :
    (m.map fun e => (e.1, f e.2)).lookup k = (m.lookup k).map f := by
  induction m with
  | nil => rfl
  | cons head rest ih =>
    rw [map_cons, lookup_cons, lookup_cons, ih]
    split_ifs <;> rfl

theorem lookup_eq_some_of_mem (h : Sorted m) (he : e ∈ m) : m.lookup e.1 = some e.2 := by
  induction m with
  | nil => cases he
  | cons head rest ih =>
    obtain ⟨hhead, hrest⟩ := sorted_cons.mp h
    rcases List.mem_cons.mp he with rfl | he
    · exact lookup_cons_self
    · rw [List.lookup_cons, beq_false_of_ne (hhead e he).ne', ih hrest he]

theorem mem_of_lookup_eq_some (h : m.lookup k = some v) : (k, v) ∈ m := by
  obtain ⟨l₁, l₂, rfl, -⟩ := lookup_eq_some_iff.mp h
  simp

/-- Sorted lists whose lookups are related entrywise are related entrywise. -/
theorem forall₂_of_lookup {r : N → M → Prop} {m' : List (K × M)} (hm : Sorted m) (hm' : Sorted m')
    (h : ∀ k, Option.Rel r (m.lookup k) (m'.lookup k)) :
    List.Forall₂ (fun a b => a.1 = b.1 ∧ r a.2 b.2) m m' := by
  induction m generalizing m' with
  | nil =>
    cases m' with
    | nil => exact List.Forall₂.nil
    | cons head' rest' =>
      have := h head'.1
      rw [lookup_cons, if_pos rfl] at this
      cases this
  | cons head rest ih =>
    cases m' with
    | nil =>
      have := h head.1
      rw [lookup_cons, if_pos rfl] at this
      cases this
    | cons head' rest' =>
      obtain ⟨k, v⟩ := head
      obtain ⟨k', v'⟩ := head'
      obtain ⟨hhead, hrest⟩ := sorted_cons.mp hm
      obtain ⟨hhead', hrest'⟩ := sorted_cons.mp hm'
      have hk : k = k' := by
        rcases lt_trichotomy k k' with hlt | rfl | hlt
        · have hmiss : ((k', v') :: rest').lookup k = none := lookup_eq_none_of_lt fun e he => by
              rcases mem_cons.mp he with rfl | he
              · exact hlt
              · exact lt_trans hlt (hhead' e he)
          have := h k
          rw [hmiss, lookup_cons_self] at this
          cases this
        · rfl
        · have hmiss : ((k, v) :: rest).lookup k' = none := lookup_eq_none_of_lt fun e he => by
              rcases mem_cons.mp he with rfl | he
              · exact hlt
              · exact lt_trans hlt (hhead e he)
          have := h k'
          rw [hmiss, lookup_cons_self] at this
          cases this
      subst hk
      refine List.Forall₂.cons ⟨rfl, ?_⟩ (ih hrest hrest' fun key => ?_)
      · have := h k
        simp only [lookup_cons_self] at this
        cases this with
        | some hr => exact hr
      · by_cases hkey : key = k
        · rw [hkey, lookup_eq_none_of_lt hhead, lookup_eq_none_of_lt hhead']
          exact Option.Rel.none
        · simpa only [lookup_cons, hkey, if_false] using h key

/-- Sorted lists with the same lookups are the same list. -/
theorem ext_lookup {m' : List (K × N)} (hm : Sorted m) (hm' : Sorted m')
    (h : ∀ k, m.lookup k = m'.lookup k) : m = m' := by
  have hrel : ∀ k, Option.Rel (· = ·) (m.lookup k) (m'.lookup k) := by
    intro k
    rw [h k]
    cases m'.lookup k with
    | none => exact Option.Rel.none
    | some v => exact Option.Rel.some rfl
  have hall := forall₂_of_lookup hm hm' hrel
  rw [← forall₂_eq_eq_eq]
  exact hall.imp fun a b hab => Prod.ext hab.1 hab.2

end Assoc

/-- A finite map with its entries in key order. -/
structure OrderedMap (K : Type u) (N : Type v) [LinearOrder K] where
  /-- The stored pairs. -/
  entries : List (K × N)
  /-- Keys strictly increase. -/
  sorted : Assoc.Sorted entries

namespace OrderedMap

variable {K : Type u} {N : Type v} [LinearOrder K]

/-- The map without entries. -/
def empty : OrderedMap K N := ⟨[], Assoc.sorted_nil⟩

instance : EmptyCollection (OrderedMap K N) := ⟨empty⟩

instance : Inhabited (OrderedMap K N) := ⟨empty⟩

/-- The value stored under a key. -/
def get? (m : OrderedMap K N) (k : K) : Option N := m.entries.lookup k

/-- Whether a key is stored. -/
def contains (m : OrderedMap K N) (k : K) : Bool := (m.get? k).isSome

/-- Store a value under its key. -/
def insert (m : OrderedMap K N) (k : K) (v : N) : OrderedMap K N :=
  ⟨Assoc.insert k v m.entries, m.sorted.insert k v⟩

/-- Remove a key. -/
def erase (m : OrderedMap K N) (k : K) : OrderedMap K N :=
  ⟨Assoc.erase k m.entries, m.sorted.erase k⟩

/-- The map with each value changed. -/
def map {M : Type*} (f : N → M) (m : OrderedMap K N) : OrderedMap K M where
  entries := m.entries.map fun e => (e.1, f e.2)
  sorted := by
    rw [Assoc.Sorted, List.pairwise_map]
    exact m.sorted

/-- The stored values in key order. -/
def values (m : OrderedMap K N) : List N := m.entries.map Prod.snd

variable {m : OrderedMap K N}

variable {v : N} {k : K}

@[simp]
theorem get?_empty (k : K) : (∅ : OrderedMap K N).get? k = none := rfl

@[simp]
theorem get?_insert (m : OrderedMap K N) (k k' : K) (v : N) :
    (m.insert k v).get? k' = if k' = k then some v else m.get? k' :=
  Assoc.lookup_insert k k' v m.entries

@[simp]
theorem get?_erase (m : OrderedMap K N) (k k' : K) :
    (m.erase k).get? k' = if k' = k then none else m.get? k' :=
  Assoc.lookup_erase k k' m.entries

theorem get?_map {M : Type*} (f : N → M) (m : OrderedMap K N) (k : K) :
    (m.map f).get? k = (m.get? k).map f := Assoc.lookup_map_snd f m.entries k

theorem mem_values_iff : v ∈ m.values ↔ ∃ k, m.get? k = some v := by
  constructor
  · intro hmem
    obtain ⟨pair, hpair, rfl⟩ := mem_map.mp hmem
    exact ⟨pair.1, Assoc.lookup_eq_some_of_mem m.sorted hpair⟩
  · rintro ⟨k, hk⟩
    exact mem_map.mpr ⟨(k, v), Assoc.mem_of_lookup_eq_some hk, rfl⟩

theorem values_insert_perm (h : m.get? k = none) (v : N) :
    (m.insert k v).values.Perm (v :: m.values) :=
  (Assoc.insert_perm h v).map Prod.snd

theorem values_erase_perm (h : m.get? k = some v) : m.values.Perm (v :: (m.erase k).values) :=
  (Assoc.erase_perm m.sorted h).map Prod.snd

/-- A new key adds its own pair and keeps the others. -/
theorem get?_insert_eq_some_iff {k' : K} {w : N} (h : m.get? k = none) :
    (m.insert k v).get? k' = some w ↔ m.get? k' = some w ∨ (w = v ∧ k = k') := by
  rw [get?_insert]
  by_cases heq : k' = k
  · rw [if_pos heq, heq, h]
    simp [eq_comm]
  · rw [if_neg heq]
    simp [Ne.symm heq]

/-- A value stored under a new key of its own is one more beside those still to be stored. -/
theorem get?_insert_listed {key : N → K} {first w : N} {k' : K} {listed : Prop}
    (h : m.get? (key first) = none) :
    (m.insert (key first) first).get? k' = some w ∨ listed ∧ key w = k' ↔
      m.get? k' = some w ∨ (w = first ∨ listed) ∧ key w = k' := by
  have hsame : w = first ∧ key first = k' ↔ w = first ∧ key w = k' :=
    and_congr_right fun heq => by rw [heq]
  rw [get?_insert_eq_some_iff h, hsame, or_and_right, or_assoc]

/-- The pairs whose keys are not among some keys. -/
def without (m : OrderedMap K N) (keys : List K) : List (K × N) :=
  m.entries.filter fun e => !keys.contains e.1

/-- Naming one more stored key leaves fewer pairs. -/
theorem length_without_lt {keys : List K} (hkeys : keys.contains k = false)
    (hget : m.get? k = some v) :
    (m.without (k :: keys)).length < (m.without keys).length := by
  have hmem : (k, v) ∈ m.without keys :=
    mem_filter.mpr ⟨Assoc.mem_of_lookup_eq_some hget, congrArg not hkeys⟩
  have hfilter : m.without (k :: keys) = (m.without keys).filter fun e => !(e.1 == k) := by
    simp only [without, filter_filter, contains_cons, Bool.not_or]
  rw [hfilter, length_filter_lt_length_iff_exists]
  exact ⟨(k, v), hmem, by simp⟩

/-- A map is determined by its lookups. -/
@[ext]
theorem ext {m' : OrderedMap K N} (h : ∀ k, m.get? k = m'.get? k) : m = m' := by
  cases m with
  | mk entries sorted =>
    cases m' with
    | mk entries' sorted' =>
      have hents : entries = entries' := Assoc.ext_lookup sorted sorted' h
      subst hents
      rfl

end OrderedMap

end PiOxidized.Math
