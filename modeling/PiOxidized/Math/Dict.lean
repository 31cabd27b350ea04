/-
# Dictionaries over a boolean equality

A dictionary is a list of entries read from the front.  Keys are compared by a
boolean equivalence, which may identify keys that are not the same value.
-/

import Mathlib.Data.List.Basic

namespace PiOxidized.Math

open List Function

universe u v

/-- A finite dictionary. -/
structure Dict (K : Type u) (N : Type v) where
  /-- The entries, newest first. -/
  entries : List (K × N)
  deriving DecidableEq

namespace Dict

variable {K : Type u} {N : Type v} [BEq K]

/-- The dictionary without entries. -/
def empty : Dict K N := ⟨[]⟩

instance : Inhabited (Dict K N) := ⟨empty⟩

/-- The value stored under a key. -/
def get? (d : Dict K N) (k : K) : Option N := d.entries.lookup k

/-- Whether a key is stored. -/
def contains (d : Dict K N) (k : K) : Bool := (d.get? k).isSome

/-- Drop the value stored under a key. -/
def erase (d : Dict K N) (k : K) : Dict K N := ⟨d.entries.filter fun e => !(k == e.1)⟩

/-- Store a value under a key, replacing what was there. -/
def insert (d : Dict K N) (k : K) (v : N) : Dict K N := ⟨(k, v) :: (d.erase k).entries⟩

/-- Number of entries. -/
def size (d : Dict K N) : Nat := d.entries.length

@[simp]
theorem get?_empty (k : K) : (empty : Dict K N).get? k = none := rfl

omit [BEq K] in
@[simp]
theorem size_empty : (empty : Dict K N).size = 0 := rfl

theorem lookup_cons (e : K × N) (rest : List (K × N)) (k : K) :
    (e :: rest).lookup k = if k == e.1 then some e.2 else rest.lookup k := by
  rw [List.lookup_cons]
  cases k == e.1 <;> rfl

variable [EquivBEq K]

variable {d : Dict K N}

variable {k : K}

theorem get?_erase (d : Dict K N) (k k' : K) :
    (d.erase k).get? k' = if k' == k then none else d.get? k' := by
  obtain ⟨entries⟩ := d
  simp only [get?, erase]
  induction entries with
  | nil => simp
  | cons e rest ih =>
    rw [filter_cons, lookup_cons]
    by_cases hk : k' == k
    · have hsame : (k' == e.1) = (k == e.1) := BEq.congr_left hk
      rw [if_pos hk] at ih ⊢
      cases he : k == e.1 with
      | true => simpa [he] using ih
      | false => simp [he, lookup_cons, hsame, ih]
    · rw [if_neg hk] at ih ⊢
      cases he : k == e.1 with
      | true =>
        have hne : (k' == e.1) = (k' == k) := (BEq.congr_right he).symm
        simp only [Bool.not_true, Bool.false_eq_true, if_false, ih, hne, if_neg hk]
      | false => simp [lookup_cons, ih]

theorem get?_insert (d : Dict K N) (k k' : K) (v : N) :
    (d.insert k v).get? k' = if k' == k then some v else d.get? k' := by
  have herase := get?_erase d k k'
  simp only [get?, insert] at herase ⊢
  rw [lookup_cons, herase]
  cases k' == k <;> rfl

omit [EquivBEq K] in
theorem mem_entries_of_get? [LawfulBEq K] {v : N} (h : d.get? k = some v) : (k, v) ∈ d.entries := by
  obtain ⟨before, after, hents, -⟩ := lookup_eq_some_iff.mp h
  rw [hents]
  exact mem_append_right before mem_cons_self

omit [EquivBEq K] in
theorem get?_insert_eq_update [LawfulBEq K] [DecidableEq K] (d : Dict K N) (k : K) (v : N) :
    (d.insert k v).get? = Function.update d.get? k (some v) := by
  funext k'
  by_cases hk : k' = k
  · subst hk
    rw [update_self, get?_insert, if_pos (beq_self_eq_true _)]
  · rw [update_of_ne hk, get?_insert, if_neg (by simpa using hk)]

omit [EquivBEq K] in
theorem get?_erase_eq_update [LawfulBEq K] [DecidableEq K] (d : Dict K N) (k : K) :
    (d.erase k).get? = Function.update d.get? k none := by
  funext k'
  by_cases hk : k' = k
  · subst hk
    rw [update_self, get?_erase, if_pos (beq_self_eq_true _)]
  · rw [update_of_ne hk, get?_erase, if_neg (by simpa using hk)]

omit [EquivBEq K] in
theorem size_insert_of_get?_eq_none (h : d.get? k = none) (v : N) :
    (d.insert k v).size = d.size + 1 := by
  obtain ⟨entries⟩ := d
  have hkeep : entries.filter (fun e => !(k == e.1)) = entries := by
    rw [filter_eq_self]
    intro e he
    exact lookup_eq_none_iff.mp h e he
  simp [insert, erase, size, hkeep]

end Dict

end PiOxidized.Math
