/-
# Parent links

Following parent links from a node of a set that is closed under them, along
which some rank decreases, visits distinct nodes of the set and ends at a root.
-/

import Mathlib.Data.List.Nodup
import Mathlib.Logic.Relation
import Mathlib.Order.Basic

namespace PiOxidized.Math

open List

universe u

variable {X : Type u}

/-- The nodes visited from a node up to a root. -/
inductive Climb (parent : X → Option X) : X → List X → Prop
  | root {a : X} : parent a = none → Climb parent a [a]
  | step {a p : X} {path : List X} :
      parent a = some p → Climb parent p path → Climb parent a (a :: path)

/-- A node and its parent. -/
def Link (parent : X → Option X) (a b : X) : Prop := parent a = some b

/-- A set closed under parent links, along which a rank decreases. -/
structure Ranked (parent : X → Option X) (rank : X → Nat) (S : X → Prop) : Prop where
  closed : ∀ {a p}, S a → parent a = some p → S p
  decreases : ∀ {a p}, S a → parent a = some p → rank p < rank a

variable {parent : X → Option X} {rank : X → Nat} {S : X → Prop}

variable {path : List X} {a : X}

variable {b : X}

/-- Every node of a ranked set climbs to a root through distinct nodes. -/
theorem Ranked.exists_climb (h : Ranked parent rank S) (ha : S a) :
    ∃ path, Climb parent a path ∧ path.Nodup ∧ ∀ b ∈ path, S b ∧ rank b ≤ rank a := by
  induction hn : rank a using Nat.strongRecOn generalizing a with
  | ind n ih =>
    subst hn
    cases hpar : parent a with
    | none =>
      refine ⟨[a], Climb.root hpar, nodup_singleton a, fun b hb => ?_⟩
      rw [mem_singleton.mp hb]
      exact ⟨ha, Nat.le_refl _⟩
    | some p =>
      have hlt := h.decreases ha hpar
      obtain ⟨path, hclimb, hnodup, hpath⟩ := ih (rank p) hlt (h.closed ha hpar) rfl
      refine ⟨a :: path, Climb.step hpar hclimb, nodup_cons.mpr ⟨?_, hnodup⟩, fun b hb => ?_⟩
      · intro hmem
        exact absurd hlt (Nat.not_lt.mpr (hpath a hmem).2)
      · rcases mem_cons.mp hb with rfl | hb
        · exact ⟨ha, Nat.le_refl _⟩
        · exact ⟨(hpath b hb).1, Nat.le_trans (hpath b hb).2 (Nat.le_of_lt hlt)⟩

/-- What follows a node on a climb is what climbs from its parent. -/
theorem Climb.mem_tail_iff (h : Climb parent a path) :
    b ∈ path.tail ↔ Relation.TransGen (Link parent) a b := by
  induction h with
  | @root a hpar =>
    constructor
    · intro hmem
      cases hmem
    · intro hreach
      obtain ⟨p, hlink, -⟩ := Relation.TransGen.head'_iff.mp hreach
      rw [Link, hpar] at hlink
      cases hlink
  | @step a p path hpar hclimb ih =>
    have hpath : path = p :: path.tail := by
      cases hclimb with
      | root => rfl
      | step => rfl
    rw [tail_cons, hpath, mem_cons, ih]
    constructor
    · rintro (rfl | hreach)
      · exact Relation.TransGen.single hpar
      · exact Relation.TransGen.head hpar hreach
    · intro hreach
      obtain ⟨q, hlink, hrest⟩ := Relation.TransGen.head'_iff.mp hreach
      obtain rfl : q = p := Option.some.inj (hlink.symm.trans hpar)
      rcases Relation.reflTransGen_iff_eq_or_transGen.mp hrest with heq | hlater
      · exact .inl heq
      · exact .inr hlater

/-- A climb visits exactly what can be reached along parent links. -/
theorem Climb.mem_iff (h : Climb parent a path) :
    b ∈ path ↔ Relation.ReflTransGen (Link parent) a b := by
  have hpath : path = a :: path.tail := by
    cases h with
    | root => rfl
    | step => rfl
  rw [hpath, mem_cons, h.mem_tail_iff, Relation.reflTransGen_iff_eq_or_transGen]

/-- From any node of a climb on, the rest is that node's climb. -/
theorem Climb.of_append {first rest : List X} (h : Climb parent a (first ++ b :: rest)) :
    Climb parent b (b :: rest) := by
  generalize hpath : first ++ b :: rest = path at h
  induction h generalizing first with
  | @root a hpar =>
    cases first with
    | nil =>
      obtain ⟨rfl, rfl⟩ := cons.inj hpath
      exact Climb.root hpar
    | cons c first =>
      rw [cons_append, cons.injEq] at hpath
      exact absurd hpath.2 (append_ne_nil_of_right_ne_nil first (cons_ne_nil b rest))
  | @step a p path hpar hclimb ih =>
    cases first with
    | nil =>
      obtain ⟨rfl, rfl⟩ := cons.inj hpath
      exact Climb.step hpar hclimb
    | cons c first => exact ih (cons.inj hpath).2

/-- A chain of parent links from a node starts its climb. -/
theorem Climb.exists_append {links : List X} (h : Climb parent a path)
    (hlinks : List.IsChain (Link parent) (a :: links)) : ∃ rest, path = a :: links ++ rest := by
  induction links generalizing a path with
  | nil =>
    cases h with
    | root => exact ⟨[], rfl⟩
    | step _ hclimb => exact ⟨_, rfl⟩
  | cons b links ih =>
    obtain ⟨hlink, hrest⟩ := isChain_cons_cons.mp hlinks
    cases h with
    | root hpar =>
      rw [Link, hpar] at hlink
      cases hlink
    | @step _ p path hpar hclimb =>
      obtain rfl : p = b := Option.some.inj (hpar.symm.trans hlink)
      obtain ⟨rest, rfl⟩ := ih hclimb hrest
      exact ⟨rest, rfl⟩

end PiOxidized.Math
