/-
# A desk that hands out what its tickets are owed

Every ticket is opened with a list of things to hand out.  Opened tickets wait in a queue, are
taken from its front, handed what they are owed one thing after the other and closed.  Several
tickets may be served at once, but never two of one line, and a ticket that is opened goes
behind the waiting ones of its line.

Every ticket is in one place, was handed exactly what it is not owed any more, and the tickets
of a line are served in the order they were opened in.
-/

import Mathlib.Data.Multiset.Dedup
import Mathlib.Data.List.Pairwise

namespace PiOxidized.Math

open List

universe u v w

/-- The tickets opened so far, where those still open are, and what was handed out. -/
@[ext]
structure Desk (T : Type u) (D : Type v) where
  /-- Every ticket with all it is owed, oldest first. -/
  opened : List (T × List D)
  waiting : List (T × List D)
  serving : Multiset (T × List D)
  /-- Oldest first. -/
  handed : List (T × D)
  closed : List T

namespace Desk

variable {T : Type u} {D : Type v} {S : Type w}

/-- The open tickets with what they are still owed. -/
def pending (d : Desk T D) : Multiset (T × List D) := d.waiting + d.serving

/-- What was handed to a ticket. -/
def given [DecidableEq T] (d : Desk T D) (t : T) : List D :=
  (d.handed.filter fun x => x.1 = t).map Prod.snd

/-- The moves of a desk; ranks rise with every ticket. -/
inductive Step (rank : T → Nat) (line : T → S) : Desk T D → Desk T D → Prop
  | opens {d : Desk T D} (t : T) (owed : List D) {before after : List (T × List D)} :
      d.waiting = before ++ after → (∀ x ∈ d.opened, rank x.1 < rank t) →
      (∀ x ∈ after, line x.1 ≠ line t) →
      Step rank line d
        { d with opened := d.opened ++ [(t, owed)], waiting := before ++ (t, owed) :: after }
  | takes {d : Desk T D} {x : T × List D} {rest : List (T × List D)} :
      d.waiting = x :: rest → (∀ y ∈ d.serving, line y.1 ≠ line x.1) →
      Step rank line d { d with waiting := rest, serving := x ::ₘ d.serving }
  | hands {d : Desk T D} {t : T} {thing : D} {rest : List D} {others : Multiset (T × List D)} :
      d.serving = (t, thing :: rest) ::ₘ others →
      Step rank line d
        { d with serving := (t, rest) ::ₘ others, handed := d.handed ++ [(t, thing)] }
  | closes {d : Desk T D} {t : T} {others : Multiset (T × List D)} :
      d.serving = (t, []) ::ₘ others →
      Step rank line d { d with serving := others, closed := d.closed ++ [t] }

/-- What every move keeps. -/
structure Sound [DecidableEq T] (rank : T → Nat) (line : T → S) (d : Desk T D) : Prop where
  rising : d.opened.Pairwise fun x y => rank x.1 < rank y.1
  /-- Every ticket is in one place. -/
  placed : (d.opened.map Prod.fst : Multiset T) = d.pending.map Prod.fst + d.closed
  known : ∀ x ∈ d.handed, x.1 ∈ d.opened.map Prod.fst
  owed : ∀ x ∈ d.pending, ∀ all, (x.1, all) ∈ d.opened → d.given x.1 ++ x.2 = all
  paid : ∀ t ∈ d.closed, ∀ all, (t, all) ∈ d.opened → d.given t = all
  queued : d.waiting.Pairwise fun x y => line x.1 = line y.1 → rank x.1 < rank y.1
  apart : (d.serving.map fun x => line x.1).Nodup
  ahead : ∀ x ∈ d.serving, ∀ y ∈ d.waiting, line x.1 = line y.1 → rank x.1 < rank y.1
  past : ∀ x ∈ d.handed, ∀ y ∈ d.waiting, line x.1 = line y.1 → rank x.1 < rank y.1
  present : ∀ x ∈ d.handed, ∀ y ∈ d.serving, line x.1 = line y.1 → rank x.1 ≤ rank y.1
  ordered : d.handed.Pairwise fun x y => line x.1 = line y.1 → rank x.1 ≤ rank y.1

variable {rank : T → Nat} {line : T → S} {d d' : Desk T D} {t : T}

variable {x : T × List D}

theorem mem_waiting_pending (h : x ∈ d.waiting) : x ∈ d.pending :=
  Multiset.mem_add.mpr (.inl (Multiset.mem_coe.mpr h))

theorem mem_serving_pending (h : x ∈ d.serving) : x ∈ d.pending := Multiset.mem_add.mpr (.inr h)

variable [DecidableEq T]

theorem given_append_self (d : Desk T D) (t : T) (thing : D) :
    { d with handed := d.handed ++ [(t, thing)] }.given t = d.given t ++ [thing] := by
  simp [given]

theorem given_append_of_ne (d : Desk T D) {s : T} (thing : D) (h : s ≠ t) :
    { d with handed := d.handed ++ [(t, thing)] }.given s = d.given s := by
  simp [given, Ne.symm h]

/-- Nothing was handed to a ticket that is not known. -/
theorem given_eq_nil (h : ∀ x ∈ d.handed, x.1 ≠ t) : d.given t = [] := by
  rw [given, map_eq_nil_iff, filter_eq_nil_iff]
  intro x hx
  simpa using h x hx

/-! ## What the places say -/

section

variable (h : d.Sound rank line)

include h

theorem Sound.nodup_opened : (d.opened.map Prod.fst).Nodup := by
  rw [List.Nodup, pairwise_map]
  refine h.rising.imp ?_
  intro x y hlt heq
  rw [heq] at hlt
  exact Nat.lt_irrefl _ hlt

theorem Sound.nodup_places : (d.pending.map Prod.fst + (d.closed : Multiset T)).Nodup := by
  rw [← h.placed]
  exact h.nodup_opened

theorem Sound.opened_of_pending (hx : x ∈ d.pending) : x.1 ∈ d.opened.map Prod.fst := by
  rw [← Multiset.mem_coe, h.placed]
  exact Multiset.mem_add.mpr (.inl (Multiset.mem_map_of_mem Prod.fst hx))

theorem Sound.opened_of_closed (ht : t ∈ d.closed) : t ∈ d.opened.map Prod.fst := by
  rw [← Multiset.mem_coe, h.placed]
  exact Multiset.mem_add.mpr (.inr (Multiset.mem_coe.mpr ht))

/-- A closed ticket is not open. -/
theorem Sound.ne_of_closed (ht : t ∈ d.closed) (hx : x ∈ d.pending) : x.1 ≠ t := by
  intro heq
  have hdisj := (Multiset.nodup_add.mp h.nodup_places).2.2
  refine Multiset.disjoint_left.mp hdisj (Multiset.mem_map_of_mem Prod.fst hx) ?_
  rw [heq]
  exact Multiset.mem_coe.mpr ht

end

/-! ## The moves -/

variable {others : Multiset (T × List D)}

section

variable (h : d.Sound rank line)

include h

/-- A ticket that is opened goes behind every other one. -/
theorem Sound.opens {owed : List D} {before after : List (T × List D)}
    (hwait : d.waiting = before ++ after) (hfrs : ∀ x ∈ d.opened, rank x.1 < rank t)
    (hline : ∀ x ∈ after, line x.1 ≠ line t) :
    Sound rank line
      { d with opened := d.opened ++ [(t, owed)], waiting := before ++ (t, owed) :: after } := by
  have hnew : ∀ s ∈ d.opened.map Prod.fst, rank s < rank t := by
    intro s hs
    obtain ⟨x, hx, rfl⟩ := mem_map.mp hs
    exact hfrs x hx
  have hne : ∀ s ∈ d.opened.map Prod.fst, s ≠ t := by
    intro s hs heq
    have hlt := hnew s hs
    rw [heq] at hlt
    exact Nat.lt_irrefl _ hlt
  -- What an old ticket is owed was written down before.
  have hold : ∀ s ∈ d.opened.map Prod.fst, ∀ all, (s, all) ∈ d.opened ++ [(t, owed)] →
      (s, all) ∈ d.opened := by
    intro s hs all hall
    cases mem_append.mp hall with
    | inl hall => exact hall
    | inr hall =>
      have heq := congrArg Prod.fst (mem_singleton.mp hall)
      exact absurd heq (hne s hs)
  have hpend : (before ++ (t, owed) :: after : List _) + d.serving = (t, owed) ::ₘ d.pending := by
    rw [pending, hwait, Multiset.coe_eq_coe.mpr perm_middle, ← Multiset.cons_coe, Multiset.cons_add]
  refine { h with
    rising := ?_, placed := ?_, known := ?_, owed := ?_, paid := ?_, queued := ?_, ahead := ?_,
    past := ?_ }
  · rw [pairwise_append]
    refine ⟨h.rising, pairwise_singleton _ _, ?_⟩
    intro x hx y hy
    rw [mem_singleton.mp hy]
    exact hfrs x hx
  · rw [pending, hpend, map_append, ← Multiset.coe_add, h.placed, Multiset.map_cons,
      Multiset.cons_add]
    exact Multiset.add_comm _ _
  · intro x hx
    rw [map_append]
    exact mem_append_left _ (h.known x hx)
  · intro x hx all hall
    rw [pending, hpend] at hx
    cases Multiset.mem_cons.mp hx with
    | inl hx =>
      rw [hx] at hall ⊢
      have hnone : d.given t = [] := given_eq_nil fun y hy => hne _ (h.known y hy)
      have hall : all = owed := by
        cases mem_append.mp hall with
        | inl hall => exact absurd rfl (hne t (mem_map_of_mem hall))
        | inr hall => exact congrArg Prod.snd (mem_singleton.mp hall)
      rw [hall]
      exact congrArg (· ++ owed) hnone
    | inr hx => exact h.owed x hx all (hold _ (h.opened_of_pending hx) all hall)
  · intro s hs all hall
    exact h.paid s hs all (hold s (h.opened_of_closed hs) all hall)
  · have hq := h.queued
    rw [hwait, pairwise_append] at hq
    obtain ⟨hpre, haft, hacross⟩ := hq
    rw [pairwise_append, pairwise_cons]
    refine ⟨hpre, ⟨fun x hx heq => absurd heq.symm (hline x hx), haft⟩, ?_⟩
    intro x hx y hy
    cases mem_cons.mp hy with
    | inl hy =>
      intro _
      rw [hy]
      refine hnew _ (h.opened_of_pending (mem_waiting_pending ?_))
      rw [hwait]
      exact mem_append_left _ hx
    | inr hy => exact hacross x hx y hy
  · intro x hx y hy heq
    have hy : y = (t, owed) ∨ y ∈ d.waiting := by
      rw [hwait]
      simpa [or_left_comm] using hy
    cases hy with
    | inl hy =>
      rw [hy]
      exact hnew _ (h.opened_of_pending (mem_serving_pending hx))
    | inr hy => exact h.ahead x hx y hy heq
  · intro x hx y hy heq
    have hy : y = (t, owed) ∨ y ∈ d.waiting := by
      rw [hwait]
      simpa [or_left_comm] using hy
    cases hy with
    | inl hy =>
      rw [hy]
      exact hnew _ (h.known x hx)
    | inr hy => exact h.past x hx y hy heq

/-- The first waiting ticket is taken when none of its line is served. -/
theorem Sound.takes {rest : List (T × List D)} (hwait : d.waiting = x :: rest)
    (hfree : ∀ y ∈ d.serving, line y.1 ≠ line x.1) :
    Sound rank line { d with waiting := rest, serving := x ::ₘ d.serving } := by
  have hpend : (rest : Multiset (T × List D)) + (x ::ₘ d.serving) = d.pending := by
    rw [pending, hwait, ← Multiset.cons_coe, Multiset.cons_add, Multiset.add_cons]
  have hx : x ∈ d.waiting := by
    rw [hwait]
    exact mem_cons_self
  have hrest : ∀ y ∈ rest, y ∈ d.waiting := by
    intro y hy
    rw [hwait]
    exact mem_cons_of_mem _ hy
  have hq := h.queued
  rw [hwait, pairwise_cons] at hq
  refine { h with
    placed := ?_, owed := ?_, queued := hq.2, apart := ?_, ahead := ?_, past := ?_,
    present := ?_ }
  · rw [pending, hpend]
    exact h.placed
  · intro y hy
    rw [pending, hpend] at hy
    exact h.owed y hy
  · rw [Multiset.map_cons, Multiset.nodup_cons]
    refine ⟨?_, h.apart⟩
    intro hmem
    obtain ⟨y, hy, heq⟩ := Multiset.mem_map.mp hmem
    exact hfree y hy heq
  · intro y hy z hz
    cases Multiset.mem_cons.mp hy with
    | inl hy =>
      rw [hy]
      exact hq.1 z hz
    | inr hy => exact h.ahead y hy z (hrest z hz)
  · intro y hy z hz
    exact h.past y hy z (hrest z hz)
  · intro y hy z hz heq
    cases Multiset.mem_cons.mp hz with
    | inl hz =>
      rw [hz] at heq ⊢
      exact Nat.le_of_lt (h.past y hy x hx heq)
    | inr hz => exact h.present y hy z hz heq

/-- A served ticket is handed the next thing it is owed. -/
theorem Sound.hands {thing : D} {rest : List D}
    (hservg : d.serving = (t, thing :: rest) ::ₘ others) :
    Sound rank line
      { d with serving := (t, rest) ::ₘ others, handed := d.handed ++ [(t, thing)] } := by
  have hmem : (t, thing :: rest) ∈ d.serving := by
    rw [hservg]
    exact Multiset.mem_cons_self _ _
  have hoth : ∀ y ∈ others, y ∈ d.serving := by
    intro y hy
    rw [hservg]
    exact Multiset.mem_cons_of_mem hy
  have hold : d.pending = (t, thing :: rest) ::ₘ ((d.waiting : Multiset _) + others) := by
    rw [pending, hservg, Multiset.add_cons]
  have hapart := h.apart
  rw [hservg, Multiset.map_cons, Multiset.nodup_cons] at hapart
  -- Other open tickets are other tickets.
  have hne : ∀ y ∈ (d.waiting : Multiset _) + others, y.1 ≠ t := by
    intro y hy heq
    have hnodup := (Multiset.nodup_add.mp h.nodup_places).1
    rw [hold, Multiset.map_cons, Multiset.nodup_cons] at hnodup
    exact hnodup.1 (Multiset.mem_map.mpr ⟨y, hy, heq⟩)
  refine { h with
    placed := ?_, known := ?_, owed := ?_, paid := ?_, apart := ?_, ahead := ?_, past := ?_,
    present := ?_, ordered := ?_ }
  · rw [pending, Multiset.add_cons, Multiset.map_cons, h.placed, hold, Multiset.map_cons]
  · intro y hy
    cases mem_append.mp hy with
    | inl hy => exact h.known y hy
    | inr hy =>
      rw [mem_singleton.mp hy]
      exact h.opened_of_pending (mem_serving_pending hmem)
  · intro y hy all hall
    rw [pending, Multiset.add_cons] at hy
    cases Multiset.mem_cons.mp hy with
    | inl hy =>
      rw [hy] at hall ⊢
      have howed := h.owed _ (mem_serving_pending hmem) all hall
      calc { d with serving := (t, rest) ::ₘ others, handed := d.handed ++ [(t, thing)] }.given t
            ++ rest
          = (d.given t ++ [thing]) ++ rest := congrArg (· ++ rest) (given_append_self d t thing)
        _ = d.given t ++ thing :: rest := by rw [append_assoc, singleton_append]
        _ = all := howed
    | inr hy =>
      have howed := h.owed y (by rw [hold]; exact Multiset.mem_cons_of_mem hy) all hall
      exact (congrArg (· ++ y.2) (given_append_of_ne d thing (hne y hy))).trans howed
  · intro s hs all hall
    have hdiffers : s ≠ t := (h.ne_of_closed hs (mem_serving_pending hmem)).symm
    exact (given_append_of_ne d thing hdiffers).trans (h.paid s hs all hall)
  · rw [Multiset.map_cons, Multiset.nodup_cons]
    exact hapart
  · intro y hy z hz
    cases Multiset.mem_cons.mp hy with
    | inl hy =>
      rw [hy]
      exact h.ahead _ hmem z hz
    | inr hy => exact h.ahead y (hoth y hy) z hz
  · intro y hy z hz
    cases mem_append.mp hy with
    | inl hy => exact h.past y hy z hz
    | inr hy =>
      rw [mem_singleton.mp hy]
      exact h.ahead _ hmem z hz
  · intro y hy z hz heq
    cases mem_append.mp hy with
    | inl hy =>
      cases Multiset.mem_cons.mp hz with
      | inl hz =>
        rw [hz] at heq ⊢
        exact h.present y hy (t, thing :: rest) hmem heq
      | inr hz => exact h.present y hy z (hoth z hz) heq
    | inr hy =>
      rw [mem_singleton.mp hy] at heq ⊢
      cases Multiset.mem_cons.mp hz with
      | inl hz =>
        rw [hz]
      | inr hz => exact absurd (Multiset.mem_map.mpr ⟨z, hz, heq.symm⟩) hapart.1
  · rw [pairwise_append]
    refine ⟨h.ordered, pairwise_singleton _ _, ?_⟩
    intro y hy z hz heq
    rw [mem_singleton.mp hz] at heq ⊢
    exact h.present y hy _ hmem heq

/-- A served ticket that was handed everything is closed. -/
theorem Sound.closes (hservg : d.serving = (t, []) ::ₘ others) :
    Sound rank line { d with serving := others, closed := d.closed ++ [t] } := by
  have hmem : (t, []) ∈ d.serving := by
    rw [hservg]
    exact Multiset.mem_cons_self _ _
  have hoth : ∀ y ∈ others, y ∈ d.serving := by
    intro y hy
    rw [hservg]
    exact Multiset.mem_cons_of_mem hy
  have hold : d.pending = (t, []) ::ₘ ((d.waiting : Multiset _) + others) := by
    rw [pending, hservg, Multiset.add_cons]
  have hapart := h.apart
  rw [hservg, Multiset.map_cons, Multiset.nodup_cons] at hapart
  refine { h with
    placed := ?_, owed := ?_, paid := ?_, apart := hapart.2, ahead := ?_, present := ?_ }
  · rw [h.placed, hold, Multiset.map_cons, Multiset.cons_add, pending, ← Multiset.coe_add,
      ← Multiset.add_assoc, Multiset.coe_singleton, Multiset.add_comm _ {t}, Multiset.singleton_add]
  · intro y hy
    refine h.owed y ?_
    rw [hold]
    exact Multiset.mem_cons_of_mem hy
  · intro s hs all hall
    cases mem_append.mp hs with
    | inl hs => exact h.paid s hs all hall
    | inr hs =>
      rw [mem_singleton.mp hs] at hall ⊢
      have howed := h.owed _ (mem_serving_pending hmem) all hall
      rwa [append_nil] at howed
  · intro y hy
    exact h.ahead y (hoth y hy)
  · intro y hy z hz
    exact h.present y hy z (hoth z hz)

/-- Every move keeps a desk sound. -/
theorem Sound.step (hstep : Step rank line d d') : d'.Sound rank line := by
  cases hstep with
  | opens t owed hwait hfrs hline => exact h.opens hwait hfrs hline
  | takes hwait hfree => exact h.takes hwait hfree
  | hands hservg => exact h.hands hservg
  | closes hservg => exact h.closes hservg

end

/-! ## What a sound desk has done -/

/-- A desk that has done nothing. -/
theorem Sound.empty : Sound rank line (Desk.mk [] [] 0 [] [] : Desk T D) := by
  constructor <;> simp [pending]

/-- A ticket is closed with everything handed out, or open and owed the rest. -/
theorem Sound.exact (h : d.Sound rank line) {all : List D} (hall : (t, all) ∈ d.opened) :
    (t ∈ d.closed ∧ d.given t = all) ∨
      (t ∉ d.closed ∧ ∃ rest, (t, rest) ∈ d.pending ∧ d.given t ++ rest = all) := by
  by_cases hshut : t ∈ d.closed
  · exact .inl ⟨hshut, h.paid t hshut all hall⟩
  · refine .inr ⟨hshut, ?_⟩
    have hplaced : t ∈ d.pending.map Prod.fst + (d.closed : Multiset T) := by
      rw [← h.placed]
      exact Multiset.mem_coe.mpr (mem_map_of_mem hall)
    cases Multiset.mem_add.mp hplaced with
    | inl hpend =>
      obtain ⟨x, hx, rfl⟩ := Multiset.mem_map.mp hpend
      exact ⟨x.2, hx, h.owed x hx all hall⟩
    | inr hmem => exact absurd (Multiset.mem_coe.mp hmem) hshut

end Desk

end PiOxidized.Math
