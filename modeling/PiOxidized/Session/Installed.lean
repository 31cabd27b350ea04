/-
# Contents of a materialized list of writes

What a state holds after a list of writes has been materialized, and when a list
with strictly increasing sequences can be materialized in an empty state: its ids
are owned once and every parent is an entry of the list with a smaller sequence.
-/

import PiOxidized.Session.Replay

namespace PiOxidized.Session

open List Math

/-- The id a committed write takes. -/
def CommittedWrite.ownedId {R : Type} : CommittedWrite R → Option String
  | .entry e => some e.id
  | .usage row => some row.id
  | _ => none

namespace InMemoryStorageState

variable {R : Type} {state : InMemoryStorageState R}

/-! ## Ids -/

theorem containsId_applyOne (state : InMemoryStorageState R) (write : CommittedWrite R)
    (id : String) :
    (state.applyOne write).containsId id = true ↔
      state.containsId id = true ∨ write.ownedId = some id := by
  have hents := @contains_applyOne_entry R state
  have husage := @contains_applyOne_usage R state
  cases write with
  | entry entry =>
    have hfrm : (state.applyOne (.entry entry)).usage.contains id = state.usage.contains id := rfl
    rw [containsId, containsId, hents, hfrm]
    simp only [CommittedWrite.ownedId, Bool.or_eq_true, beq_iff_eq, Option.some.injEq]
    tauto
  | usage row =>
    have hfrm : (state.applyOne (.usage row)).entries.contains id =
        state.entries.contains id := rfl
    rw [containsId, containsId, husage, hfrm]
    simp only [CommittedWrite.ownedId, Bool.or_eq_true, beq_iff_eq, Option.some.injEq]
    tauto
  | value write | list write =>
    cases write <;> simp [CommittedWrite.ownedId, containsId, applyOne, store]

theorem containsId_applyCommitted (state : InMemoryStorageState R)
    (writes : List (CommittedWrite R)) (id : String) :
    (state.applyCommitted writes).containsId id = true ↔
      state.containsId id = true ∨ id ∈ writes.filterMap CommittedWrite.ownedId := by
  induction writes generalizing state with
  | nil => simp [applyCommitted]
  | cons write writes ih =>
    have hstep := ih (state.applyOne write)
    rw [containsId_applyOne] at hstep
    rw [show state.applyCommitted (write :: writes) =
      (state.applyOne write).applyCommitted writes from rfl, hstep, mem_filterMap,
      mem_filterMap]
    simp only [mem_cons, exists_eq_or_imp, or_assoc]

/-! ## Entries, usage rows and values -/

variable {writes : List (CommittedWrite R)}

/-- The entries after an admitted list are the old ones and those of the list. -/
theorem get?_entries_applyCommitted (hadm : Admitted state writes) (id : EntryId)
    (entry : Entry R) :
    (state.applyCommitted writes).entries.get? id = some entry ↔
      state.entries.get? id = some entry ∨ (.entry entry ∈ writes ∧ entry.id = id) := by
  induction writes generalizing state with
  | nil => simp [applyCommitted]
  | cons write writes ih =>
    obtain ⟨hfrs, hrest⟩ := hadm
    rw [show state.applyCommitted (write :: writes) =
      (state.applyOne write).applyCommitted writes from rfl, ih hrest]
    cases write with
    | entry first =>
      -- The id is fresh, so nothing was stored under it.
      have hnone := (containsId_eq_false hfrs.1).1
      rw [show (state.applyOne (.entry first)).entries = state.entries.insert first.id first from rfl]
      simp only [mem_cons, CommittedWrite.entry.injEq]
      exact OrderedMap.get?_insert_listed hnone
    | usage row => simp [applyOne, store]
    | value write | list write => cases write <;> simp [applyOne, store]

/-- The usage rows after an admitted list are the old ones and those of the list. -/
theorem get?_usage_applyCommitted (hadm : Admitted state writes) (id : UsageId) (row : UsageRow R) :
    (state.applyCommitted writes).usage.get? id = some row ↔
      state.usage.get? id = some row ∨ (.usage row ∈ writes ∧ row.id = id) := by
  induction writes generalizing state with
  | nil => simp [applyCommitted]
  | cons write writes ih =>
    obtain ⟨hfrs, hrest⟩ := hadm
    rw [show state.applyCommitted (write :: writes) =
      (state.applyOne write).applyCommitted writes from rfl, ih hrest]
    cases write with
    | usage first =>
      -- The id is fresh, so nothing was stored under it.
      have hnone := (containsId_eq_false hfrs).2
      rw [show (state.applyOne (.usage first)).usage = state.usage.insert first.id first from rfl]
      simp only [mem_cons, CommittedWrite.usage.injEq]
      exact OrderedMap.get?_insert_listed hnone
    | entry entry => simp [applyOne, store]
    | value write | list write => cases write <;> simp [applyOne, store]

/-- A value stored after a list was stored before it or set by the list. -/
theorem get?_values_applyCommitted {slot : String ×ₗ String} {stored : RawStoredValue R}
    (h : (state.applyCommitted writes).values.get? slot = some stored) :
    state.values.get? slot = some stored ∨
      (.value (.set stored.seq stored.ns stored.key stored.value) ∈ writes ∧
        slot = toLex (stored.ns, stored.key)) := by
  induction writes generalizing state with
  | nil => exact .inl h
  | cons write writes ih =>
    rcases ih h with hstored | ⟨hmem, hslot⟩
    · cases write with
      | entry | usage => exact .inl hstored
      | list write => cases write <;> exact .inl hstored
      | value write =>
        cases write with
        | set seq ns key value =>
          have hget : (state.applyOne (.value (.set seq ns key value))).values.get? slot =
              if slot = toLex (ns, key) then some ⟨ns, key, .value, value, seq⟩
              else state.values.get? slot :=
            OrderedMap.get?_insert state.values _ slot _
          rw [hget] at hstored
          split_ifs at hstored with heq
          · cases hstored
            exact .inr ⟨mem_cons_self, heq⟩
          · exact .inl hstored
        | delete seq ns key =>
          have hget : (state.applyOne (.value (.delete seq ns key))).values.get? slot =
              if slot = toLex (ns, key) then none else state.values.get? slot :=
            OrderedMap.get?_erase state.values _ slot
          rw [hget] at hstored
          split_ifs at hstored
          exact .inl hstored
    · exact .inr ⟨mem_cons_of_mem _ hmem, hslot⟩

/-! ## Lists that can be materialized from nothing -/

/-- In a strictly increasing list, what lies below a write stands before it. -/
theorem mem_before {pre after : List (CommittedWrite R)} {write other : CommittedWrite R}
    (hincr : ((pre ++ write :: after).map CommittedWrite.seq).Pairwise (· < ·))
    (hoth : other ∈ pre ++ write :: after) (hlt : other.seq < write.seq) : other ∈ pre := by
  rcases mem_append.mp hoth with hpre | hrest
  · exact hpre
  · rw [map_append, map_cons] at hincr
    have haft := (pairwise_cons.mp (pairwise_append.mp hincr).2.1).1
    rcases mem_cons.mp hrest with rfl | hmem
    · exact absurd hlt (lt_irrefl _)
    · exact absurd hlt (haft _ (mem_map_of_mem hmem)).asymm

/-- A list whose ids are owned once and whose entries follow their parents. -/
theorem admitted_of_closed (hids : (writes.filterMap CommittedWrite.ownedId).Nodup)
    (hparents : ∀ pre entry after, writes = pre ++ .entry entry :: after →
      ∀ parent, entry.parentId = some parent → ∃ other, .entry other ∈ pre ∧ other.id = parent) :
    Admitted new writes := by
  -- By induction on the list read from its end: the last write is fresh.
  induction writes using reverseRecOn with
  | nil => trivial
  | append_singleton writes write ih =>
    rw [filterMap_append] at hids
    obtain ⟨hpre, -, hdisj⟩ := nodup_append.mp hids
    have hadm : Admitted new writes := by
      apply ih hpre
      intro pre entry after heq
      refine hparents pre entry (after ++ [write]) ?_
      rw [heq, append_assoc, cons_append]
    have hfrs : ∀ id, write.ownedId = some id →
        (new.applyCommitted writes).containsId id = false := by
      intro id hid
      rw [Bool.eq_false_iff]
      intro hhas
      rcases (containsId_applyCommitted new writes id).mp hhas with hnew | hmem
      · cases hnew
      · exact hdisj id hmem id (mem_filterMap.mpr ⟨write, by simp, hid⟩) rfl
    refine admitted_append.mpr ⟨hadm, ?_, trivial⟩
    cases write with
    | entry entry =>
      refine ⟨hfrs entry.id rfl, ?_⟩
      intro parent hpar
      obtain ⟨other, hoth, hid⟩ := hparents writes entry [] rfl parent hpar
      refine Option.isSome_iff_exists.mpr ⟨other, ?_⟩
      exact (get?_entries_applyCommitted hadm parent other).mpr (.inr ⟨hoth, hid⟩)
    | usage row => exact hfrs row.id rfl
    | value | list => trivial

end InMemoryStorageState

end PiOxidized.Session
