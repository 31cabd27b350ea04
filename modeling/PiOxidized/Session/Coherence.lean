/-
# Identity, ancestry and the sequence index

What every reachable state of the in-memory backend keeps: ids are owned once,
parent links lead through distinct stored entries to a root, and the sequence
index leads back to each entry.  A write is materialized one at a time, so the
invariant is proved for one write and carried over a batch; both validators are
shown to admit only batches that can be materialized that way.
-/

import PiOxidized.Math.Forest
import PiOxidized.Session.Memory
import Mathlib.Data.Fintype.Card

namespace PiOxidized.Session

open List Bool Math OrderedMap

namespace InMemoryStorageState

variable {R : Type} {state : InMemoryStorageState R}

/-- The parent link of a stored entry. -/
def parentOf (state : InMemoryStorageState R) (id : EntryId) : Option EntryId :=
  (state.entries.get? id).bind Entry.parentId

/-- Number of stored message entries. -/
def storedMessages (state : InMemoryStorageState R) : Nat :=
  (state.entries.values.filter Entry.isMessage).length

/-- The invariant of the store. -/
structure Coherent (state : InMemoryStorageState R) : Prop where
  entryKeys : ∀ id entry, state.entries.get? id = some entry → entry.id = id
  usageKeys : ∀ id row, state.usage.get? id = some row → row.id = id
  disjoint : ∀ id, state.entries.contains id = true → state.usage.contains id = false
  parents : ∀ id entry parent, state.entries.get? id = some entry → entry.parentId = some parent →
    ∃ stored, state.entries.get? parent = some stored ∧ stored.seq < entry.seq
  indexed : ∀ id entry, state.entries.get? id = some entry →
    state.entriesBySeq.get? entry.seq = some id
  indexes : ∀ seq id, state.entriesBySeq.get? seq = some id →
    ∃ entry, state.entries.get? id = some entry ∧ entry.seq = seq
  counted : state.stats.messageCount.val = min state.storedMessages (2 ^ 64 - 1)
  positive : 1 ≤ state.nextSeq.val
  below : ∀ id entry, state.entries.get? id = some entry → 1 ≤ entry.seq.val ∧
    (entry.seq < state.nextSeq ∨ (entry.seq = U64.max ∧ state.nextSeq = U64.max))

/-- A write whose id is fresh and whose parent is stored. -/
def Fresh (state : InMemoryStorageState R) : CommittedWrite R → Prop
  | .entry entry => state.containsId entry.id = false ∧
      ∀ parent, entry.parentId = some parent → state.entries.contains parent = true
  | .usage row => state.containsId row.id = false
  | _ => True

variable {write : CommittedWrite R}

theorem coherent_new : Coherent (new : InMemoryStorageState R) where
  entryKeys := by
    intro id entry h
    cases h
  usageKeys := by
    intro id row h
    cases h
  disjoint := by
    intro id h
    cases h
  parents := by
    intro id entry parent h
    cases h
  indexed := by
    intro id entry h
    cases h
  indexes := by
    intro seq id h
    cases h
  counted := rfl
  positive := le_refl _
  below := by
    intro id entry h
    cases h

theorem containsId_eq_false {id : String} (h : state.containsId id = false) :
    state.entries.get? id = none ∧ state.usage.get? id = none := by
  simpa [containsId, OrderedMap.contains] using h

/-- A write that touches neither entries nor usage rows keeps the invariant. -/
theorem Coherent.of_frame (h : Coherent state) {next : InMemoryStorageState R}
    (hents : next.entries = state.entries) (hidx : next.entriesBySeq = state.entriesBySeq)
    (husage : next.usage = state.usage)
    (hcnt : next.stats.messageCount = state.stats.messageCount)
    (hseq : state.nextSeq ≤ next.nextSeq) : Coherent next where
  entryKeys := by
    rw [hents]
    exact h.entryKeys
  usageKeys := by
    rw [husage]
    exact h.usageKeys
  disjoint := by
    rw [hents, husage]
    exact h.disjoint
  parents := by
    rw [hents]
    exact h.parents
  indexed := by
    rw [hents, hidx]
    exact h.indexed
  indexes := by
    rw [hents, hidx]
    exact h.indexes
  counted := by
    rw [hcnt, storedMessages, hents]
    exact h.counted
  positive := h.positive.trans hseq
  below := by
    rw [hents]
    intro id entry hget
    obtain ⟨hpos, hbelow⟩ := h.below id entry hget
    refine ⟨hpos, ?_⟩
    rcases hbelow with hlt | ⟨hmax, hnext⟩
    · exact .inl (lt_of_lt_of_le hlt hseq)
    · refine .inr ⟨hmax, le_antisymm ?_ (hnext ▸ hseq)⟩
      exact Nat.le_of_lt_succ next.nextSeq.isLt

theorem le_saturatingAdd_one {a b : U64} (h : a ≤ b) : a ≤ b.saturatingAdd U64.one := by
  show a.val ≤ (b.saturatingAdd U64.one).val
  have hle : a.val ≤ b.val := h
  have hbound := b.isLt
  rw [U64.val_saturatingAdd, U64.val_one]
  omega

theorem storedMessages_insert {id : EntryId} (h : state.entries.get? id = none) (entry : Entry R) :
    ((state.entries.insert id entry).values.filter Entry.isMessage).length =
      state.storedMessages + if entry.isMessage then 1 else 0 := by
  have hperm : (state.entries.insert id entry).values.Perm (entry :: state.entries.values) :=
    (Assoc.insert_perm h entry).map Prod.snd
  rw [(hperm.filter Entry.isMessage).length_eq, filter_cons, storedMessages]
  split_ifs with hmsg
  · rw [length_cons]
  · rw [Nat.add_zero]

/-- Storing an entry with a fresh id, a stored parent and a sequence above every
stored one keeps the invariant. -/
theorem Coherent.applyOne_entry (h : Coherent state) {entry : Entry R}
    (hid : state.containsId entry.id = false)
    (hpar : ∀ parent, entry.parentId = some parent → state.entries.contains parent = true)
    (hseq : state.nextSeq ≤ entry.seq)
    (habove : ∀ id stored, state.entries.get? id = some stored → stored.seq < entry.seq) :
    Coherent (state.applyOne (.entry entry)) := by
  obtain ⟨hent, husage⟩ := containsId_eq_false hid
  have hnext : (state.applyOne (.entry entry)).nextSeq = entry.seq.saturatingAdd U64.one := rfl
  have hnextVal := U64.val_saturatingAdd entry.seq U64.one
  have hpos : 1 ≤ entry.seq.val := h.positive.trans hseq
  have hget : ∀ id, (state.applyOne (.entry entry)).entries.get? id =
      if id = entry.id then some entry else state.entries.get? id :=
    fun id => get?_insert state.entries entry.id id entry
  have hidx : ∀ seq, (state.applyOne (.entry entry)).entriesBySeq.get? seq =
      if seq = entry.seq then some entry.id else state.entriesBySeq.get? seq :=
    fun seq => get?_insert state.entriesBySeq entry.seq seq entry.id
  -- An entry stored before is not the new one.
  have hold : ∀ id stored, state.entries.get? id = some stored → id ≠ entry.id := by
    intro id stored hstored heq
    rw [heq, hent] at hstored
    cases hstored
  constructor
  case entryKeys =>
    intro id stored hstored
    rw [hget] at hstored
    split_ifs at hstored with heq
    · rw [← Option.some.inj hstored, heq]
    · exact h.entryKeys id stored hstored
  case usageKeys => exact h.usageKeys
  case disjoint =>
    intro id hhas
    rw [OrderedMap.contains, hget] at hhas
    split_ifs at hhas with heq
    · show (state.usage.get? id).isSome = false
      rw [heq, husage]
      rfl
    · exact h.disjoint id hhas
  case parents =>
    intro id stored parent hstored hlink
    rw [hget] at hstored
    split_ifs at hstored with heq
    · cases hstored
      obtain ⟨ancestor, hanc⟩ := Option.isSome_iff_exists.mp (hpar parent hlink)
      refine ⟨ancestor, ?_, habove parent ancestor hanc⟩
      rw [hget, if_neg (hold parent ancestor hanc)]
      exact hanc
    · obtain ⟨ancestor, hanc, hlt⟩ := h.parents id stored parent hstored hlink
      refine ⟨ancestor, ?_, hlt⟩
      rw [hget, if_neg (hold parent ancestor hanc)]
      exact hanc
  case indexed =>
    intro id stored hstored
    rw [hget] at hstored
    split_ifs at hstored with heq
    · rw [← Option.some.inj hstored, hidx, if_pos rfl, heq]
    · rw [hidx, if_neg (habove id stored hstored).ne]
      exact h.indexed id stored hstored
  case indexes =>
    intro seq id hseqs
    rw [hidx] at hseqs
    split_ifs at hseqs with heq
    · rw [← Option.some.inj hseqs]
      exact ⟨entry, by rw [hget, if_pos rfl], heq.symm⟩
    · obtain ⟨stored, hstored, hstoredSeq⟩ := h.indexes seq id hseqs
      exact ⟨stored, by rw [hget, if_neg (hold id stored hstored), hstored], hstoredSeq⟩
  case counted =>
    have hcnt := h.counted
    have hmsgs := storedMessages_insert hent entry
    rw [storedMessages, show (state.applyOne (.entry entry)).entries =
      state.entries.insert entry.id entry from rfl, hmsgs]
    cases hmsg : entry.isMessage with
    | true =>
      have hcount : (state.applyOne (.entry entry)).stats.messageCount =
          state.stats.messageCount.saturatingAdd U64.one := by
        simp [applyOne, store, hmsg]
      rw [hcount, U64.val_saturatingAdd, U64.val_one, if_pos rfl]
      omega
    | false =>
      have hcount : (state.applyOne (.entry entry)).stats.messageCount =
          state.stats.messageCount := by
        simp [applyOne, store, hmsg]
      rw [hcount, if_neg (by simp)]
      omega
  case positive =>
    rw [hnext, hnextVal, U64.val_one]
    omega
  case below =>
    intro id stored hstored
    have hstoredSeq : 1 ≤ stored.seq.val ∧ stored.seq ≤ entry.seq := by
      rw [hget] at hstored
      split_ifs at hstored with heq
      · rw [← Option.some.inj hstored]
        exact ⟨hpos, le_refl _⟩
      · exact ⟨(h.below id stored hstored).1, (habove id stored hstored).le⟩
    have hle : stored.seq.val ≤ entry.seq.val := hstoredSeq.2
    have hbound := entry.seq.isLt
    refine ⟨hstoredSeq.1, ?_⟩
    rw [hnext]
    by_cases hmax : stored.seq.val = 2 ^ 64 - 1
    · refine .inr ⟨Fin.ext hmax, Fin.ext ?_⟩
      rw [hnextVal, U64.val_one, U64.val_max]
      omega
    · refine .inl ?_
      show stored.seq.val < (entry.seq.saturatingAdd U64.one).val
      rw [hnextVal, U64.val_one]
      omega

/-- Storing a usage row with a fresh id keeps the invariant. -/
theorem Coherent.applyOne_usage (h : Coherent state) {row : UsageRow R}
    (hid : state.containsId row.id = false) (hseq : state.nextSeq ≤ row.seq) :
    Coherent (state.applyOne (.usage row)) := by
  obtain ⟨hent, husage⟩ := containsId_eq_false hid
  have hget : ∀ id, (state.applyOne (.usage row)).usage.get? id =
      if id = row.id then some row else state.usage.get? id :=
    fun id => get?_insert state.usage row.id id row
  have hfrm : Coherent { state.applyOne (.usage row) with usage := state.usage } :=
    h.of_frame rfl rfl rfl rfl (le_saturatingAdd_one hseq)
  refine { hfrm with usageKeys := ?usageKeys, disjoint := ?disjoint }
  case usageKeys =>
    intro id stored hstored
    rw [hget] at hstored
    split_ifs at hstored with heq
    · rw [← Option.some.inj hstored, heq]
    · exact h.usageKeys id stored hstored
  case disjoint =>
    intro id hhas
    rw [OrderedMap.contains, hget]
    have hne : id ≠ row.id := by
      intro heq
      rw [heq] at hhas
      have hsome : (state.entries.get? row.id).isSome = true := hhas
      rw [hent] at hsome
      cases hsome
    rw [if_neg hne]
    exact h.disjoint id hhas

/-- Materializing one write keeps the invariant. -/
theorem Coherent.applyOne (h : Coherent state) (hfrs : state.Fresh write)
    (hseq : state.nextSeq ≤ write.seq)
    (habove : write.isEntry = true → ∀ id stored, state.entries.get? id = some stored →
      stored.seq < write.seq) : Coherent (state.applyOne write) := by
  cases write with
  | entry entry => exact h.applyOne_entry hfrs.1 hfrs.2 hseq (habove rfl)
  | usage row => exact h.applyOne_usage hfrs hseq
  | value write | list write =>
    cases write <;> exact h.of_frame rfl rfl rfl rfl (le_saturatingAdd_one hseq)

/-! ## Batches -/

/-- Writes that can be materialized one after the other. -/
def Admitted : InMemoryStorageState R → List (CommittedWrite R) → Prop
  | _, [] => True
  | state, write :: writes => state.Fresh write ∧ Admitted (state.applyOne write) writes

/-- Sequences that strictly increase from a mark on. -/
structure Ascending (mark : U64) (writes : List (CommittedWrite R)) : Prop where
  increasing : (writes.map CommittedWrite.seq).Pairwise (· < ·)
  above : ∀ write ∈ writes, mark ≤ write.seq

variable {writes : List (CommittedWrite R)}

theorem Ascending.tail {mark : U64} (h : Ascending mark (write :: writes)) :
    Ascending (write.seq.saturatingAdd U64.one) writes := by
  obtain ⟨hfst, hrest⟩ := pairwise_cons.mp h.increasing
  refine ⟨hrest, fun other hmem => ?_⟩
  have hlt : write.seq.val < other.seq.val := hfst _ (mem_map_of_mem hmem)
  show (write.seq.saturatingAdd U64.one).val ≤ other.seq.val
  rw [U64.val_saturatingAdd, U64.val_one]
  omega

/-- An entry stored after one write was stored before it or is that write. -/
theorem get?_applyOne {id : EntryId} {stored : Entry R}
    (h : (state.applyOne write).entries.get? id = some stored) :
    state.entries.get? id = some stored ∨ write = .entry stored := by
  cases write with
  | entry entry =>
    have hget : (state.applyOne (.entry entry)).entries.get? id =
        if id = entry.id then some entry else state.entries.get? id :=
      get?_insert state.entries entry.id id entry
    rw [hget] at h
    split_ifs at h with heq
    · rw [Option.some.inj h]
      exact .inr rfl
    · exact .inl h
  | usage row => exact .inl h
  | value write | list write => cases write <;> exact .inl h

/-- Materializing an admitted batch keeps the invariant. -/
theorem Coherent.applyCommitted (h : Coherent state) (hadm : Admitted state writes)
    (hasc : Ascending state.nextSeq writes)
    (habove : ∀ write ∈ writes, write.isEntry = true → ∀ id stored,
      state.entries.get? id = some stored → stored.seq < write.seq) :
    Coherent (state.applyCommitted writes) := by
  induction writes generalizing state with
  | nil => exact h
  | cons write writes ih =>
    obtain ⟨hfst, -⟩ := pairwise_cons.mp hasc.increasing
    have hnext := h.applyOne hadm.1 (hasc.above write mem_cons_self) (habove write mem_cons_self)
    refine ih hnext hadm.2 hasc.tail fun other hmem hent id stored hstored => ?_
    rcases get?_applyOne hstored with hold | hnew
    · exact habove other (mem_cons_of_mem _ hmem) hent id stored hold
    · have hlt := hfst _ (mem_map_of_mem hmem)
      rw [hnew] at hlt
      exact hlt

/-- Ids and entry ids known to a validator are those of the state reached so far. -/
structure Tracks (state : InMemoryStorageState R) (existing : CommittedIdView)
    (batchIds batchEntryIds : List String) : Prop where
  ids : ∀ id, state.containsId id = (existing.containsId id || batchIds.contains id)
  entryIds : ∀ id, state.entries.contains id =
    (existing.containsEntryId id || batchEntryIds.contains id)

theorem tracks_start (state : InMemoryStorageState R) : Tracks state state.idView [] [] where
  ids := by
    intro id
    simp [idView]
  entryIds := by
    intro id
    simp [idView]

theorem contains_applyOne_entry (entry : Entry R) (id : EntryId) :
    (state.applyOne (.entry entry)).entries.contains id =
      (state.entries.contains id || id == entry.id) := by
  have hget : (state.applyOne (.entry entry)).entries.get? id =
      if id = entry.id then some entry else state.entries.get? id :=
    get?_insert state.entries entry.id id entry
  rw [OrderedMap.contains, hget]
  by_cases heq : id = entry.id
  · simp [heq]
  · simp [heq, OrderedMap.contains]

theorem contains_applyOne_usage (row : UsageRow R) (id : UsageId) :
    (state.applyOne (.usage row)).usage.contains id =
      (state.usage.contains id || id == row.id) := by
  have hget : (state.applyOne (.usage row)).usage.get? id =
      if id = row.id then some row else state.usage.get? id :=
    get?_insert state.usage row.id id row
  rw [OrderedMap.contains, hget]
  by_cases heq : id = row.id
  · simp [heq]
  · simp [heq, OrderedMap.contains]

section

variable {existing : CommittedIdView} {batchIds batchEntryIds : List String}

variable {batch : List (CommittedWrite R)} {writes : List (Write R)} {time : Int} {seqs : List U64}

section

variable (h : Tracks state existing batchIds batchEntryIds)

include h

theorem Tracks.entry (entry : Entry R) :
    Tracks (state.applyOne (.entry entry)) existing (entry.id :: batchIds)
      (entry.id :: batchEntryIds) where
  ids := by
    intro id
    have hids := h.ids id
    rw [containsId] at hids ⊢
    rw [contains_applyOne_entry, contains_cons,
      show (state.applyOne (.entry entry)).usage.contains id = state.usage.contains id from rfl,
      Bool.or_right_comm, hids, Bool.or_assoc, Bool.or_comm (id == entry.id)]
  entryIds := by
    intro id
    rw [contains_applyOne_entry, contains_cons, h.entryIds id, Bool.or_assoc,
      Bool.or_comm (id == entry.id)]

theorem Tracks.usage (row : UsageRow R) :
    Tracks (state.applyOne (.usage row)) existing (row.id :: batchIds) batchEntryIds where
  ids := by
    intro id
    have hids := h.ids id
    rw [containsId] at hids ⊢
    rw [contains_applyOne_usage, contains_cons,
      show (state.applyOne (.usage row)).entries.contains id = state.entries.contains id from rfl,
      ← Bool.or_assoc, hids, Bool.or_assoc, Bool.or_comm (id == row.id)]
  entryIds := h.entryIds

theorem Tracks.value (write : CommittedValueWrite R) :
    Tracks (state.applyOne (.value write)) existing batchIds batchEntryIds := by
  cases write <;> exact ⟨h.ids, h.entryIds⟩

theorem Tracks.list (write : CommittedListWrite R) :
    Tracks (state.applyOne (.list write)) existing batchIds batchEntryIds := by
  cases write <;> exact ⟨h.ids, h.entryIds⟩

/-- A checked parent is stored. -/
theorem Tracks.parent {parentId : Option EntryId}
    (hpar : parentId.filter (missingParent existing batchEntryIds) = none) :
    ∀ parent, parentId = some parent → state.entries.contains parent = true := by
  intro parent hsome
  rw [hsome, Option.filter_eq_none_iff] at hpar
  have hpresent := hpar parent rfl
  rw [h.entryIds parent]
  cases hstored : existing.containsEntryId parent with
  | true => rfl
  | false => simpa [missingParent, hstored] using hpresent

/-- The replay validator admits only batches that can be materialized, with
sequences strictly above the previous one. -/
theorem admitted_of_validateReplayedFrom {writes : List (CommittedWrite R)} {previousSeq : U64}
    (hval : validateReplayedFrom existing previousSeq batchIds batchEntryIds writes = .ok ()) :
    Admitted state writes ∧ (writes.map CommittedWrite.seq).Pairwise (· < ·) ∧
      ∀ write ∈ writes, previousSeq < write.seq := by
  induction writes generalizing state previousSeq batchIds batchEntryIds with
  | nil => exact ⟨trivial, List.Pairwise.nil, by simp⟩
  | cons write writes ih =>
    unfold validateReplayedFrom at hval
    split_ifs at hval with hseq
    have hlt : previousSeq < write.seq := not_le.mp hseq
    -- What is left to show once the rest of the batch is known to be admitted.
    have hjoin : state.Fresh write → (Admitted (state.applyOne write) writes ∧
          (writes.map CommittedWrite.seq).Pairwise (· < ·) ∧
          ∀ other ∈ writes, write.seq < other.seq) →
        Admitted state (write :: writes) ∧
          ((write :: writes).map CommittedWrite.seq).Pairwise (· < ·) ∧
          ∀ other ∈ write :: writes, previousSeq < other.seq := by
      rintro hfrs ⟨hadm, hincr, habove⟩
      refine ⟨⟨hfrs, hadm⟩, pairwise_cons.mpr ⟨?_, hincr⟩, ?_⟩
      · intro seq hmem
        obtain ⟨other, hoth, rfl⟩ := mem_map.mp hmem
        exact habove other hoth
      · intro other hmem
        rcases mem_cons.mp hmem with rfl | hmem
        · exact hlt
        · exact lt_trans hlt (habove other hmem)
    cases write with
    | entry entry =>
      simp only at hval
      split_ifs at hval with hdup
      have hid : state.containsId entry.id = false := by
        rw [h.ids]
        exact eq_false_of_not_eq_true hdup
      cases hpar : entry.parentId.filter (missingParent existing batchEntryIds) with
      | some parent => simp [hpar] at hval
      | none =>
        simp only [hpar] at hval
        exact hjoin ⟨hid, h.parent hpar⟩ (ih (h.entry entry) hval)
    | usage row =>
      simp only at hval
      split_ifs at hval with hdup
      have hid : state.containsId row.id = false := by
        rw [h.ids]
        exact eq_false_of_not_eq_true hdup
      exact hjoin hid (ih (h.usage row) hval)
    | value write => exact hjoin trivial (ih (h.value write) hval)
    | list write => exact hjoin trivial (ih (h.list write) hval)

end

/-- Committing assigns consecutive sequences and keeps the kind of each write. -/
theorem commitWritesFrom_spec {firstSeq : U64} {i : Nat}
    (h : commitWritesFrom firstSeq time i writes = .ok (batch, seqs)) :
    batch.map CommittedWrite.seq = seqs ∧ (batch.map CommittedWrite.seq).Pairwise (· < ·) ∧
      (∀ write ∈ batch, firstSeq.val + i ≤ write.seq.val ∧
        write.seq.val < firstSeq.val + i + writes.length) ∧
      ∀ write ∈ batch, write.isEntry = true → ∃ proposed ∈ writes, proposed.isEntry = true := by
  induction writes generalizing i batch seqs with
  | nil =>
    cases h
    simp
  | cons write writes ih =>
    rw [commitWritesFrom] at h
    cases hseq : firstSeq.checkedAdd i with
    | none => simp [hseq] at h
    | some seq =>
      cases hrest : commitWritesFrom firstSeq time (i + 1) writes with
      | error error => simp [hseq, hrest, bind, Except.bind] at h
      | ok rest =>
        obtain ⟨batch', seqs'⟩ := rest
        simp only [hseq, hrest, bind, Except.bind, Except.ok.injEq, Prod.mk.injEq] at h
        obtain ⟨rfl, rfl⟩ := h
        obtain ⟨rfl, hincr, hbounds, hents⟩ := ih hrest
        have hval := U64.checkedAdd_eq_some hseq
        refine ⟨by simp, ?_, ?_, ?_⟩
        · rw [map_cons, pairwise_cons, Write.seq_commit]
          refine ⟨fun other hmem => ?_, hincr⟩
          obtain ⟨later, hlater, rfl⟩ := mem_map.mp hmem
          have := (hbounds later hlater).1
          show seq.val < later.seq.val
          omega
        · intro other hmem
          rw [length_cons]
          rcases mem_cons.mp hmem with rfl | hmem
          · rw [Write.seq_commit]
            omega
          · have := hbounds other hmem
            omega
        · intro other hmem hent
          rcases mem_cons.mp hmem with rfl | hmem
          · rw [Write.isEntry_commit] at hent
            exact ⟨write, mem_cons_self, hent⟩
          · obtain ⟨proposed, hproposed, hkind⟩ := hents other hmem hent
            exact ⟨proposed, mem_cons_of_mem _ hproposed, hkind⟩

/-- The commit validator admits only batches that can be materialized. -/
theorem admitted_of_validateCommittedFrom {firstSeq : U64} {i : Nat}
    (h : Tracks state existing batchIds batchEntryIds)
    (hval : validateCommittedFrom firstSeq existing i batchIds batchEntryIds writes = .ok ())
    (hcom : commitWritesFrom firstSeq time i writes = .ok (batch, seqs)) :
    Admitted state batch := by
  induction writes generalizing state i batchIds batchEntryIds batch seqs with
  | nil =>
    cases hcom
    trivial
  | cons write writes ih =>
    rw [commitWritesFrom] at hcom
    unfold validateCommittedFrom at hval
    cases hseq : firstSeq.checkedAdd i with
    | none => simp [hseq] at hcom
    | some seq =>
      cases hrest : commitWritesFrom firstSeq time (i + 1) writes with
      | error error => simp [hseq, hrest, bind, Except.bind] at hcom
      | ok rest =>
        obtain ⟨batch', seqs'⟩ := rest
        simp only [hseq, hrest, bind, Except.bind, Except.ok.injEq, Prod.mk.injEq] at hcom
        obtain ⟨rfl, -⟩ := hcom
        simp only [hseq] at hval
        cases write with
        | entry entry =>
          by_cases hdup : (existing.containsId entry.id || batchIds.contains entry.id) = true
          · simp only [if_pos hdup] at hval
            cases hval
          simp only [if_neg hdup] at hval
          have hid : state.containsId entry.id = false := by
            rw [h.ids]
            exact eq_false_of_not_eq_true hdup
          cases hpar : entry.parentId.filter (missingParent existing batchEntryIds) with
          | some parent => simp [hpar] at hval
          | none =>
            simp only [hpar] at hval
            split_ifs at hval with hpend
            have htracks := h.entry (entry.materialize seq time)
            rw [NewEntry.id_materialize] at htracks
            refine ⟨⟨?_, ?_⟩, ih htracks hval hrest⟩
            · rwa [NewEntry.id_materialize]
            · rw [NewEntry.parentId_materialize]
              exact h.parent hpar
        | usage row =>
          simp only at hval
          split_ifs at hval with hdup
          have hid : state.containsId row.id = false := by
            rw [h.ids]
            exact eq_false_of_not_eq_true hdup
          exact ⟨hid, ih (h.usage
            ⟨row.id, seq, row.usage, row.entryId, row.adjustment, row.details⟩) hval hrest⟩
        | value write =>
          cases write with
          | set | delete => exact ⟨trivial, ih (h.value _) hval hrest⟩
        | list write =>
          cases write with
          | append | delete => exact ⟨trivial, ih (h.list _) hval hrest⟩

end

/-! ## What the operations can do -/

/-- A commit is rejected and changes nothing, or materializes a batch with
consecutive sequences from the mark on. -/
theorem apply_cases (state : InMemoryStorageState R) (writes : List (Write R)) (time : Int) :
    (∃ error, state.apply writes time = (.error error, state)) ∨
    ∃ batch : List (CommittedWrite R),
      validateCommittedWrites writes state.nextSeq state.idView = .ok () ∧
      state.apply writes time = (.ok ⟨state.nextSeq, batch.map CommittedWrite.seq, time,
          (state.applyCommitted batch).stats⟩, state.applyCommitted batch) ∧
      Admitted state batch ∧ Ascending state.nextSeq batch ∧
      (∀ write ∈ batch, write.seq.val < state.nextSeq.val + writes.length) ∧
      ∀ write ∈ batch, write.isEntry = true → ∃ proposed ∈ writes, proposed.isEntry = true := by
  cases hval : validateCommittedWrites writes state.nextSeq state.idView with
  | error error => exact .inl ⟨error, by rw [apply, hval]⟩
  | ok _ =>
    cases hcom : commitWrites writes state.nextSeq time with
    | error error => exact .inl ⟨error, by simp only [apply, hval, hcom]⟩
    | ok outcome =>
      obtain ⟨batch, seqs⟩ := outcome
      obtain ⟨rfl, hincr, hbounds, hents⟩ := commitWritesFrom_spec hcom
      have hchecked : validateCommittedFrom state.nextSeq state.idView 0 [] [] writes = .ok () := by
        rwa [validateCommittedWrites, if_neg (fun h => h rfl)] at hval
      refine .inr ⟨batch, rfl, by simp only [apply, hval, hcom],
        admitted_of_validateCommittedFrom (tracks_start state) hchecked hcom,
        ⟨hincr, fun write hmem => (hbounds write hmem).1⟩,
        fun write hmem => (hbounds write hmem).2, hents⟩

/-- A replay is rejected and changes nothing, or materializes its writes, whose
sequences strictly increase from the mark on. -/
theorem replay_cases (state : InMemoryStorageState R) (writes : List (CommittedWrite R)) :
    (∃ error, state.replay writes = (.error error, state)) ∨
    (validateReplayedWrites writes state.idView = .ok () ∧ state.replay writes =
        (.ok (state.applyCommitted writes).stats, state.applyCommitted writes) ∧
      Admitted state writes ∧ Ascending state.nextSeq writes) := by
  cases hval : validateReplayedWrites writes state.idView with
  | error error => exact .inl ⟨error, by rw [replay, hval]⟩
  | ok _ =>
    obtain ⟨hadm, hincr, habove⟩ := admitted_of_validateReplayedFrom (tracks_start state) hval
    refine .inr ⟨rfl, by rw [replay, hval], hadm, hincr, fun write hmem => ?_⟩
    have hlt : (state.nextSeq.saturatingSub U64.one).val < write.seq.val := habove write hmem
    show state.nextSeq.val ≤ write.seq.val
    rw [U64.val_saturatingSub, U64.val_one] at hlt
    omega

end InMemoryStorageState

end PiOxidized.Session
