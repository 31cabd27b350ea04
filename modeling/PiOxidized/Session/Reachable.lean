/-
# Runs of the in-memory backend

A run starts empty or from a fork snapshot and takes calls one after another.
The sequence mark saturates at the largest number, so two conditions on the
calls of a run separate what always holds from what holds below that number.
-/

import PiOxidized.Math.Pages
import PiOxidized.Session.Coherence

namespace PiOxidized.Session

open List Math

namespace InMemoryStorageState

/-- A call on the state. -/
inductive Action (R : Type)
  | apply (writes : List (Write R)) (timestamp : Int)
  | replay (writes : List (CommittedWrite R))
  | advanceNextSeq (nextSeq : U64)

variable {R : Type} {state : InMemoryStorageState R}

/-- The state a call leaves. -/
def perform (state : InMemoryStorageState R) : Action R → InMemoryStorageState R
  | .apply writes timestamp => (state.apply writes timestamp).2
  | .replay writes => (state.replay writes).2
  | .advanceNextSeq nextSeq => state.advanceNextSeq nextSeq

/-- The sequences of the writes a call admits, in admission order. -/
def admitted (state : InMemoryStorageState R) : Action R → List U64
  | .apply writes timestamp =>
    match (state.apply writes timestamp).1 with
    | .ok result => result.seqs
    | .error _ => []
  | .replay writes =>
    match (state.replay writes).1 with
    | .ok _ => writes.map CommittedWrite.seq
    | .error _ => []
  | .advanceNextSeq _ => []

/-- The states reached by calls that meet a condition, with the sequences of all
writes admitted so far. -/
inductive Run (condition : InMemoryStorageState R → Action R → Prop) :
    InMemoryStorageState R → List U64 → Prop
  | new : Run condition new []
  | fork {snapshot : ForkDestinationSnapshot R} {state : InMemoryStorageState R} :
      condition InMemoryStorageState.new (.replay (forkSnapshotWrites snapshot)) →
      fromForkSnapshot snapshot = .ok state →
      Run condition state ((forkSnapshotWrites snapshot).map CommittedWrite.seq)
  | step {state : InMemoryStorageState R} {history : List U64} (action : Action R) :
      Run condition state history → condition state action →
      Run condition (state.perform action) (history ++ state.admitted action)

/-! ## Identity and ancestry -/

/-- While the index holds the largest sequence, an admitted batch has no entry. -/
def Clear (state : InMemoryStorageState R) : Action R → Prop
  | .apply writes _ =>
    validateCommittedWrites writes state.nextSeq state.idView = .ok () →
    state.entriesBySeq.contains U64.max = true → ∀ write ∈ writes, write.isEntry = false
  | .replay writes =>
    validateReplayedWrites writes state.idView = .ok () →
    state.entriesBySeq.contains U64.max = true → ∀ write ∈ writes, write.isEntry = false
  | .advanceNextSeq _ => True

variable {writes : List (CommittedWrite R)} {history : List U64} {action : Action R}

variable {error : SessionError} {time : Int}

/-- A new entry lies above every stored one unless the largest sequence is taken. -/
theorem Coherent.above (h : Coherent state) {seq : U64} (hseq : state.nextSeq ≤ seq)
    (hclear : state.entriesBySeq.contains U64.max = false) :
    ∀ id stored, state.entries.get? id = some stored → stored.seq < seq := by
  intro id stored hstored
  rcases (h.below id stored hstored).2 with hlt | ⟨hmax, -⟩
  · exact lt_of_lt_of_le hlt hseq
  · have hidx := h.indexed id stored hstored
    rw [hmax] at hidx
    rw [OrderedMap.contains, hidx] at hclear
    cases hclear

theorem Coherent.replay (h : Coherent state) (hclear : Clear state (.replay writes)) :
    Coherent (state.replay writes).2 := by
  rcases replay_cases state writes with ⟨error, heq⟩ | ⟨hval, heq, hadm, hasc⟩
  · rw [heq]
    exact h
  · rw [heq]
    refine h.applyCommitted hadm hasc fun write hmem hent => ?_
    refine h.above (hasc.above write hmem) (Bool.eq_false_of_not_eq_true fun htkn => ?_)
    rw [hclear hval htkn write hmem] at hent
    cases hent

theorem Coherent.apply {writes : List (Write R)} (h : Coherent state)
    (hclear : Clear state (.apply writes time)) :
    Coherent (state.apply writes time).2 := by
  rcases apply_cases state writes time with
    ⟨error, heq⟩ | ⟨committed, hval, heq, hadm, hasc, -, hents⟩
  · rw [heq]
    exact h
  · rw [heq]
    refine h.applyCommitted hadm hasc fun write hmem hent => ?_
    refine h.above (hasc.above write hmem) (Bool.eq_false_of_not_eq_true fun htkn => ?_)
    obtain ⟨proposed, hproposed, hkind⟩ := hents write hmem hent
    rw [hclear hval htkn proposed hproposed] at hkind
    cases hkind

theorem Coherent.advanceNextSeq (h : Coherent state) (nextSeq : U64) :
    Coherent (state.advanceNextSeq nextSeq) :=
  h.of_frame rfl rfl rfl rfl (le_max_left state.nextSeq nextSeq)

/-- Every call that meets the condition keeps the invariant. -/
theorem Coherent.perform (h : Coherent state) (hclear : Clear state action) :
    Coherent (state.perform action) := by
  cases action with
  | apply writes time => exact h.apply hclear
  | replay writes => exact h.replay hclear
  | advanceNextSeq nextSeq => exact h.advanceNextSeq nextSeq

/-- A fork is a replay into an empty state followed by a move of the mark. -/
theorem fromForkSnapshot_eq_ok {snap : ForkDestinationSnapshot R}
    (h : fromForkSnapshot snap = .ok state) :
    (∃ stats, (new.replay (forkSnapshotWrites snap)).1 = .ok stats) ∧
      state = (new.replay (forkSnapshotWrites snap)).2.advanceNextSeq snap.nextSeq := by
  rw [fromForkSnapshot] at h
  generalize new.replay (forkSnapshotWrites snap) = outcome at h ⊢
  obtain ⟨result, replayed⟩ := outcome
  cases result with
  | error error => cases h
  | ok stats => exact ⟨⟨stats, rfl⟩, (Except.ok.inj h).symm⟩

theorem Run.coherent (h : Run Clear state history) : Coherent state := by
  induction h with
  | new => exact coherent_new
  | @fork snap state hclear hfork =>
    obtain ⟨-, rfl⟩ := fromForkSnapshot_eq_ok hfork
    exact (coherent_new.replay hclear).advanceNextSeq snap.nextSeq
  | step action _ hclear ih => exact ih.perform hclear

/-! ## Scans -/

/-- The entries from the root to an optional tip. -/
inductive Ancestry (state : InMemoryStorageState R) : Option EntryId → List (Entry R) → Prop
  | root : Ancestry state none []
  | child {id : EntryId} {entry : Entry R} {above : List (Entry R)} :
      state.entries.get? id = some entry → Ancestry state entry.parentId above →
      Ancestry state (some id) (above ++ [entry])

/-- The entries of an ancestry that a query keeps up to its stop, newest first. -/
def scanned (query : StorageBranchScan) (order : ScanOrder) (path : List (Entry R)) :
    List (Entry R) :=
  (upTo (fun entry => stopsAt query entry.id entry) path.reverse).filter (keeps query order)

variable {path : List (Entry R)} {tip : Option EntryId} {id : EntryId} {query : StorageBranchScan}

/-- An entry has one ancestry. -/
theorem Ancestry.unique {other : List (Entry R)} (h : Ancestry state tip path)
    (hoth : Ancestry state tip other) : path = other := by
  induction h generalizing other with
  | root =>
    cases hoth
    rfl
  | child hget _ ih =>
    cases hoth with
    | child hget' habove =>
      obtain rfl := Option.some.inj (hget.symm.trans hget')
      rw [ih habove]

section

variable (hstops : ∀ id entry, state.entries.get? id = some entry →
  stopsAt query entry.id entry = stopsAt query id entry)

include hstops

/-- A walk finds the entries it is asked for; one that goes down stops when it has enough. -/
theorem Ancestry.scanLoop_eq {order : ScanOrder} (limit : Nat) (h : Ancestry state (some id) path)
    {seen : List EntryId} (hseen : ∀ other ∈ seen, ∃ longer, Ancestry state (some other) longer ∧
      path.length < longer.length) (output : List (Entry R)) :
    state.scanLoop query order limit id seen output = .ok (output ++
      if order = .desc then (scanned query order path).take (max 1 (limit - output.length))
      else scanned query order path) := by
  generalize htip : some id = tip at h
  induction h generalizing id seen output with
  | root => cases htip
  | @child id' entry above hget habove ih =>
    obtain rfl := Option.some.inj htip
    have hfrs : ¬seen.contains id = true := by
      intro hhas
      obtain ⟨longer, hlonger, hlt⟩ := hseen id (contains_iff_mem.mp hhas)
      rw [hlonger.unique (.child hget habove)] at hlt
      exact Nat.lt_irrefl _ hlt
    rw [scanLoop, dif_neg hfrs]
    split
    · rename_i hnone
      rw [hget] at hnone
      cases hnone
    · rename_i found hfnd
      obtain rfl := Option.some.inj (hget.symm.trans hfnd)
      generalize hkept : (if keeps query order entry then output ++ [entry] else output) = kept
      -- What the rest of the walk finds, which is nothing behind a stop.
      have hsplit : scanned query order (above ++ [entry]) =
          (if keeps query order entry then [entry] else []) ++
            if stopsAt query id entry then [] else scanned query order above := by
        rw [scanned, reverse_append, reverse_singleton, singleton_append, upTo_cons, filter_cons,
          hstops id entry hget]
        split <;> split <;> rfl
      rw [hsplit]
      by_cases hfull :
          (keeps query order entry && order == .desc && decide (limit ≤ kept.length)) = true
      · rw [if_pos hfull]
        simp only [Bool.and_eq_true, beq_iff_eq, decide_eq_true_eq] at hfull
        obtain ⟨⟨hkps, rfl⟩, hroom⟩ := hfull
        rw [if_pos hkps] at hkept ⊢
        rw [← hkept, length_append, length_singleton] at hroom
        rw [if_pos rfl, show max 1 (limit - output.length) = 1 by omega, ← hkept]
        rfl
      · rw [if_neg hfull]
        have hmore (rest : List (Entry R)) : (output ++ if order = .desc then
            ((if keeps query order entry then [entry] else []) ++ rest).take
              (max 1 (limit - output.length))
            else (if keeps query order entry then [entry] else []) ++ rest) =
              kept ++ if order = .desc then rest.take (max 1 (limit - kept.length)) else rest := by
          by_cases hkps : keeps query order entry = true
          · rw [if_pos hkps] at hkept ⊢
            rw [← hkept, append_assoc]
            split_ifs with horder
            · subst horder
              have hroom : ¬limit ≤ output.length + 1 := by
                rw [← hkept, hkps, length_append, length_singleton] at hfull
                simpa using hfull
              rw [length_append, length_singleton,
                show max 1 (limit - output.length) = max 1 (limit - (output.length + 1)) + 1 by omega]
              rfl
            · rfl
          · rw [if_neg hkps] at hkept ⊢
            rw [← hkept, nil_append]
        rw [hmore]
        cases hpar : entry.parentId with
        | none =>
          rw [hpar] at habove
          cases habove
          have hnone : (if stopsAt query id entry then [] else scanned query order []) =
              ([] : List (Entry R)) := ite_self _
          rw [hnone, take_nil, ite_self, append_nil]
        | some parent =>
          rw [hpar] at habove ih
          by_cases hstop : stopsAt query id entry = true
          · simp only [if_pos hstop, take_nil, ite_self, append_nil]
          · simp only [if_neg hstop]
            refine ih (fun other hmem => ?_) kept rfl
            rcases mem_cons.mp hmem with rfl | hmem
            · refine ⟨_, .child hget (hpar ▸ habove), ?_⟩
              rw [length_append, length_singleton]
              exact Nat.lt_succ_self _
            · obtain ⟨longer, hlonger, hlt⟩ := hseen other hmem
              rw [length_append, length_singleton] at hlt
              exact ⟨longer, hlonger, by omega⟩

/-- What a scan finds, in the order it is asked for. -/
def found (query : StorageBranchScan) (path : List (Entry R)) : List (Entry R) :=
  match query.order.getD .desc with
  | .asc => (scanned query .asc path).reverse
  | .desc => scanned query .desc path

theorem Ancestry.scanBranch_eq (h : Ancestry state (some query.start) path) :
    state.scanBranch query = .ok ((found query path).take
      (min (query.limit.getD listReadDefaultLimit) listReadMaxLimit)) := by
  have hloop (order : ScanOrder) : state.scanLoop query order _ query.start [] [] = _ :=
    h.scanLoop_eq hstops (min (query.limit.getD listReadDefaultLimit) listReadMaxLimit)
      (fun other hmem => absurd hmem not_mem_nil) []
  rw [scanBranch]
  simp only [hloop, bind, Except.bind, nil_append, length_nil, Nat.sub_zero]
  rw [found]
  cases query.order.getD .desc with
  | asc => rfl
  | desc =>
    rw [if_neg (by decide), if_pos rfl, take_take, min_eq_left (le_max_right _ _)]

end

section

variable (h : Coherent state)

include h

/-- Sequence numbers rank the stored entries along their parent links. -/
theorem Coherent.ranked :
    Ranked state.parentOf (fun id => ((state.entries.get? id).map fun e => e.seq.val).getD 0)
      (fun id => state.entries.contains id = true) where
  closed := by
    intro id parent hid hpar
    obtain ⟨entry, hent, hlink⟩ := Option.bind_eq_some_iff.mp hpar
    obtain ⟨stored, hstored, -⟩ := h.parents id entry parent hent hlink
    rw [OrderedMap.contains, hstored]
    rfl
  decreases := by
    intro id parent hid hpar
    obtain ⟨entry, hent, hlink⟩ := Option.bind_eq_some_iff.mp hpar
    obtain ⟨stored, hstored, hlt⟩ := h.parents id entry parent hent hlink
    simpa [hent, hstored] using hlt

/-- Sequences are distinct and positive, so the message count never saturates. -/
theorem Coherent.messageCount : state.stats.messageCount.val = state.storedMessages := by
  have hnodup : (U64.zero :: state.entries.values.map Entry.seq).Nodup := by
    refine nodup_cons.mpr ⟨fun hmem => ?_, ?_⟩
    · obtain ⟨entry, hent, hseq⟩ := mem_map.mp hmem
      obtain ⟨pair, hpair, rfl⟩ := mem_map.mp hent
      have hget := Assoc.lookup_eq_some_of_mem state.entries.sorted hpair
      have hpos := (h.below pair.1 pair.2 hget).1
      rw [hseq] at hpos
      exact absurd hpos (by decide)
    · rw [OrderedMap.values, map_map, List.Nodup, pairwise_map]
      refine state.entries.sorted.imp_of_mem fun {first second} hfst hsnd hlt heq => ?_
      have hone := h.indexed _ _ (Assoc.lookup_eq_some_of_mem state.entries.sorted hfst)
      have htwo := h.indexed _ _ (Assoc.lookup_eq_some_of_mem state.entries.sorted hsnd)
      have hsame : first.2.seq = second.2.seq := heq
      rw [hsame, htwo] at hone
      exact hlt.ne' (Option.some.inj hone)
  have hcard := hnodup.length_le_card
  have hfilter := length_filter_le Entry.isMessage state.entries.values
  rw [length_cons, length_map, Fintype.card_fin] at hcard
  rw [h.counted, storedMessages]
  omega

/-- Every stored entry has an ancestry. -/
theorem Coherent.exists_ancestry {id : EntryId} (hid : state.entries.contains id = true) :
    ∃ path, Ancestry state (some id) path := by
  obtain ⟨entry, hget⟩ := Option.isSome_iff_exists.mp hid
  clear hid
  induction hn : entry.seq.val using Nat.strongRecOn generalizing id entry with
  | ind n ih =>
    cases hpar : entry.parentId with
    | none =>
      have habove : Ancestry state entry.parentId [] := hpar ▸ Ancestry.root
      exact ⟨_, .child hget habove⟩
    | some parent =>
      obtain ⟨stored, hstored, hlt⟩ := h.parents id entry parent hget hpar
      obtain ⟨above, habove⟩ := ih _ (hn ▸ hlt) stored hstored rfl
      exact ⟨_, .child hget (hpar ▸ habove)⟩

theorem Coherent.stopsAt_id (id : EntryId) (entry : Entry R)
    (hget : state.entries.get? id = some entry) :
    stopsAt query entry.id entry = stopsAt query id entry := by rw [h.entryKeys id entry hget]

theorem Coherent.scanBranch_eq_ok {query : StorageBranchScan}
    (hsta : state.entries.contains query.start = true) :
    ∃ output, state.scanBranch query = .ok output := by
  obtain ⟨path, hpath⟩ := h.exists_ancestry hsta
  exact ⟨_, hpath.scanBranch_eq h.stopsAt_id⟩

/-- The keys of the two maps are the ids of their records, and no id has two owners. -/
theorem Coherent.nodup_ids :
    (state.entries.values.map Entry.id ++ state.usage.values.map UsageRow.id).Nodup := by
  have hent : ∀ pair ∈ state.entries.entries, (Entry.id ∘ Prod.snd) pair = pair.1 := by
    intro pair hpair
    exact h.entryKeys _ _ (Assoc.lookup_eq_some_of_mem state.entries.sorted hpair)
  have husage : ∀ pair ∈ state.usage.entries, (UsageRow.id ∘ Prod.snd) pair = pair.1 := by
    intro pair hpair
    exact h.usageKeys _ _ (Assoc.lookup_eq_some_of_mem state.usage.sorted hpair)
  rw [OrderedMap.values, OrderedMap.values, map_map, map_map]
  rw [map_congr_left hent, map_congr_left husage]
  refine nodup_append.mpr ⟨?_, ?_, ?_⟩
  · rw [List.Nodup, pairwise_map]
    exact state.entries.sorted.imp fun hlt => hlt.ne
  · rw [List.Nodup, pairwise_map]
    exact state.usage.sorted.imp fun hlt => hlt.ne
  · intro id hid other hoth heq
    obtain ⟨entry, hents, rfl⟩ := mem_map.mp hid
    obtain ⟨row, hrows, rfl⟩ := mem_map.mp hoth
    have hstored := Assoc.lookup_eq_some_of_mem state.entries.sorted hents
    have howned := Assoc.lookup_eq_some_of_mem state.usage.sorted hrows
    have hdisj := h.disjoint entry.1 (Option.isSome_iff_exists.mpr ⟨_, hstored⟩)
    rw [heq, OrderedMap.contains, OrderedMap.get?, howned] at hdisj
    cases hdisj

/-- Every stored entry climbs to a root through distinct stored entries. -/
theorem Coherent.exists_climb {id : EntryId} (hid : state.entries.contains id = true) :
    ∃ path, Climb state.parentOf id path ∧ path.Nodup ∧
      ∀ other ∈ path, state.entries.contains other = true := by
  obtain ⟨path, hclimb, hnodup, hstored⟩ := h.ranked.exists_climb hid
  exact ⟨path, hclimb, hnodup, fun other hmem => (hstored other hmem).1⟩

end

/-- A rejected call leaves the state as it was. -/
theorem apply_error {writes : List (Write R)} (h : (state.apply writes time).1 = .error error) :
    (state.apply writes time).2 = state := by
  rcases apply_cases state writes time with ⟨_, heq⟩ | ⟨_, _, heq, _⟩
  · rw [heq]
  · rw [heq] at h
    cases h

theorem replay_error (h : (state.replay writes).1 = .error error) :
    (state.replay writes).2 = state := by
  rcases replay_cases state writes with ⟨_, heq⟩ | ⟨_, heq, _⟩
  · rw [heq]
  · rw [heq] at h
    cases h

/-- In every run in which no entry is admitted once the index holds the largest
sequence: ids have one owner, parents are stored, every entry climbs to a root
through distinct entries, the index leads back to each entry and only to
entries, messages are counted, rejected calls change nothing, and a branch scan
from a stored start returns. -/
theorem Run.identity_and_ancestry {history : List U64} (h : Run Clear state history) :
    (state.entries.values.map Entry.id ++ state.usage.values.map UsageRow.id).Nodup ∧
    (∀ id entry, state.entries.get? id = some entry → entry.id = id ∧
      state.entriesBySeq.get? entry.seq = some id ∧
      (∀ parent, entry.parentId = some parent → state.entries.contains parent = true) ∧
      ∃ path, Climb state.parentOf id path ∧ path.Nodup ∧
        ∀ other ∈ path, state.entries.contains other = true) ∧
    (∀ id row, state.usage.get? id = some row → row.id = id) ∧
    state.stats.messageCount.val = (state.entries.values.filter Entry.isMessage).length ∧
    (∀ writes time error, (state.apply writes time).1 = .error error →
      (state.apply writes time).2 = state) ∧
    (∀ writes error, (state.replay writes).1 = .error error → (state.replay writes).2 = state) ∧
    ∀ query : StorageBranchScan, state.entries.contains query.start = true →
      ∃ output, state.scanBranch query = .ok output := by
  have hcoherent := h.coherent
  refine ⟨hcoherent.nodup_ids, ?_, hcoherent.usageKeys, hcoherent.messageCount,
    fun _ _ _ => apply_error, fun _ _ => replay_error, fun _ => hcoherent.scanBranch_eq_ok⟩
  intro id entry hent
  refine ⟨hcoherent.entryKeys id entry hent, hcoherent.indexed id entry hent, ?_,
    hcoherent.exists_climb (Option.isSome_iff_exists.mpr ⟨entry, hent⟩)⟩
  intro parent hparent
  obtain ⟨stored, hstored, -⟩ := hcoherent.parents id entry parent hent hparent
  exact Option.isSome_iff_exists.mpr ⟨stored, hstored⟩

/-- A proposed note under a parent. -/
def note (id : EntryId) (parentId : Option EntryId) : Write Unit :=
  .entry ⟨id, parentId, .message (.llm (.user ())) false⟩

/-- A root with one reply below it. -/
theorem identity_and_ancestry_reply :
    ∃ state : InMemoryStorageState Unit, ∃ history, Run Clear state history ∧
      state.entries.contains "b" = true ∧ state.stats.messageCount.val = 2 ∧
      (state.entries.values.filter Entry.isMessage).length = 2 ∧
      ∃ output, state.scanBranch { start := "b" } = .ok output := by
  have hrun := Run.step (.apply [note "a" none, note "b" (some "a")] 0)
    (@Run.new Unit Clear) (fun _ htaken => by cases htaken)
  obtain ⟨-, -, -, hcount, -, -, hscan⟩ := hrun.identity_and_ancestry
  refine ⟨_, _, hrun, by decide +kernel, ?_, by decide +kernel, hscan _ (by decide +kernel)⟩
  rw [hcount]
  decide +kernel

/-- At the largest sequence a second entry takes over the index slot of the first. -/
theorem entriesBySeq_overwritten :
    ∃ state : InMemoryStorageState Unit, ∃ history, Run (fun _ _ => True) state history ∧
      ∃ entry, state.entries.get? "a" = some entry ∧
        state.entriesBySeq.get? entry.seq = some "b" := by
  refine ⟨_, _, Run.step (.apply [note "b" none] 0) (Run.step (.apply [note "a" none] 0)
    (Run.step (.advanceNextSeq U64.max) Run.new trivial) trivial) trivial,
    .message ⟨"a", none, U64.max, 0, none⟩ (.llm (.user ())) false, ?_, ?_⟩
  · decide +kernel
  · decide +kernel

/-! ## Sequence numbers -/

/-- An admitted batch stays below the largest sequence. -/
def Below (state : InMemoryStorageState R) : Action R → Prop
  | .apply writes _ =>
    validateCommittedWrites writes state.nextSeq state.idView = .ok () →
    state.nextSeq.val + writes.length < 2 ^ 64
  | .replay writes =>
    validateReplayedWrites writes state.idView = .ok () →
    ∀ write ∈ writes, write.seq < U64.max
  | .advanceNextSeq _ => True

/-- Admitted sequences increase and the mark lies above them. -/
structure Marked (state : InMemoryStorageState R) (history : List U64) : Prop where
  increasing : history.Pairwise (· < ·)
  above : ∀ seq ∈ history, seq < state.nextSeq

theorem lt_saturatingAdd_one {a b : U64} (h : a ≤ b) (hb : b < U64.max) :
    a < b.saturatingAdd U64.one := by
  have hle : a.val ≤ b.val := h
  have hlt : b.val < U64.max.val := hb
  show a.val < (b.saturatingAdd U64.one).val
  rw [U64.val_max] at hlt
  rw [U64.val_saturatingAdd, U64.val_one]
  omega

/-- Materializing an ascending batch below the largest sequence extends the history. -/
theorem Marked.applyCommitted (h : Marked state history)
    (hasc : Ascending state.nextSeq writes) (hbelow : ∀ write ∈ writes, write.seq < U64.max) :
    Marked (state.applyCommitted writes) (history ++ writes.map CommittedWrite.seq) := by
  induction writes generalizing state history with
  | nil =>
    rw [map_nil, append_nil]
    exact h
  | cons write writes ih =>
    have hfst : state.nextSeq ≤ write.seq := hasc.above write mem_cons_self
    have hlow : write.seq < U64.max := hbelow write mem_cons_self
    have hnext : Marked (state.applyOne write) (history ++ [write.seq]) := by
      constructor
      · refine pairwise_append.mpr ⟨h.increasing, pairwise_singleton _ _, ?_⟩
        intro seq hseq other hoth
        rw [mem_singleton.mp hoth]
        exact lt_of_lt_of_le (h.above seq hseq) hfst
      · intro seq hseq
        apply lt_saturatingAdd_one (b := write.seq) _ hlow
        rcases mem_append.mp hseq with hold | hnew
        · exact (lt_of_lt_of_le (h.above seq hold) hfst).le
        · exact (mem_singleton.mp hnew).le
    have hrest := ih hnext hasc.tail fun other hmem => hbelow other (mem_cons_of_mem _ hmem)
    rw [append_assoc] at hrest
    exact hrest

/-- Every call that meets the condition extends the history. -/
theorem Marked.perform (h : Marked state history) (hbelow : Below state action) :
    Marked (state.perform action) (history ++ state.admitted action) := by
  cases action with
  | apply writes time =>
    rcases apply_cases state writes time with
      ⟨error, heq⟩ | ⟨committed, hval, heq, -, hasc, hbound, -⟩
    · simpa only [InMemoryStorageState.perform, admitted, heq, append_nil] using h
    · simp only [InMemoryStorageState.perform, admitted, heq]
      refine h.applyCommitted hasc fun write hmem => ?_
      have hlt := hbound write hmem
      have hroom : state.nextSeq.val + writes.length < 2 ^ 64 := hbelow hval
      show write.seq.val < U64.max.val
      rw [U64.val_max]
      omega
  | replay writes =>
    rcases replay_cases state writes with ⟨error, heq⟩ | ⟨hval, heq, -, hasc⟩
    · simpa only [InMemoryStorageState.perform, admitted, heq, append_nil] using h
    · simp only [InMemoryStorageState.perform, admitted, heq]
      exact h.applyCommitted hasc (hbelow hval)
  | advanceNextSeq nextSeq =>
    simp only [InMemoryStorageState.perform, admitted, append_nil]
    exact ⟨h.increasing, fun seq hseq => lt_max_of_lt_left (h.above seq hseq)⟩

theorem marked_new : Marked (new : InMemoryStorageState R) [] :=
  ⟨List.Pairwise.nil, fun _ hseq => absurd hseq not_mem_nil⟩

theorem Run.marked (h : Run Below state history) : Marked state history := by
  induction h with
  | new => exact marked_new
  | @fork snap state hbelow hfork =>
    obtain ⟨⟨stats, hstats⟩, rfl⟩ := fromForkSnapshot_eq_ok hfork
    have hreplayed := marked_new.perform hbelow
    simp only [InMemoryStorageState.perform, admitted, hstats, nil_append] at hreplayed
    exact ⟨hreplayed.increasing, fun seq hseq => lt_max_of_lt_left (hreplayed.above seq hseq)⟩
  | step action _ hbelow ih => exact ih.perform hbelow

/-- A batch that would run past the largest sequence is not materialized. -/
theorem commitWritesFrom_overflow (firstSeq : U64) (time : Int) (i : Nat)
    {writes : List (Write R)} (hwr : writes ≠ [])
    (h : 2 ^ 64 < firstSeq.val + i + writes.length) :
    ∃ error, commitWritesFrom firstSeq time i writes = .error error := by
  induction writes generalizing i with
  | nil => exact absurd rfl hwr
  | cons write writes ih =>
    rw [commitWritesFrom]
    cases hseq : firstSeq.checkedAdd i with
    | none => exact ⟨_, rfl⟩
    | some seq =>
      have hval := U64.checkedAdd_eq_some hseq
      have hbound := seq.isLt
      rw [length_cons] at h
      have hrest : writes ≠ [] := by
        intro hnil
        rw [hnil, length_nil] at h
        omega
      obtain ⟨error, herror⟩ := ih (i + 1) hrest (by omega)
      refine ⟨error, ?_⟩
      simp only [herror, bind, Except.bind]

theorem apply_overflow {writes : List (Write R)} (time : Int)
    (h : 2 ^ 64 < state.nextSeq.val + writes.length) :
    ∃ error, state.apply writes time = (.error error, state) := by
  have hwr : writes ≠ [] := by
    intro hnil
    rw [hnil, length_nil] at h
    exact absurd h (by have := state.nextSeq.isLt; omega)
  obtain ⟨error, herror⟩ := commitWritesFrom_overflow state.nextSeq time 0 hwr h
  rw [apply]
  cases validateCommittedWrites writes state.nextSeq state.idView with
  | error error => exact ⟨error, rfl⟩
  | ok _ => exact ⟨error, by simp only [commitWrites, herror]⟩

/-- In every run whose admitted batches stay below the largest sequence, the
admitted sequences strictly increase and the mark lies above all of them; a
batch that runs past the largest sequence, or whose own sequences would not
extend the history, is rejected and changes nothing. -/
theorem Run.sequences_increase {history : List U64} (h : Run Below state history) :
    history.Pairwise (· < ·) ∧ (∀ seq ∈ history, seq < state.nextSeq) ∧
    (∀ (writes : List (Write R)) time, 2 ^ 64 < state.nextSeq.val + writes.length →
      ∃ error, state.apply writes time = (.error error, state)) ∧
    ∀ writes : List (CommittedWrite R),
      ¬(history ++ writes.map CommittedWrite.seq).Pairwise (· < ·) →
      ∃ error, state.replay writes = (.error error, state) := by
  have hmarked := h.marked
  refine ⟨hmarked.increasing, hmarked.above, fun _ time => apply_overflow time,
    fun writes hwrites => ?_⟩
  rcases replay_cases state writes with hrejected | ⟨-, -, -, hasc⟩
  · exact hrejected
  · refine absurd (List.pairwise_append.mpr ⟨hmarked.increasing, hasc.increasing, ?_⟩) hwrites
    intro seq hseq other hother
    obtain ⟨write, hwrite, rfl⟩ := List.mem_map.mp hother
    exact lt_of_lt_of_le (hmarked.above seq hseq) (hasc.above write hwrite)

/-- A slot is set by a replay with a gap and then by a commit. -/
theorem sequences_increase_after_gap :
    ∃ state : InMemoryStorageState Unit, ∃ history, Run Below state history ∧
      history = [⟨7, by decide⟩, ⟨8, by decide⟩] ∧ ∀ seq ∈ history, seq < state.nextSeq := by
  have hreplay := Run.step (.replay [.value (.set ⟨7, by decide⟩ "n" "k" ())])
    (@Run.new Unit Below) (fun _ write hmem => by
      rw [List.mem_singleton.mp hmem]
      decide +kernel)
  have happly := Run.step (.apply [.value (.set "n" "k" ())] 0) hreplay (fun _ => by decide +kernel)
  exact ⟨_, _, happly, by decide +kernel, happly.sequences_increase.2.1⟩

/-- After a replay of the largest sequence a commit receives it again. -/
theorem sequence_reused :
    ∃ state : InMemoryStorageState Unit, ∃ history, Run (fun _ _ => True) state history ∧
      history = [U64.max, U64.max] ∧ state.nextSeq = U64.max ∧
      ¬history.Pairwise (· < ·) ∧ ¬∀ seq ∈ history, seq < state.nextSeq := by
  have hreplay := Run.step (.replay [.value (.set U64.max "n" "k" ())])
    (@Run.new Unit fun _ _ => True) trivial
  have happly := Run.step (.apply [.value (.set "n" "k" ())] 0) hreplay trivial
  refine ⟨_, _, happly, by decide +kernel, by decide +kernel, by decide +kernel, ?_⟩
  intro habove
  refine lt_irrefl U64.max (lt_of_lt_of_eq (habove U64.max ?_) ?_)
  · decide +kernel
  · decide +kernel

/-! ## Distinct sequences -/

/-- Entries and usage rows carry distinct positive sequences below the mark. -/
structure Spread (state : InMemoryStorageState R) : Prop where
  entries : ∀ id entry, state.entries.get? id = some entry →
    1 ≤ entry.seq.val ∧ entry.seq < state.nextSeq
  usage : ∀ id row, state.usage.get? id = some row → 1 ≤ row.seq.val ∧ row.seq < state.nextSeq
  rows : ∀ id row id' row', state.usage.get? id = some row → state.usage.get? id' = some row' →
    row.seq = row'.seq → id = id'
  apart : ∀ id entry id' row, state.entries.get? id = some entry →
    state.usage.get? id' = some row → entry.seq ≠ row.seq

variable {write : CommittedWrite R}

theorem spread_new : Spread (new : InMemoryStorageState R) where
  entries := by
    intro id entry h
    cases h
  usage := by
    intro id row h
    cases h
  rows := by
    intro id row id' row' h
    cases h
  apart := by
    intro id entry id' row h
    cases h

/-- A usage row stored after one write was stored before it or is that write. -/
theorem get?_usage_applyOne {id : UsageId} {stored : UsageRow R}
    (h : (state.applyOne write).usage.get? id = some stored) :
    state.usage.get? id = some stored ∨ (write = .usage stored ∧ stored.id = id) := by
  cases write with
  | entry entry => exact .inl h
  | usage row =>
    have hget : (state.applyOne (.usage row)).usage.get? id =
        if id = row.id then some row else state.usage.get? id :=
      OrderedMap.get?_insert state.usage row.id id row
    rw [hget] at h
    split_ifs at h with heq
    · rw [← Option.some.inj h]
      exact .inr ⟨rfl, heq.symm⟩
    · exact .inl h
  | value write | list write => cases write <;> exact .inl h

/-- Materializing a write from the mark on, below the largest sequence, keeps
the sequences apart. -/
theorem Spread.applyOne (h : Spread state) (hpos : 1 ≤ state.nextSeq.val)
    (hseq : state.nextSeq ≤ write.seq) (hmax : write.seq < U64.max) :
    Spread (state.applyOne write) := by
  have hnew : 1 ≤ write.seq.val := hpos.trans hseq
  have hmark : write.seq < (state.applyOne write).nextSeq := lt_saturatingAdd_one (le_refl _) hmax
  have hold : ∀ seq, seq < state.nextSeq → seq < (state.applyOne write).nextSeq :=
    fun seq hlt => (lt_of_lt_of_le hlt hseq).trans hmark
  -- Whatever was stored before lies below the new write.
  have hbelow : ∀ seq, seq < state.nextSeq → seq ≠ write.seq :=
    fun seq hlt => (lt_of_lt_of_le hlt hseq).ne
  constructor
  case entries =>
    intro id entry hent
    rcases get?_applyOne hent with hstored | rfl
    · obtain ⟨hone, hlt⟩ := h.entries id entry hstored
      exact ⟨hone, hold _ hlt⟩
    · exact ⟨hnew, hmark⟩
  case usage =>
    intro id row hrow
    rcases get?_usage_applyOne hrow with hstored | ⟨rfl, -⟩
    · obtain ⟨hone, hlt⟩ := h.usage id row hstored
      exact ⟨hone, hold _ hlt⟩
    · exact ⟨hnew, hmark⟩
  case rows =>
    intro id row id' row' hrow hrow' heq
    rcases get?_usage_applyOne hrow with hstored | ⟨rfl, rfl⟩
    · rcases get?_usage_applyOne hrow' with hstored' | ⟨rfl, -⟩
      · exact h.rows id row id' row' hstored hstored' heq
      · exact absurd heq (hbelow _ (h.usage id row hstored).2)
    · rcases get?_usage_applyOne hrow' with hstored' | ⟨hsame, rfl⟩
      · exact absurd heq.symm (hbelow _ (h.usage id' row' hstored').2)
      · rw [CommittedWrite.usage.inj hsame]
  case apart =>
    intro id entry id' row hent hrow
    rcases get?_applyOne hent with hstored | rfl
    · rcases get?_usage_applyOne hrow with hstored' | ⟨rfl, -⟩
      · exact h.apart id entry id' row hstored hstored'
      · exact hbelow _ (h.entries id entry hstored).2
    · rcases get?_usage_applyOne hrow with hstored' | ⟨hsame, -⟩
      · exact (hbelow _ (h.usage id' row hstored').2).symm
      · cases hsame

theorem Spread.applyCommitted (h : Spread state) (hpos : 1 ≤ state.nextSeq.val)
    (hasc : Ascending state.nextSeq writes) (hmax : ∀ write ∈ writes, write.seq < U64.max) :
    Spread (state.applyCommitted writes) := by
  induction writes generalizing state with
  | nil => exact h
  | cons write writes ih =>
    have hfst : state.nextSeq ≤ write.seq := hasc.above write mem_cons_self
    refine ih (h.applyOne hpos hfst (hmax write mem_cons_self)) ?_ hasc.tail
      fun other hmem => hmax other (mem_cons_of_mem _ hmem)
    exact hpos.trans (le_saturatingAdd_one hfst)

theorem Spread.advanceNextSeq (h : Spread state) (nextSeq : U64) :
    Spread (state.advanceNextSeq nextSeq) where
  __ := h
  entries := by
    intro id entry hent
    obtain ⟨hone, hlt⟩ := h.entries id entry hent
    exact ⟨hone, lt_max_of_lt_left hlt⟩
  usage := by
    intro id row hrow
    obtain ⟨hone, hlt⟩ := h.usage id row hrow
    exact ⟨hone, lt_max_of_lt_left hlt⟩

/-- Every call that meets the condition keeps the sequences apart. -/
theorem Spread.perform (h : Spread state) (hpos : 1 ≤ state.nextSeq.val)
    (hbelow : Below state action) : Spread (state.perform action) := by
  cases action with
  | apply writes time =>
    rcases apply_cases state writes time with
      ⟨error, heq⟩ | ⟨committed, hval, heq, -, hasc, hbound, -⟩
    · simpa only [InMemoryStorageState.perform, heq] using h
    · simp only [InMemoryStorageState.perform, heq]
      refine h.applyCommitted hpos hasc fun write hmem => ?_
      have hlt := hbound write hmem
      have hroom : state.nextSeq.val + writes.length < 2 ^ 64 := hbelow hval
      show write.seq.val < U64.max.val
      rw [U64.val_max]
      omega
  | replay writes =>
    rcases replay_cases state writes with ⟨error, heq⟩ | ⟨hval, heq, -, hasc⟩
    · simpa only [InMemoryStorageState.perform, heq] using h
    · simp only [InMemoryStorageState.perform, heq]
      exact h.applyCommitted hpos hasc (hbelow hval)
  | advanceNextSeq nextSeq => exact h.advanceNextSeq nextSeq

/-- Below the largest sequence its index slot is never taken. -/
theorem Coherent.clear (h : Coherent state) (hspread : Spread state) (action : Action R) :
    Clear state action := by
  have hfree : state.entriesBySeq.contains U64.max ≠ true := by
    intro htkn
    obtain ⟨id, hid⟩ := Option.isSome_iff_exists.mp htkn
    obtain ⟨entry, hent, hseq⟩ := h.indexes _ id hid
    have hlt : entry.seq.val < state.nextSeq.val := (hspread.entries id entry hent).2
    have hbound := state.nextSeq.isLt
    rw [hseq, U64.val_max] at hlt
    omega
  cases action with
  | apply | replay => exact fun _ htkn => absurd htkn hfree
  | advanceNextSeq nextSeq => trivial

theorem Run.coherent_spread (h : Run Below state history) : Coherent state ∧ Spread state := by
  induction h with
  | new => exact ⟨coherent_new, spread_new⟩
  | @fork snap state hbelow hfork =>
    obtain ⟨-, rfl⟩ := fromForkSnapshot_eq_ok hfork
    refine ⟨(coherent_new.replay (coherent_new.clear spread_new _)).advanceNextSeq _, ?_⟩
    exact (spread_new.perform coherent_new.positive hbelow).advanceNextSeq _
  | step action _ hbelow ih =>
    obtain ⟨hcoh, hspread⟩ := ih
    exact ⟨hcoh.perform (hcoh.clear hspread action), hspread.perform hcoh.positive hbelow⟩

end InMemoryStorageState

end PiOxidized.Session
