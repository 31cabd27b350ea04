/-
# No append is lost

The lock is held by one call at a time, from before it reads the tip of its branch
until its commit is over.  So the tip a commit was prepared with is still the
stored one, each entry is committed on top of the one committed before it, and the
entries of a branch stand on the ancestry of its tip in commit order.
-/

import PiOxidized.Session.Backed
import PiOxidized.Session.Installed
import PiOxidized.Session.Reachable
import Mathlib.Data.List.Chain

namespace PiOxidized.Session

open List Option Bool Math OrderedMap

variable {R : Type} {codec : ValueCodec R}

/-! ## What a commit stores -/

namespace InMemoryStorageState

variable {memory next : InMemoryStorageState R}

/-- The tip stored for a branch, if it decodes. -/
def storedTip (codec : ValueCodec R) (memory : InMemoryStorageState R) (branch : String) :
    Option (Option EntryId) :=
  (memory.values.get? (tipSlot branch)).bind fun stored => codec.readTip stored.value

variable {time : Int}

variable {res : CommitResult} {branch : String}

theorem commitWritesFrom_cons_eq_ok {firstSeq : U64} {i : Nat} {write : Write R}
    {writes : List (Write R)} {batch : List (CommittedWrite R)} {seqs : List U64}
    (h : commitWritesFrom firstSeq time i (write :: writes) = .ok (batch, seqs)) :
    ∃ seq rest others, commitWritesFrom firstSeq time (i + 1) writes = .ok (rest, others) ∧
      batch = write.commit seq time :: rest := by
  rw [commitWritesFrom] at h
  cases hseq : firstSeq.checkedAdd i with
  | none => simp [hseq] at h
  | some seq =>
    simp only [hseq] at h
    obtain ⟨⟨rest, others⟩, hrest, heq⟩ := bind_ok h
    exact ⟨seq, rest, others, hrest, (Prod.mk.inj (Except.ok.inj heq)).1.symm⟩

theorem values_setTip (memory : InMemoryStorageState R) (branch : String) (tip : Option EntryId)
    (seq : U64) (time : Int) (slot : String ×ₗ String) :
    (memory.applyOne ((setTip codec branch tip).commit seq time)).values.get? slot =
      if slot = tipSlot branch then some ⟨"pi.branch.tip", branch, .value, codec.tip tip, seq⟩
      else memory.values.get? slot :=
  get?_insert memory.values (tipSlot branch) slot _

/-- An accepted move of a branch tip changes only that tip. -/
theorem Coherent.apply_setTip (h : Coherent memory) {tip : Option EntryId}
    (happly : memory.apply [setTip codec branch tip] time = (.ok res, next)) :
    Coherent next ∧ next.entries = memory.entries ∧ ∃ seq, ∀ slot, next.values.get? slot =
        if slot = tipSlot branch then some ⟨"pi.branch.tip", branch, .value, codec.tip tip, seq⟩
        else memory.values.get? slot := by
  obtain ⟨batch, hcom, rfl, hadm, hasc⟩ := apply_eq_ok happly
  obtain ⟨seq, rest, others, hrest, rfl⟩ := commitWritesFrom_cons_eq_ok hcom
  obtain ⟨rfl, -⟩ := Prod.mk.inj (Except.ok.inj hrest)
  refine ⟨h.applyCommitted hadm hasc ?_, rfl, seq, ?_⟩
  · intro write hmem hent
    rw [mem_singleton.mp hmem] at hent
    cases hent
  · intro slot
    exact values_setTip memory branch tip seq time slot

/-- An accepted append stores its entry under a new id and moves the tip to it. -/
theorem Coherent.apply_append (h : Coherent memory) {id : EntryId} {parent : Option EntryId}
    {body : NewEntryBody R}
    (happly : memory.apply (appendWrites codec branch id parent body) time = (.ok res, next)) :
    Coherent next ∧ memory.entries.get? id = none ∧
      (∃ entry, entry.parentId = parent ∧ next.entries = memory.entries.insert id entry) ∧
      ∃ seq, ∀ slot, next.values.get? slot = if slot = tipSlot branch then
          some ⟨"pi.branch.tip", branch, .value, codec.tip (some id), seq⟩
        else memory.values.get? slot := by
  obtain ⟨batch, hcom, rfl, hadm, hasc⟩ := apply_eq_ok happly
  obtain ⟨first, rest, others, hrest, rfl⟩ := commitWritesFrom_cons_eq_ok hcom
  obtain ⟨second, rest', others', hrest', rfl⟩ := commitWritesFrom_cons_eq_ok hrest
  obtain ⟨rfl, -⟩ := Prod.mk.inj (Except.ok.inj hrest')
  have hincr := hasc.increasing
  simp only [map_cons, Write.seq_commit, map_nil, pairwise_cons, mem_singleton, forall_eq] at hincr
  have hfst : memory.nextSeq ≤ first := by
    have habove := hasc.above _ mem_cons_self
    rwa [Write.seq_commit] at habove
  have hid : memory.containsId id = false := by
    have hfrs := hadm.1.1
    rwa [NewEntry.id_materialize] at hfrs
  refine ⟨h.applyCommitted hadm hasc ?_, (containsId_eq_false hid).1,
    ⟨(NewEntry.mk id parent body).materialize first time,
      NewEntry.parentId_materialize _ _ _, ?_⟩, second, ?_⟩
  · intro write hmem hent other stored hstored
    rcases mem_cons.mp hmem with rfl | hmem
    · rw [Write.seq_commit]
      rcases (h.below other stored hstored).2 with hlt | ⟨-, hmax⟩
      · exact lt_of_lt_of_le hlt hfst
      · -- The tip is written with the entry, so the entry never takes the last sequence.
        have hlow : first.val < second.val := hincr.1
        have hbound := second.isLt
        have hle : memory.nextSeq.val ≤ first.val := hfst
        rw [hmax, U64.val_max] at hle
        omega
    · rw [mem_singleton.mp hmem] at hent
      cases hent
  · show memory.entries.insert ((NewEntry.mk id parent body).materialize first time).id _ = _
    rw [NewEntry.id_materialize]
  · intro slot
    exact values_setTip _ branch (some id) second time slot

end InMemoryStorageState

/-! ## The entries of a branch -/

/-- Entries committed to a branch, oldest first. -/
def committedTo (log : List (String × EntryId)) (branch : String) : List EntryId :=
  (log.filter fun entry => entry.1 == branch).map Prod.snd

theorem committedTo_append (log more : List (String × EntryId)) (branch : String) :
    committedTo (log ++ more) branch = committedTo log branch ++ committedTo more branch := by
  rw [committedTo, filter_append, map_append]
  rfl

/-- The entries committed to a branch are linked up to its tip. -/
structure Linked (codec : ValueCodec R) (memory : InMemoryStorageState R) (branch : String)
    (ids : List EntryId) : Prop where
  chain : ids.IsChain fun a b => memory.parentOf b = some a
  stored : ∀ id ∈ ids, memory.entries.contains id = true
  tip : ∀ id, ids.getLast? = some id → memory.storedTip codec branch = some (some id)

section

variable {memory next : InMemoryStorageState R} {branch : String} {ids : List EntryId}

variable {entry : Entry R} {id : EntryId}

theorem parentOf_insert (hents : next.entries = memory.entries.insert id entry) (other : EntryId) :
    next.parentOf other = if other = id then entry.parentId else memory.parentOf other := by
  rw [InMemoryStorageState.parentOf, hents, get?_insert]
  split_ifs with heq
  · rfl
  · rfl

/-- A new entry elsewhere keeps the links of a branch. -/
theorem Linked.insert (h : Linked codec memory branch ids) (hid : memory.entries.get? id = none)
    (hents : next.entries = memory.entries.insert id entry)
    (htip : next.storedTip codec branch = memory.storedTip codec branch) :
    Linked codec next branch ids := by
  have hold : ∀ other ∈ ids, other ≠ id := by
    intro other hmem heq
    have hstored := h.stored other hmem
    rw [heq, OrderedMap.contains, hid] at hstored
    cases hstored
  constructor
  case chain =>
    refine h.chain.imp_of_mem_imp fun a b _ hb hlink => ?_
    rw [parentOf_insert hents, if_neg (hold b hb)]
    exact hlink
  case stored =>
    intro other hmem
    rw [OrderedMap.contains, hents, OrderedMap.get?_insert, if_neg (hold other hmem)]
    exact h.stored other hmem
  case tip =>
    intro last hlast
    rw [htip]
    exact h.tip last hlast

/-- A new entry on top of the tip extends the links of its branch. -/
theorem Linked.concat (h : Linked codec memory branch ids) (hid : memory.entries.get? id = none)
    (hents : next.entries = memory.entries.insert id entry)
    (hpar : memory.storedTip codec branch = some entry.parentId)
    (htip : next.storedTip codec branch = some (some id)) :
    Linked codec next branch (ids ++ [id]) := by
  have hold : ∀ other ∈ ids, other ≠ id := by
    intro other hmem heq
    have hstored := h.stored other hmem
    rw [heq, OrderedMap.contains, hid] at hstored
    cases hstored
  constructor
  case chain =>
    refine isChain_append.mpr ⟨?_, isChain_singleton id, ?_⟩
    · refine h.chain.imp_of_mem_imp fun a b _ hb hlink => ?_
      rw [parentOf_insert hents, if_neg (hold b hb)]
      exact hlink
    · intro last hlast new hnew
      obtain rfl : id = new := some.inj hnew
      rw [parentOf_insert hents, if_pos rfl]
      have hsame := h.tip last hlast
      rw [hpar] at hsame
      exact some.inj hsame
  case stored =>
    intro other hmem
    rw [OrderedMap.contains, hents, OrderedMap.get?_insert]
    rcases mem_append.mp hmem with hmem | hmem
    · rw [if_neg (hold other hmem)]
      exact h.stored other hmem
    · rw [if_pos (mem_singleton.mp hmem)]
      rfl
  case tip =>
    intro last hlast
    rw [getLast?_concat] at hlast
    rw [htip, some.inj hlast]

/-- The ancestry of the tip starts with the entries of its branch, newest first. -/
theorem Linked.ancestry (h : Linked codec memory branch ids)
    (hcoh : InMemoryStorageState.Coherent memory) (hids : ids ≠ []) :
    ∃ tip rest, memory.storedTip codec branch = some (some tip) ∧
      Climb memory.parentOf tip (ids.reverse ++ rest) ∧ (ids.reverse ++ rest).Nodup := by
  have hlast := getLast?_eq_some_getLast hids
  have hstored := h.stored _ (getLast_mem hids)
  obtain ⟨path, hclimb, hnodup, -⟩ := hcoh.exists_climb hstored
  obtain ⟨links, hlinks⟩ : ∃ links, ids.reverse = ids.getLast hids :: links := by
    refine ⟨ids.reverse.tail, ?_⟩
    conv_lhs => rw [← cons_head_tail (reverse_ne_nil_iff.mpr hids)]
    rw [head_reverse]
  have hchain : List.IsChain (Link memory.parentOf) (ids.getLast hids :: links) := by
    rw [← hlinks, isChain_reverse]
    exact h.chain
  obtain ⟨rest, rfl⟩ := hclimb.exists_append hchain
  rw [← hlinks] at hclimb hnodup
  exact ⟨_, rest, h.tip _ hlast, hclimb, hnodup⟩

end

/-! ## The invariant -/

/-- The writes a call was prepared with fit the stored tip of its branch. -/
def Slot.Fits (codec : ValueCodec R) (memory : InMemoryStorageState R) (slot : Slot R)
    (writes : List (Write R)) : Prop :=
  match slot.call with
  | .appendToBranch branch body => ∃ parent,
      writes = appendWrites codec branch slot.id parent body ∧
        memory.storedTip codec branch = some parent
  | .createBranch branch anchor =>
    writes = [setTip codec branch anchor] ∧ memory.values.get? (tipSlot branch) = none

/-- Whether a caller has not spawned its commit yet. -/
def Caller.preparing : Caller R → Bool
  | waiting | returned _ | dropped => false
  | _ => true

variable {caller : Caller R}

theorem Caller.preparing_of_holdsLock (h : caller.holdsLock = true) : caller.preparing = true := by
  cases caller <;> first | rfl | cases h

/-- What holds of a call and its task. -/
structure Slot.Sound (codec : ValueCodec R) (memory : InMemoryStorageState R)
    (log : List (String × EntryId)) (slot : Slot R) : Prop where
  anchoring : slot.caller = .anchoring → memory.values.get? (tipSlot slot.call.branch) = none
  ready : ∀ writes, slot.caller = .ready writes → slot.Fits codec memory writes
  running : ∀ writes, slot.task = some (.running writes) → slot.Fits codec memory writes
  handedOver : slot.caller.preparing = true → slot.task = none
  committed : ∀ result, slot.task = some (.committed (.ok result)) → slot.committed ⊆ log
  finished : ∀ result, slot.task = some (.finished (.ok result)) → slot.committed ⊆ log
  returned : ∀ id, slot.caller = .returned (.ok id) → ∀ branch body,
    slot.call = .appendToBranch branch body → (branch, id) ∈ log

variable {memory : InMemoryStorageState R} {log : List (String × EntryId)} {slot : Slot R}

/-- A call that does not hold the lock relies on no stored tip. -/
theorem Slot.Sound.of_unlocked {memory' : InMemoryStorageState R} {log' : List (String × EntryId)}
    (h : slot.Sound codec memory log) (hlock : slot.holdsLock = false) (hlog : log ⊆ log') :
    slot.Sound codec memory' log' := by
  obtain ⟨hcaller, htask⟩ := or_eq_false_iff.mp hlock
  constructor
  case anchoring =>
    intro heq
    rw [heq] at hcaller
    cases hcaller
  case ready =>
    intro writes heq
    rw [heq] at hcaller
    cases hcaller
  case running =>
    intro writes heq
    rw [heq] at htask
    cases htask
  case handedOver => exact h.handedOver
  case committed => exact fun res heq => List.Subset.trans (h.committed res heq) hlog
  case finished => exact fun res heq => List.Subset.trans (h.finished res heq) hlog
  case returned => exact fun id heq branch body hcall => hlog (h.returned id heq branch body hcall)

/-- A caller that has spawned its commit is past the lock. -/
theorem Slot.Sound.spawned (h : slot.Sound codec memory log) {task : Task R}
    (htask : slot.task = some task) :
    slot.caller.preparing = false ∧ slot.caller.holdsLock = false := by
  have hcall : slot.caller.preparing = false := by
    rw [eq_false_iff]
    intro hpreparing
    rw [h.handedOver hpreparing] at htask
    cases htask
  refine ⟨hcall, ?_⟩
  rw [eq_false_iff]
  intro hholds
  rw [Caller.preparing_of_holdsLock hholds] at hcall
  cases hcall

/-- Moving the caller on. -/
theorem Slot.Sound.withCaller (h : slot.Sound codec memory log)
    (hanchoring : caller = .anchoring → memory.values.get? (tipSlot slot.call.branch) = none)
    (hrdy : ∀ writes, caller = .ready writes → slot.Fits codec memory writes)
    (hover : caller.preparing = true → slot.task = none)
    (hret : ∀ id, caller ≠ .returned (.ok id)) :
    Slot.Sound codec memory log { slot with caller := caller } where
  __ := h
  anchoring := hanchoring
  ready := hrdy
  handedOver := hover
  returned := fun id heq => absurd heq (hret id)

/-- Whether a caller relies on no stored tip and has returned no id. -/
def Caller.plain : Caller R → Bool
  | anchoring | ready _ | returned (.ok _) => false
  | _ => true

/-- A caller that has not read anything, or ends without an id, relies on nothing. -/
theorem Slot.Sound.withPlain (h : slot.Sound codec memory log) (caller : Caller R)
    (hplain : caller.plain = true) (hover : caller.preparing = true → slot.task = none) :
    Slot.Sound codec memory log { slot with caller := caller } := by
  refine h.withCaller ?_ ?_ hover ?_
  · rintro rfl
    cases hplain
  · rintro writes rfl
    cases hplain
  · rintro id rfl
    cases hplain

/-- How a change of one slot moves the lock. -/
inductive LockMove (index : Nat) (slot slot' : Slot R) (owner owner' : Option Owner) : Prop
  | keep : owner' = owner → (slot'.holdsLock = true → slot.holdsLock = true) →
      LockMove index slot slot' owner owner'
  | take : owner = none → owner' = some (.slot index) → LockMove index slot slot' owner owner'
  | free : owner' = none → slot.holdsLock = true → slot'.holdsLock = false →
      LockMove index slot slot' owner owner'

namespace BackedSession

variable {s s' : BackedSession R} {i : Nat} {slot slot' : Slot R}

/-- What every reached state keeps. -/
structure Sound (codec : ValueCodec R) (s : BackedSession R) : Prop where
  coherent : s.memory.Coherent
  slots : ∀ (index : Nat) slot, s.slots[index]? = some slot → slot.Sound codec s.memory s.log
  locks : ∀ (index : Nat) slot, s.slots[index]? = some slot → slot.holdsLock = true →
    s.owner = some (.slot index)
  closing : s.closer = .holding ∨ s.closer = .closing → s.owner = some .closer
  closed : s.closer = .closing ∨ s.closer = .completed → s.storageClosed = true
  linked : ∀ branch, Linked codec s.memory branch (committedTo s.log branch)

variable {event : Event R}

variable {writes : List (Write R)}

/-- Moving one call on keeps the invariant. -/
theorem Sound.put (h : Sound codec s) (hslot : s.slots[i]? = some slot)
    (hsnd : slot'.Sound codec s.memory s.log) {owner : Option Owner}
    (hmove : LockMove i slot slot' s.owner owner) :
    Sound codec { s.put i slot' with owner := owner } := by
  refine { h with slots := ?slots, locks := ?locks, closing := ?closing }
  case slots =>
    exact forall_set h.slots hsnd
  case locks =>
    intro other found hfnd hlock
    rcases getElem?_set_cases hfnd with ⟨rfl, rfl⟩ | ⟨hne, hold⟩
    · cases hmove with
      | keep heq hkeep => exact heq.trans (h.locks other slot hslot (hkeep hlock))
      | take _ heq => exact heq
      | free _ _ hfree =>
        rw [hfree] at hlock
        cases hlock
    · have howner := h.locks other found hold hlock
      cases hmove with
      | keep heq => exact heq.trans howner
      | take hnone =>
        rw [hnone] at howner
        cases howner
      | free _ hheld =>
        rw [h.locks i slot hslot hheld] at howner
        cases howner
        exact absurd rfl hne
  case closing =>
    intro hcloser
    have howner := h.closing hcloser
    cases hmove with
    | keep heq => exact heq.trans howner
    | take hnone =>
      rw [hnone] at howner
      cases howner
    | free _ hheld =>
      rw [h.locks i slot hslot hheld] at howner
      cases howner

theorem Sound.put_keep (h : Sound codec s) (hslot : s.slots[i]? = some slot)
    (hsnd : slot'.Sound codec s.memory s.log)
    (hkeep : slot'.holdsLock = true → slot.holdsLock = true) : Sound codec (s.put i slot') :=
  h.put hslot hsnd (.keep rfl hkeep)

/-- A new call keeps the invariant. -/
theorem Sound.concat (h : Sound codec s) (hsnd : slot.Sound codec s.memory s.log)
    (hlock : slot.holdsLock = false) : Sound codec { s with slots := s.slots ++ [slot] } where
  __ := h
  slots := by
    exact forall_concat h.slots hsnd
  locks := by
    refine forall_concat h.locks ?_
    intro hheld
    rw [hlock] at hheld
    cases hheld

/-- What a caller relies on after it has read the tip of its branch. -/
theorem afterTip_spec
    (h : slot.afterTip codec (memory.values.get? (tipSlot slot.call.branch)) = .ok caller) :
    (caller = .anchoring → memory.values.get? (tipSlot slot.call.branch) = none) ∧
      (∀ writes, caller = .ready writes → slot.Fits codec memory writes) ∧
      ∀ id, caller ≠ .returned (.ok id) := by
  unfold Slot.afterTip at h
  cases hstored : memory.values.get? (tipSlot slot.call.branch) with
  | none =>
    rw [hstored] at h
    cases hcall : slot.call with
    | appendToBranch branch body => simp [hcall] at h
    | createBranch branch anchor =>
      rw [hcall, Call.branch] at hstored
      cases anchor with
      | none =>
        simp only [hcall, Except.ok.injEq] at h
        obtain rfl := h
        refine ⟨nofun, fun writes heq => ?_, nofun⟩
        rw [Slot.Fits, hcall]
        exact ⟨(Caller.ready.inj heq).symm, hstored⟩
      | some anchor =>
        simp only [hcall, Except.ok.injEq] at h
        obtain rfl := h
        exact ⟨fun _ => rfl, nofun, nofun⟩
  | some stored =>
    rw [hstored] at h
    cases hread : codec.readTip stored.value with
    | none => simp [hread] at h
    | some parent =>
      cases hcall : slot.call with
      | createBranch branch anchor => simp [hread, hcall] at h
      | appendToBranch branch body =>
        simp only [hread, hcall, Except.ok.injEq] at h
        obtain rfl := h
        refine ⟨nofun, fun writes heq => ?_, nofun⟩
        rw [Slot.Fits, hcall]
        rw [hcall, Call.branch] at hstored
        refine ⟨parent, (Caller.ready.inj heq).symm, ?_⟩
        rw [InMemoryStorageState.storedTip, hstored, bind_some, hread]

/-- A caller that ends with an error keeps the invariant. -/
theorem Sound.fail (h : Sound codec s) (hslot : s.slots[i]? = some slot)
    (hheld : slot.caller.holdsLock = true) (error : SessionError) :
    Sound codec (s.fail i slot error) := by
  have hsnd := h.slots i slot hslot
  have htask : slot.task = none := hsnd.handedOver (Caller.preparing_of_holdsLock hheld)
  refine h.put hslot (hsnd.withPlain (.returned (.error error)) rfl nofun) (.free rfl ?_ ?_)
  · rw [Slot.holdsLock, hheld, Bool.true_or]
  · rw [Slot.holdsLock, htask]
    rfl

/-- One step of a caller keeps the invariant. -/
theorem Sound.callerStep (h : Sound codec s) (hslot : s.slots[i]? = some slot)
    (hstep : s.callerStep codec i slot event = some s') :
    Sound codec s' := by
  have hsnd := h.slots i slot hslot
  obtain ⟨call, reserved, caller, task⟩ := slot
  cases event
  case drop =>
    have hdrop := hsnd.withPlain .dropped rfl nofun
    simp only [BackedSession.callerStep] at hstep
    split at hstep
    · cases hstep
    · cases hstep
    · cases hstep
      refine h.put hslot hdrop ?_
      cases hheld : caller.holdsLock with
      | true =>
        have htask := hsnd.handedOver (Caller.preparing_of_holdsLock hheld)
        refine .free (if_pos rfl) ?_ ?_
        · rw [Slot.holdsLock, hheld, Bool.true_or]
        · rw [Slot.holdsLock, htask]
          rfl
      | false =>
        refine .keep (if_neg Bool.false_ne_true) fun hholds => ?_
        rw [Slot.holdsLock, hheld]
        exact hholds
  -- Every other section is taken in one phase of the caller.
  all_goals
    cases caller <;> try (cases hstep; done)
  case enqueue.admitted =>
    have htask := hsnd.handedOver rfl
    simp only [BackedSession.callerStep] at hstep
    split_ifs at hstep
    · cases hstep
      exact h.put_keep hslot (hsnd.withPlain (.returned (.error closedError)) rfl nofun) id
    · cases hstep
      exact h.put_keep hslot (hsnd.withPlain .queued rfl fun _ => htask) id
  case acquire.queued =>
    cases hown : s.owner with
    | some owner => simp [BackedSession.callerStep, hown] at hstep
    | none =>
      have htask := hsnd.handedOver rfl
      simp only [BackedSession.callerStep, hown] at hstep
      cases hstep
      exact h.put hslot (hsnd.withPlain .locked rfl fun _ => htask) (.take hown rfl)
  case recheck.locked =>
    have htask := hsnd.handedOver rfl
    simp only [BackedSession.callerStep] at hstep
    split_ifs at hstep
    · cases hstep
      exact h.fail hslot rfl closedError
    · cases hstep
      exact h.put_keep hslot (hsnd.withPlain .granted rfl fun _ => htask) id
  case readTip.granted =>
    have htask := hsnd.handedOver rfl
    simp only [BackedSession.callerStep] at hstep
    split_ifs at hstep
    · cases hstep
      exact h.fail hslot rfl closedError
    · split at hstep
      · cases hstep
        exact h.fail hslot rfl _
      · rename_i hread
        cases hstep
        obtain ⟨hanchoring, hrdy, hret⟩ := afterTip_spec hread
        apply h.put_keep hslot
          (hsnd.withCaller hanchoring hrdy (fun _ => htask) hret)
        exact fun _ => rfl
  case readAnchor.anchoring =>
    simp only [BackedSession.callerStep] at hstep
    split at hstep
    · rename_i branch anchor _ hcall
      have htask := hsnd.handedOver rfl
      split_ifs at hstep
      · cases hstep
        exact h.fail hslot rfl closedError
      · cases hstep
        have hfree := hsnd.anchoring rfl
        rw [hcall, Call.branch] at hfree
        refine h.put_keep hslot (hsnd.withCaller ?_ ?_ (fun _ => htask) ?_) fun _ => rfl
        · nofun
        · intro writes heq
          rw [Slot.Fits, hcall]
          exact ⟨(Caller.ready.inj heq).symm, hfree⟩
        · nofun
      · cases hstep
        exact h.fail hslot rfl _
    · cases hstep
  case spawn.ready writes =>
    cases hstep
    have hfits := hsnd.ready writes rfl
    refine h.put_keep hslot ?_ (fun _ => rfl)
    exact
      { anchoring := nofun
        ready := by simp
        running := fun other heq => by
          obtain rfl := Task.running.inj (some.inj heq)
          exact hfits
        handedOver := nofun
        committed := by simp
        finished := by simp
        returned := by simp }
  case deliver.waiting =>
    simp only [BackedSession.callerStep] at hstep
    split at hstep
    · rename_i res _
      cases hstep
      refine h.put_keep hslot ?_ id
      exact
        { anchoring := nofun
          ready := by simp
          running := hsnd.running
          handedOver := nofun
          committed := hsnd.committed
          finished := hsnd.finished
          returned := fun id heq branch body hcall => by
            cases res with
            | error error => cases heq
            | ok res =>
              obtain rfl := Except.ok.inj (Caller.returned.inj heq)
              apply hsnd.finished res rfl
              rw [Slot.committed, show call = _ from hcall]
              exact mem_singleton_self _ }
    · cases hstep
  case abort.admitted =>
    cases hstep
    exact h.put_keep hslot (hsnd.withPlain (.returned (.error abortedError)) rfl nofun) id
  case abort.locked | abort.granted | abort.anchoring | abort.ready =>
    cases hstep
    exact h.fail hslot rfl abortedError

/-- A commit is rejected and changes only its own slot, or its writes are applied. -/
theorem commit_cases (s : BackedSession R) (i : Nat) (slot : Slot R) (writes : List (Write R))
    (now : Except SessionError Int) :
    (∃ error, s.commit i slot writes now =
      s.put i { slot with task := some (.committed (.error error)) }) ∨
    ∃ time res memory, s.storageClosed = false ∧ s.memory.apply writes time = (.ok res, memory) ∧
      s.commit i slot writes now = { s.put i { slot with task := some (.committed (.ok res)) } with
          memory := memory
          log := s.log ++ slot.committed } := by
  cases hshut : s.storageClosed with
  | true => exact .inl ⟨closedError, by simp only [BackedSession.commit, hshut, if_true]⟩
  | false =>
    cases now with
    | error error =>
      refine .inl ⟨error, ?_⟩
      simp only [BackedSession.commit, hshut, false_eq_true, if_false]
    | ok time =>
      cases happly : s.memory.apply writes time with
      | mk outcome memory =>
        cases outcome with
        | error error =>
          have hsame : (s.memory.apply writes time).2 = s.memory := InMemoryStorageState.apply_error
              (show (s.memory.apply writes time).1 = .error error by rw [happly])
          rw [happly] at hsame
          obtain rfl : memory = s.memory := hsame
          refine .inl ⟨error, ?_⟩
          simp only [BackedSession.commit, hshut, happly, false_eq_true, if_false]
          rfl
        | ok res =>
          refine .inr ⟨time, res, memory, rfl, happly, ?_⟩
          simp only [BackedSession.commit, hshut, happly, false_eq_true, if_false]

theorem tipSlot_injective : Function.Injective tipSlot := by
  intro first second heq
  exact congrArg (fun slot => (ofLex slot).2) heq

/-- An applied batch leaves the entries of every branch linked. -/
theorem Sound.linked_apply (h : Sound codec s) {time : Int} {res : CommitResult}
    (hfits : slot.Fits codec s.memory writes)
    (happly : s.memory.apply writes time = (.ok res, memory)) :
    memory.Coherent ∧
      ∀ branch, Linked codec memory branch (committedTo (s.log ++ slot.committed) branch) := by
  cases hcall : slot.call with
  | appendToBranch target body =>
    rw [Slot.Fits, hcall] at hfits
    obtain ⟨parent, rfl, hpar⟩ := hfits
    obtain ⟨hcoh, hid, ⟨entry, rfl, hents⟩, seq, hvals⟩ := h.coherent.apply_append happly
    refine ⟨hcoh, fun branch => ?_⟩
    rw [committedTo_append, Slot.committed, hcall]
    by_cases hbranch : target = branch
    · subst hbranch
      have hnew : committedTo [(target, slot.id)] target = [slot.id] := by simp [committedTo]
      rw [hnew]
      refine (h.linked target).concat hid hents hpar ?_
      rw [InMemoryStorageState.storedTip, hvals, if_pos rfl, bind_some, codec.readTip_tip]
    · have hnone : committedTo [(target, slot.id)] branch = [] := by simp [committedTo, hbranch]
      rw [hnone, append_nil]
      refine (h.linked branch).insert hid hents ?_
      rw [InMemoryStorageState.storedTip, hvals,
        if_neg fun heq => hbranch (tipSlot_injective heq).symm]
      rfl
  | createBranch target anchor =>
    rw [Slot.Fits, hcall] at hfits
    obtain ⟨rfl, hfree⟩ := hfits
    obtain ⟨hcoh, hents, seq, hvals⟩ := h.coherent.apply_setTip happly
    refine ⟨hcoh, fun branch => ?_⟩
    rw [Slot.committed, hcall, append_nil]
    by_cases hbranch : target = branch
    · subst hbranch
      -- A branch without a tip has no entries yet.
      have hemp : committedTo s.log target = [] := by
        by_contra hne
        have htip := (h.linked target).tip _ (getLast?_eq_some_getLast hne)
        rw [InMemoryStorageState.storedTip, hfree] at htip
        cases htip
      rw [hemp]
      exact ⟨isChain_nil, by simp, by simp⟩
    · have hsame : memory.storedTip codec branch = s.memory.storedTip codec branch := by
        rw [InMemoryStorageState.storedTip, hvals,
          if_neg fun heq => hbranch (tipSlot_injective heq).symm]
        rfl
      have hlinked := h.linked branch
      exact
        { chain := by
            rw [show memory.parentOf = s.memory.parentOf by
              funext id
              rw [InMemoryStorageState.parentOf, hents]
              rfl]
            exact hlinked.chain
          stored := by
            rw [hents]
            exact hlinked.stored
          tip := by
            rw [hsame]
            exact hlinked.tip }

/-- A commit keeps the invariant. -/
theorem Sound.commit (h : Sound codec s) (hslot : s.slots[i]? = some slot)
    (htask : slot.task = some (.running writes)) (now : Except SessionError Int) :
    Sound codec (s.commit i slot writes now) := by
  have hsnd := h.slots i slot hslot
  have hlocked : slot.holdsLock = true := by
    rw [Slot.holdsLock, htask, any_some]
    exact or_true _
  have howner := h.locks i slot hslot hlocked
  obtain ⟨hcaller, hidle⟩ := hsnd.spawned htask
  -- The slot after its commit, whatever the result.
  have hdone : ∀ (outcome : Except SessionError CommitResult) (memory : InMemoryStorageState R) log,
      s.log ⊆ log → (∀ res, outcome = .ok res → slot.committed ⊆ log) →
      Slot.Sound codec memory log { slot with task := some (.committed outcome) } := by
    intro outcome memory log hlog hcommitted
    exact
      { anchoring := fun heq => by
          rw [show slot.caller = .anchoring from heq] at hidle
          cases hidle
        ready := fun other heq => by
          rw [show slot.caller = .ready other from heq] at hidle
          cases hidle
        running := by simp
        handedOver := fun hear => by
          rw [show slot.caller.preparing = true from hear] at hcaller
          cases hcaller
        committed := fun res heq => by
          obtain rfl := Task.committed.inj (some.inj heq)
          exact hcommitted res rfl
        finished := by simp
        returned := fun id heq branch body hcall => hlog (hsnd.returned id heq branch body hcall) }
  rcases commit_cases s i slot writes now with
    ⟨error, heq⟩ | ⟨time, res, memory, -, happly, heq⟩
  · rw [heq]
    exact h.put_keep hslot (hdone _ _ _ (List.Subset.refl _) nofun) fun _ => hlocked
  · rw [heq]
    obtain ⟨hcoh, hlinked⟩ := h.linked_apply (hsnd.running writes htask) happly
    constructor
    case coherent => exact hcoh
    case slots =>
      intro other found hfnd
      rcases getElem?_set_cases hfnd with ⟨-, rfl⟩ | ⟨hne, hold⟩
      · exact hdone _ _ _ (subset_append_left _ _) fun _ _ => subset_append_right _ _
      · -- Nobody else holds the lock, so nobody else relies on the old tips.
        refine (h.slots other found hold).of_unlocked ?_ (subset_append_left _ _)
        rw [eq_false_iff]
        intro hheld
        have hother := h.locks other found hold hheld
        rw [howner] at hother
        cases hother
        exact absurd rfl hne
    case locks =>
      exact forall_set h.locks fun _ => howner
    case closing => exact h.closing
    case closed => exact h.closed
    case linked => exact hlinked

/-- One step of a commit task keeps the invariant. -/
theorem Sound.taskStep (h : Sound codec s) (hslot : s.slots[i]? = some slot)
    (hstep : s.taskStep i slot event = some s') : Sound codec s' := by
  have hsnd := h.slots i slot hslot
  cases event with
  | commit _ now =>
    simp only [BackedSession.taskStep] at hstep
    split at hstep
    · rename_i writes htask
      cases hstep
      exact h.commit hslot htask now
    · cases hstep
  | release _ =>
    simp only [BackedSession.taskStep] at hstep
    split at hstep
    · rename_i res htask
      cases hstep
      obtain ⟨hear, hidle⟩ := hsnd.spawned htask
      refine h.put hslot ?_ (.free rfl ?_ ?_)
      · exact
          { anchoring := hsnd.anchoring
            ready := hsnd.ready
            running := by simp
            handedOver := fun hpreparing => by
              rw [show slot.caller.preparing = true from hpreparing] at hear
              cases hear
            committed := by simp
            finished := fun outcome heq => by
              obtain rfl := Task.finished.inj (some.inj heq)
              exact hsnd.committed outcome htask
            returned := hsnd.returned }
      · rw [Slot.holdsLock, htask, any_some]
        exact or_true _
      · rw [Slot.holdsLock]
        exact (Bool.or_false _).trans hidle
    · cases hstep
  | _ => cases hstep

/-- A new call keeps the invariant. -/
theorem Sound.begin (h : Sound codec s) (call : Call R) (id : Except SessionError EntryId) :
    Sound codec (s.begin call id) := by
  have hfrs : ∀ (id : EntryId) (caller : Caller R), caller.plain = true →
      caller.holdsLock = false → Sound codec { s with slots := s.slots ++ [⟨call, id, caller, none⟩] } := by
    intro id caller hplain hlock
    refine h.concat ?_ (by rw [Slot.holdsLock, hlock]; rfl)
    have hemp : Slot.Sound codec s.memory s.log ⟨call, id, .dropped, none⟩ := by
      constructor <;> simp
    exact hemp.withPlain caller hplain fun _ => rfl
  unfold BackedSession.begin
  simp only
  split_ifs
  · exact hfrs _ _ rfl rfl
  · cases call.validate with
    | error error => exact hfrs _ _ rfl rfl
    | ok _ =>
      cases id with
      | error | ok => exact hfrs _ _ rfl rfl

/-- Every step keeps the invariant. -/
theorem Sound.step (h : Sound codec s) (hstep : step codec s event = some s') : Sound codec s' := by
  cases event with
  | call call id =>
    cases hstep
    exact h.begin call id
  | enqueue i | acquire i | recheck i | readTip i | readAnchor i
  | spawn i | deliver i | drop i | abort i =>
    obtain ⟨slot, hslot, hcall⟩ := bind_eq_some_iff.mp hstep
    exact h.callerStep hslot hcall
  | commit i _ | release i =>
    obtain ⟨slot, hslot, htask⟩ := bind_eq_some_iff.mp hstep
    exact h.taskStep hslot htask
  | sealSession =>
    cases hstep
    exact ⟨h.coherent, h.slots, h.locks, h.closing, h.closed, h.linked⟩
  | startClose =>
    simp only [BackedSession.step] at hstep
    split_ifs at hstep
    cases hstep
    exact ⟨h.coherent, h.slots, h.locks, nofun, nofun, h.linked⟩
  | acquireClose =>
    simp only [BackedSession.step] at hstep
    split_ifs at hstep with hfree
    cases hstep
    have hnone : s.owner = none := isNone_iff_eq_none.mp (and_eq_true_iff.mp hfree).2
    refine ⟨h.coherent, h.slots, ?_, fun _ => rfl, nofun, h.linked⟩
    intro i slot hslot hheld
    have hown := h.locks i slot hslot hheld
    rw [hnone] at hown
    cases hown
  | closeStorage =>
    simp only [BackedSession.step] at hstep
    split_ifs at hstep with hholding
    cases hstep
    exact ⟨h.coherent, h.slots, h.locks, fun _ => h.closing (.inl (beq_iff_eq.mp hholding)),
      fun _ => rfl, h.linked⟩
  | finishClose =>
    simp only [BackedSession.step] at hstep
    split_ifs at hstep with hcls
    cases hstep
    have hown := h.closing (.inr (beq_iff_eq.mp hcls))
    refine ⟨h.coherent, h.slots, ?_, nofun, fun _ => h.closed (.inl (beq_iff_eq.mp hcls)), h.linked⟩
    intro i slot hslot hheld
    have hslotOwner := h.locks i slot hslot hheld
    rw [hown] at hslotOwner
    cases hslotOwner

theorem Sound.run (h : (machine codec).Run (fun _ _ => True) s) : Sound codec s := by
  refine h.invariant ?_ ?_
  · rintro s ⟨memory, hcoh, rfl⟩
    exact
      { coherent := hcoh
        slots := by
          intro i slot hslot
          simp [ofMemory] at hslot
        locks := by
          intro i slot hslot
          simp [ofMemory] at hslot
        closing := by simp [ofMemory]
        closed := by simp [ofMemory]
        linked := by
          intro branch
          have hemp : committedTo (ofMemory memory).log branch = [] := rfl
          rw [hemp]
          exact ⟨isChain_nil, by simp, by simp⟩ }
  · intro s s' event hsnd _ hstep
    exact hsnd.step hstep

/-! ## After the close -/

/-- A step of a caller changes its slot and the lock. -/
theorem callerStep_eq_put (hstep : s.callerStep codec i slot event = some s') :
    ∃ slot' owner, s' = { s.put i slot' with owner := owner } := by
  cases event with
  | enqueue _ | recheck _ =>
    simp only [BackedSession.callerStep] at hstep
    split at hstep
    · split_ifs at hstep
      · exact ⟨_, _, (some.inj hstep).symm⟩
      · exact ⟨_, _, (some.inj hstep).symm⟩
    · cases hstep
  | acquire _ | spawn _ | deliver _ =>
    simp only [BackedSession.callerStep] at hstep
    split at hstep
    · exact ⟨_, _, (some.inj hstep).symm⟩
    · cases hstep
  | readTip _ =>
    simp only [BackedSession.callerStep] at hstep
    split at hstep
    · split_ifs at hstep
      · exact ⟨_, _, (some.inj hstep).symm⟩
      · split at hstep
        · exact ⟨_, _, (some.inj hstep).symm⟩
        · exact ⟨_, _, (some.inj hstep).symm⟩
    · cases hstep
  | readAnchor _ =>
    simp only [BackedSession.callerStep] at hstep
    split at hstep
    · split_ifs at hstep
      · exact ⟨_, _, (some.inj hstep).symm⟩
      · exact ⟨_, _, (some.inj hstep).symm⟩
      · exact ⟨_, _, (some.inj hstep).symm⟩
    · cases hstep
  | drop _ =>
    simp only [BackedSession.callerStep] at hstep
    split at hstep
    · cases hstep
    · cases hstep
    · exact ⟨_, _, (some.inj hstep).symm⟩
  | abort _ =>
    cases hcall : slot.caller with
    | admitted | locked | granted | anchoring | ready _ =>
      simp only [BackedSession.callerStep, hcall] at hstep
      exact ⟨_, _, (some.inj hstep).symm⟩
    | _ => simp [BackedSession.callerStep, hcall] at hstep
  | _ => cases hstep

/-- A closed backend commits nothing. -/
theorem step_storageClosed (hshut : s.storageClosed = true)
    (hstep : BackedSession.step codec s event = some s') :
    s'.memory = s.memory ∧ s'.log = s.log ∧ s'.storageClosed = true := by
  cases event with
  | call call id =>
    cases hstep
    unfold BackedSession.begin
    simp only
    split_ifs
    · exact ⟨rfl, rfl, hshut⟩
    · split
      · exact ⟨rfl, rfl, hshut⟩
      · exact ⟨rfl, rfl, hshut⟩
      · exact ⟨rfl, rfl, hshut⟩
  | enqueue i | acquire i | recheck i | readTip i | readAnchor i
  | spawn i | deliver i | drop i | abort i =>
    obtain ⟨slot, -, hcall⟩ := bind_eq_some_iff.mp hstep
    obtain ⟨slot', owner, rfl⟩ := callerStep_eq_put hcall
    exact ⟨rfl, rfl, hshut⟩
  | commit i now =>
    obtain ⟨slot, -, htask⟩ := bind_eq_some_iff.mp hstep
    simp only [BackedSession.taskStep] at htask
    split at htask
    · cases htask
      rcases commit_cases s i slot _ now with ⟨error, heq⟩ | ⟨_, _, _, hopen, -⟩
      · rw [heq]
        exact ⟨rfl, rfl, hshut⟩
      · rw [hshut] at hopen
        cases hopen
    · cases htask
  | release i =>
    obtain ⟨slot, -, htask⟩ := bind_eq_some_iff.mp hstep
    simp only [BackedSession.taskStep] at htask
    split at htask
    · cases htask
      exact ⟨rfl, rfl, hshut⟩
    · cases htask
  | sealSession =>
    cases hstep
    exact ⟨rfl, rfl, hshut⟩
  | startClose | acquireClose | finishClose =>
    simp only [BackedSession.step] at hstep
    split_ifs at hstep
    cases hstep
    exact ⟨rfl, rfl, hshut⟩
  | closeStorage =>
    simp only [BackedSession.step] at hstep
    split_ifs at hstep
    cases hstep
    exact ⟨rfl, rfl, rfl⟩

/-- In every state reached by calls, commit tasks and a close in any order: the
ancestry of a branch's tip starts with the entries committed to it, newest first
and each once; an id returned to a caller is one of them; and once the close has
completed, nothing is committed any more. -/
theorem no_append_lost (h : (machine codec).Run (fun _ _ => True) s) :
    (∀ branch, committedTo s.log branch ≠ [] → ∃ tip rest,
      s.memory.storedTip codec branch = some (some tip) ∧
      Climb s.memory.parentOf tip ((committedTo s.log branch).reverse ++ rest) ∧
      ((committedTo s.log branch).reverse ++ rest).Nodup) ∧
    (∀ (i : Nat) slot branch body id, s.slots[i]? = some slot →
      slot.call = .appendToBranch branch body → slot.caller = .returned (.ok id) →
      id ∈ committedTo s.log branch) ∧
    (s.closer = .completed → ∀ s', (machine codec).Follows (fun _ _ => True) s s' →
      s'.memory = s.memory ∧ s'.log = s.log) := by
  have hsound := Sound.run h
  refine ⟨fun branch => (hsound.linked branch).ancestry hsound.coherent, ?_, ?_⟩
  · intro i slot branch body id hslot hcall hret
    have hmem := (hsound.slots i slot hslot).returned id hret branch body hcall
    exact mem_map.mpr ⟨(branch, id), mem_filter.mpr ⟨hmem, by simp⟩, rfl⟩
  · intro hcompleted s' hfollows
    have hclosed := hsound.closed (.inr hcompleted)
    have hkept : s'.memory = s.memory ∧ s'.log = s.log ∧ s'.storageClosed = true := by
      apply hfollows.invariant ⟨rfl, rfl, hclosed⟩
      rintro middle next event ⟨hmemory, hlog, hmiddle⟩ - hstep
      obtain ⟨hmemory', hlog', hnext⟩ := step_storageClosed hmiddle hstep
      exact ⟨hmemory'.trans hmemory, hlog'.trans hlog, hnext⟩
    exact ⟨hkept.1, hkept.2.1⟩

/-- Two appends, the second queued behind the first and dropped by its caller once
its commit was spawned, while a close waits for the lock. -/
def twoAppends : List (Event (Option EntryId ⊕ Unit)) :=
  [.call (.createBranch "main" none) (.ok ""), .enqueue 0, .acquire 0, .recheck 0, .readTip 0,
    .spawn 0, .commit 0 (.ok 1), .release 0, .deliver 0,
    .call (.appendToBranch "main" (.custom "note" none)) (.ok "a"), .enqueue 1, .acquire 1,
    .call (.appendToBranch "main" (.custom "note" none)) (.ok "b"), .enqueue 2,
    .recheck 1, .readTip 1, .spawn 1, .commit 1 (.ok 2), .release 1, .acquire 2, .deliver 1,
    .recheck 2, .readTip 2, .sealSession, .startClose, .spawn 2, .drop 2, .commit 2 (.ok 3),
    .release 2, .acquireClose, .closeStorage, .finishClose]

theorem no_append_lost_twoAppends : ∃ s, (machine tipOrOther).Run (fun _ _ => True) s ∧
      committedTo s.log "main" = ["a", "b"] ∧ ∃ tip rest,
        s.memory.storedTip tipOrOther "main" = some (some tip) ∧
        Climb s.memory.parentOf tip (["b", "a"] ++ rest) := by
  have hstart : (machine tipOrOther).Run (fun _ _ => True) (ofMemory InMemoryStorageState.new) :=
    .start ⟨_, InMemoryStorageState.coherent_new, rfl⟩
  obtain ⟨s, hrun, hlog⟩ := hstart.execute (fun _ _ => true) twoAppends
    (fun s => committedTo s.log "main" == ["a", "b"]) (fun _ _ _ => trivial) (by decide +kernel)
  have hcommitted := beq_iff_eq.mp hlog
  have hancestry := (no_append_lost hrun).1 "main"
  rw [hcommitted] at hancestry
  obtain ⟨tip, rest, htip, hclimb, -⟩ := hancestry (by decide)
  exact ⟨s, hrun, hcommitted, tip, rest, htip, hclimb⟩

end BackedSession

end PiOxidized.Session
