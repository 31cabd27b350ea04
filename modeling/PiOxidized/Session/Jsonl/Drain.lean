/-
# Closing a JSONL storage

A commit is admitted under the gate and holds a permit until it is done.  Closing
shuts the gate and waits until no permit is held: it loads the count, makes a wait
future when the count is not zero and waits on it.  The permit that takes the count
to zero notifies one waiter and then all of them.

The notification cell stores at most one permit.  A future takes the stored permit
at its first poll, or is ready there when a broadcast came after its creation.
-/

import PiOxidized.Math.Slots
import PiOxidized.Math.Transition

namespace PiOxidized.Session.Jsonl

open List Math

/-- How far a commit or a snapshot of the storage has got. -/
inductive Operation
  /-- Past the check of its context. -/
  | arriving
  /-- Admitted; its permit is held. -/
  | running
  /-- Its drop took the count to zero and is to notify one waiter. -/
  | notifying
  /-- Its drop is to notify all waiters. -/
  | broadcasting
  | finished
  | refused
  deriving DecidableEq

/-- How far a close has got. -/
inductive Closing
  /-- Before the gate. -/
  | arriving
  /-- Before the load of the count. -/
  | checking
  /-- The count was not zero; the wait future is still to be created. -/
  | creating
  /-- With a future that was not polled, created after so many broadcasts. -/
  | created (broadcasts : Nat)
  /-- Blocked, without a notification. -/
  | waiting
  /-- Notified, and still to go on. -/
  | notified
  | returned
  /-- Its context was cancelled. -/
  | aborted
  deriving DecidableEq

/-- The gate, the count and the notification cell with all calls in flight. -/
structure Drain where
  closed : Bool
  active : Nat
  /-- The stored permit of the cell. -/
  permit : Bool
  /-- How often all waiters were notified. -/
  broadcasts : Nat
  operations : List Operation
  closings : List Closing
  deriving DecidableEq

/-- One step of an operation or of a close. -/
inductive DrainEvent
  | operate (cancelled : Bool)
  | admission (index : Nat)
  | decrement (index : Nat)
  | notifyOne (index : Nat) (waiter : Nat)
  | notifyWaiters (index : Nat)
  | close (cancelled : Bool)
  | shut (index : Nat)
  | load (index : Nat)
  | create (index : Nat)
  | poll (index : Nat)
  | resume (index : Nat)

/-- A close that is blocked goes on after a notification. -/
def Closing.notify : Closing → Closing
  | waiting => notified
  | closing => closing

namespace Drain

def setOperation (s : Drain) (index : Nat) (operation : Operation) : Drain :=
  { s with operations := s.operations.set index operation }

def setClosing (s : Drain) (index : Nat) (closing : Closing) : Drain :=
  { s with closings := s.closings.set index closing }

/-- Admission, under the gate. -/
def admitOperation (s : Drain) (index : Nat) : Drain :=
  if s.closed then s.setOperation index .refused
  else { s.setOperation index .running with active := s.active + 1 }

/-- The decrement of a dropped permit. -/
def decrement (s : Drain) (index : Nat) : Drain :=
  let operation := if s.active = 1 then Operation.notifying else .finished
  { s.setOperation index operation with active := s.active - 1 }

/-- Notify a waiter, or store the permit when there is none. -/
def notifyOne (s : Drain) (waiter : Nat) : Option Drain := if .waiting ∈ s.closings then
    if s.closings[waiter]? = some .waiting then some (s.setClosing waiter .notified) else none
  else some { s with permit := true }

/-- Notify all waiters. -/
def notifyWaiters (s : Drain) : Drain :=
  { s with broadcasts := s.broadcasts + 1, closings := s.closings.map Closing.notify }

/-- The test of the close loop. -/
def load (s : Drain) (index : Nat) : Drain :=
  s.setClosing index (if s.active = 0 then .returned else .creating)

/-- The first poll of a future that was created after `broadcasts` broadcasts. -/
def poll (s : Drain) (index broadcasts : Nat) : Drain :=
  if s.permit then { s.setClosing index .notified with permit := false }
  else s.setClosing index (if broadcasts = s.broadcasts then .waiting else .notified)

/-- One step. -/
def step (s : Drain) : DrainEvent → Option Drain
  | .operate cancelled =>
    let operation := if cancelled then Operation.refused else .arriving
    some { s with operations := s.operations ++ [operation] }
  | .admission index =>
    if s.operations[index]? = some .arriving then some (s.admitOperation index) else none
  | .decrement index =>
    if s.operations[index]? = some .running then some (s.decrement index) else none
  | .notifyOne index waiter =>
    if s.operations[index]? = some .notifying then
      (s.notifyOne waiter).map (·.setOperation index .broadcasting)
    else none
  | .notifyWaiters index =>
    if s.operations[index]? = some .broadcasting then
      some (s.notifyWaiters.setOperation index .finished)
    else none
  | .close cancelled =>
    let closing := if cancelled then Closing.aborted else .arriving
    some { s with closings := s.closings ++ [closing] }
  | .shut index =>
    if s.closings[index]? = some .arriving then
      some { s.setClosing index .checking with closed := true }
    else none
  | .load index =>
    if s.closings[index]? = some .checking then some (s.load index) else none
  | .create index =>
    if s.closings[index]? = some .creating then
      some (s.setClosing index (.created s.broadcasts))
    else none
  | .poll index =>
    match s.closings[index]? with
    | some (.created broadcasts) => some (s.poll index broadcasts)
    | _ => none
  | .resume index =>
    if s.closings[index]? = some .notified then some (s.setClosing index .checking) else none

/-- A storage that was opened. -/
def opened : Drain :=
  { closed := false, active := 0, permit := false, broadcasts := 0, operations := [],
    closings := [] }

def machine : Machine Drain DrainEvent where
  start s := s = opened
  step := step

end Drain

/-- Admitted, and not through with its drop. -/
def Operation.Unfinished (operation : Operation) : Prop :=
  operation = running ∨ operation = notifying ∨ operation = broadcasting

instance (operation : Operation) : Decidable operation.Unfinished := by
  unfold Operation.Unfinished
  infer_instance

/-- The share of an operation in the count. -/
def Operation.held : Operation → Nat
  | running => 1
  | _ => 0

/-- Past the gate. -/
def Closing.Past : Closing → Prop
  | arriving => False
  | aborted => False
  | _ => True

/-- Between the load of the count and the first poll of the future. -/
def Closing.Pending : Closing → Prop
  | creating => True
  | created _ => True
  | _ => False

/-- Pending, and without a broadcast that reaches its future. -/
def Closing.Missing (broadcasts : Nat) : Closing → Prop
  | creating => True
  | created seen => seen = broadcasts
  | _ => False

theorem Closing.Missing.pending {broadcasts : Nat} {closing : Closing}
    (h : closing.Missing broadcasts) : closing.Pending := by
  cases closing with
  | creating => trivial
  | created _ => trivial
  | _ => exact h

theorem Closing.notify_ne_waiting (closing : Closing) : closing.notify ≠ waiting := by
  cases closing <;> nofun

theorem Closing.notify_eq {closing other : Closing} (h : closing.notify = other)
    (hoth : other ≠ notified) : closing = other := by
  cases closing with
  | waiting => exact absurd h.symm hoth
  | _ => exact h

namespace Drain

variable {s s' : Drain} {i : Nat}

/-- No admitted operation is unfinished. -/
def Quiet (s : Drain) : Prop :=
  ∀ (i : Nat) operation, s.operations[i]? = some operation → ¬ operation.Unfinished

/-- What a closed storage promises: no close is blocked once every admitted operation is
through, and none returns while one is running. -/
structure Drained (s : Drain) : Prop where
  woken : s.Quiet → .waiting ∉ s.closings
  idle : .returned ∈ s.closings → .running ∉ s.operations

/-- The last broadcast may miss only a close that finds the stored permit: one that stands
between its load and the creation of its future, when no other is short of its first poll. -/
def Covered (s : Drain) : DrainEvent → Prop
  | .notifyWaiters index =>
    (∀ (i : Nat) operation,
      s.operations[i]? = some operation → i ≠ index → ¬ operation.Unfinished) →
    ∀ i : Nat, s.closings[i]? = some .creating → s.permit = true ∧ ∀ (j : Nat) closing,
          s.closings[j]? = some closing → closing.Pending → j = i
  | _ => True

/-! ## The count and the gate -/

/-- The count is the number of permits, the gate is shut for every close that passed it,
and a close returns at count zero. -/
structure Gated (s : Drain) : Prop where
  active : s.active = weigh Operation.held s.operations
  shut : ∀ closing ∈ s.closings, closing.Past → s.closed = true
  returned : .returned ∈ s.closings → s.closed = true ∧ s.active = 0
  seen : ∀ broadcasts : Nat, .created broadcasts ∈ s.closings → broadcasts ≤ s.broadcasts

variable {event : DrainEvent} {closing : Closing}

variable {broadcasts : Nat}

theorem Gated.opened : Gated opened where
  active := rfl
  shut := by
    intro closing h
    cases h
  returned := by
    intro h
    cases h
  seen := by
    intro broadcasts h
    cases h

section

variable (h : s.Gated)

include h

/-- A close moves on. -/
theorem Gated.setClosing (hshut : closing.Past → s.closed = true)
    (hret : closing = .returned → s.closed = true ∧ s.active = 0)
    (hseen : ∀ broadcasts : Nat, closing = .created broadcasts → broadcasts ≤ s.broadcasts) :
    (s.setClosing i closing).Gated where
  active := h.active
  shut := by
    intro other hmem hpast
    rcases mem_or_eq_of_mem_set hmem with hmem | rfl
    · exact h.shut other hmem hpast
    · exact hshut hpast
  returned := by
    intro hmem
    rcases mem_or_eq_of_mem_set hmem with hmem | heq
    · exact h.returned hmem
    · exact hret heq.symm
  seen := by
    intro broadcasts hmem
    rcases mem_or_eq_of_mem_set hmem with hmem | heq
    · exact h.seen broadcasts hmem
    · exact hseen broadcasts heq.symm

/-- An operation moves on and keeps its share of the count. -/
theorem Gated.setOperation {op next : Operation}
    (hidx : s.operations[i]? = some op) (hheld : next.held = op.held) :
    (s.setOperation i next).Gated where
  __ := h
  active := by
    have hweight := weigh_set_of_eq (f := Operation.held) hidx hheld
    exact h.active.trans hweight.symm

theorem Gated.admitOperation (hidx : s.operations[i]? = some .arriving) :
    (s.admitOperation i).Gated := by
  rw [Drain.admitOperation]
  split_ifs with hshut
  · exact h.setOperation hidx rfl
  · exact
      { active := by
          have hweight := weigh_set Operation.held hidx .running
          have hact := h.active
          simp only [Operation.held] at hweight
          simp only [Drain.setOperation]
          omega
        shut := h.shut
        returned := fun hmem => absurd (h.returned hmem).1 hshut
        seen := h.seen }

theorem Gated.decrement (hidx : s.operations[i]? = some .running) : (s.decrement i).Gated := by
  have hheld : ∀ op : Operation, op.held = 0 →
      s.active - 1 = weigh Operation.held (s.operations.set i op) := by
    intro op hzero
    have hweight := weigh_set Operation.held hidx op
    have hact := h.active
    rw [hzero, show Operation.running.held = 1 from rfl] at hweight
    omega
  exact
    { active := by
        apply hheld
        split_ifs
        · rfl
        · rfl
      shut := h.shut
      returned := by
        intro hmem
        have hshut := h.returned hmem
        exact ⟨hshut.1, by simp [Drain.decrement, hshut.2]⟩
      seen := h.seen }

theorem Gated.notifyOne {waiter : Nat} (hnext : s.notifyOne waiter = some s') :
    s'.Gated ∧ s'.operations = s.operations := by
  rw [Drain.notifyOne] at hnext
  split_ifs at hnext with hmem hwaiter
  · cases hnext
    refine ⟨h.setClosing ?_ nofun nofun, rfl⟩
    intro _
    exact h.shut .waiting hmem trivial
  · cases hnext
    exact ⟨⟨h.active, h.shut, h.returned, h.seen⟩, rfl⟩

theorem Gated.notifyWaiters : s.notifyWaiters.Gated where
  active := h.active
  shut := by
    intro closing hmem hpast
    obtain ⟨other, hoth, rfl⟩ := mem_map.mp hmem
    apply h.shut other hoth
    cases other with
    | waiting => trivial
    | _ => exact hpast
  returned := by
    intro hmem
    obtain ⟨other, hoth, heq⟩ := mem_map.mp hmem
    rw [Closing.notify_eq heq nofun] at hoth
    exact h.returned hoth
  seen := by
    intro broadcasts hmem
    obtain ⟨other, hoth, heq⟩ := mem_map.mp hmem
    rw [Closing.notify_eq heq nofun] at hoth
    exact Nat.le_succ_of_le (h.seen broadcasts hoth)

theorem Gated.shutGate : Gated { s.setClosing i .checking with closed := true } where
  active := h.active
  shut := fun _ _ _ => rfl
  returned := by
    intro hmem
    rcases mem_or_eq_of_mem_set hmem with hmem | heq
    · exact ⟨rfl, (h.returned hmem).2⟩
    · cases heq
  seen := by
    intro broadcasts hmem
    rcases mem_or_eq_of_mem_set hmem with hmem | heq
    · exact h.seen broadcasts hmem
    · cases heq

theorem Gated.load (hidx : s.closings[i]? = some .checking) : (s.load i).Gated := by
  have hshut := h.shut .checking (mem_of_getElem? hidx) trivial
  rw [Drain.load]
  split_ifs with hact
  · exact h.setClosing (fun _ => hshut) (fun _ => ⟨hshut, hact⟩) nofun
  · exact h.setClosing (fun _ => hshut) nofun nofun

theorem Gated.poll (hidx : s.closings[i]? = some (.created broadcasts)) :
    (s.poll i broadcasts).Gated := by
  have hshut := h.shut (.created broadcasts) (mem_of_getElem? hidx) trivial
  rw [Drain.poll]
  split_ifs with hpermit hseen
  · have hset : (s.setClosing i .notified).Gated := h.setClosing (fun _ => hshut) nofun nofun
    exact ⟨hset.active, hset.shut, hset.returned, hset.seen⟩
  · exact h.setClosing (fun _ => hshut) nofun nofun
  · exact h.setClosing (fun _ => hshut) nofun nofun

theorem Gated.step (hnext : s.step event = some s') : s'.Gated := by
  cases event with
  | operate cancelled =>
    cases hnext
    refine ⟨?_, h.shut, h.returned, h.seen⟩
    have hheld : Operation.held (if cancelled then .refused else .arriving) = 0 := by
      split_ifs
      · rfl
      · rfl
    rw [weigh_append_singleton, hheld]
    exact h.active
  | admission i =>
    rw [Drain.step] at hnext
    split_ifs at hnext with hidx
    cases hnext
    exact h.admitOperation hidx
  | decrement i =>
    rw [Drain.step] at hnext
    split_ifs at hnext with hidx
    cases hnext
    exact h.decrement hidx
  | notifyOne i waiter =>
    rw [Drain.step] at hnext
    split_ifs at hnext with hidx
    obtain ⟨next, hone, rfl⟩ := Option.map_eq_some_iff.mp hnext
    obtain ⟨hgated, heq⟩ := h.notifyOne hone
    rw [← heq] at hidx
    exact hgated.setOperation hidx rfl
  | notifyWaiters i =>
    rw [Drain.step] at hnext
    split_ifs at hnext with hidx
    cases hnext
    exact h.notifyWaiters.setOperation hidx rfl
  | close cancelled =>
    cases hnext
    have hmem : ∀ closing : Closing,
        closing ∈ s.closings ++ [if cancelled then .aborted else .arriving] →
          closing ≠ .aborted → closing ≠ .arriving → closing ∈ s.closings := by
      intro closing hcls haborted harriving
      rcases mem_append.mp hcls with hcls | hcls
      · exact hcls
      · rw [mem_singleton] at hcls
        split_ifs at hcls
        · exact absurd hcls haborted
        · exact absurd hcls harriving
    refine ⟨h.active, ?_, fun hret => h.returned (hmem _ hret nofun nofun),
      fun broadcasts hmade => h.seen broadcasts (hmem _ hmade nofun nofun)⟩
    intro closing hcls hpast
    exact h.shut closing (hmem closing hcls (by rintro rfl; exact hpast)
      (by rintro rfl; exact hpast)) hpast
  | shut i =>
    rw [Drain.step] at hnext
    split_ifs at hnext with hidx
    cases hnext
    exact h.shutGate
  | load i =>
    rw [Drain.step] at hnext
    split_ifs at hnext with hidx
    cases hnext
    exact h.load hidx
  | create i =>
    rw [Drain.step] at hnext
    split_ifs at hnext with hidx
    cases hnext
    apply h.setClosing
    · intro _
      exact h.shut .creating (mem_of_getElem? hidx) trivial
    · nofun
    · intro broadcasts heq
      cases heq
      exact le_rfl
  | poll i =>
    rw [Drain.step] at hnext
    split at hnext
    · rename_i broadcasts hidx
      cases hnext
      exact h.poll hidx
    · cases hnext
  | resume i =>
    rw [Drain.step] at hnext
    split_ifs at hnext with hidx
    cases hnext
    apply h.setClosing
    · intro _
      exact h.shut .notified (mem_of_getElem? hidx) trivial
    · nofun
    · nofun

theorem Gated.active_eq_zero (hquiet : s.Quiet) : s.active = 0 := by
  rw [h.active]
  by_contra hpos
  obtain ⟨op, hmem, hheld⟩ := weigh_pos_iff.mp (Nat.pos_of_ne_zero hpos)
  obtain ⟨i, hi⟩ := getElem?_of_mem hmem
  cases op with
  | running => exact hquiet i .running hi (.inl rfl)
  | _ => exact absurd hheld (Nat.lt_irrefl 0)

/-- While an operation runs, the count is not zero. -/
theorem Gated.active_pos (hmem : .running ∈ s.operations) : 0 < s.active := by
  rw [h.active]
  exact weigh_pos_iff.mpr ⟨.running, hmem, Nat.one_pos⟩

end

/-! ## No close is left behind -/

/-- No close is blocked, and one that no broadcast can reach finds the stored permit. -/
structure Settled (s : Drain) : Prop where
  woken : .waiting ∉ s.closings
  served : ∀ (i : Nat) closing, s.closings[i]? = some closing → closing.Missing s.broadcasts →
      s.permit = true ∧ ∀ (j : Nat) other, s.closings[j]? = some other → other.Pending → j = i

/-- A close moves on to a point where it needs no notification. -/
theorem Settled.setClosing (h : s.Settled) (hwait : closing ≠ .waiting)
    (hpend : ¬ closing.Pending) : (s.setClosing k closing).Settled where
  woken := by
    intro hmem
    rcases mem_or_eq_of_mem_set hmem with hmem | heq
    · exact h.woken hmem
    · exact hwait heq.symm
  served := by
    intro i other hoth hmiss
    rcases getElem?_set_cases hoth with ⟨rfl, rfl⟩ | ⟨-, hi⟩
    · exact absurd hmiss.pending hpend
    · obtain ⟨hpermit, huniq⟩ := h.served i other hi hmiss
      refine ⟨hpermit, ?_⟩
      exact forall_set huniq fun hthirdPending => absurd hthirdPending hpend

/-- Another close arrives. -/
theorem Settled.append (h : s.Settled) (hwait : closing ≠ .waiting) (hpend : ¬ closing.Pending) :
    Settled { s with closings := s.closings ++ [closing] } where
  woken := by
    intro hmem
    rcases mem_append.mp hmem with hmem | hmem
    · exact h.woken hmem
    · exact hwait (mem_singleton.mp hmem).symm
  served := by
    intro i other hoth hmiss
    rcases getElem?_append_cases hoth with hi | ⟨-, rfl⟩
    · obtain ⟨hpermit, huniq⟩ := h.served i other hi hmiss
      refine ⟨hpermit, ?_⟩
      exact forall_concat huniq fun hthirdPending => absurd hthirdPending hpend
    · exact absurd hmiss.pending hpend

theorem Settled.create (h : s.Settled) (hidx : s.closings[k]? = some .creating) :
    (s.setClosing k (.created s.broadcasts)).Settled where
  woken := by
    intro hmem
    rcases mem_or_eq_of_mem_set hmem with hmem | heq
    · exact h.woken hmem
    · cases heq
  served := by
    obtain ⟨hpermit, huniq⟩ := h.served k .creating hidx trivial
    have honly : ∀ (j : Nat) other,
        (s.closings.set k (.created s.broadcasts))[j]? = some other → other.Pending → j = k := by
      refine forall_set huniq ?_
      intro hpend
      rfl
    intro i closing hcls hmiss
    obtain rfl := honly i closing hcls hmiss.pending
    exact ⟨hpermit, honly⟩

theorem Settled.poll (h : s.Settled) (hidx : s.closings[k]? = some (.created broadcasts)) :
    (s.poll k broadcasts).Settled := by
  rw [Drain.poll]
  split_ifs with hpermit hseen
  · -- The permit is gone, so no other close may depend on it.
    have hset : (s.setClosing k .notified).Settled := h.setClosing nofun (fun h => h)
    refine ⟨hset.woken, ?_⟩
    intro i closing hcls hmiss
    rcases getElem?_set_cases hcls with ⟨rfl, rfl⟩ | ⟨hne, hi⟩
    · cases hmiss
    · obtain ⟨-, huniq⟩ := h.served i closing hi hmiss
      exact absurd (huniq k _ hidx trivial).symm hne
  · exact absurd (h.served k _ hidx hseen).1 hpermit
  · exact h.setClosing nofun fun h => h

/-- The last broadcast leaves behind only what the condition allows. -/
theorem Settled.notifyWaiters (h : s.Gated) (hcovered : ∀ i : Nat, s.closings[i]? = some .creating →
      s.permit = true ∧ ∀ (j : Nat) closing,
          s.closings[j]? = some closing → closing.Pending → j = i) :
    s.notifyWaiters.Settled where
  woken := by
    intro hmem
    obtain ⟨other, -, heq⟩ := mem_map.mp hmem
    exact Closing.notify_ne_waiting other heq
  served := by
    have hpre : ∀ (i : Nat) closing, s.notifyWaiters.closings[i]? = some closing → closing.Pending →
          s.closings[i]? = some closing := by
      intro i closing hcls hpend
      rw [Drain.notifyWaiters, getElem?_map] at hcls
      obtain ⟨other, hoth, heq⟩ := Option.map_eq_some_iff.mp hcls
      rw [hoth, Closing.notify_eq heq (by rintro rfl; exact hpend)]
    intro i closing hcls hmiss
    have hi := hpre i closing hcls hmiss.pending
    cases closing with
    | creating =>
      obtain ⟨hpermit, huniq⟩ := hcovered i hi
      refine ⟨hpermit, ?_⟩
      intro j other hoth hpend
      exact huniq j other (hpre j other hoth hpend) hpend
    | created broadcasts =>
      have hle := h.seen broadcasts (mem_of_getElem? hi)
      have heq : broadcasts = s.broadcasts + 1 := hmiss
      omega
    | _ => exact hmiss.elim

/-- Where the other operations are through, an operation that is not admitted hides none. -/
theorem Quiet.of_setOperation {op next : Operation}
    (h : (s.setOperation k next).Quiet) (hidx : s.operations[k]? = some op)
    (hop : ¬ op.Unfinished) : s.Quiet := by
  intro i other hi
  by_cases heq : i = k
  · subst heq
    rw [hidx] at hi
    cases hi
    exact hop
  · apply h i other
    rw [Drain.setOperation, getElem?_set_ne (Ne.symm heq)]
    exact hi

/-- Every step that meets the condition keeps this in quiet states. -/
theorem settled_step (hgated : s.Gated) (h : s.Quiet → s.Settled) (hcovered : s.Covered event)
    (hnext : s.step event = some s') : s'.Quiet → s'.Settled := by
  intro hquiet
  have hgated' := hgated.step hnext
  cases event with
  | operate cancelled =>
    cases hnext
    have hbefore := h fun i op hi =>
      hquiet i op (getElem?_append_of_some hi)
    exact ⟨hbefore.woken, hbefore.served⟩
  | admission k =>
    rw [Drain.step] at hnext
    split_ifs at hnext with hidx
    cases hnext
    rw [Drain.admitOperation] at hquiet ⊢
    split_ifs at hquiet ⊢ with hclosed
    · have hbefore := hquiet.of_setOperation hidx (by decide)
      exact ⟨(h hbefore).woken, (h hbefore).served⟩
    · exact absurd (.inl rfl) (hquiet k .running (getElem?_set_of_some hidx))
  | decrement k =>
    rw [Drain.step] at hnext
    split_ifs at hnext with hidx
    cases hnext
    -- A quiet state after the decrement has count zero, so the drop is still to notify.
    have hzero := hgated'.active_eq_zero hquiet
    have hpos := hgated.active_pos (mem_of_getElem? hidx)
    have hone : s.active = 1 := by
      simp only [Drain.decrement] at hzero
      omega
    refine absurd (.inr (.inl rfl)) (hquiet k .notifying ?_)
    simp only [Drain.decrement, hone, if_true]
    exact getElem?_set_of_some hidx
  | notifyOne k waiter =>
    rw [Drain.step] at hnext
    split_ifs at hnext with hidx
    obtain ⟨next, hone, rfl⟩ := Option.map_eq_some_iff.mp hnext
    rw [← (hgated.notifyOne hone).2] at hidx
    exact absurd (.inr (.inr rfl)) (hquiet k .broadcasting (getElem?_set_of_some hidx))
  | notifyWaiters k =>
    rw [Drain.step] at hnext
    split_ifs at hnext with hidx
    cases hnext
    have hlast : ∀ (i : Nat) op, s.operations[i]? = some op → i ≠ k → ¬ op.Unfinished := by
      intro i op hi hne
      apply hquiet i op
      rw [Drain.setOperation, getElem?_set_ne hne.symm]
      exact hi
    have hsettled := Settled.notifyWaiters hgated (hcovered hlast)
    exact ⟨hsettled.woken, hsettled.served⟩
  | close cancelled =>
    cases hnext
    apply (h hquiet).append
    · split_ifs
      · nofun
      · nofun
    · split_ifs
      · exact fun h => h
      · exact fun h => h
  | shut k =>
    rw [Drain.step] at hnext
    split_ifs at hnext with hidx
    cases hnext
    have hset : (s.setClosing k .checking).Settled := (h hquiet).setClosing nofun fun h => h
    exact ⟨hset.woken, hset.served⟩
  | load k =>
    rw [Drain.step] at hnext
    split_ifs at hnext with hidx
    cases hnext
    rw [Drain.load, if_pos (hgated.active_eq_zero hquiet)]
    exact (h hquiet).setClosing nofun fun h => h
  | create k =>
    rw [Drain.step] at hnext
    split_ifs at hnext with hidx
    cases hnext
    exact (h hquiet).create hidx
  | poll k =>
    rw [Drain.step] at hnext
    split at hnext
    · rename_i broadcasts hidx
      cases hnext
      have hbefore : s.Quiet := by
        rw [Drain.poll] at hquiet
        split_ifs at hquiet
        · exact hquiet
        · exact hquiet
        · exact hquiet
      exact (h hbefore).poll hidx
    · cases hnext
  | resume k =>
    rw [Drain.step] at hnext
    split_ifs at hnext with hidx
    cases hnext
    exact (h hquiet).setClosing nofun fun h => h

theorem Run.gated {condition : Drain → DrainEvent → Prop} (h : machine.Run condition s) :
    s.Gated := by
  apply h.invariant
  · rintro s rfl
    exact Gated.opened
  · intro s s' event hgated _ hnext
    exact hgated.step hnext

/-- When every last broadcast finds no close it can miss but one the stored permit serves,
closing never misses its wake-up and returns only after the admitted operations. -/
theorem Run.drained (h : machine.Run Covered s) : s.Drained where
  woken := by
    have hsettled : s.Gated ∧ (s.Quiet → s.Settled) := by
      apply h.invariant
      · rintro s rfl
        refine ⟨Gated.opened, fun _ => ⟨?_, ?_⟩⟩
        · intro hmem
          cases hmem
        · intro i closing hclosing
          cases hclosing
      · intro s s' event ⟨hgated, hsettled⟩ hcovered hnext
        exact ⟨hgated.step hnext, settled_step hgated hsettled hcovered hnext⟩
    exact fun hquiet => (hsettled.2 hquiet).woken
  idle := by
    intro hret hrunning
    have hpos := (Run.gated h).active_pos hrunning
    rw [((Run.gated h).returned hret).2] at hpos
    exact absurd hpos (Nat.lt_irrefl 0)

/-- Two closes that both loaded the count before the last drop, and the one that got no
permit. -/
def missedWakeUp : List DrainEvent :=
  [.operate false, .admission 0, .close false, .close false, .shut 0, .shut 1, .load 0, .load 1,
    .decrement 0, .notifyOne 0 0, .notifyWaiters 0, .create 0, .poll 0, .resume 0, .load 0,
    .create 1, .poll 1]

/-- Nothing is left to notify the close that waits. -/
def stuck : Drain :=
  { closed := true, active := 0, permit := false, broadcasts := 1, operations := [.finished],
    closings := [.returned, .waiting] }

/-- In every run a close returns with the gate shut and no operation going on. -/
theorem returned_idle {condition : Drain → DrainEvent → Prop} (h : machine.Run condition s)
    (hret : .returned ∈ s.closings) :
    s.closed = true ∧ s.active = 0 ∧ .running ∉ s.operations := by
  obtain ⟨hclosed, hzero⟩ := (Run.gated h).returned hret
  refine ⟨hclosed, hzero, fun hrunning => ?_⟩
  have hpos := (Run.gated h).active_pos hrunning
  rw [hzero] at hpos
  exact absurd hpos (Nat.lt_irrefl 0)

/-- One close has returned although the other one waits for ever. -/
theorem returned_idle_stuck : stuck.closed = true ∧ stuck.active = 0 ∧
    .running ∉ stuck.operations := by
  obtain ⟨s, hrun, hstuck⟩ :=
    (Machine.Run.start rfl : machine.Run (fun _ _ => True) opened).execute (fun _ _ => true)
      missedWakeUp (· == stuck) (fun _ _ _ => trivial) (by decide)
  obtain rfl := eq_of_beq hstuck
  exact returned_idle hrun (by decide)

theorem close_misses_wakeUp : ¬ ∀ s : Drain, machine.Run (fun _ _ => True) s → s.Drained := by
  intro hall
  obtain ⟨s, hrun, hstuck⟩ :=
    (Machine.Run.start rfl : machine.Run (fun _ _ => True) opened).execute (fun _ _ => true)
      missedWakeUp (· == stuck) (fun _ _ _ => trivial) (by decide)
  obtain rfl := eq_of_beq hstuck
  refine (hall _ hrun).woken ?_ (by decide)
  intro i op hi
  obtain rfl : op = .finished := List.mem_singleton.mp (mem_of_getElem? hi)
  decide

/-- No close stands before the creation of its future at a broadcast. -/
def noneCreating (s : Drain) : DrainEvent → Bool
  | .notifyWaiters _ => .creating ∉ s.closings
  | _ => true

theorem covered_of_noneCreating (h : s.noneCreating event = true) : s.Covered event := by
  cases event with
  | notifyWaiters k =>
    intro _ i hi
    exact absurd (mem_of_getElem? hi) (of_decide_eq_true h)
  | _ => trivial

/-- Two closes that wait for a commit both return after it. -/
theorem drained_twoClosings : ∃ s : Drain, machine.Run Covered s ∧
    s.closings = [.returned, .returned] ∧ s.operations = [.finished] ∧ s.Drained := by
  obtain ⟨s, hrun, hs⟩ := (Machine.Run.start rfl : machine.Run Covered opened).execute noneCreating
      [.operate false, .admission 0, .close false, .close false, .shut 0, .shut 1, .load 0, .load 1,
        .create 0, .poll 0, .create 1, .poll 1, .decrement 0, .notifyOne 0 0, .notifyWaiters 0,
        .resume 0, .resume 1, .load 0, .load 1]
      (fun s => s.closings == [.returned, .returned] && s.operations == [.finished])
      (fun _ _ h => covered_of_noneCreating h) (by decide)
  rw [Bool.and_eq_true, beq_iff_eq, beq_iff_eq] at hs
  exact ⟨s, hrun, hs.1, hs.2, Run.drained hrun⟩

end Drain

end PiOxidized.Session.Jsonl
