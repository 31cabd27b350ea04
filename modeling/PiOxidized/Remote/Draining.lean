/-
# Draining an attachment

Service calls of an attachment are counted while they run, and a release waits until the count
is zero.  A call that begins is counted first and then takes it back if the release came in
between.  Each access to the count, to the flag and to the notifier is one step; the notifier
wakes the futures made before it fires.

A call that takes its increment back wakes nobody.  A release that has counted it, or that
depends on a call that ended while it was counted, sleeps on with nothing left to wait for.
-/

import PiOxidized.Math.Slots
import PiOxidized.Math.Transition

namespace PiOxidized.Remote

open List Math

namespace OperationTracker

/-- How far a call has got with `begin` and `end`. -/
inductive CallPhase
  | entered
  /-- Found the flag clear; not counted yet. -/
  | cleared
  /-- Counted; the flag is still to be read again. -/
  | counted
  /-- Found the flag set; still to be taken off the count. -/
  | backing
  | refused
  | admitted
  /-- Took the count to zero; the notification is still to come. -/
  | notifying
  | ended
  deriving DecidableEq

/-- How far a caller of `finish` has got. -/
inductive FinishPhase
  | entered
  | looping
  /-- The future is made; the count is still to be read. -/
  | watching (since : Nat)
  | parked (since : Nat)
  | returned
  deriving DecidableEq

end OperationTracker

/-- The count of active calls, the flag, how often the notifier has fired, and who is at it. -/
structure OperationTracker where
  active : Int := 0
  releasing : Bool := false
  zero : Nat := 0
  calls : List OperationTracker.CallPhase := []
  finishes : List OperationTracker.FinishPhase := []
  deriving DecidableEq

namespace OperationTracker

inductive Event
  | call
  | finish
  /-- The next access of a call. -/
  | advance (call : Nat)
  /-- The next access of a caller of `finish`. -/
  | drain (finish : Nat)
  deriving DecidableEq

/-- Move a call on. -/
def putCall (s : OperationTracker) (index : Nat) (phase : CallPhase) : OperationTracker :=
  { s with calls := s.calls.set index phase }

def putFinish (s : OperationTracker) (index : Nat) (phase : FinishPhase) : OperationTracker :=
  { s with finishes := s.finishes.set index phase }

/-- The accesses of `begin`, and of `end` for a call that was admitted. -/
def callStep (s : OperationTracker) (index : Nat) : CallPhase → Option OperationTracker
  | .entered => some (s.putCall index (if s.releasing then .refused else .cleared))
  | .cleared => some { s.putCall index .counted with active := s.active + 1 }
  | .counted => some (s.putCall index (if s.releasing then .backing else .admitted))
  | .backing => some { s.putCall index .refused with active := s.active - 1 }
  | .admitted =>
    some { s.putCall index (if s.active = 1 then .notifying else .ended) with
      active := s.active - 1 }
  | .notifying => some { s.putCall index .ended with zero := s.zero + 1 }
  | .refused => none
  | .ended => none

/-- The accesses of `finish`. -/
def finishStep (s : OperationTracker) (index : Nat) : FinishPhase → Option OperationTracker
  | .entered => some { s.putFinish index .looping with releasing := true }
  | .looping => some (s.putFinish index (.watching s.zero))
  | .watching since => some (s.putFinish index (if s.active = 0 then .returned else .parked since))
  | .parked since => if since < s.zero then some (s.putFinish index .looping) else none
  | .returned => none

def step (s : OperationTracker) : Event → Option OperationTracker
  | .call => some { s with calls := s.calls ++ [.entered] }
  | .finish => some { s with finishes := s.finishes ++ [.entered] }
  | .advance index =>
    match s.calls[index]? with
    | none => none
    | some phase => s.callStep index phase
  | .drain index =>
    match s.finishes[index]? with
    | none => none
    | some phase => s.finishStep index phase

/-- A tracker of a new attachment. -/
def machine : Machine OperationTracker Event where
  start s := s = {}
  step := step

/-! ## What draining promises -/

/-- Whether a call was admitted and its end is still to come, or to be told. -/
def CallPhase.holds : CallPhase → Bool
  | .admitted | .notifying => true
  | _ => false

/-- Whether a call is counted without being admitted. -/
def CallPhase.tentative : CallPhase → Bool
  | .counted | .backing => true
  | _ => false

/-- A caller of `finish` that has not been woken. -/
def Asleep (s : OperationTracker) (phase : FinishPhase) : Prop := phase = .parked s.zero

structure Drains (s : OperationTracker) : Prop where
  nonneg : 0 ≤ s.active
  /-- Once a release has returned, nothing is active and every call that begins is refused. -/
  drained : .returned ∈ s.finishes → s.releasing = true ∧ .admitted ∉ s.calls
  /-- A release that sleeps has a call to wait for. -/
  awaited : ∀ phase ∈ s.finishes, s.Asleep phase → ∃ call ∈ s.calls, call.holds = true

/-- A release reads the count, and a call ends under a sleeping release, only while an admitted
call goes on or no call is counted that will be refused. -/
def Careful (s : OperationTracker) : Event → Prop
  | .drain index =>
    s.finishes[index]? = some (.watching s.zero) →
      (∃ call ∈ s.calls, call.tentative = true) → ∃ call ∈ s.calls, call.holds = true
  | .advance index =>
    s.calls[index]? = some .admitted → (∃ phase ∈ s.finishes, s.Asleep phase) →
      (∃ call ∈ s.calls, call.tentative = true) →
        ∃ other call, other ≠ index ∧ s.calls[other]? = some call ∧ call.holds = true
  | _ => True

/-! ## What every step keeps -/

variable {s s' : OperationTracker}

/-- What a call adds to the count. -/
def CallPhase.weight : CallPhase → Nat
  | .counted | .backing | .admitted => 1
  | .entered | .cleared | .refused | .notifying | .ended => 0

structure Sound (s : OperationTracker) : Prop where
  count : s.active = weigh CallPhase.weight s.calls
  flagged : ∀ phase ∈ s.finishes, phase ≠ .entered → s.releasing = true
  past : ∀ since, .watching since ∈ s.finishes ∨ .parked since ∈ s.finishes → since ≤ s.zero
  drained : .returned ∈ s.finishes → .admitted ∉ s.calls
  awaited : ∀ phase ∈ s.finishes, s.Asleep phase → ∃ call ∈ s.calls, call.holds = true

variable {i : Nat}

variable {old : CallPhase}

variable {new : CallPhase}

theorem Sound.drains (h : s.Sound) : s.Drains where
  nonneg := by
    rw [h.count]
    exact Int.natCast_nonneg _
  drained hmem := ⟨h.flagged _ hmem (by simp), h.drained hmem⟩
  awaited := h.awaited

/-- A call that holds still does, or another one holds, when a call moves on. -/
theorem exists_holds_put (hold : s.calls[k]? = some old)
    (hkept : old.holds = true → new.holds = true) (h : ∃ call ∈ s.calls, call.holds = true) :
    ∃ call ∈ (s.putCall k new).calls, call.holds = true := by
  obtain ⟨call, hmem, hcall⟩ := h
  obtain ⟨other, hoth⟩ := mem_iff_getElem?.mp hmem
  by_cases heq : other = k
  · rw [heq, hold] at hoth
    rw [← Option.some.inj hoth] at hcall
    exact ⟨new, mem_of_getElem? (getElem?_set_of_some hold), hkept hcall⟩
  · refine ⟨call, mem_of_getElem? (i := other) ?_, hcall⟩
    rw [putCall, getElem?_set_ne (Ne.symm heq)]
    exact hoth

/-- The count follows a call that moves on. -/
theorem Sound.count_put (h : s.Sound) (hold : s.calls[i]? = some old) (new : CallPhase) :
    (weigh CallPhase.weight (s.putCall i new).calls : Int) + old.weight =
      s.active + new.weight := by
  have hexch := weigh_set CallPhase.weight hold new
  rw [h.count, putCall]
  exact_mod_cast hexch

/-- A call that moves on without becoming active, and without leaving a release alone. -/
theorem Sound.put (h : s.Sound) {active : Int} (hold : s.calls[k]? = some old)
    (hact : active + old.weight = s.active + new.weight)
    (hadm : new = .admitted → s.releasing = false)
    (hkept : old.holds = true → new.holds = false → (∃ phase ∈ s.finishes, s.Asleep phase) →
      ∃ other call, other ≠ k ∧ s.calls[other]? = some call ∧ call.holds = true) :
    { s.putCall k new with active := active }.Sound := by
  have hcnt := h.count_put hold new
  refine { h with count := ?_, drained := ?_, awaited := ?_ }
  · show active = (weigh CallPhase.weight (s.putCall k new).calls : Int)
    omega
  · intro hret hmem
    cases mem_or_eq_of_mem_set hmem with
    | inl hmem => exact h.drained hret hmem
    | inr heq =>
      have hset := h.flagged _ hret (by simp)
      rw [hadm heq.symm] at hset
      cases hset
  · intro phase hph hslp
    have hold' := h.awaited phase hph hslp
    by_cases hheld : old.holds = true → new.holds = true
    · exact exists_holds_put hold hheld hold'
    · rw [Classical.not_imp, Bool.not_eq_true] at hheld
      obtain ⟨other, call, hne, hoth, hcall⟩ := hkept hheld.1 hheld.2 ⟨phase, hph, hslp⟩
      refine ⟨call, mem_of_getElem? (i := other) ?_, hcall⟩
      rw [putCall, getElem?_set_ne (Ne.symm hne)]
      exact hoth

attribute [local simp] CallPhase.holds CallPhase.weight

theorem Sound.callStep (h : s.Sound) {phase : CallPhase} (hph : s.calls[i]? = some phase)
    (hcare : s.Careful (.advance i)) (hstep : s.callStep i phase = some s') :
    s'.Sound := by
  cases phase with
  | entered =>
    cases hstep
    refine h.put hph ?_ ?_ (by simp)
    · split_ifs <;> rfl
    · split_ifs <;> simp
  | cleared | backing =>
    cases hstep
    exact h.put hph (by simp) (by simp) (by simp)
  | counted =>
    cases hstep
    refine h.put hph ?_ ?_ (by simp)
    · split_ifs <;> rfl
    · split_ifs with hset
      · simp
      · simpa using hset
  | admitted =>
    cases hstep
    refine h.put hph ?_ ?_ ?_
    · split_ifs <;> simp
    · split_ifs <;> simp
    · intro _ hnotified hslp
      by_cases htent : ∃ call ∈ s.calls, call.tentative = true
      · exact hcare hph hslp htent
      · have hone : s.active ≠ 1 := by
          intro hone
          simp [hone] at hnotified
        -- Without increments to be taken back the rest of the count is admitted calls.
        have hcnt := h.count_put hph .ended
        have hrest : 0 < weigh CallPhase.weight (s.calls.set i .ended) := by
          have hact : 0 < s.active := by
            have hle := le_weigh_of_getElem? CallPhase.weight hph
            have hweight := h.count
            simp only [CallPhase.weight] at hle
            omega
          simp only [CallPhase.weight, putCall] at hcnt
          omega
        obtain ⟨call, hmem, hcall⟩ := weigh_pos_iff.mp hrest
        obtain ⟨other, hoth⟩ := mem_iff_getElem?.mp hmem
        rcases getElem?_set_cases hoth with ⟨-, rfl⟩ | ⟨hne, hoth⟩
        · simp at hcall
        · refine ⟨other, call, hne, hoth, ?_⟩
          have hplain : ¬ call.tentative = true := fun hcall' =>
            htent ⟨call, mem_of_getElem? hoth, hcall'⟩
          cases call <;> simp_all [CallPhase.tentative]
  | notifying =>
    cases hstep
    have hput : (s.calls.set i .ended).map CallPhase.weight = s.calls.map CallPhase.weight :=
      map_set_of_eq CallPhase.weight hph rfl
    refine { h with count := ?_, past := ?_, drained := ?_, awaited := ?_ }
    · exact h.count.trans (congrArg (fun weights : List Nat => (weights.sum : Int)) hput.symm)
    · intro since hmem
      exact Nat.le_succ_of_le (h.past since hmem)
    · intro hret hmem
      cases mem_or_eq_of_mem_set hmem with
      | inl hmem => exact h.drained hret hmem
      | inr heq => cases heq
    · intro other hmem hslp
      -- Whoever slept has been woken.
      rw [Asleep] at hslp
      rw [hslp] at hmem
      exact absurd (h.past _ (.inr hmem)) (Nat.not_succ_le_self _)
  | refused | ended => cases hstep

/-- A caller of `finish` that moves on, past the flag. -/
theorem Sound.putFinish (h : s.Sound) {new : FinishPhase} {releasing : Bool}
    (hset : releasing = true)
    (hpast : ∀ since, new = .watching since ∨ new = .parked since → since ≤ s.zero)
    (hret : new = .returned → .admitted ∉ s.calls)
    (hslp : s.Asleep new → ∃ call ∈ s.calls, call.holds = true) :
    { s.putFinish i new with releasing := releasing }.Sound := by
  have hcases : ∀ phase ∈ (s.putFinish i new).finishes, phase ∈ s.finishes ∨ phase = new :=
    fun phase hmem => mem_or_eq_of_mem_set hmem
  refine { h with flagged := fun _ _ _ => hset, past := ?_, drained := ?_, awaited := ?_ }
  · rintro since (hmem | hmem)
    · cases hcases _ hmem with
      | inl hmem => exact h.past since (.inl hmem)
      | inr heq => exact hpast since (.inl heq.symm)
    · cases hcases _ hmem with
      | inl hmem => exact h.past since (.inr hmem)
      | inr heq => exact hpast since (.inr heq.symm)
  · intro hmem
    cases hcases _ hmem with
    | inl hmem => exact h.drained hmem
    | inr heq => exact hret heq.symm
  · intro phase hmem hph
    cases hcases _ hmem with
    | inl hmem => exact h.awaited phase hmem hph
    | inr heq =>
      rw [heq] at hph
      exact hslp hph

attribute [local simp] Asleep

theorem Sound.finishStep (h : s.Sound) {phase : FinishPhase}
    (hph : s.finishes[i]? = some phase) (hcare : s.Careful (.drain i))
    (hstep : s.finishStep i phase = some s') : s'.Sound := by
  have hset := h.flagged phase (mem_of_getElem? hph)
  cases phase with
  | entered =>
    cases hstep
    exact h.putFinish rfl (by simp) (by simp) (by simp)
  | looping =>
    cases hstep
    exact h.putFinish (hset (by simp)) (by simp) (by simp) (by simp)
  | watching since =>
    cases hstep
    have hsince := h.past since (.inl (mem_of_getElem? hph))
    refine h.putFinish (hset (by simp)) ?_ ?_ ?_
    · split_ifs <;> simp [hsince]
    · split_ifs with hzero
      · intro _ hmem
        have hle := le_weigh CallPhase.weight hmem
        have hcount := h.count
        simp only [CallPhase.weight] at hle
        omega
      · simp
    · split_ifs with hzero
      · simp
      · intro hslp
        obtain rfl : since = s.zero := FinishPhase.parked.inj hslp
        -- Something is counted: an admitted call, or one goes on besides.
        have hcnt : 0 < weigh CallPhase.weight s.calls := by
          have hcount := h.count
          omega
        obtain ⟨call, hmem, hcall⟩ := weigh_pos_iff.mp hcnt
        by_cases htent : call.tentative = true
        · exact hcare hph ⟨call, hmem, htent⟩
        · refine ⟨call, hmem, ?_⟩
          cases call <;> simp_all [CallPhase.tentative]
  | parked since =>
    rw [OperationTracker.finishStep] at hstep
    split_ifs at hstep
    cases hstep
    exact h.putFinish (hset (by simp)) (by simp) (by simp) (by simp)
  | returned => cases hstep

theorem Sound.step (h : s.Sound) {event : Event} (hcare : s.Careful event)
    (hstep : s.step event = some s') : s'.Sound := by
  cases event with
  | call =>
    cases hstep
    refine { h with count := ?_, drained := ?_, awaited := ?_ }
    · rw [weigh_append_singleton]
      exact h.count
    · intro hmem
      simpa using h.drained hmem
    · intro phase hmem hslp
      obtain ⟨call, hcall, hholds⟩ := h.awaited phase hmem hslp
      exact ⟨call, mem_append_left _ hcall, hholds⟩
  | finish =>
    cases hstep
    refine { h with flagged := ?_, past := ?_, drained := ?_, awaited := ?_ }
    · intro phase hmem hne
      cases mem_append.mp hmem with
      | inl hmem => exact h.flagged phase hmem hne
      | inr hmem => exact absurd (mem_singleton.mp hmem) hne
    · intro since hmem
      exact h.past since (by simpa using hmem)
    · intro hmem
      exact h.drained (by simpa using hmem)
    · intro phase hmem hslp
      cases mem_append.mp hmem with
      | inl hmem => exact h.awaited phase hmem hslp
      | inr hmem =>
        rw [mem_singleton.mp hmem, Asleep] at hslp
        cases hslp
  | advance i =>
    rw [OperationTracker.step] at hstep
    cases hph : s.calls[i]? with
    | none => simp [hph] at hstep
    | some phase =>
      rw [hph] at hstep
      exact h.callStep hph hcare hstep
  | drain i =>
    rw [OperationTracker.step] at hstep
    cases hph : s.finishes[i]? with
    | none => simp [hph] at hstep
    | some phase =>
      rw [hph] at hstep
      exact h.finishStep hph hcare hstep

/-- Draining keeps its promises along every run that meets the condition. -/
theorem drains_of_run (h : machine.Run Careful s) : s.Drains := by
  refine Sound.drains (h.invariant ?_ ?_)
  · rintro s rfl
    constructor <;> simp [weigh]
  · exact fun _ _ _ hsound hcare hstep => hsound.step hcare hstep

/-- Enough for the condition: no increment is tentative once there is a release. -/
def plain (s : OperationTracker) : Event → Bool
  | .drain _ | .advance _ => s.calls.all fun call => !call.tentative || s.finishes.isEmpty
  | .call | .finish => true

theorem careful_of_plain {event : Event} (h : s.plain event = true) : s.Careful event := by
  have hnone : (s.calls.all fun call => !call.tentative || s.finishes.isEmpty) = true →
      (∃ call ∈ s.calls, call.tentative = true) → s.finishes = [] := by
    rintro hall ⟨call, hmem, htent⟩
    have hcall := List.all_eq_true.mp hall call hmem
    rwa [htent, Bool.not_true, Bool.false_or, List.isEmpty_iff] at hcall
  cases event with
  | call | finish => trivial
  | drain i =>
    intro hph htent
    rw [hnone h htent] at hph
    cases hph
  | advance i =>
    rintro - ⟨phase, hph, -⟩ htent
    rw [hnone h htent] at hph
    cases hph

/-- A release that waits for one call and returns when it ends. -/
theorem drains_one_call : ∃ s, machine.Run Careful s ∧ s.Drains ∧ .returned ∈ s.finishes := by
  have hstart : machine.Run Careful {} := .start rfl
  obtain ⟨s, hrun, hs⟩ := hstart.execute plain
    [.call, .advance 0, .advance 0, .advance 0, .finish, .drain 0, .drain 0, .drain 0, .advance 0,
      .advance 0, .drain 0, .drain 0, .drain 0]
    (fun s => s.finishes.contains .returned) (fun _ _ => careful_of_plain) (by decide)
  exact ⟨s, hrun, drains_of_run hrun, List.contains_iff_mem.mp hs⟩

/-- A call that begins is counted when the release reads the count, and takes its increment back
without a word: the release sleeps, and no call is left. -/
theorem refused_call_strands_release : ∃ s, machine.Run (fun _ _ => True) s ∧ ¬ s.Drains := by
  have hstart : machine.Run (fun _ _ => True) {} := .start rfl
  obtain ⟨s, hrun, hs⟩ := hstart.execute (fun _ _ => true)
    [.call, .advance 0, .finish, .drain 0, .advance 0, .drain 0, .drain 0, .advance 0, .advance 0]
    (fun s => s.calls.all (fun call => !call.holds) && s.finishes.contains (.parked s.zero))
    (fun _ _ _ => trivial) (by decide)
  refine ⟨s, hrun, ?_⟩
  intro hdrains
  rw [Bool.and_eq_true, List.all_eq_true] at hs
  obtain ⟨call, hmem, hholds⟩ := hdrains.awaited _ (List.contains_iff_mem.mp hs.2) rfl
  have hnot := hs.1 call hmem
  rw [hholds] at hnot
  cases hnot

end OperationTracker

end PiOxidized.Remote
