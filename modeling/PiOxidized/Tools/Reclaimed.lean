/-
# Reclaiming the keys of file mutations

A key is taken out of the registry by the last reference to its gate.  A call takes its registration
back before it drops its reference, so two calls that leave together can each take the other for a
waiter, and the key stays.  As long as some registration of the key remains whenever one is taken
back beside other references, every key in the registry has a call that is to take it out.
-/

import PiOxidized.Tools.Exclusive

namespace PiOxidized.Tools.Queue

open Function Math

variable {K : Type} [DecidableEq K]

/-- No call takes its registration back while all other references to its gate are those of calls
that have taken theirs back. -/
def Attended (queue : Queue K) : QueueEvent K → Prop
  | .deregister i => ∀ key gate, queue.calls[i]? = some (.held .leaving key gate) →
      queue.strongCount gate = 1 ∨ ∃ (j : Nat) (stage : Stage), j ≠ i ∧
        queue.calls[j]? = some (.held stage key gate) ∧ stage ≠ .deregistered
  | _ => True

/-- Every key in the registry has a registration that is not taken back. -/
def Claimed (queue : Queue K) : Prop :=
  ∀ key gate, queue.registry key = some gate → ∃ (i : Nat) (stage : Stage),
    queue.calls[i]? = some (.held stage key gate) ∧ stage ≠ .deregistered

variable {queue queue' : Queue K} {event : QueueEvent K} {i : Nat} {key : K} {gate : Nat}
  {stage : Stage}

omit [DecidableEq K] in
/-- A call that goes on keeps its registration. -/
theorem Claimed.replace {old next : Call K} (h : queue.Claimed)
    (hcall : queue.calls[i]? = some old) (hcalls : queue'.calls = queue.calls.set i next)
    (hregistry : queue'.registry = queue.registry)
    (hkps : ∀ stage key gate, old = .held stage key gate → stage ≠ .deregistered →
      ∃ stage', next = .held stage' key gate ∧ stage' ≠ .deregistered) : queue'.Claimed := by
  intro key gate hmap
  rw [hregistry] at hmap
  rw [hcalls]
  obtain ⟨j, stage, hj, hstg⟩ := h key gate hmap
  by_cases heq : j = i
  · rw [heq, hcall] at hj
    obtain ⟨stage', rfl, hstg'⟩ := hkps stage key gate (Option.some.inj hj) hstg
    exact ⟨i, stage', getElem?_set_of_some hcall, hstg'⟩
  · exact ⟨j, stage, (List.getElem?_set_ne (Ne.symm heq)).trans hj, hstg⟩

theorem Claimed.register (h : queue.Claimed) (hcall : queue.calls[i]? = some (.keyed key)) :
    (queue.register i key).Claimed := by
  rw [Queue.register]
  cases queue.liveGate key with
  | some gate => exact h.replace hcall rfl rfl (by rintro _ _ _ ⟨⟩)
  | none =>
    intro k g hmap
    have hupdated : Function.update queue.registry key (some queue.nextGate) k = some g := hmap
    by_cases hk : k = key
    · rw [hk, update_self] at hupdated
      rw [hk, ← Option.some.inj hupdated]
      exact ⟨i, .registered, getElem?_set_of_some hcall, by rintro ⟨⟩⟩
    · rw [update_of_ne hk] at hupdated
      have hkept : (queue.setCall i (.held .registered key queue.nextGate)).Claimed :=
        h.replace hcall rfl rfl (by rintro _ _ _ ⟨⟩)
      exact hkept k g hupdated

/-- Taking a registration back takes the key out, unless another registration of it remains. -/
theorem Claimed.deregister (h : queue.Claimed) (howned : queue.Owned)
    (hcall : queue.calls[i]? = some (.held .leaving key gate))
    (hattd : queue.Attended (.deregister i)) :
    ((queue.deregister key gate).setCall i (.held .deregistered key gate)).Claimed := by
  have hmap := howned.mapped i .leaving key gate hcall nofun
  -- The registrations of the other keys are those of other calls.
  have hoth : ∀ k g, k ≠ key → queue.registry k = some g → ∃ (j : Nat) (stage : Stage),
      (queue.calls.set i (.held .deregistered key gate))[j]? = some (.held stage k g) ∧
        stage ≠ .deregistered := by
    intro k g hk hkey
    obtain ⟨j, stage, hj, hstg⟩ := h k g hkey
    have hji : j ≠ i := by
      rintro rfl
      rw [hcall] at hj
      cases hj
      exact hk rfl
    exact ⟨j, stage, (List.getElem?_set_ne (Ne.symm hji)).trans hj, hstg⟩
  rw [Queue.deregister]
  split_ifs with hlast
  · intro k g hkey
    have hupdated : Function.update queue.registry key none k = some g := hkey
    by_cases hk : k = key
    · rw [hk, update_self] at hupdated
      cases hupdated
    · rw [update_of_ne hk] at hupdated
      exact hoth k g hk hupdated
  · intro k g hkey
    by_cases hk : k = key
    · subst hk
      obtain rfl : gate = g := Option.some.inj (hmap.symm.trans hkey)
      rcases hattd k gate hcall with hone | ⟨j, stage, hji, hj, hstg⟩
      · exact absurd ⟨hmap, hone⟩ hlast
      · exact ⟨j, stage, (List.getElem?_set_ne (Ne.symm hji)).trans hj, hstg⟩
    · exact hoth k g hk hkey

theorem Claimed.step (h : queue.Claimed) (howned : queue.Owned) (hattd : queue.Attended event)
    (hstep : queue.step event = some queue') : queue'.Claimed := by
  rcases step_cases hstep with rfl | ⟨i, next, hcall, rfl, -⟩ | ⟨i, key, hcall, rfl⟩ |
    ⟨i, stage, key, gate, hcall, hadv, hevent⟩
  · intro key gate hmap
    obtain ⟨j, stage, hj, hstg⟩ := h key gate hmap
    exact ⟨j, stage, getElem?_append_of_some hj, hstg⟩
  · exact h.replace hcall rfl rfl nofun
  · exact h.register hcall
  · have hgoes (stage' : Stage) (hnext : stage' ≠ .deregistered) : ∀ (old : Stage) (k : K) g,
        Call.held stage key gate = .held old k g → old ≠ .deregistered →
          ∃ next, Call.held stage' key gate = .held next k g ∧ next ≠ .deregistered := by
      intro old k g heq _
      cases heq
      exact ⟨stage', rfl, hnext⟩
    cases hadv with
    | clone | acquire | abandon | resume | lose | finish | release | dropPermit =>
      exact h.replace hcall rfl rfl (hgoes _ nofun)
    | deregister =>
      rw [hevent rfl] at hattd
      exact h.deregister howned hcall hattd
    | dropGate =>
      refine h.replace hcall rfl rfl fun old k g heq hold => ?_
      cases heq
      exact absurd rfl hold

/-- In every run in which no registration is taken back beside references that only wait to be
dropped, the registry is empty once all calls have finished or been dropped. -/
theorem registry_empty_of_run (h : (machine K).Run Attended queue)
    (hdone : ∀ call ∈ queue.calls, call = .done) (key : K) : queue.registry key = none := by
  have hclaimed : queue.Owned ∧ queue.Claimed := by
    apply h.invariant
    · rintro _ rfl
      exact ⟨owned_empty, nofun⟩
    · intro s s' event hs hattended hstep
      exact ⟨hs.1.step hstep, hs.2.step hs.1 hattended hstep⟩
  cases hmapped : queue.registry key with
  | none => rfl
  | some gate =>
    obtain ⟨j, stage, hj, -⟩ := hclaimed.2 key gate hmapped
    cases hdone _ (List.mem_of_getElem? hj)

/-- Whether a call that takes its registration back has the only reference to its gate, or the next
call waits for it. -/
def leavesAttended (queue : Queue K) : QueueEvent K → Bool
  | .deregister i =>
    match queue.calls[i]? with
    | some (.held _ key gate) =>
      queue.strongCount gate = 1 ∨ queue.calls[i + 1]? = some (.held .waiting key gate)
    | _ => true
  | _ => true

/-- A call that waits for the gate of another one, and goes on when that has left. -/
theorem registry_empty_waited : ∃ queue : Queue Nat,
    queue.calls = [.done, .done] ∧ queue.registry 7 = none := by
  have hstart : (machine Nat).Run Attended empty := .start rfl
  obtain ⟨queue, hrun, hcalls⟩ := hstart.execute leavesAttended
    [.call, .call, .resolve 0 7, .register 0, .clone 0, .acquire 0, .resume 0, .resolve 1 7,
      .register 1, .clone 1, .finish 0, .release 0, .dropPermit 0, .deregister 0, .dropGate 0,
      .acquire 1, .resume 1, .finish 1, .release 1, .dropPermit 1, .deregister 1, .dropGate 1]
    (fun queue => queue.calls = [.done, .done])
    (by
      intro queue event hcheck
      cases event with
      | deregister i =>
        intro key gate hcall
        rw [leavesAttended, hcall] at hcheck
        exact (of_decide_eq_true hcheck).imp_right fun hwaits =>
          ⟨i + 1, .waiting, Nat.succ_ne_self i, hwaits, nofun⟩
      | _ => trivial)
    (by decide)
  have hdone : queue.calls = [.done, .done] := of_decide_eq_true hcalls
  exact ⟨queue, hdone, registry_empty_of_run hrun (by rw [hdone]; decide) 7⟩

/-- Two calls of one key that take their registrations back before either drops its reference. -/
theorem leaked_key : ¬ ∀ queue : Queue Nat, (machine Nat).Run (fun _ _ => True) queue →
    (∀ call ∈ queue.calls, call = .done) → ∀ key, queue.registry key = none := by
  intro hempty
  have hstart : (machine Nat).Run (fun _ _ => True) empty := .start rfl
  obtain ⟨queue, hrun, hleaked⟩ := hstart.execute (fun _ _ => true)
    [.call, .call, .resolve 0 7, .register 0, .clone 0, .acquire 0, .resume 0, .resolve 1 7,
      .register 1, .clone 1, .cancel 1, .finish 0, .release 0, .dropPermit 0, .deregister 0,
      .deregister 1, .dropGate 0, .dropGate 1]
    (fun queue => queue.calls = [.done, .done] ∧ queue.registry 7 = some 0) (fun _ _ _ => trivial)
    (by decide)
  obtain ⟨hcalls, hmapped⟩ := of_decide_eq_true hleaked
  have hdone := hempty queue hrun (by rw [hcalls]; decide) 7
  rw [hmapped] at hdone
  cases hdone

end PiOxidized.Tools.Queue
