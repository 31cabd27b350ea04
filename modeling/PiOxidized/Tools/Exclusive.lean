/-
# Mutual exclusion of file mutations

The references to a gate are those of the calls, and its permit is free or held by one call.  Every
registration that has not been taken back has the gate that the registry maps its key to: a key is
taken out only by the last registration of its gate, and the gate of a key is replaced only when
nobody has a reference to it.  Hence the calls that run their closures for one key hold the permit
of one gate, and there is at most one of them.
-/

import PiOxidized.Math.Slots
import PiOxidized.Tools.MutationQueue

namespace PiOxidized.Tools

open Function Math Option

/-- How many references to the gate a call has. -/
def Stage.references : Stage → Nat
  | .registered | .leaving | .deregistered => 1
  | .waiting | .granted | .running | .finished | .released => 2

/-- How many permits a call holds. -/
def Stage.permits : Stage → Nat
  | .granted | .running | .finished => 1
  | .registered | .waiting | .released | .leaving | .deregistered => 0

variable {K : Type} [DecidableEq K]

namespace Call

/-- The references of a call to a gate. -/
def references (gate : Nat) : Call K → Nat
  | .held stage _ g => if g = gate then stage.references else 0
  | _ => 0

/-- The permits of a gate that a call holds. -/
def permits (gate : Nat) : Call K → Nat
  | .held stage _ g => if g = gate then stage.permits else 0
  | _ => 0

omit [DecidableEq K] in
@[simp]
theorem references_keyed (key : K) (g : Nat) : references g (.keyed key) = 0 := rfl

omit [DecidableEq K] in
@[simp]
theorem permits_keyed (key : K) (g : Nat) : permits g (.keyed key) = 0 := rfl

omit [DecidableEq K] in
theorem references_held (stage : Stage) (key : K) (gate g : Nat) :
    references g (.held stage key gate) = if gate = g then stage.references else 0 := rfl

omit [DecidableEq K] in
theorem permits_held (stage : Stage) (key : K) (gate g : Nat) :
    permits g (.held stage key gate) = if gate = g then stage.permits else 0 := rfl

end Call

namespace Queue

/-- What a step makes of a call with a registration. -/
inductive Advance (queue : Queue K) (i : Nat) (key : K) (gate : Nat) : Stage → Queue K → Prop
  | clone : Advance queue i key gate .registered
      ((queue.addReference gate).setCall i (.held .waiting key gate))
  | acquire : 0 < queue.permits gate → Advance queue i key gate .waiting
      ((queue.takePermit gate).setCall i (.held .granted key gate))
  | abandon : Advance queue i key gate .waiting
      ((queue.dropReference gate).setCall i (.held .leaving key gate))
  | resume : Advance queue i key gate .granted (queue.setCall i (.held .running key gate))
  | lose : Advance queue i key gate .granted (queue.setCall i (.held .finished key gate))
  | finish : Advance queue i key gate .running (queue.setCall i (.held .finished key gate))
  | release : Advance queue i key gate .finished
      ((queue.addPermit gate).setCall i (.held .released key gate))
  | dropPermit : Advance queue i key gate .released
      ((queue.dropReference gate).setCall i (.held .leaving key gate))
  | deregister : Advance queue i key gate .leaving
      ((queue.deregister key gate).setCall i (.held .deregistered key gate))
  | dropGate : Advance queue i key gate .deregistered
      ((queue.dropReference gate).setCall i .done)

variable {queue queue' : Queue K} {event : QueueEvent K} {i j : Nat} {key : K} {gate : Nat}
  {stage : Stage}

omit [DecidableEq K] in
theorem atStage_eq_some {next : K → Nat → Queue K} (h : queue.atStage i stage next = some queue') :
    ∃ key gate, queue.calls[i]? = some (.held stage key gate) ∧ queue' = next key gate := by
  rw [atStage] at h
  split at h
  · rename_i current key gate hcall
    split_ifs at h with hstg
    rw [hstg] at hcall
    exact ⟨key, gate, hcall, (some.inj h).symm⟩
  · cases h

/-- What a step can do. -/
theorem step_cases (h : queue.step event = some queue') :
    queue' = { queue with calls := queue.calls ++ [.resolving] } ∨
      (∃ i next, queue.calls[i]? = some .resolving ∧ queue' = queue.setCall i next ∧
        (next = .done ∨ ∃ key, next = .keyed key ∧ event = .resolve i key)) ∨
      (∃ i key, queue.calls[i]? = some (.keyed key) ∧ queue' = queue.register i key) ∨
      ∃ i stage key gate, queue.calls[i]? = some (.held stage key gate) ∧
        queue.Advance i key gate stage queue' ∧ (stage = .leaving → event = .deregister i) := by
  cases event with
  | call => exact .inl (some.inj h).symm
  | resolve i key =>
    rw [step] at h
    split_ifs at h with hcall
    exact .inr (.inl ⟨i, _, hcall, (some.inj h).symm, .inr ⟨key, rfl, rfl⟩⟩)
  | fail i =>
    rw [step] at h
    split_ifs at h with hcall
    exact .inr (.inl ⟨i, _, hcall, (some.inj h).symm, .inl rfl⟩)
  | register i =>
    rw [step] at h
    split at h
    · rename_i key hcall
      exact .inr (.inr (.inl ⟨i, key, hcall, (some.inj h).symm⟩))
    · cases h
  | clone i =>
    obtain ⟨key, gate, hcall, rfl⟩ := atStage_eq_some h
    exact .inr (.inr (.inr ⟨i, _, key, gate, hcall, .clone, nofun⟩))
  | acquire i =>
    rw [step] at h
    split at h
    · rename_i key gate hcall
      split_ifs at h with hpermits
      rw [← some.inj h]
      exact .inr (.inr (.inr ⟨i, _, key, gate, hcall, .acquire hpermits, nofun⟩))
    · cases h
  | resume i =>
    obtain ⟨key, gate, hcall, rfl⟩ := atStage_eq_some h
    exact .inr (.inr (.inr ⟨i, _, key, gate, hcall, .resume, nofun⟩))
  | finish i =>
    obtain ⟨key, gate, hcall, rfl⟩ := atStage_eq_some h
    exact .inr (.inr (.inr ⟨i, _, key, gate, hcall, .finish, nofun⟩))
  | release i =>
    obtain ⟨key, gate, hcall, rfl⟩ := atStage_eq_some h
    exact .inr (.inr (.inr ⟨i, _, key, gate, hcall, .release, nofun⟩))
  | dropPermit i =>
    obtain ⟨key, gate, hcall, rfl⟩ := atStage_eq_some h
    exact .inr (.inr (.inr ⟨i, _, key, gate, hcall, .dropPermit, nofun⟩))
  | deregister i =>
    obtain ⟨key, gate, hcall, rfl⟩ := atStage_eq_some h
    exact .inr (.inr (.inr ⟨i, _, key, gate, hcall, .deregister, fun _ => rfl⟩))
  | dropGate i =>
    obtain ⟨key, gate, hcall, rfl⟩ := atStage_eq_some h
    exact .inr (.inr (.inr ⟨i, _, key, gate, hcall, .dropGate, nofun⟩))
  | cancel i =>
    rw [step] at h
    split at h
    · rename_i hcall
      exact .inr (.inl ⟨i, _, hcall, (some.inj h).symm, .inl rfl⟩)
    · rename_i key gate hcall
      rw [← some.inj h]
      exact .inr (.inr (.inr ⟨i, _, key, gate, hcall, .abandon, nofun⟩))
    · rename_i key gate hcall
      rw [← some.inj h]
      exact .inr (.inr (.inr ⟨i, _, key, gate, hcall, .lose, nofun⟩))
    · rename_i key gate hcall
      rw [← some.inj h]
      exact .inr (.inr (.inr ⟨i, _, key, gate, hcall, .finish, nofun⟩))
    · cases h

/-! ## Ownership -/

/-- The references and permits of a gate are those of the calls, and a registration that is not
taken back has the gate of its key. -/
structure Owned (queue : Queue K) : Prop where
  strong : ∀ gate, queue.strongCount gate = weigh (Call.references gate) queue.calls
  permits : ∀ gate < queue.nextGate, queue.permits gate + weigh (Call.permits gate) queue.calls = 1
  fresh : ∀ (i : Nat) (stage : Stage) (key : K) (gate : Nat),
    queue.calls[i]? = some (.held stage key gate) → gate < queue.nextGate
  mapped : ∀ (i : Nat) (stage : Stage) (key : K) (gate : Nat),
    queue.calls[i]? = some (.held stage key gate) → stage ≠ .deregistered →
      queue.registry key = some gate
  known : ∀ key gate, queue.registry key = some gate → gate < queue.nextGate

variable {stage' : Stage}

variable {gate' : Nat}

omit [DecidableEq K] in
theorem owned_empty : (empty : Queue K).Owned where
  strong _ := rfl
  permits _ h := absurd h (Nat.not_lt_zero _)
  fresh _ _ _ _ h := by cases h
  mapped _ _ _ _ h := by cases h
  known _ _ h := by cases h

omit [DecidableEq K] in
/-- A call that is replaced exchanges its references and permits. -/
theorem Owned.replace {old next : Call K} (h : queue.Owned) (hcall : queue.calls[i]? = some old)
    (hcalls : queue'.calls = queue.calls.set i next) (hgate : queue'.nextGate = queue.nextGate)
    (hregistry : queue'.registry = queue.registry)
    (hstrong : ∀ g, queue'.strongCount g + old.references g =
      queue.strongCount g + next.references g)
    (hpermits : ∀ g, queue'.permits g + next.permits g = queue.permits g + old.permits g)
    (hnext : ∀ stage key gate, next = .held stage key gate →
      gate < queue.nextGate ∧ (stage ≠ .deregistered → queue.registry key = some gate)) :
    queue'.Owned where
  strong := by
    intro gate
    have hexch := weigh_set (Call.references gate) hcall next
    have hpre := h.strong gate
    have haft := hstrong gate
    rw [hcalls]
    omega
  permits := by
    intro gate hlt
    have hexch := weigh_set (Call.permits gate) hcall next
    have hpre := h.permits gate (hgate ▸ hlt)
    have haft := hpermits gate
    rw [hcalls]
    omega
  fresh := by
    intro j stage key gate hj
    rw [hcalls] at hj
    rw [hgate]
    rcases getElem?_set_cases hj with ⟨-, heq⟩ | ⟨-, hj⟩
    · exact (hnext stage key gate heq.symm).1
    · exact h.fresh j stage key gate hj
  mapped := by
    intro j stage key gate hj hstg
    rw [hcalls] at hj
    rw [hregistry]
    rcases getElem?_set_cases hj with ⟨-, heq⟩ | ⟨-, hj⟩
    · exact (hnext stage key gate heq.symm).2 hstg
    · exact h.mapped j stage key gate hj hstg
  known := by
    rw [hgate, hregistry]
    exact h.known

/-- A count that changes for one gate only. -/
theorem update_exchange (f : Nat → Nat) (gate n a b : Nat) (h : n + a = f gate + b) (g : Nat) :
    update f gate n g + (if gate = g then a else 0) = f g + if gate = g then b else 0 := by
  by_cases hg : gate = g
  · rw [if_pos hg, if_pos hg, ← hg, update_self]
    exact h
  · rw [if_neg hg, if_neg hg, update_of_ne (Ne.symm hg)]

theorem references_pos (stage : Stage) : 0 < stage.references := by
  cases stage <;> decide

omit [DecidableEq K] in
/-- A gate that does not exist yet has no references and permits. -/
theorem Owned.weigh_nextGate (h : queue.Owned) :
    weigh (Call.references queue.nextGate) queue.calls = 0 ∧
      weigh (Call.permits queue.nextGate) queue.calls = 0 := by
  have hnone : ∀ call ∈ queue.calls, call.references queue.nextGate = 0 ∧
      call.permits queue.nextGate = 0 := by
    intro call hcall
    obtain ⟨i, hi⟩ := List.mem_iff_getElem?.mp hcall
    cases call with
    | held stage key gate =>
      have hlt := h.fresh i stage key gate hi
      exact ⟨if_neg (Nat.ne_of_lt hlt), if_neg (Nat.ne_of_lt hlt)⟩
    | resolving | keyed | done => exact ⟨rfl, rfl⟩
  constructor
  · by_contra hpos
    obtain ⟨call, hcall, hweight⟩ := weigh_pos_iff.mp (Nat.pos_of_ne_zero hpos)
    rw [(hnone call hcall).1] at hweight
    exact Nat.lt_irrefl 0 hweight
  · by_contra hpos
    obtain ⟨call, hcall, hweight⟩ := weigh_pos_iff.mp (Nat.pos_of_ne_zero hpos)
    rw [(hnone call hcall).2] at hweight
    exact Nat.lt_irrefl 0 hweight

omit [DecidableEq K] in
theorem Owned.strong_pos (h : queue.Owned) (hcall : queue.calls[i]? = some (.held stage key gate)) :
    stage.references ≤ queue.strongCount gate := by
  rw [h.strong]
  have hle := le_weigh_of_getElem? (Call.references gate) hcall
  rwa [Call.references, if_pos rfl] at hle

omit [DecidableEq K] in
/-- A gate that cannot be upgraded belongs to no call. -/
theorem Owned.not_mapped_of_liveGate (h : queue.Owned) (hnone : queue.liveGate key = none)
    (hcall : queue.calls[i]? = some (.held stage key gate)) : stage = .deregistered := by
  by_contra hstg
  have hmap := h.mapped i stage key gate hcall hstg
  have hstrong := h.strong_pos hcall
  have hpos := references_pos stage
  rw [liveGate, hmap, filter_some, ite_eq_right_iff] at hnone
  exact absurd (hnone (decide_eq_true (by omega))) (some_ne_none gate)

/-- The first registration of a key, or the first one after all references to its gate are gone. -/
theorem Owned.registerNew (h : queue.Owned) (hcall : queue.calls[i]? = some (.keyed key))
    (hnone : queue.liveGate key = none) :
    ((queue.newGate key).setCall i (.held .registered key queue.nextGate)).Owned where
  strong := by
    intro g
    have hexch := weigh_set (Call.references g) hcall (.held .registered key queue.nextGate)
    have hpre := h.strong g
    show update queue.strongCount queue.nextGate 1 g =
      weigh (Call.references g) (queue.calls.set i (.held .registered key queue.nextGate))
    by_cases hg : g = queue.nextGate
    · have hnew := h.weigh_nextGate.1
      rw [hg] at hexch ⊢
      rw [Call.references_keyed, Call.references_held, if_pos rfl] at hexch
      rw [update_self]
      have hone : Stage.registered.references = 1 := rfl
      omega
    · rw [Call.references_keyed, Call.references_held, if_neg (Ne.symm hg)] at hexch
      rw [update_of_ne hg]
      omega
  permits := by
    intro g hlt
    have hexch := weigh_set (Call.permits g) hcall (.held .registered key queue.nextGate)
    show update queue.permits queue.nextGate 1 g +
      weigh (Call.permits g) (queue.calls.set i (.held .registered key queue.nextGate)) = 1
    have hnone : Call.permits g (.held .registered key queue.nextGate : Call K) = 0 := ite_self 0
    rw [hnone] at hexch
    by_cases hg : g = queue.nextGate
    · have hnew := h.weigh_nextGate.2
      rw [hg] at hexch ⊢
      rw [update_self]
      rw [Call.permits_keyed] at hexch
      omega
    · have hold := h.permits g (Nat.lt_of_le_of_ne (Nat.le_of_lt_succ hlt) hg)
      rw [update_of_ne hg]
      rw [Call.permits_keyed] at hexch
      omega
  fresh := by
    intro j stage k g hj
    rcases getElem?_set_cases hj with ⟨-, heq⟩ | ⟨-, hj⟩
    · cases heq
      exact Nat.lt_succ_self _
    · exact Nat.lt_succ_of_lt (h.fresh j stage k g hj)
  mapped := by
    intro j stage k g hj hstg
    show update queue.registry key (some queue.nextGate) k = some g
    rcases getElem?_set_cases hj with ⟨-, heq⟩ | ⟨-, hj⟩
    · cases heq
      exact update_self ..
    · have hk : k ≠ key := by
        rintro rfl
        exact hstg (h.not_mapped_of_liveGate hnone hj)
      rw [update_of_ne hk]
      exact h.mapped j stage k g hj hstg
  known := by
    intro k g hk
    have hmap : update queue.registry key (some queue.nextGate) k = some g := hk
    by_cases heq : k = key
    · rw [heq, update_self] at hmap
      rw [← some.inj hmap]
      exact Nat.lt_succ_self _
    · rw [update_of_ne heq] at hmap
      exact Nat.lt_succ_of_lt (h.known k g hmap)

theorem Owned.register (h : queue.Owned) (hcall : queue.calls[i]? = some (.keyed key)) :
    (queue.register i key).Owned := by
  rw [Queue.register]
  cases hlive : queue.liveGate key with
  | none => exact h.registerNew hcall hlive
  | some gate =>
    have hmap : queue.registry key = some gate := (filter_eq_some_iff.mp hlive).1
    dsimp only
    refine h.replace hcall rfl rfl rfl ?_ ?_ ?_
    · intro g
      have hcnt := update_exchange queue.strongCount gate (queue.strongCount gate + 1) 0 1 rfl g
      rw [ite_self] at hcnt
      exact hcnt
    · intro g
      exact congrArg (queue.permits g + ·) (ite_self 0)
    · intro stage k g heq
      cases heq
      exact ⟨h.known key gate hmap, fun _ => hmap⟩

omit [DecidableEq K] in
/-- Two calls with the same key that have not taken their registrations back share a gate. -/
theorem Owned.same_gate (h : queue.Owned) (hi : queue.calls[i]? = some (.held stage key gate))
    (hstg : stage ≠ .deregistered) (hj : queue.calls[j]? = some (.held stage' key gate'))
    (hstg' : stage' ≠ .deregistered) :
    gate = gate' := by
  have hmap := h.mapped i stage key gate hi hstg
  rw [h.mapped j stage' key gate' hj hstg'] at hmap
  exact (some.inj hmap).symm

/-- A key can be taken out when nobody has a registration of it. -/
theorem Owned.forget (h : queue.Owned) (hnone : ∀ (i : Nat) (stage : Stage) (gate : Nat),
      queue.calls[i]? = some (.held stage key gate) → stage = .deregistered) :
    ({ queue with registry := update queue.registry key none } : Queue K).Owned where
  __ := h
  mapped := by
    intro i stage k gate hi hstg
    have hk : k ≠ key := by
      intro heq
      rw [heq] at hi
      exact hstg (hnone i stage gate hi)
    show update queue.registry key none k = some gate
    rw [update_of_ne hk]
    exact h.mapped i stage k gate hi hstg
  known := by
    intro k gate hk
    have hmap : update queue.registry key none k = some gate := hk
    by_cases heq : k = key
    · rw [heq, update_self] at hmap
      cases hmap
    · rw [update_of_ne heq] at hmap
      exact h.known k gate hmap

omit [DecidableEq K] in
/-- A call that has the only reference to its gate has the only registration of its key. -/
theorem Owned.eq_of_strongCount (h : queue.Owned)
    (hi : queue.calls[i]? = some (.held stage key gate)) (hstg : stage ≠ .deregistered)
    (hj : queue.calls[j]? = some (.held stage' key gate')) (hstg' : stage' ≠ .deregistered)
    (hcnt : queue.strongCount gate = 1) : j = i := by
  have hsame := h.same_gate hi hstg hj hstg'
  by_contra hij
  have hle := add_le_weigh (Call.references gate) (Ne.symm hij) hi hj
  rw [← h.strong, Call.references_held, Call.references_held, if_pos rfl, if_pos hsame.symm] at hle
  have hpos := references_pos stage
  have hpos' := references_pos stage'
  omega

/-- Taking a registration back keeps the ownership. -/
theorem Owned.deregister (h : queue.Owned)
    (hcall : queue.calls[i]? = some (.held .leaving key gate)) :
    ((queue.deregister key gate).setCall i (.held .deregistered key gate)).Owned := by
  have hkept : (queue.setCall i (.held .deregistered key gate)).Owned := by
    refine h.replace hcall rfl rfl rfl (fun _ => rfl) (fun _ => rfl) ?_
    intro stage k g heq
    cases heq
    exact ⟨h.fresh i .leaving key gate hcall, fun hstg => absurd rfl hstg⟩
  rw [Queue.deregister]
  split_ifs with hlast
  · apply hkept.forget
    intro j stage g hj
    rcases getElem?_set_cases hj with ⟨-, heq⟩ | ⟨hne, hj⟩
    · cases heq
      rfl
    · by_contra hstg
      exact hne (h.eq_of_strongCount hcall nofun hj hstg hlast.2)
  · exact hkept

/-- A step of a call with a registration keeps the ownership. -/
theorem Owned.advance (h : queue.Owned) (hcall : queue.calls[i]? = some (.held stage key gate))
    (hadv : queue.Advance i key gate stage queue') : queue'.Owned := by
  have hfrs := h.fresh i stage key gate hcall
  have hstrong := h.strong_pos hcall
  have hmap : ∀ next : Stage, stage ≠ .deregistered →
      ∀ stage' (key' : K) gate', Call.held next key gate = .held stage' key' gate' →
        gate' < queue.nextGate ∧ (stage' ≠ .deregistered → queue.registry key' = some gate') := by
    intro next hstg stage' key' gate' heq
    cases heq
    exact ⟨hfrs, fun _ => h.mapped i stage key gate hcall hstg⟩
  cases hadv with
  | clone =>
    refine h.replace hcall rfl rfl rfl ?_ (fun _ => rfl) (hmap _ nofun)
    exact update_exchange queue.strongCount gate _ 1 2 rfl
  | acquire hpermits =>
    refine h.replace hcall rfl rfl rfl (fun _ => rfl) ?_ (hmap _ nofun)
    exact update_exchange queue.permits gate _ 1 0 (Nat.sub_add_cancel hpermits)
  | abandon | dropPermit =>
    refine h.replace hcall rfl rfl rfl ?_ (fun _ => rfl) (hmap _ nofun)
    refine update_exchange queue.strongCount gate _ 2 1 ?_
    have htwo : 2 ≤ queue.strongCount gate := hstrong
    omega
  | resume | lose | finish =>
    exact h.replace hcall rfl rfl rfl (fun _ => rfl) (fun _ => rfl) (hmap _ nofun)
  | release =>
    refine h.replace hcall rfl rfl rfl (fun _ => rfl) ?_ (hmap _ nofun)
    exact update_exchange queue.permits gate _ 0 1 rfl
  | deregister => exact h.deregister hcall
  | dropGate =>
    refine h.replace hcall rfl rfl rfl ?_ (fun g => ?_) (fun _ _ _ heq => nomatch heq)
    · intro g
      have hcnt := update_exchange queue.strongCount gate (queue.strongCount gate - 1) 1 0
        (Nat.sub_add_cancel hstrong) g
      rw [ite_self] at hcnt
      exact hcnt
    · exact congrArg (queue.permits g + ·) (ite_self 0).symm

omit [DecidableEq K] in
theorem Owned.call (h : queue.Owned) :
    ({ queue with calls := queue.calls ++ [.resolving] } : Queue K).Owned where
  strong := by
    intro gate
    show queue.strongCount gate = weigh (Call.references gate) (queue.calls ++ [.resolving])
    rw [weigh_append_singleton]
    exact h.strong gate
  permits := by
    intro gate hlt
    show queue.permits gate + weigh (Call.permits gate) (queue.calls ++ [.resolving]) = 1
    rw [weigh_append_singleton]
    exact h.permits gate hlt
  fresh := by
    intro i stage key gate hi
    rcases getElem?_append_cases hi with hi | ⟨-, heq⟩
    · exact h.fresh i stage key gate hi
    · cases heq
  mapped := by
    intro i stage key gate hi hstg
    rcases getElem?_append_cases hi with hi | ⟨-, heq⟩
    · exact h.mapped i stage key gate hi hstg
    · cases heq
  known := h.known

/-- Every step keeps the ownership. -/
theorem Owned.step (h : queue.Owned) (hstep : queue.step event = some queue') : queue'.Owned := by
  rcases step_cases hstep with rfl | ⟨i, next, hcall, rfl, hnext⟩ | ⟨i, key, hcall, rfl⟩ |
    ⟨i, stage, key, gate, hcall, hadv, -⟩
  · exact h.call
  · rcases hnext with rfl | ⟨key, rfl, -⟩
    · exact h.replace hcall rfl rfl rfl (fun _ => rfl) (fun _ => rfl) nofun
    · exact h.replace hcall rfl rfl rfl (fun _ => rfl) (fun _ => rfl) nofun
  · exact h.register hcall
  · exact h.advance hcall hadv

theorem Owned.run {condition : Queue K → QueueEvent K → Prop}
    (h : (machine K).Run condition queue) : queue.Owned := by
  refine h.invariant ?_ fun _ _ _ hs _ hstep => hs.step hstep
  rintro _ rfl
  exact owned_empty

omit [DecidableEq K] in
/-- At most one call holds the permit of the gate of a key. -/
theorem Owned.eq_of_permits (h : queue.Owned) (hi : queue.calls[i]? = some (.held stage key gate))
    (hpermit : stage.permits = 1) (hj : queue.calls[j]? = some (.held stage' key gate'))
    (hpermit' : stage'.permits = 1) :
    i = j := by
  have hstg : stage ≠ .deregistered := by
    rintro rfl
    cases hpermit
  have hstg' : stage' ≠ .deregistered := by
    rintro rfl
    cases hpermit'
  have hsame := h.same_gate hi hstg hj hstg'
  by_contra hij
  have hle := add_le_weigh (Call.permits gate) hij hi hj
  have hone := h.permits gate (h.fresh i stage key gate hi)
  rw [Call.permits_held, Call.permits_held, if_pos rfl, if_pos hsame.symm] at hle
  omega

/-- Dropping the registration of a gate leaves the gate that has replaced it. -/
theorem step_deregister_of_replaced {other : Nat} (hstep : queue.step (.deregister i) = some queue')
    (hcall : queue.calls[i]? = some (.held stage key gate)) (hoth : other ≠ gate)
    (hreplaced : queue.registry key = some other) : queue'.registry = queue.registry := by
  obtain ⟨key', gate', hcall', rfl⟩ := atStage_eq_some hstep
  rw [hcall'] at hcall
  cases hcall
  have hstale : ¬(queue.registry key = some gate ∧ queue.strongCount gate = 1) := by
    intro hlast
    rw [hreplaced] at hlast
    exact hoth (some.inj hlast.1)
  rw [Queue.deregister, if_neg hstale]
  rfl

/-- In every run at most one closure runs for a key, the gate of a key is not taken out or replaced
while a registration with it remains, and a stale registration never takes out the gate that has
replaced its own. -/
theorem mutations_exclude (h : (machine K).Run (fun _ _ => True) queue) :
    (∀ (i j : Nat) (key : K) (gate gate' : Nat), queue.calls[i]? = some (.held .running key gate) →
      queue.calls[j]? = some (.held .running key gate') → i = j) ∧
    (∀ event queue', queue.step event = some queue' → ∀ key gate,
      queue.registry key = some gate → queue'.registry key ≠ some gate →
      ∀ (j : Nat) stage, queue'.calls[j]? = some (.held stage key gate) → stage = .deregistered) ∧
    (∀ (any any' : Queue K) (i : Nat) (stage : Stage) (key : K) (gate other : Nat),
      any.step (.deregister i) = some any' → any.calls[i]? = some (.held stage key gate) →
      other ≠ gate → any.registry key = some other → any'.registry = any.registry) := by
  have howned := Owned.run h
  refine ⟨?_, ?_, ?_⟩
  · intro i j key gate gate' hi hj
    exact howned.eq_of_permits hi rfl hj rfl
  · intro event queue' hstep key gate _ hremoved j stage hj
    by_contra hstage
    exact hremoved ((howned.step hstep).mapped j stage key gate hj hstage)
  · intro any any' i stage key gate other hstep hcall hother hreplaced
    exact step_deregister_of_replaced hstep hcall hother hreplaced

/-- Two calls of one key, the second of which waits for the closure of the first. -/
theorem mutations_exclude_waiting : ∃ queue : Queue Nat,
    queue.calls = [.held .running 7 0, .held .waiting 7 0] ∧
      ∀ i j gate gate' : Nat, queue.calls[i]? = some (.held .running 7 gate) →
        queue.calls[j]? = some (.held .running 7 gate') → i = j := by
  have hstart : (machine Nat).Run (fun _ _ => True) empty := .start rfl
  obtain ⟨queue, hrun, hcalls⟩ := hstart.execute (fun _ _ => true)
    [.call, .call, .resolve 0 7, .register 0, .clone 0, .acquire 0, .resolve 1 7, .register 1,
      .resume 0, .clone 1]
    (fun queue => queue.calls = [.held .running 7 0, .held .waiting 7 0]) (fun _ _ _ => trivial)
    (by decide)
  refine ⟨queue, of_decide_eq_true hcalls, fun i j gate gate' => ?_⟩
  exact (mutations_exclude hrun).1 i j 7 gate gate'

end Queue

end PiOxidized.Tools
