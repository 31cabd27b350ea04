/-
# Handing over and delivering

What is handed over to a subscriber for one member is received, is to be delivered at
once by a call that is still running, was taken by the delivering thread, or is in the
buffer.  Read in this order it is the order of delivery as long as an update that is to
be delivered at once is the only undelivered one of its member.
-/

import PiOxidized.Service.Provider.Subscription

namespace PiOxidized.Service.Provider

open List Math
open Service.Delta
open Service.Replicated

/-! ## Batches of a member -/

@[simp] theorem batches_append (i : Nat) (first second : List StateUpdate) :
    batches i (first ++ second) = batches i first ++ batches i second :=
  filterMap_append

theorem batches_self (i : Nat) (seq : JsInteger) (ops : List DeltaOp) :
    batches i [⟨i, seq, ops⟩] = [(seq, ops)] := by
  simp [batches]

theorem batches_other {i other : Nat} (h : other ≠ i) (seq : JsInteger)
    (ops : List DeltaOp) : batches i [⟨other, seq, ops⟩] = [] := by
  simp [batches, h]

/-! ## What is handed over -/

/-- The updates a list of calls is still to deliver at once. -/
theorem updates_enter (call : Call) (calls : List Call) (index : Nat) :
    ((enter call calls).flatMap fun call => call.deliveries.flatMap (Delivery.updates index)) =
      call.deliveries.flatMap (Delivery.updates index) ++
        calls.flatMap fun call => call.deliveries.flatMap (Delivery.updates index) := by
  rw [enter]
  split_ifs with hnil
  · rw [isEmpty_iff.mp hnil]
    rfl
  · rfl

/-- Taking a delivery out leaves the updates of the others, in order. -/
theorem updates_nextDelivery {thread : Nat} {calls rest : List Call} {delivery : Delivery}
    (h : nextDelivery thread calls = some (delivery, rest)) (index : Nat) :
    ∃ before after, (calls.flatMap fun call =>
        call.deliveries.flatMap (Delivery.updates index)) =
          before ++ delivery.updates index ++ after ∧
      (rest.flatMap fun call => call.deliveries.flatMap (Delivery.updates index)) =
        before ++ after := by
  induction calls generalizing rest with
  | nil => cases h
  | cons call calls ih =>
    rw [nextDelivery] at h
    split_ifs at h with hthread
    · split at h
      · cases h
      · rename_i head tail hhead
        cases h
        refine ⟨[], tail.flatMap (Delivery.updates index) ++ calls.flatMap fun call =>
          call.deliveries.flatMap (Delivery.updates index), ?_, updates_enter _ _ _⟩
        rw [flatMap_cons, hhead, flatMap_cons, nil_append, append_assoc]
    · obtain ⟨⟨head, others⟩, hnext, heq⟩ := Option.map_eq_some_iff.mp h
      cases heq
      obtain ⟨before, after, hcalls, hrest⟩ := ih hnext
      refine ⟨call.deliveries.flatMap (Delivery.updates index) ++ before, after, ?_, ?_⟩
      · rw [flatMap_cons, hcalls, append_assoc, append_assoc, append_assoc]
      · rw [flatMap_cons, hrest, append_assoc]

namespace Subscriber

variable {sub : Subscriber} {thread : Nat}

theorem emit_closed (h : sub.closed = true) (thread index : Nat) (update : StateUpdate) :
    sub.emit thread index update = (sub, none) := by
  rw [emit, if_pos h]

theorem emit_immediate (h : sub.immediate thread = true) (index : Nat) (update : StateUpdate) :
    sub.emit thread index update = (sub, some (.immediate index update)) := by
  simp only [immediate, Bool.and_eq_true, Bool.not_eq_true', beq_iff_eq] at h
  obtain ⟨⟨hopen, hactive⟩, hdraining⟩ := h
  simp [emit, hopen, hactive, hdraining]

/-- An update that is not delivered at once goes to the end of the buffer. -/
theorem emit_buffered (hopen : sub.closed = false) (h : sub.immediate thread = false)
    (index : Nat) (update : StateUpdate) : ∃ draining delivery,
    sub.emit thread index update =
        ({ sub with draining := draining, buffer := sub.buffer ++ [update] }, delivery) ∧
      ∀ other, delivery.toList.flatMap (Delivery.updates other) = [] := by
  simp only [immediate, hopen, Bool.not_false, Bool.true_and] at h
  rw [emit, hopen]
  cases hactive : sub.active with
  | false => exact ⟨sub.draining, none, rfl, fun _ => rfl⟩
  | true =>
    rw [hactive, Bool.true_and] at h
    cases hdraining : sub.draining with
    | none => exact ⟨some thread, some (.claim index), rfl, fun _ => rfl⟩
    | some owner =>
      refine ⟨some owner, none, ?_, fun _ => rfl⟩
      have hother : owner ≠ thread := by
        rintro rfl
        rw [hdraining, BEq.refl] at h
        cases h
      simp [hother]

theorem emit_frame (sub : Subscriber) (thread index : Nat) (update : StateUpdate) :
    (sub.emit thread index update).1.closed = sub.closed ∧
      (sub.emit thread index update).1.snapshot = sub.snapshot := by
  cases hopen : sub.closed with
  | true =>
    rw [emit_closed hopen]
    exact ⟨hopen, rfl⟩
  | false =>
    cases hnow : sub.immediate thread with
    | true =>
      rw [emit_immediate hnow]
      exact ⟨hopen, rfl⟩
    | false =>
      obtain ⟨draining, delivery, heq, -⟩ := emit_buffered hopen hnow index update
      rw [heq]
      exact ⟨hopen, rfl⟩

/-- What an emission is to deliver at once to one subscriber. -/
theorem updates_emit (sub : Subscriber) (thread index other : Nat) (update : StateUpdate) :
    (sub.emit thread index update).2.toList.flatMap (Delivery.updates other) =
      if sub.immediate thread = true ∧ index = other then [update] else [] := by
  cases hnow : sub.immediate thread with
  | true =>
    rw [emit_immediate hnow]
    simp [Delivery.updates]
  | false =>
    cases hopen : sub.closed with
    | true =>
      rw [emit_closed hopen]
      simp
    | false =>
      obtain ⟨draining, delivery, heq, hnone⟩ := emit_buffered hopen hnow index update
      rw [heq, hnone]
      simp

/-- Everything handed over to a subscriber for a member in the order in which it is delivered,
with the updates that are still to be delivered at once. -/
def handed (sub : Subscriber) (immediates : List StateUpdate) (i : Nat) : List Batch :=
  batches i sub.received ++ batches i immediates ++ sub.outstanding i

variable {immediates : List StateUpdate} {i : Nat}

/-- An update that meets no undelivered one of its member when it is delivered at once moves to the
end of what was handed over for its member, and of no other. -/
theorem handed_emit (place : Nat) (p : PendingPublication) (hopen : sub.closed = false)
    (hnone : batches i immediates = [])
    (himmediate : sub.immediate thread = true → sub.outstanding i = [])
    (halone : ∀ other, batches other immediates = [] ∨
      (∃ batch, batches other immediates = [batch]) ∧ sub.outstanding other = []) :
    (∀ other, (sub.emit thread place ⟨i, p.sequence, p.ops⟩).1.handed
        ((if sub.immediate thread = true then [⟨i, p.sequence, p.ops⟩] else []) ++ immediates)
          other = sub.handed immediates other ++ if i = other then [p.batch] else []) ∧
      ∀ other, batches other
          ((if sub.immediate thread = true then [⟨i, p.sequence, p.ops⟩] else []) ++ immediates) =
            [] ∨ (∃ batch, batches other
          ((if sub.immediate thread = true then [⟨i, p.sequence, p.ops⟩] else []) ++ immediates) =
            [batch]) ∧
        (sub.emit thread place ⟨i, p.sequence, p.ops⟩).1.outstanding other = [] := by
  cases hnow : sub.immediate thread with
  | true =>
    rw [emit_immediate hnow, if_pos rfl]
    refine ⟨fun other => ?_, fun other => ?_⟩
    · rw [handed, handed, batches_append]
      split_ifs with hoth
      · subst hoth
        rw [hnone, himmediate hnow, batches_self]
        simp only [append_nil]
        rfl
      · rw [batches_other hoth, nil_append, append_nil]
    · rw [batches_append]
      by_cases hoth : i = other
      · subst hoth
        rw [batches_self, hnone]
        exact .inr ⟨⟨_, rfl⟩, himmediate hnow⟩
      · rw [batches_other hoth]
        exact halone other
  | false =>
    obtain ⟨draining, delivery, heq, -⟩ :=
      emit_buffered hopen hnow place ⟨i, p.sequence, p.ops⟩
    rw [heq, if_neg Bool.false_ne_true, nil_append]
    have hgrown : ∀ other, ({ sub with
          draining := draining
          buffer := sub.buffer ++ [⟨i, p.sequence, p.ops⟩] } : Subscriber).outstanding other =
        sub.outstanding other ++ if i = other then [p.batch] else [] := by
      intro other
      simp only [outstanding]
      rw [← append_assoc, batches_append]
      split_ifs with hoth
      · rw [hoth, batches_self]
        rfl
      · rw [batches_other hoth]
    refine ⟨fun other => ?_, fun other => ?_⟩
    · simp only [handed, hgrown, append_assoc]
    · by_cases hoth : i = other
      · subst hoth
        exact .inl hnone
      · rw [hgrown, if_neg hoth, append_nil]
        exact halone other

theorem drain_frame (sub : Subscriber) :
    sub.drain.1.snapshot = sub.snapshot ∧ sub.drain.1.closed = sub.closed := by
  unfold drain
  split
  · exact ⟨rfl, rfl⟩
  · split_ifs
    · exact ⟨rfl, rfl⟩
    · exact ⟨rfl, rfl⟩

/-- The delivering thread keeps the order of the updates of a member, none of which waits to be
delivered at once. -/
theorem handed_drain (halone : batches i immediates = [] ∨ sub.outstanding i = []) :
    sub.drain.1.handed immediates i = sub.handed immediates i ∧
      (sub.outstanding i = [] → sub.drain.1.outstanding i = []) := by
  unfold drain
  split
  · rename_i update rest hentries
    have hsplit : sub.outstanding i = batches i [update] ++ batches i (rest ++ sub.buffer) := by
      rw [outstanding, hentries, ← batches_append]
      rfl
    simp only [handed, outstanding, batches_append] at hsplit ⊢
    rw [hsplit]
    refine ⟨?_, fun hnil => (append_eq_nil_iff.mp hnil).2⟩
    by_cases hmember : update.member = i
    · -- The entry is undelivered, so nothing of its member is to be delivered at once.
      rcases halone with hnone | hnil
      · simp only [hnone, append_nil, append_assoc]
      · rw [outstanding, hentries, cons_append, batches, filterMap_cons, if_pos hmember] at hnil
        cases hnil
    · rw [show batches i [update] = [] from batches_other hmember _ _]
      simp only [append_nil, nil_append]
  · rename_i hentries
    split_ifs
    · exact ⟨rfl, id⟩
    · simp only [handed, outstanding, hentries, nil_append, append_nil, true_and]
      exact id

theorem close_cases (sub : Subscriber) :
    sub.close.snapshot = sub.snapshot ∧ sub.close.closed = true ∧
      ∀ (immediates : List StateUpdate) (i : Nat),
        (∃ dropped, sub.handed immediates i = sub.close.handed immediates i ++ dropped) ∧
          (sub.outstanding i = [] → sub.close.outstanding i = []) := by
  unfold close
  split_ifs with hshut
  · exact ⟨rfl, hshut, fun immediates i => ⟨⟨[], (append_nil _).symm⟩, id⟩⟩
  · refine ⟨rfl, rfl, fun immediates i => ⟨⟨batches i sub.buffer, ?_⟩, fun hnil => ?_⟩⟩
    · simp only [handed, outstanding, append_nil, batches_append, append_assoc]
    · rw [outstanding, batches_append] at hnil
      simp only [outstanding, append_nil]
      exact (append_eq_nil_iff.mp hnil).1

end Subscriber

/-- An emission delivers at once to each subscriber that its thread is delivering to. -/
theorem updates_handed (subs : List Subscriber) (thread offset : Nat) (update : StateUpdate)
    (index : Nat) :
    ((subs.mapIdx fun place sub => sub.emit thread (place + offset) update).filterMap
      Prod.snd).flatMap (Delivery.updates (index + offset)) =
        if (subs[index]?.any (·.immediate thread)) = true then [update] else [] := by
  have hbehind : ∀ (subs : List Subscriber) (offset target : Nat), target < offset →
      ((subs.mapIdx fun place sub => sub.emit thread (place + offset) update).filterMap
        Prod.snd).flatMap (Delivery.updates target) = [] := by
    intro subs
    induction subs with
    | nil => exact fun _ _ _ => rfl
    | cons sub subs ih =>
      intro offset target hlt
      have hshift : (fun place sub => Subscriber.emit sub thread (place + 1 + offset) update) =
          fun place sub => sub.emit thread (place + (offset + 1)) update := by
        funext place sub
        rw [Nat.add_assoc, Nat.add_comm 1]
      rw [filterMap_eq_flatMap_toList, mapIdx_cons, flatMap_cons, flatMap_append, hshift,
        ← filterMap_eq_flatMap_toList, ih (offset + 1) target (Nat.lt_succ_of_lt hlt),
        Subscriber.updates_emit, if_neg (by omega)]
      rfl
  induction subs generalizing offset index with
  | nil => rfl
  | cons sub subs ih =>
    have hshift : (fun place sub => Subscriber.emit sub thread (place + 1 + offset) update) =
        fun place sub => sub.emit thread (place + (offset + 1)) update := by
      funext place sub
      rw [Nat.add_assoc, Nat.add_comm 1]
    rw [filterMap_eq_flatMap_toList, mapIdx_cons, flatMap_cons, flatMap_append, hshift,
      ← filterMap_eq_flatMap_toList, Subscriber.updates_emit]
    cases index with
    | zero =>
      rw [hbehind subs (offset + 1) (0 + offset) (by omega), append_nil, getElem?_cons_zero,
        Option.any_some]
      simp
    | succ index =>
      rw [show index + 1 + offset = index + (offset + 1) by omega, ih (offset + 1) index,
        if_neg (by omega), getElem?_cons_succ, nil_append]

namespace Host

variable {host : Host}

/-- An emission puts what it delivers at once in front of the other deliveries. -/
theorem immediates_emit (host : Host) (thread height : Nat) (update : StateUpdate) (index : Nat) :
    (host.emit thread height update).immediates index =
      (if (host.subscribers[index]?.any (·.immediate thread)) = true then [update] else []) ++
        host.immediates index := by
  have hhanded := updates_handed host.subscribers thread 0 update index
  simp only [Nat.add_zero] at hhanded
  rw [immediates, emit, updates_enter, hhanded]
  rfl

end Host

end PiOxidized.Service.Provider
