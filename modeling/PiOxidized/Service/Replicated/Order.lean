/-
# The order subscribers see

What a listener will still be told is read off the stack and the queue: updates
of publications whose listeners have been collected with it among them, then
every publication whose listeners have not been collected yet.  The invariant is
that these lead, one sequence number at a time, from the listener's last delivery
to the current sequence.  A dispatch made inline jumps the queue; it keeps the
invariant exactly when there is nothing it could jump.

This file defines what is still to be told, the condition on a run, the effects of
its steps and the order of one listener's deliveries.
-/

import PiOxidized.Service.Replicated.Dispatch

namespace PiOxidized.Service.Replicated

open List Math
open Service.Delta

/-- The publication of a frame whose listeners have not been collected. -/
def Frame.ahead : Frame → List PendingPublication
  | .publication p => [p]
  | .sources p _ => [p]
  | _ => []

/-- The update of a frame that is still due to a listener. -/
def Frame.due (id : Nat) : Frame → List PendingPublication
  | .updates p rest => if id ∈ rest then [p] else []
  | _ => []

/-- Whether a frame has nothing left to call. -/
def Frame.settled : Frame → Bool
  | .updates _ [] => true
  | .hydrated => true
  | _ => false

/-- Whether a frame can lie below another one. -/
def Frame.low : Frame → Bool
  | .updates _ _ => true
  | .hydrated => true
  | _ => false

/-- The id a frame is about to hydrate. -/
def Frame.waiting : Frame → List Nat
  | .hydrating captured => [captured.id]
  | _ => []

/-- The publication of a queue entry. -/
def PendingDispatch.ahead : PendingDispatch → List PendingPublication
  | .publication p => [p]
  | .hydration _ => []

/-- The id of a queued hydration. -/
def PendingDispatch.waiting : PendingDispatch → List Nat
  | .publication _ => []
  | .hydration captured => [captured.id]

namespace Replicator

/-- The publications whose listeners have not been collected, in dispatch order. -/
def ahead (state : Replicator) : List PendingPublication :=
  state.stack.flatMap Frame.ahead ++ state.inner.pending.flatMap PendingDispatch.ahead

/-- The updates due to a listener from publications whose listeners have been collected. -/
def due (state : Replicator) (id : Nat) : List PendingPublication :=
  state.stack.flatMap (Frame.due id)

/-- The ids whose hydration has not been dispatched. -/
def waiting (state : Replicator) : List Nat :=
  state.stack.flatMap Frame.waiting ++ state.inner.pending.flatMap PendingDispatch.waiting

section

variable [SerdeJson]

/-- No publish fails after taking a sequence number or takes one past the exact
integers; a callback's subscribe finds no publication whose listeners are still to
be collected, and what its publish emits finds nothing undelivered. -/
def Orderly (state : Replicator) : Event → Prop
  | .publish thread => ¬state.inner.Wastes ∧
      ((∃ publication, state.inner.flushPublication.1 = .ok (some publication)) →
        state.inner.sequence.toNat < 2 ^ 53 ∧ (state.inner.route thread = .inline →
          state.inner.pending = [] ∧ ∀ frame ∈ state.stack, frame.settled = true))
  | .subscribe thread _ => state.inner.route thread = .inline → state.ahead = []
  | _ => True

end

end Replicator

/-! ## Steps of an orderly run -/

namespace Replicator

variable {next : PendingDispatch} {thread : Nat} {state : Replicator}

variable {inner : MutableInner}

theorem route_start (h : inner.route thread = .start) : inner.draining = false := by
  unfold MutableInner.route at h
  split_ifs at h with hdrg
  · simpa using hdrg

theorem route_draining (h : inner.route thread ≠ .start) : inner.draining = true := by
  cases hdrg : inner.draining with
  | true => rfl
  | false =>
    apply absurd _ h
    unfold MutableInner.route
    rw [hdrg]
    rfl

theorem dispatch_start (h : state.inner.route thread = .start) :
    state.dispatch thread next = { state with
      inner := { state.inner with draining := true, drainingThread := some thread }
      stack := next.frame :: state.stack } := by
  rw [dispatch, h]

theorem dispatch_inline (h : state.inner.route thread = .inline) :
    state.dispatch thread next = { state with stack := next.frame :: state.stack } := by
  rw [dispatch, h]

theorem dispatch_queued (h : state.inner.route thread = .queued) :
    state.dispatch thread next = { state with
      inner := { state.inner with pending := state.inner.pending ++ [next] } } := by
  rw [dispatch, h]

/-- What a step of an orderly run does. -/
inductive Effect (state : Replicator) : Replicator → Prop
  /-- Nothing that a listener could see. -/
  | quiet (tracker : DeltaTracker) (sourceListeners : Finset Nat) (nextSourceListener : Nat) :
      Effect state { state with
        inner := { state.inner with tracker := tracker }
        sourceListeners := sourceListeners
        nextSourceListener := nextSourceListener }
  | emit (thread : Nat) (tracker : DeltaTracker) (publication : PendingPublication)
      (hinline : state.inner.route thread = .inline →
        state.inner.pending = [] ∧ ∀ frame ∈ state.stack, frame.settled = true)
      (hsequence : publication.sequence = state.inner.sequence.next)
      (hexact : state.inner.sequence.toNat < 2 ^ 53) :
      Effect state ({ state with
        inner := { state.inner with
          tracker := tracker
          sequence := state.inner.sequence.next
          published := publication.value }
        revisions := state.revisions ++ [(publication.sequence, publication.value)]
        : Replicator }.dispatch thread (.publication publication))
  | allocate :
      Effect state { state with
        nextListener := state.nextListener + 1
        reserved := insert state.nextListener state.reserved }
  | subscribe (thread id : Nat) (hreserved : id ∈ state.reserved)
      (hinline : state.inner.route thread = .inline →
        state.ahead = [] ∧ state.stack.head?.any Frame.calling = true) :
      Effect state ({ state with reserved := state.reserved.erase id : Replicator }.dispatch
        thread (.hydration ⟨id, state.inner.published, state.inner.sequence⟩))
  | remove (id : Nat) :
      Effect state { state with
        closed := insert id state.closed
        listeners := state.listeners.erase id }
  | withdraw (id : Nat) (hid : id < state.nextListener) (hreserved : id ∉ state.reserved)
      (hclosed : id ∉ state.closed) (hlisteners : id ∉ state.listeners) :
      Effect state { state with
        closed := insert id state.closed
        inner := { state.inner with retired := insert id state.inner.retired }
        withdrawn := insert id state.withdrawn }
  | sources (publication : PendingPublication) (top : Frame) (rest : List Nat)
      (below : List Frame) (hstack : state.stack = top :: below)
      (htop : top = .publication publication ∨ ∃ all, top = .sources publication all) :
      Effect state { state with stack := .sources publication rest :: below }
  | collectListeners (publication : PendingPublication) (below : List Frame)
      (hstack : state.stack = .sources publication [] :: below) :
      Effect state { state with stack := .updates publication (keys state.listeners) :: below }
  | callListener (publication : PendingPublication) (id : Nat) (rest : List Nat)
      (below : List Frame) (hstack : state.stack = .updates publication (id :: rest) :: below) :
      Effect state { state with
        stack := .updates publication rest :: below
        log := state.log ++ [(id, ⟨.update, publication.sequence, publication.value⟩)] }
  | skip (hydration : PendingHydration) (below : List Frame)
      (hstack : state.stack = .hydrating hydration :: below) :
      Effect state { state with
        inner := { state.inner with retired := state.inner.retired.erase hydration.id }
        stack := below }
  | hydrate (hydration : PendingHydration) (below : List Frame)
      (hstack : state.stack = .hydrating hydration :: below)
      (hretired : hydration.id ∉ state.inner.retired) :
      Effect state { state with
        listeners := insert hydration.id state.listeners
        stack := .hydrated :: below
        log := state.log ++ [(hydration.id, ⟨.hydrate, hydration.sequence, hydration.value⟩)] }
  | finish (top : Frame) (below : List Frame) (hstack : state.stack = top :: below)
      (hsettled : top.settled = true) :
      Effect state { state with stack := below }
  | take (next : PendingDispatch) (pending : List PendingDispatch) (hstack : state.stack = [])
      (hdraining : state.inner.draining = true) (hpending : state.inner.pending = next :: pending) :
      Effect state { state with
        inner := { state.inner with pending := pending }
        stack := [next.frame] }
  | rest (hstack : state.stack = []) (hpending : state.inner.pending = []) :
      Effect state { state with
        inner := { state.inner with draining := false, drainingThread := none } }

section

variable [SerdeJson]

theorem publish_effect (hord : state.Orderly (.publish thread)) :
    Effect state (state.publish thread) := by
  obtain ⟨hwastes, hemits⟩ := hord
  unfold publish
  rcases state.inner.flushPublication_cases with ⟨tracker, hinner, hnone⟩ | hwaste |
    ⟨tracker, p, hflush, hseq, -, -⟩
  · cases hflush : state.inner.flushPublication with
    | mk result inner =>
      rw [hflush] at hinner hnone
      obtain rfl : inner = _ := hinner
      cases result with
      | error error => exact .quiet tracker state.sourceListeners state.nextSourceListener
      | ok emitted =>
        cases emitted with
        | none => exact .quiet tracker state.sourceListeners state.nextSourceListener
        | some p => exact absurd rfl (hnone p)
  · exact absurd hwaste hwastes
  · rw [hflush] at hemits ⊢
    obtain ⟨hexact, hinl⟩ := hemits ⟨p, rfl⟩
    exact .emit thread tracker p hinl hseq hexact

/-- Every step of an orderly run has one of the effects. -/
theorem step_effect {state' : Replicator} {event : Event} (hord : state.Orderly event)
    (h : state.step event = some state') : Effect state state' := by
  cases event with
  | mutate root =>
    cases h
    exact .quiet _ state.sourceListeners state.nextSourceListener
  | publish thread =>
    simp only [step] at h
    split_ifs at h
    cases h
    exact publish_effect hord
  | allocate =>
    cases h
    exact .allocate
  | subscribe thread id =>
    simp only [step] at h
    split_ifs at h with hguard
    cases h
    apply Effect.subscribe thread id hguard.1
    intro hroute
    have hcall := hguard.2
    rw [mayCall, hroute] at hcall
    exact ⟨hord hroute, hcall⟩
  | unsubscribe id =>
    simp only [step] at h
    split_ifs at h with hguard hlis
    · cases h
      exact .remove id
    · cases h
      exact .withdraw id hguard.1 hguard.2.1 hguard.2.2 hlis
  | subscribeSource =>
    cases h
    exact .quiet state.inner.tracker _ _
  | unsubscribeSource id =>
    cases h
    exact .quiet state.inner.tracker _ state.nextSourceListener
  | collectSources =>
    simp only [step] at h
    split at h
    · rename_i p below hstk
      cases h
      exact .sources p _ _ below hstk (.inl rfl)
    · cases h
  | callSource =>
    simp only [step] at h
    split at h
    · rename_i p id rest below hstk
      cases h
      exact .sources p _ rest below hstk (.inr ⟨id :: rest, rfl⟩)
    · cases h
  | collectListeners =>
    simp only [step] at h
    split at h
    · rename_i p below hstk
      cases h
      exact .collectListeners p below hstk
    · cases h
  | callListener =>
    simp only [step] at h
    split at h
    · rename_i p id rest below hstk
      cases h
      exact .callListener p id rest below hstk
    · cases h
  | hydrate =>
    simp only [step] at h
    split at h
    · rename_i hydration below hstk
      split_ifs at h with hreti
      · cases h
        exact .skip hydration below hstk
      · cases h
        exact .hydrate hydration below hstk hreti
    · cases h
  | finish =>
    simp only [step] at h
    split at h
    · rename_i p below hstk
      cases h
      exact .finish _ below hstk rfl
    · rename_i below hstk
      cases h
      exact .finish _ below hstk rfl
    · cases h
  | drain =>
    simp only [step] at h
    split at h
    · rename_i next pending hstk hdrg hpend
      cases h
      exact .take next pending hstk hdrg hpend
    · rename_i hstk hdrg hpend
      cases h
      exact .rest hstk hpend
    · cases h

end

end Replicator

variable {frame : Frame}

theorem Frame.ahead_of_low (h : frame.low = true) : frame.ahead = [] := by
  cases frame with
  | updates p rest => rfl
  | hydrated => rfl
  | publication | sources | hydrating => cases h

theorem Frame.low_of_settled (h : frame.settled = true) : frame.low = true := by
  cases frame with
  | updates p rest => rfl
  | hydrated => rfl
  | publication | sources | hydrating => cases h

theorem Frame.due_of_settled (h : frame.settled = true) (id : Nat) : frame.due id = [] := by
  cases frame with
  | updates p rest =>
    cases rest with
    | nil => rfl
    | cons other rest => cases h
  | hydrated | publication | sources | hydrating => rfl

theorem Frame.waiting_of_low (h : frame.low = true) : frame.waiting = [] := by
  cases frame with
  | updates | hydrated | publication | sources => rfl
  | hydrating captured => cases h

/-! ## Deliveries -/

/-- Updates that continue from a sequence, each under its published revision. -/
def Continues (revisions : List (JsInteger × JsonValue)) : JsInteger → List Delivery → Prop
  | _, [] => True
  | sequence, delivery :: rest =>
    delivery.kind = .update ∧ delivery.sequence.toNat = sequence.toNat + 1 ∧
      (delivery.sequence, delivery.value) ∈ revisions ∧ Continues revisions delivery.sequence rest

/-- A hydration under its published revision, then updates that continue from it. -/
def WellOrdered (revisions : List (JsInteger × JsonValue)) : List Delivery → Prop
  | [] => True
  | delivery :: rest =>
    delivery.kind = .hydrate ∧ (delivery.sequence, delivery.value) ∈ revisions ∧
      Continues revisions delivery.sequence rest

variable {revisions : List (JsInteger × JsonValue)} {deliveries : List Delivery}

variable {revisions' : List (JsInteger × JsonValue)} {seq : JsInteger}

theorem Continues.mono (hsub : ∀ revision ∈ revisions, revision ∈ revisions')
    (h : Continues revisions seq deliveries) :
    Continues revisions' seq deliveries := by
  induction deliveries generalizing seq with
  | nil => trivial
  | cons delivery rest ih =>
    obtain ⟨hkind, hseq, hrev, hrest⟩ := h
    exact ⟨hkind, hseq, hsub _ hrev, ih hrest⟩

theorem WellOrdered.mono (hsub : ∀ revision ∈ revisions, revision ∈ revisions')
    (h : WellOrdered revisions deliveries) :
    WellOrdered revisions' deliveries := by
  cases deliveries with
  | nil => trivial
  | cons delivery rest =>
    obtain ⟨hkind, hrev, hrest⟩ := h
    exact ⟨hkind, hsub _ hrev, hrest.mono hsub⟩

theorem Continues.snoc (h : Continues revisions seq deliveries) {delivery : Delivery}
    (hkind : delivery.kind = .update) (hseq : delivery.sequence.toNat =
      ((deliveries.getLast?.map Delivery.sequence).getD seq).toNat + 1)
    (hrev : (delivery.sequence, delivery.value) ∈ revisions) :
    Continues revisions seq (deliveries ++ [delivery]) := by
  induction deliveries generalizing seq with
  | nil => exact ⟨hkind, hseq, hrev, trivial⟩
  | cons first rest ih =>
    obtain ⟨hfst, hnext, hmem, hrest⟩ := h
    refine ⟨hfst, hnext, hmem, ih hrest ?_⟩
    rw [hseq]
    cases rest with
    | nil => rfl
    | cons second rest => rw [getLast?_cons_cons, getLast?_cons]; rfl

/-- An update after the last delivery keeps the order. -/
theorem WellOrdered.snoc (h : WellOrdered revisions deliveries) {last delivery : Delivery}
    (hlast : deliveries.getLast? = some last) (hkind : delivery.kind = .update)
    (hseq : delivery.sequence.toNat = last.sequence.toNat + 1)
    (hrev : (delivery.sequence, delivery.value) ∈ revisions) :
    WellOrdered revisions (deliveries ++ [delivery]) := by
  cases deliveries with
  | nil => cases hlast
  | cons first rest =>
    obtain ⟨hfst, hmem, hrest⟩ := h
    refine ⟨hfst, hmem, hrest.snoc hkind ?_ hrev⟩
    rw [hseq]
    cases rest with
    | nil =>
      rw [← Option.some.inj hlast]
      rfl
    | cons second rest =>
      rw [getLast?_cons_cons] at hlast
      rw [hlast]
      rfl

namespace Replicator

theorem deliveries_log {state state' : Replicator} {other : Nat} {delivery : Delivery}
    (hlog : state'.log = state.log ++ [(other, delivery)]) (id : Nat) :
    state'.deliveries id = state.deliveries id ++ if other = id then [delivery] else [] := by
  unfold deliveries
  rw [hlog, filterMap_append]
  split_ifs with heq
  · simp [heq]
  · simp [heq]

end Replicator

end PiOxidized.Service.Replicated
