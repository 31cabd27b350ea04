/-
# Emission to a source listener

A publication takes its sequence number under the lock and reaches the source
listeners later.  What has been published but not handed to one source listener
is read off the stack and the queue; with it a reader of an older revision reaches
the current one.
-/

import PiOxidized.Math.Path
import PiOxidized.Service.Replicated.Order

namespace PiOxidized.Service.Replicated

open List Math
open Service.Delta

/-- A published revision with its sequence. -/
abbrev Revision := JsInteger × JsonValue

/-- A batch with the sequence it leads to. -/
abbrev Batch := JsInteger × List DeltaOp

/-- The batch of a publication. -/
def PendingPublication.batch (publication : PendingPublication) : Batch :=
  (publication.sequence, publication.ops)

/-- The batch a frame has still to hand to a source listener. -/
def Frame.unemitted (source : Nat) : Frame → List Batch
  | .publication p => [p.batch]
  | .sources p rest => if source ∈ rest then [p.batch] else []
  | _ => []

@[simp] theorem Frame.unemitted_sources (source : Nat) (p : PendingPublication)
    (rest : List Nat) : (Frame.sources p rest).unemitted source =
      if source ∈ rest then [p.batch] else [] :=
  rfl

/-- The batch of a queue entry. -/
def PendingDispatch.unemitted : PendingDispatch → List Batch
  | .publication p => [p.batch]
  | .hydration _ => []

namespace Replicator

/-- The current revision. -/
def revision (state : Replicator) : Revision := (state.inner.sequence, state.inner.published)

/-- The batches published but not handed to a source listener, in dispatch order. -/
def unemitted (state : Replicator) (source : Nat) : List Batch :=
  state.stack.flatMap (Frame.unemitted source) ++
    state.inner.pending.flatMap PendingDispatch.unemitted

/-- The publication whose next call is that of a source listener. -/
def emitting (state : Replicator) (source : Nat) : Option PendingPublication :=
  match state.stack with
  | .sources publication (next :: _) :: _ => if next = source then some publication else none
  | _ => none

/-- A state with a source listener that is not removed. -/
structure Sourced (source : Nat) (state : Replicator) : Prop where
  idle : state.inner.draining = false → state.stack = [] ∧ state.inner.pending = []
  registered : source ∈ state.sourceListeners
  distinct : ∀ publication rest, Frame.sources publication rest ∈ state.stack → rest.Nodup
  admitted : state.inner.published.isJsonValue = true

variable {state : Replicator}

variable {below : List Frame} {source : Nat}

theorem emitting_sources {id : Nat} {p : PendingPublication} {rest : List Nat}
    (hstk : state.stack = .sources p (id :: rest) :: below) :
    state.emitting source = if id = source then some p else none := by
  simp only [emitting, hstk]

theorem Sourced.of_eq {state' : Replicator} (h : Sourced source state)
    (hinner : state'.inner.draining = state.inner.draining)
    (hpend : state'.inner.pending = state.inner.pending)
    (hpubd : state'.inner.published = state.inner.published)
    (hstk : state'.stack = state.stack) (hlis : source ∈ state'.sourceListeners) :
    Sourced source state' where
  idle := by
    rw [hinner, hstk, hpend]
    exact h.idle
  registered := hlis
  distinct := by
    rw [hstk]
    exact h.distinct
  admitted := by
    rw [hpubd]
    exact h.admitted

theorem Sourced.draining (h : Sourced source state) {top : Frame}
    (hstk : state.stack = top :: below) :
    state.inner.draining = true := by
  cases hdrn : state.inner.draining with
  | true => rfl
  | false =>
    have hnil := (h.idle hdrn).1
    rw [hstk] at hnil
    cases hnil

end Replicator

section

variable [SerdeJson]

/-- A batch carries a revision to the next one. -/
structure Moves (revision : Revision) (batch : Batch) (next : Revision) : Prop where
  sequence : batch.1 = revision.1.next
  exact : batch.1.toNat = revision.1.toNat + 1
  applies : apply (some revision.2) batch.2 = .ok (some next.2)
  admitted : next.2.isJsonValue = true
  reached : next.1 = batch.1

variable {batches : List Batch}

variable {next : Revision}

/-- The numbers of batches along a path. -/
theorem path_toNat {revision : Revision} (h : Path Moves revision batches next) :
    next.1.toNat = revision.1.toNat + batches.length := by
  induction h with
  | nil => rfl
  | cons hmove _ ih =>
    rw [ih, hmove.reached, hmove.exact, length_cons]
    omega

/-- The batches of a path are numbered consecutively. -/
theorem path_consecutive {revision : Revision} (h : Path Moves revision batches next) {index : Nat}
    {batch : Batch} (hbat : batches[index]? = some batch) :
    batch.1.toNat = revision.1.toNat + index + 1 := by
  induction h generalizing index with
  | nil => cases hbat
  | cons hmove _ ih =>
    cases index with
    | zero =>
      cases hbat
      exact hmove.exact
    | succ index =>
      rw [ih hbat, hmove.reached, hmove.exact]
      omega

theorem stageHydration_replace {value : JsonValue} (h : value.isJsonValue = true) :
    ReplicaInner.stageHydration [.replace value] = .ok value := by
  have happly : apply none [.replace value] = .ok (some value) := rfl
  rw [ReplicaInner.stageHydration, happly]
  simp [isBase, h]

/-- A replica at a revision follows a path to its end without an error. -/
theorem follow_path {revision : Revision} (h : Path Moves revision batches next) :
    ReplicaInner.follow ⟨some revision.2, some revision.1⟩ batches =
      (.ok (), ⟨some next.2, some next.1⟩) := by
  induction h with
  | nil => rfl
  | @cons revision middle next batch rest hmove _ ih =>
    have hsame : (revision.1.next == batch.1) = true := by
      rw [hmove.sequence]
      exact BEq.refl _
    have hupd : ReplicaInner.applyUpdate ⟨some revision.2, some revision.1⟩ batch.1 batch.2 =
        (.ok (), ⟨some middle.2, some middle.1⟩) := by
      simp [ReplicaInner.applyUpdate, hsame, hmove.applies, hmove.admitted, hmove.reached]
    obtain ⟨sequence, ops⟩ := batch
    rw [ReplicaInner.follow, hupd]
    exact ih

/-! ## Steps -/

namespace Replicator

/-- No publish fails after taking a sequence number or takes one past the exact
integers, none made by a callback jumps an unemitted batch, and the source listener
stays. -/
def Steady (source : Nat) (state : Replicator) : Event → Prop
  | .publish thread => ¬state.inner.Wastes ∧
      ((∃ publication, state.inner.flushPublication.1 = .ok (some publication)) →
        state.inner.sequence.toNat < 2 ^ 53 ∧
          (state.inner.route thread = .inline → state.unemitted source = []))
  | .unsubscribeSource id => id ≠ source
  | _ => True

/-- What a step that emits nothing does to a reader's way to the current revision. -/
inductive Feed (source : Nat) (state state' : Replicator) : Prop
  | keep (hunemitted : state'.unemitted source = state.unemitted source)
      (hrevision : state'.revision = state.revision)
  | grow (batch : Batch) (hunemitted : state'.unemitted source = state.unemitted source ++ [batch])
      (hmoves : Moves state.revision batch state'.revision)

variable {state state' : Replicator} {source thread : Nat}

variable {p : PendingPublication}

/-- A path to the current revision is continued by every step that emits nothing. -/
theorem Feed.path (h : Feed source state state') {revision : Revision}
    (hpath : Path Moves revision (batches ++ state.unemitted source) state.revision) :
    Path Moves revision (batches ++ state'.unemitted source) state'.revision := by
  cases h with
  | keep hunem hrev =>
    rw [hunem, hrev]
    exact hpath
  | grow batch hunem hmoves =>
    rw [hunem, ← append_assoc]
    exact hpath.snoc hmoves

/-- Changes outside the stack, the queue and the revision. -/
theorem Feed.of_eq (hstk : state'.stack = state.stack)
    (hpend : state'.inner.pending = state.inner.pending)
    (hrev : state'.revision = state.revision) : Feed source state state' := by
  refine .keep ?_ hrev
  rw [unemitted, unemitted, hstk, hpend]

section

variable (h : Sourced source state)

include h

/-- The top frame is replaced by frames with the same batches. -/
theorem Sourced.retop {top : Frame} {below : List Frame} (hstk : state.stack = top :: below)
    (frames : List Frame) (hfr : state'.stack = frames ++ below)
    (hunem : frames.flatMap (Frame.unemitted source) = top.unemitted source)
    (hdist : ∀ p rest, Frame.sources p rest ∈ frames → rest.Nodup)
    (hdrn : state'.inner.draining = state.inner.draining)
    (hpend : state'.inner.pending = state.inner.pending)
    (hrev : state'.revision = state.revision)
    (hlis : state'.sourceListeners = state.sourceListeners) :
    Sourced source state' ∧ Feed source state state' := by
  constructor
  · constructor
    case idle =>
      intro hidle
      rw [hdrn, h.draining hstk] at hidle
      cases hidle
    case registered =>
      rw [hlis]
      exact h.registered
    case distinct =>
      intro p rest hmem
      rw [hfr] at hmem
      rcases mem_append.mp hmem with hmem | hmem
      · exact hdist p rest hmem
      · apply h.distinct p
        rw [hstk]
        exact mem_cons_of_mem _ hmem
    case admitted =>
      rw [(Prod.mk.inj hrev).2]
      exact h.admitted
  · refine .keep ?_ hrev
    rw [unemitted, unemitted, hfr, hstk, hpend, flatMap_append, flatMap_cons, hunem]

/-- A publication leaves the lock. -/
theorem Sourced.emit {tracker : DeltaTracker}
    (hinl : state.inner.route thread = .inline → state.unemitted source = [])
    (hseq : p.sequence = state.inner.sequence.next)
    (hexact : state.inner.sequence.toNat < 2 ^ 53)
    (happlies : apply (some state.inner.published) p.ops = .ok (some p.value))
    (hadm : p.value.isJsonValue = true) :
    Sourced source ({ state with
      inner := { state.inner with
        tracker := tracker
        sequence := state.inner.sequence.next
        published := p.value }
      revisions := state.revisions ++ [(p.sequence, p.value)]
      : Replicator }.dispatch thread (.publication p)) ∧
    Feed source state ({ state with
      inner := { state.inner with
        tracker := tracker
        sequence := state.inner.sequence.next
        published := p.value }
      revisions := state.revisions ++ [(p.sequence, p.value)]
      : Replicator }.dispatch thread (.publication p)) := by
  have hmoves : Moves state.revision p.batch (state.inner.sequence.next, p.value) := by
    refine ⟨hseq, ?_, happlies, hadm, hseq.symm⟩
    rw [PendingPublication.batch, hseq]
    exact JsInteger.toNat_next hexact
  have hdist : ∀ other rest,
      Frame.sources other rest ∈ Frame.publication p :: state.stack → rest.Nodup := by
    intro other rest hmem
    rcases mem_cons.mp hmem with heq | hmem
    · cases heq
    · exact h.distinct other rest hmem
  cases hroute : state.inner.route thread with
  | start =>
    obtain ⟨hstk, hpend⟩ := h.idle (route_start hroute)
    rw [dispatch_start (by exact hroute)]
    refine ⟨⟨nofun, h.registered, hdist, hadm⟩, .grow p.batch ?_ hmoves⟩
    simp only [unemitted, hstk, hpend]
    rfl
  | inline =>
    obtain ⟨hstk, hpend⟩ := append_eq_nil_iff.mp (hinl hroute)
    have hdrn : state.inner.draining = true := route_draining (by rw [hroute]; nofun)
    rw [dispatch_inline (by exact hroute)]
    refine ⟨⟨?_, h.registered, hdist, hadm⟩, .grow p.batch ?_ hmoves⟩
    · intro hidle
      rw [hdrn] at hidle
      cases hidle
    · simp only [unemitted, hstk, hpend, flatMap_cons]
      rfl
  | queued =>
    have hdrn : state.inner.draining = true := route_draining (by rw [hroute]; nofun)
    rw [dispatch_queued (by exact hroute)]
    refine ⟨⟨?_, h.registered, h.distinct, hadm⟩, .grow p.batch ?_ hmoves⟩
    · intro hidle
      rw [hdrn] at hidle
      cases hidle
    · simp only [unemitted, flatMap_append, append_assoc]
      rfl

/-- A hydration leaves the lock. -/
theorem Sourced.subscribe {hyd : PendingHydration} {reserved : Finset Nat} :
    Sourced source ({ state with reserved := reserved : Replicator }.dispatch thread
      (.hydration hyd)) ∧
    Feed source state ({ state with reserved := reserved : Replicator }.dispatch thread
      (.hydration hyd)) := by
  have hdist : ∀ other rest,
      Frame.sources other rest ∈ Frame.hydrating hyd :: state.stack → rest.Nodup := by
    intro other rest hmem
    rcases mem_cons.mp hmem with heq | hmem
    · cases heq
    · exact h.distinct other rest hmem
  cases hroute : state.inner.route thread with
  | start =>
    rw [dispatch_start (by exact hroute)]
    exact ⟨⟨nofun, h.registered, hdist, h.admitted⟩, .keep rfl rfl⟩
  | inline =>
    have hdrn : state.inner.draining = true := route_draining (by rw [hroute]; nofun)
    rw [dispatch_inline (by exact hroute)]
    refine ⟨⟨?_, h.registered, hdist, h.admitted⟩, .keep rfl rfl⟩
    intro hidle
    rw [hdrn] at hidle
    cases hidle
  | queued =>
    have hdrn : state.inner.draining = true := route_draining (by rw [hroute]; nofun)
    rw [dispatch_queued (by exact hroute)]
    refine ⟨⟨?_, h.registered, h.distinct, h.admitted⟩, .keep ?_ rfl⟩
    · intro hidle
      rw [hdrn] at hidle
      cases hidle
    · simp only [unemitted, flatMap_append, flatMap_singleton,
        PendingDispatch.unemitted, append_nil]

/-- A publish keeps the source listener and continues a reader's way. -/
theorem Sourced.publish (hsteady : state.Steady source (.publish thread)) :
    Sourced source (state.publish thread) ∧ Feed source state (state.publish thread) := by
  obtain ⟨hwastes, hemits⟩ := hsteady
  unfold Replicator.publish
  rcases state.inner.flushPublication_cases with ⟨tracker, hinner, hnone⟩ | hwaste |
    ⟨tracker, p, hflush, hseq, happlies, hadm⟩
  · have hquiet : Sourced source { state with inner := { state.inner with tracker := tracker } } ∧
        Feed source state { state with inner := { state.inner with tracker := tracker } } :=
      ⟨h.of_eq rfl rfl rfl rfl h.registered, .of_eq rfl rfl rfl⟩
    cases hflush : state.inner.flushPublication with
    | mk result inner =>
      rw [hflush] at hinner hnone
      obtain rfl : inner = _ := hinner
      cases result with
      | error error => exact hquiet
      | ok emitted =>
        cases emitted with
        | none => exact hquiet
        | some p => exact absurd rfl (hnone p)
  · exact absurd hwaste hwastes
  · rw [hflush] at hemits ⊢
    obtain ⟨hexact, hinl⟩ := hemits ⟨p, rfl⟩
    exact h.emit hinl hseq hexact happlies hadm

/-- A step that does not call the source listener. -/
theorem Sourced.step {event : Event} (hsteady : state.Steady source event)
    (hquiet : event = .callSource → state.emitting source = none)
    (hstep : state.step event = some state') :
    Sourced source state' ∧ Feed source state state' := by
  cases event with
  | mutate | allocate =>
    cases hstep
    exact ⟨h.of_eq rfl rfl rfl rfl h.registered, .of_eq rfl rfl rfl⟩
  | publish thread =>
    simp only [Replicator.step] at hstep
    split_ifs at hstep
    cases hstep
    exact h.publish hsteady
  | subscribe thread id =>
    simp only [Replicator.step] at hstep
    split_ifs at hstep
    cases hstep
    exact h.subscribe
  | unsubscribe id =>
    simp only [Replicator.step] at hstep
    split_ifs at hstep
    · cases hstep
      exact ⟨h.of_eq rfl rfl rfl rfl h.registered, .of_eq rfl rfl rfl⟩
    · cases hstep
      exact ⟨h.of_eq rfl rfl rfl rfl h.registered, .of_eq rfl rfl rfl⟩
  | subscribeSource =>
    cases hstep
    exact ⟨h.of_eq rfl rfl rfl rfl (Finset.mem_insert_of_mem h.registered), .of_eq rfl rfl rfl⟩
  | unsubscribeSource id =>
    cases hstep
    exact ⟨h.of_eq rfl rfl rfl rfl (Finset.mem_erase_of_ne_of_mem hsteady.symm h.registered),
      .of_eq rfl rfl rfl⟩
  | collectSources =>
    simp only [Replicator.step] at hstep
    split at hstep
    · rename_i publication below hstk
      cases hstep
      refine h.retop hstk [.sources publication (keys state.sourceListeners)] rfl ?_ ?_
        rfl rfl rfl rfl
      · rw [flatMap_singleton, Frame.unemitted_sources, if_pos (mem_keys.mpr h.registered)]
        rfl
      · intro other rest hmem
        cases mem_singleton.mp hmem
        exact nodup_keys _
    · cases hstep
  | callSource =>
    simp only [Replicator.step] at hstep
    split at hstep
    · rename_i publication id rest below hstk
      cases hstep
      have hoth : source ≠ id := by
        have hnone := hquiet rfl
        rw [emitting_sources hstk] at hnone
        rintro rfl
        rw [if_pos rfl] at hnone
        cases hnone
      have htop : Frame.sources publication (id :: rest) ∈ state.stack := by
        rw [hstk]
        exact mem_cons_self
      refine h.retop hstk [.sources publication rest] rfl ?_ ?_ rfl rfl rfl rfl
      · rw [flatMap_singleton, Frame.unemitted_sources, Frame.unemitted_sources]
        simp only [mem_cons, hoth, false_or]
      · intro other left hmem
        cases mem_singleton.mp hmem
        exact (nodup_cons.mp (h.distinct _ _ htop)).2
    · cases hstep
  | collectListeners =>
    simp only [Replicator.step] at hstep
    split at hstep
    · rename_i publication below hstk
      cases hstep
      exact h.retop hstk [.updates publication (keys state.listeners)] rfl rfl (by simp)
        rfl rfl rfl rfl
    · cases hstep
  | callListener =>
    simp only [Replicator.step] at hstep
    split at hstep
    · rename_i publication id rest below hstk
      cases hstep
      exact h.retop hstk [.updates publication rest] rfl rfl (by simp) rfl rfl rfl rfl
    · cases hstep
  | hydrate =>
    simp only [Replicator.step] at hstep
    split at hstep
    · rename_i hydration below hstk
      split_ifs at hstep
      · cases hstep
        exact h.retop hstk [] rfl rfl (by rintro _ _ ⟨⟩) rfl rfl rfl rfl
      · cases hstep
        exact h.retop hstk [.hydrated] rfl rfl (by simp) rfl rfl rfl rfl
    · cases hstep
  | finish =>
    simp only [Replicator.step] at hstep
    split at hstep
    · rename_i publication below hstk
      cases hstep
      exact h.retop hstk [] rfl rfl (by rintro _ _ ⟨⟩) rfl rfl rfl rfl
    · rename_i below hstk
      cases hstep
      exact h.retop hstk [] rfl rfl (by rintro _ _ ⟨⟩) rfl rfl rfl rfl
    · cases hstep
  | drain =>
    simp only [Replicator.step] at hstep
    split at hstep
    · rename_i next pending hstk hdrn hpend
      cases hstep
      refine ⟨⟨?_, h.registered, ?_, h.admitted⟩, .keep ?_ rfl⟩
      · intro hidle
        rw [hdrn] at hidle
        cases hidle
      · intro other rest hmem
        cases next with
        | publication | hydration => cases mem_singleton.mp hmem
      · simp only [unemitted, hstk, hpend]
        cases next with
        | publication | hydration => rfl
    · rename_i hstk hdrn hpend
      cases hstep
      exact ⟨⟨fun _ => ⟨hstk, hpend⟩, h.registered, h.distinct, h.admitted⟩, .of_eq rfl rfl rfl⟩
    · cases hstep

/-- The step that calls the source listener hands it the first unemitted batch. -/
theorem Sourced.call (hemit : state.emitting source = some p)
    (hstep : state.step .callSource = some state') :
    Sourced source state' ∧ state'.revision = state.revision ∧
      state.unemitted source = p.batch :: state'.unemitted source := by
  simp only [Replicator.step] at hstep
  split at hstep
  · rename_i other id rest below hstk
    cases hstep
    rw [emitting_sources hstk] at hemit
    split_ifs at hemit with heq
    subst heq
    obtain rfl := Option.some.inj hemit
    have htop : Frame.sources other (id :: rest) ∈ state.stack := by
      rw [hstk]
      exact mem_cons_self
    obtain ⟨hnotin, hnodup⟩ := nodup_cons.mp (h.distinct _ _ htop)
    refine ⟨⟨?_, h.registered, ?_, h.admitted⟩, rfl, ?_⟩
    · intro hidle
      rw [h.draining hstk] at hidle
      cases hidle
    · intro third left hmem
      rcases mem_cons.mp hmem with heq | hmem
      · cases heq
        exact hnodup
      · apply h.distinct third
        rw [hstk]
        exact mem_cons_of_mem _ hmem
    · rw [unemitted, unemitted, hstk, flatMap_cons, flatMap_cons,
        Frame.unemitted_sources, Frame.unemitted_sources, if_pos mem_cons_self,
        if_neg hnotin]
      rfl
  · cases hstep

end

end Replicator

end

end PiOxidized.Service.Replicated
