/-
# Subscriber order

Ids are allocated once, wait in at most one hydration, and are not called before
it is dispatched; everything on its way to a listener is a published revision.
With the order of what is still to be told this gives what every listener sees
along an orderly run.  A subscribe made by a callback while a publication is
queued breaks it: the hydration already holds the queued revision.
-/

import PiOxidized.Service.Replicated.Sequenced

namespace PiOxidized.Service.Replicated

open List Math
open Service.Delta

/-- The revision a frame carries. -/
def Frame.carried : Frame → List (JsInteger × JsonValue)
  | .publication p => [(p.sequence, p.value)]
  | .sources p _ => [(p.sequence, p.value)]
  | .updates p _ => [(p.sequence, p.value)]
  | .hydrating captured => [(captured.sequence, captured.value)]
  | .hydrated => []

/-- The revision a queue entry carries. -/
def PendingDispatch.carried : PendingDispatch → List (JsInteger × JsonValue)
  | .publication p => [(p.sequence, p.value)]
  | .hydration captured => [(captured.sequence, captured.value)]

@[simp] theorem PendingDispatch.frame_carried (next : PendingDispatch) :
    next.frame.carried = next.carried := by
  cases next with
  | publication | hydration => rfl

@[simp] theorem PendingDispatch.frame_waiting (next : PendingDispatch) :
    next.frame.waiting = next.waiting := by
  cases next with
  | publication | hydration => rfl

namespace Replicator

/-- The revisions on their way to listeners. -/
def carried (state : Replicator) : List (JsInteger × JsonValue) :=
  state.stack.flatMap Frame.carried ++ state.inner.pending.flatMap PendingDispatch.carried

/-! ## What dispatching leaves alone -/

section

variable (state : Replicator) (thread : Nat) (next : PendingDispatch)

/-- A dispatch is put on the stack or at the end of the queue. -/
theorem dispatch_cases : (∃ draining drainingThread, state.dispatch thread next = { state with
      inner := { state.inner with draining := draining, drainingThread := drainingThread }
      stack := next.frame :: state.stack }) ∨
    state.dispatch thread next = { state with
      inner := { state.inner with pending := state.inner.pending ++ [next] } } := by
  cases hroute : state.inner.route thread with
  | start => exact .inl ⟨_, _, dispatch_start hroute⟩
  | inline => exact .inl ⟨_, _, dispatch_inline hroute⟩
  | queued => exact .inr (dispatch_queued hroute)

theorem waiting_dispatch :
    (state.dispatch thread next).waiting.Perm (next.waiting ++ state.waiting) := by
  rcases state.dispatch_cases thread next with ⟨draining, drainingThread, heq⟩ | heq
  · rw [heq, waiting, flatMap_cons, PendingDispatch.frame_waiting, append_assoc]
    exact List.Perm.refl _
  · rw [heq, waiting, flatMap_append, flatMap_singleton, ← append_assoc]
    exact perm_append_comm

theorem mem_carried_dispatch {revision : JsInteger × JsonValue}
    (h : revision ∈ (state.dispatch thread next).carried) :
    revision ∈ next.carried ∨ revision ∈ state.carried := by
  rcases state.dispatch_cases thread next with ⟨draining, drainingThread, heq⟩ | heq
  · rw [heq, carried, flatMap_cons, PendingDispatch.frame_carried, append_assoc] at h
    exact mem_append.mp h
  · rw [heq, carried, flatMap_append, flatMap_singleton, ← append_assoc] at h
    exact (mem_append.mp h).symm

/-- A dispatch changes the stack, the queue and the drain only. -/
theorem dispatch_frame : (state.dispatch thread next).listeners = state.listeners ∧
    (state.dispatch thread next).nextListener = state.nextListener ∧
    (state.dispatch thread next).reserved = state.reserved ∧
    (state.dispatch thread next).closed = state.closed ∧
    (state.dispatch thread next).log = state.log ∧
    (state.dispatch thread next).revisions = state.revisions ∧
    (state.dispatch thread next).withdrawn = state.withdrawn ∧
    (state.dispatch thread next).inner.retired = state.inner.retired ∧
    (state.dispatch thread next).inner.sequence = state.inner.sequence ∧
    (state.dispatch thread next).inner.published = state.inner.published := by
  rcases state.dispatch_cases thread next with ⟨draining, drainingThread, heq⟩ | heq
  · rw [heq]
    exact ⟨rfl, rfl, rfl, rfl, rfl, rfl, rfl, rfl, rfl, rfl⟩
  · rw [heq]
    exact ⟨rfl, rfl, rfl, rfl, rfl, rfl, rfl, rfl, rfl, rfl⟩

end

/-! ## Ids -/

/-- Where an id can be. -/
structure Accounted (state : Replicator) : Prop where
  nodup : state.waiting.Nodup
  unheard : ∀ id ∈ state.waiting, state.deliveries id = [] ∧ id < state.nextListener ∧
    id ∉ state.reserved
  allocated : ∀ id ∈ state.reserved, state.deliveries id = [] ∧ id < state.nextListener
  fresh : ∀ id, state.nextListener ≤ id → state.deliveries id = []
  called : ∀ id, state.deliveries id ≠ [] → id ∈ state.listeners ∨ id ∈ state.closed
  silent : ∀ id ∈ state.withdrawn, state.deliveries id = [] ∧ id < state.nextListener ∧
    id ∉ state.reserved ∧ (id ∈ state.waiting → id ∈ state.inner.retired)

variable {state state' : Replicator}

variable {hyd : PendingHydration} {next : PendingDispatch} {below : List Frame} {id : Nat}

section

variable (h : Accounted state)

include h

/-- Changes that move no id and call nobody. -/
theorem Accounted.congr (hwait : state'.waiting.Perm state.waiting)
    (hlog : state'.log = state.log) (hnext : state'.nextListener = state.nextListener)
    (hres : state'.reserved = state.reserved) (hlis : state'.listeners = state.listeners)
    (hshut : state'.closed = state.closed) (hwith : state'.withdrawn = state.withdrawn)
    (hreti : state'.inner.retired = state.inner.retired) : Accounted state' := by
  have hdels : ∀ id, state'.deliveries id = state.deliveries id := by
    intro id
    rw [deliveries, deliveries, hlog]
  constructor
  case nodup => exact hwait.nodup_iff.mpr h.nodup
  case unheard =>
    intro id hid
    rw [hdels, hnext, hres]
    exact h.unheard id (hwait.mem_iff.mp hid)
  case allocated =>
    intro id hid
    rw [hdels, hnext]
    rw [hres] at hid
    exact h.allocated id hid
  case fresh =>
    intro id hid
    rw [hdels]
    rw [hnext] at hid
    exact h.fresh id hid
  case called =>
    intro id
    rw [hdels, hlis, hshut]
    exact h.called id
  case silent =>
    intro id hid
    rw [hwith] at hid
    rw [hdels, hnext, hres, hreti, hwait.mem_iff]
    exact h.silent id hid

/-- A reserved id starts to wait. -/
theorem Accounted.subscribe {thread : Nat} (hres : id ∈ state.reserved)
    (hnext : next.waiting = [id]) :
    Accounted ({ state with reserved := state.reserved.erase id : Replicator }.dispatch
      thread next) := by
  have hperm := waiting_dispatch { state with reserved := state.reserved.erase id } thread next
  rw [hnext] at hperm
  have hnot : id ∉ state.waiting := by
    intro hmem
    exact (h.unheard id hmem).2.2 hres
  have hbase : Accounted { state with reserved := state.reserved.erase id } := { h with
    unheard := by
      intro other hmem
      obtain ⟨hnone, hlt, hout⟩ := h.unheard other hmem
      exact ⟨hnone, hlt, fun hin => hout (Finset.mem_of_mem_erase hin)⟩
    allocated := by
      intro other hmem
      exact h.allocated other (Finset.mem_of_mem_erase hmem)
    silent := by
      intro other hmem
      obtain ⟨hnone, hlt, hout, hreti⟩ := h.silent other hmem
      exact ⟨hnone, hlt, fun hin => hout (Finset.mem_of_mem_erase hin), hreti⟩ }
  obtain ⟨hlis, hlast, hleft, hshut, hlog, -, hwith, hreti, -, -⟩ :=
    dispatch_frame { state with reserved := state.reserved.erase id } thread next
  have hdels : ∀ other, ({ state with reserved := state.reserved.erase id : Replicator
      }.dispatch thread next).deliveries other = state.deliveries other := by
    intro other
    rw [deliveries, hlog]
    rfl
  constructor
  case nodup => exact hperm.nodup_iff.mpr (nodup_cons.mpr ⟨hnot, h.nodup⟩)
  case unheard =>
    intro other hmem
    rw [hdels, hlast, hleft]
    rcases mem_cons.mp (hperm.mem_iff.mp hmem) with rfl | hmem
    · obtain ⟨hnone, hlt⟩ := h.allocated other hres
      exact ⟨hnone, hlt, Finset.notMem_erase other state.reserved⟩
    · exact hbase.unheard other hmem
  case allocated =>
    intro other hmem
    rw [hdels, hlast]
    rw [hleft] at hmem
    exact hbase.allocated other hmem
  case fresh =>
    intro other hge
    rw [hdels]
    rw [hlast] at hge
    exact h.fresh other hge
  case called =>
    intro other
    rw [hdels, hlis, hshut]
    exact h.called other
  case silent =>
    intro other hmem
    rw [hwith] at hmem
    obtain ⟨hnone, hlt, hout, hkept⟩ := h.silent other hmem
    rw [hdels, hlast, hleft, hreti]
    refine ⟨hnone, hlt, fun hin => hout (Finset.mem_of_mem_erase hin), ?_⟩
    intro hin
    rcases mem_cons.mp (hperm.mem_iff.mp hin) with rfl | hin
    · exact absurd hres hout
    · exact hkept hin

/-- A listener called before is called again. -/
theorem Accounted.call {delivery : Delivery} (hheard : state.deliveries id ≠ [])
    (hlog : state'.log = state.log ++ [(id, delivery)]) (hwait : state'.waiting = state.waiting)
    (hnext : state'.nextListener = state.nextListener)
    (hres : state'.reserved = state.reserved) (hlis : state'.listeners = state.listeners)
    (hshut : state'.closed = state.closed) (hwith : state'.withdrawn = state.withdrawn)
    (hreti : state'.inner.retired = state.inner.retired) : Accounted state' := by
  have hnone : ∀ other, state.deliveries other = [] → state'.deliveries other = [] := by
    intro other hnone
    rw [deliveries_log hlog, hnone, nil_append, if_neg]
    rintro rfl
    exact hheard hnone
  constructor
  case nodup =>
    rw [hwait]
    exact h.nodup
  case unheard =>
    intro other hmem
    rw [hwait] at hmem
    rw [hnext, hres]
    obtain ⟨hquiet, hrest⟩ := h.unheard other hmem
    exact ⟨hnone other hquiet, hrest⟩
  case allocated =>
    intro other hmem
    rw [hres] at hmem
    rw [hnext]
    obtain ⟨hquiet, hrest⟩ := h.allocated other hmem
    exact ⟨hnone other hquiet, hrest⟩
  case fresh =>
    intro other hge
    rw [hnext] at hge
    exact hnone other (h.fresh other hge)
  case called =>
    intro other hne
    rw [hlis, hshut]
    apply h.called
    intro hquiet
    exact hne (hnone other hquiet)
  case silent =>
    intro other hmem
    rw [hwith] at hmem
    rw [hnext, hres, hwait, hreti]
    obtain ⟨hquiet, hrest⟩ := h.silent other hmem
    exact ⟨hnone other hquiet, hrest⟩

/-- A waiting id is hydrated. -/
theorem Accounted.hydrate (hstk : state.stack = .hydrating hyd :: below)
    (hreti : hyd.id ∉ state.inner.retired) :
    Accounted { state with
      listeners := insert hyd.id state.listeners
      stack := .hydrated :: below
      log := state.log ++ [(hyd.id, ⟨.hydrate, hyd.sequence, hyd.value⟩)] } := by
  have hwait : state.waiting = hyd.id :: ({ state with
        listeners := insert hyd.id state.listeners
        stack := .hydrated :: below
        log := state.log ++ [(hyd.id, ⟨.hydrate, hyd.sequence, hyd.value⟩)] } :
        Replicator).waiting := by
    rw [waiting, hstk]
    rfl
  have hnodup := h.nodup
  rw [hwait, nodup_cons] at hnodup
  have hid : hyd.id ∈ state.waiting := by
    rw [hwait]
    exact mem_cons_self
  obtain ⟨-, hlt, hres⟩ := h.unheard hyd.id hid
  have hkeep : ∀ other, other ≠ hyd.id → state.deliveries other = [] → ({ state with
        listeners := insert hyd.id state.listeners
        stack := .hydrated :: below
        log := state.log ++ [(hyd.id, ⟨.hydrate, hyd.sequence, hyd.value⟩)] } :
        Replicator).deliveries other = [] := by
    intro other hne hnone
    rw [deliveries_log rfl, hnone, nil_append, if_neg (Ne.symm hne)]
  constructor
  case nodup => exact hnodup.2
  case unheard =>
    intro other hmem
    have hold : other ∈ state.waiting := by
      rw [hwait]
      exact mem_cons_of_mem _ hmem
    obtain ⟨hnone, hrest⟩ := h.unheard other hold
    refine ⟨hkeep other ?_ hnone, hrest⟩
    rintro rfl
    exact hnodup.1 hmem
  case allocated =>
    intro other hmem
    obtain ⟨hnone, hrest⟩ := h.allocated other hmem
    refine ⟨hkeep other ?_ hnone, hrest⟩
    rintro rfl
    exact hres hmem
  case fresh =>
    intro other hge
    apply hkeep other _ (h.fresh other hge)
    rintro rfl
    exact absurd hlt (Nat.not_lt.mpr hge)
  case called =>
    intro other hne
    by_cases heq : other = hyd.id
    · exact .inl (Finset.mem_insert.mpr (.inl heq))
    · apply (h.called other _).imp_left Finset.mem_insert_of_mem
      intro hnone
      exact hne (hkeep other heq hnone)
  case silent =>
    intro other hmem
    obtain ⟨hnone, hbelow, hout, hkept⟩ := h.silent other hmem
    have hne : other ≠ hyd.id := by
      rintro rfl
      exact hreti (hkept hid)
    refine ⟨hkeep other hne hnone, hbelow, hout, ?_⟩
    intro hin
    apply hkept
    rw [hwait]
    exact mem_cons_of_mem _ hin

/-- A retired id is dropped. -/
theorem Accounted.skip (hstk : state.stack = .hydrating hyd :: below) : Accounted { state with
      inner := { state.inner with retired := state.inner.retired.erase hyd.id }
      stack := below } := by
  have hwait : state.waiting = hyd.id :: ({ state with
      inner := { state.inner with retired := state.inner.retired.erase hyd.id }
      stack := below } : Replicator).waiting := by
    rw [waiting, hstk]
    rfl
  have hnodup := h.nodup
  rw [hwait, nodup_cons] at hnodup
  have hold : ∀ other ∈ ({ state with
      inner := { state.inner with retired := state.inner.retired.erase hyd.id }
      stack := below } : Replicator).waiting, other ∈ state.waiting := by
    intro other hmem
    rw [hwait]
    exact mem_cons_of_mem _ hmem
  refine { h with nodup := ?nodup, unheard := ?unheard, silent := ?silent }
  case nodup => exact hnodup.2
  case unheard =>
    intro other hmem
    exact h.unheard other (hold other hmem)
  case silent =>
    intro other hmem
    obtain ⟨hnone, hlt, hout, hkept⟩ := h.silent other hmem
    refine ⟨hnone, hlt, hout, ?_⟩
    intro hin
    apply Finset.mem_erase_of_ne_of_mem _ (hkept (hold other hin))
    rintro rfl
    exact hnodup.1 hin

theorem Accounted.allocate : Accounted { state with
      nextListener := state.nextListener + 1
      reserved := insert state.nextListener state.reserved } where
  __ := h
  unheard := by
    intro id hmem
    obtain ⟨hnone, hlt, hout⟩ := h.unheard id hmem
    refine ⟨hnone, Nat.lt_succ_of_lt hlt, ?_⟩
    rw [Finset.mem_insert, not_or]
    exact ⟨Nat.ne_of_lt hlt, hout⟩
  allocated := by
    intro id hmem
    rcases Finset.mem_insert.mp hmem with rfl | hmem
    · exact ⟨h.fresh _ (Nat.le_refl _), Nat.lt_succ_self _⟩
    · obtain ⟨hnone, hlt⟩ := h.allocated id hmem
      exact ⟨hnone, Nat.lt_succ_of_lt hlt⟩
  fresh := by
    intro id hge
    exact h.fresh id (Nat.le_of_succ_le hge)
  silent := by
    intro id hmem
    obtain ⟨hnone, hlt, hout, hkept⟩ := h.silent id hmem
    refine ⟨hnone, Nat.lt_succ_of_lt hlt, ?_, hkept⟩
    rw [Finset.mem_insert, not_or]
    exact ⟨Nat.ne_of_lt hlt, hout⟩

theorem Accounted.remove (id : Nat) : Accounted { state with
      closed := insert id state.closed
      listeners := state.listeners.erase id } where
  __ := h
  called := by
    intro other hne
    by_cases heq : other = id
    · exact .inr (Finset.mem_insert.mpr (.inl heq))
    · exact (h.called other hne).imp (Finset.mem_erase_of_ne_of_mem heq) Finset.mem_insert_of_mem

/-- An id whose listener is not inserted is withdrawn before it was ever called. -/
theorem Accounted.withdraw (hid : id < state.nextListener) (hres : id ∉ state.reserved)
    (hshut : id ∉ state.closed) (hlis : id ∉ state.listeners) :
    Accounted { state with
      closed := insert id state.closed
      inner := { state.inner with retired := insert id state.inner.retired }
      withdrawn := insert id state.withdrawn } where
  __ := h
  called := by
    intro other hne
    exact (h.called other hne).imp_right Finset.mem_insert_of_mem
  silent := by
    intro other hmem
    rcases Finset.mem_insert.mp hmem with rfl | hmem
    · have hnone : state.deliveries other = [] := by
        by_contra hne
        exact (h.called other hne).elim hlis hshut
      exact ⟨hnone, hid, hres, fun _ => Finset.mem_insert_self _ _⟩
    · obtain ⟨hnone, hlt, hout, hkept⟩ := h.silent other hmem
      exact ⟨hnone, hlt, hout, fun hin => Finset.mem_insert_of_mem (hkept hin)⟩

/-- Every step accounts for the ids. -/
theorem Accounted.step (hseqd : Sequenced state) (heffect : Effect state state') :
    Accounted state' := by
  cases heffect with
  | quiet tracker sourceListeners nextSourceListener =>
    exact h.congr (List.Perm.refl _) rfl rfl rfl rfl rfl rfl rfl
  | emit thread tracker p hinl hseq hexact =>
    obtain ⟨hlis, hlast, hres, hshut, hlog, -, hwith, hreti, -, -⟩ := dispatch_frame { state with
        inner := { state.inner with
          tracker := tracker
          sequence := state.inner.sequence.next
          published := p.value }
        revisions := state.revisions ++ [(p.sequence, p.value)] }
        thread (.publication p)
    exact h.congr (waiting_dispatch _ thread (.publication p)) hlog hlast hres
      hlis hshut hwith hreti
  | allocate => exact h.allocate
  | subscribe thread id hres hinl => exact h.subscribe hres rfl
  | remove id => exact h.remove id
  | withdraw id hid hres hshut hlis =>
    exact h.withdraw hid hres hshut hlis
  | sources p top rest below hstk htop =>
    refine h.congr ?_ rfl rfl rfl rfl rfl rfl rfl
    rw [waiting, waiting, hstk]
    rcases htop with rfl | ⟨all, rfl⟩
    · exact List.Perm.refl _
    · exact List.Perm.refl _
  | collectListeners p below hstk =>
    refine h.congr ?_ rfl rfl rfl rfl rfl rfl rfl
    rw [waiting, waiting, hstk]
    exact List.Perm.refl _
  | callListener p id rest below hstk =>
    have hheard : state.deliveries id ≠ [] := by
      have hdue : state.due id ≠ [] := by
        rw [due, hstk, flatMap_cons, Frame.due, if_pos mem_cons_self]
        exact cons_ne_nil _ _
      obtain ⟨last, sequence, hlast, -⟩ := hseqd.leaving id hdue
      intro hnone
      rw [hnone] at hlast
      cases hlast
    refine h.call hheard rfl ?_ rfl rfl rfl rfl rfl rfl
    rw [waiting, waiting, hstk]
    rfl
  | skip hyd below hstk => exact h.skip hstk
  | hydrate hyd below hstk hreti => exact h.hydrate hstk hreti
  | finish top below hstk hset =>
    refine h.congr ?_ rfl rfl rfl rfl rfl rfl rfl
    rw [waiting, waiting, hstk, flatMap_cons, Frame.waiting_of_low (Frame.low_of_settled hset)]
    exact List.Perm.refl _
  | take next pending hstk hdrg hpend =>
    refine h.congr ?_ rfl rfl rfl rfl rfl rfl rfl
    rw [waiting, waiting, hstk, hpend, flatMap_singleton, PendingDispatch.frame_waiting]
    exact List.Perm.refl _
  | rest hstk hpend => exact h.congr (List.Perm.refl _) rfl rfl rfl rfl rfl rfl rfl

end

/-! ## Revisions -/

/-- Everything delivered or on its way is a published revision, in order. -/
structure Revised (state : Replicator) : Prop where
  current : (state.inner.sequence, state.inner.published) ∈ state.revisions
  published : ∀ revision ∈ state.carried, revision ∈ state.revisions
  ordered : ∀ id, WellOrdered state.revisions (state.deliveries id)

/-- Changes that call nobody and carry no other revision. -/
theorem Revised.congr (h : Revised state)
    (hcarried : ∀ revision ∈ state'.carried, revision ∈ state.carried)
    (hseq : state'.inner.sequence = state.inner.sequence)
    (hpubd : state'.inner.published = state.inner.published) (hlog : state'.log = state.log)
    (hrevs : state'.revisions = state.revisions) : Revised state' := by
  constructor
  case current =>
    rw [hseq, hpubd, hrevs]
    exact h.current
  case published =>
    intro revision hmem
    rw [hrevs]
    exact h.published revision (hcarried revision hmem)
  case ordered =>
    intro id
    rw [hrevs, deliveries, hlog]
    exact h.ordered id

/-- A dispatch of published revisions. -/
theorem Revised.dispatch (h : Revised state) {thread : Nat}
    (hnext : ∀ revision ∈ next.carried, revision ∈ state.revisions) :
    Revised (state.dispatch thread next) := by
  obtain ⟨-, -, -, -, hlog, hrevs, -, -, hseq, hpubd⟩ := dispatch_frame state thread next
  constructor
  case current =>
    rw [hseq, hpubd, hrevs]
    exact h.current
  case published =>
    intro revision hmem
    rw [hrevs]
    exact (mem_carried_dispatch state thread next hmem).elim (hnext revision) (h.published revision)
  case ordered =>
    intro id
    rw [hrevs, deliveries, hlog]
    exact h.ordered id

/-- A revision is published. -/
theorem Revised.publish (h : Revised state) (tracker : DeltaTracker) {p : PendingPublication}
    (hseq : p.sequence = state.inner.sequence.next) :
    Revised { state with
      inner := { state.inner with
        tracker := tracker
        sequence := state.inner.sequence.next
        published := p.value }
      revisions := state.revisions ++ [(p.sequence, p.value)] } where
  current := by
    rw [hseq]
    exact mem_append_right _ mem_cons_self
  published revision hmem := mem_append_left _ (h.published revision hmem)
  ordered id := (h.ordered id).mono (fun _ hmem => mem_append_left _ hmem)

/-- Every step keeps deliveries and what is on its way among the revisions. -/
theorem Revised.step (h : Revised state) (hseqd : Sequenced state)
    (haccounted : Accounted state) (heffect : Effect state state') : Revised state' := by
  cases heffect with
  | quiet | withdraw =>
    exact h.congr (fun _ hmem => hmem) rfl rfl rfl rfl
  | emit thread tracker p hinl hseq hexact =>
    apply (h.publish tracker hseq).dispatch
    intro revision hmem
    rw [mem_singleton.mp hmem]
    exact mem_append_right _ mem_cons_self
  | allocate | remove | rest => exact h.congr (fun _ hmem => hmem) rfl rfl rfl rfl
  | subscribe thread id hres hinl =>
    have hbase : Revised { state with reserved := state.reserved.erase id } :=
      h.congr (fun _ hmem => hmem) rfl rfl rfl rfl
    apply hbase.dispatch
    intro revision hmem
    rw [mem_singleton.mp hmem]
    exact h.current
  | sources p top rest below hstk htop =>
    refine h.congr ?_ rfl rfl rfl rfl
    intro revision hmem
    rw [carried, hstk]
    rcases htop with rfl | ⟨all, rfl⟩
    · exact hmem
    · exact hmem
  | collectListeners p below hstk =>
    refine h.congr ?_ rfl rfl rfl rfl
    intro revision hmem
    rw [carried, hstk]
    exact hmem
  | callListener p id rest below hstk =>
    have hrev : (p.sequence, p.value) ∈ state.revisions := by
      apply h.published
      rw [carried, hstk]
      exact mem_cons_self
    constructor
    case current => exact h.current
    case published =>
      intro revision hmem
      apply h.published
      rw [carried, hstk]
      exact hmem
    case ordered =>
      intro other
      rw [deliveries_log rfl]
      split_ifs with heq
      · subst heq
        have hdue : state.due id = p :: below.flatMap (Frame.due id) := by
          rw [due, hstk, flatMap_cons, Frame.due, if_pos mem_cons_self]
          rfl
        have hne : state.due id ≠ [] := by
          rw [hdue]
          exact cons_ne_nil _ _
        obtain ⟨last, sequence, hlast, hpath⟩ := hseqd.leaving id hne
        rw [hdue] at hpath
        cases hpath with
        | cons hnext _ => exact (h.ordered id).snoc hlast rfl hnext.1 hrev
      · rw [append_nil]
        exact h.ordered other
  | skip hyd below hstk =>
    refine h.congr ?_ rfl rfl rfl rfl
    intro revision hmem
    rw [carried, hstk]
    exact mem_cons_of_mem _ hmem
  | hydrate hyd below hstk hreti =>
    have hrev : (hyd.sequence, hyd.value) ∈ state.revisions := by
      apply h.published
      rw [carried, hstk]
      exact mem_cons_self
    constructor
    case current => exact h.current
    case published =>
      intro revision hmem
      apply h.published
      rw [carried, hstk]
      exact mem_cons_of_mem _ hmem
    case ordered =>
      intro other
      rw [deliveries_log rfl]
      split_ifs with heq
      · subst heq
        have hwait : hyd.id ∈ state.waiting := by
          rw [waiting, hstk]
          exact mem_cons_self
        rw [(haccounted.unheard hyd.id hwait).1]
        exact ⟨rfl, hrev, trivial⟩
      · rw [append_nil]
        exact h.ordered other
  | finish top below hstk hset =>
    refine h.congr ?_ rfl rfl rfl rfl
    intro revision hmem
    rw [carried, hstk, flatMap_cons, append_assoc]
    exact mem_append_right _ hmem
  | take next pending hstk hdrg hpend =>
    refine h.congr ?_ rfl rfl rfl rfl
    intro revision hmem
    rw [carried, hstk, hpend]
    rw [carried, flatMap_singleton, PendingDispatch.frame_carried] at hmem
    exact hmem

/-! ## Runs -/

theorem accounted_new (initial : JsonValue) : Accounted (Replicator.new initial) where
  nodup := nodup_nil
  unheard := nofun
  allocated := nofun
  fresh _ _ := rfl
  called _ hne := absurd rfl hne
  silent := nofun

theorem revised_new (initial : JsonValue) : Revised (Replicator.new initial) where
  current := mem_cons_self
  published := nofun
  ordered _ := trivial

section

variable [SerdeJson]

variable {state : Replicator}

/-- The three invariants hold along every orderly run. -/
theorem run_consistent {initial : JsonValue} (h : (replicator initial).Run Orderly state) :
    Sequenced state ∧ Accounted state ∧ Revised state := by
  apply h.invariant
  · rintro state rfl
    exact ⟨sequenced_new initial, accounted_new initial, revised_new initial⟩
  · rintro state state' event ⟨hseqd, haccounted, hrevised⟩ hord hstep
    have heffect := step_effect hord hstep
    refine ⟨hseqd.step ?_ heffect, haccounted.step hseqd heffect,
      hrevised.step hseqd haccounted heffect⟩
    intro id hid
    exact (haccounted.unheard id hid).1

/-- Along an orderly run a listener's first delivery is a hydration under its
published revision, every later one is an update with the next sequence, and a
listener withdrawn before its hydration was dispatched is never called. -/
theorem subscriber_order (initial : JsonValue) (state : Replicator)
    (h : (replicator initial).Run Orderly state) (id : Nat) :
    WellOrdered state.revisions (state.deliveries id) ∧
      (id ∈ state.withdrawn → state.deliveries id = []) := by
  obtain ⟨-, haccounted, hrevised⟩ := run_consistent h
  refine ⟨hrevised.ordered id, ?_⟩
  intro hid
  exact (haccounted.silent id hid).1

/-- A check for orderly steps on which no callback publishes or jumps the queue. -/
def orderlyCheck (state : Replicator) : Event → Bool
  | .publish thread => state.inner.flushPublication.1.isOk &&
      (decide (state.inner.sequence.toNat < 2 ^ 53) && decide (state.inner.route thread ≠ .inline))
  | .subscribe thread _ => decide (state.inner.route thread ≠ .inline)
  | _ => true

theorem orderly_of_check {event : Event} (h : state.orderlyCheck event = true) :
    state.Orderly event := by
  cases event with
  | publish thread =>
    obtain ⟨hok, hrest⟩ := Bool.and_eq_true_iff.mp h
    obtain ⟨hexact, hroute⟩ := Bool.and_eq_true_iff.mp hrest
    refine ⟨MutableInner.not_wastes_of_ok hok, fun _ => ⟨of_decide_eq_true hexact, fun hinl => ?_⟩⟩
    exact absurd hinl (of_decide_eq_true hroute)
  | subscribe thread id => exact fun hinl => absurd hinl (of_decide_eq_true h)
  | _ => trivial

/-- A callback publishes nothing: its publish, the one a subscribe makes included, has nothing to flush. -/
def SilentCallbacks (state : Replicator) : Event → Prop
  | .publish thread => state.inner.route thread = .inline →
      (state.inner.flushPublication.1.toOption.map Option.isNone) = some true
  | _ => True

def silentCheck (state : Replicator) : Event → Bool
  | .publish thread => decide (state.inner.route thread ≠ .inline) ||
      decide ((state.inner.flushPublication.1.toOption.map Option.isNone) = some true)
  | _ => true

theorem silent_of_check {event : Event} (h : state.silentCheck event = true) :
    state.SilentCallbacks event := by
  cases event with
  | publish thread =>
    intro hinl
    rcases (Bool.or_eq_true _ _).mp h with hroute | hnone
    · exact absurd hinl (of_decide_eq_true hroute)
    · exact of_decide_eq_true hnone
  | _ => trivial

end

/-- The kinds and sequences of a listener's deliveries. -/
def outline (state : Replicator) (id : Nat) : List (ReplicatedStateDeliveryKind × Nat) :=
  (state.deliveries id).map fun delivery => (delivery.kind, delivery.sequence.toNat)

theorem subscriber_order_withdrawn : ∃ state,
    (@replicator SerdeJson.integral .null).Run (@Orderly SerdeJson.integral) state ∧
      state.outline 0 = [(.hydrate, 0), (.update, 1)] ∧ 1 ∈ state.withdrawn ∧
      WellOrdered state.revisions (state.deliveries 0) ∧ state.deliveries 1 = [] := by
  have hstart : (@replicator SerdeJson.integral .null).Run (@Orderly SerdeJson.integral)
      (Replicator.new .null) := Machine.Run.start rfl
  obtain ⟨state, hrun, hstate⟩ := hstart.execute (@orderlyCheck SerdeJson.integral)
    [.publish 0, .allocate, .subscribe 0 0, .hydrate, .allocate, .subscribe 1 1, .unsubscribe 1,
      .mutate (.bool true), .publish 1, .finish, .drain, .hydrate, .drain, .collectSources,
      .collectListeners, .callListener, .finish, .drain]
    (fun state => decide (state.outline 0 = [(.hydrate, 0), (.update, 1)] ∧ 1 ∈ state.withdrawn))
    (fun _ _ => @orderly_of_check SerdeJson.integral _ _) (by decide +kernel)
  obtain ⟨houtline, hwithdrawn⟩ := of_decide_eq_true hstate
  refine ⟨state, hrun, houtline, hwithdrawn, ?_, ?_⟩
  · exact (@subscriber_order SerdeJson.integral _ state hrun 0).1
  · exact (@subscriber_order SerdeJson.integral _ state hrun 1).2 hwithdrawn

/-- While a publication of another thread is queued, a callback subscribes on the
draining thread: its hydration holds the queued revision, which is then delivered
to it again. -/
theorem inline_hydration_repeats : ∃ state,
    (@replicator SerdeJson.integral .null).Run (@SilentCallbacks SerdeJson.integral) state ∧
      state.outline 1 = [(.hydrate, 1), (.update, 1)] ∧
      ¬WellOrdered state.revisions (state.deliveries 1) := by
  have hstart : (@replicator SerdeJson.integral .null).Run (@SilentCallbacks SerdeJson.integral)
      (Replicator.new .null) := Machine.Run.start rfl
  obtain ⟨state, hrun, hstate⟩ := hstart.execute (@silentCheck SerdeJson.integral)
    [.publish 0, .allocate, .subscribe 0 0, .hydrate, .mutate (.bool true), .publish 1, .publish 0,
      .allocate, .subscribe 0 1, .hydrate, .finish, .finish, .drain, .collectSources,
      .collectListeners, .callListener, .callListener, .finish, .drain]
    (fun state => decide (state.outline 1 = [(.hydrate, 1), (.update, 1)]))
    (fun _ _ => @silent_of_check SerdeJson.integral _ _) (by decide +kernel)
  have houtline := of_decide_eq_true hstate
  refine ⟨state, hrun, houtline, ?_⟩
  intro hordered
  unfold outline at houtline
  obtain ⟨first, rest, hdeliveries, hfirst, hrest⟩ := List.map_eq_cons_iff.mp houtline
  obtain ⟨second, last, rfl, hsecond, -⟩ := List.map_eq_cons_iff.mp hrest
  rw [hdeliveries] at hordered
  obtain ⟨-, -, -, hnext, -⟩ := hordered
  rw [(Prod.mk.inj hfirst).2, (Prod.mk.inj hsecond).2] at hnext
  cases hnext

end Replicator

end PiOxidized.Service.Replicated
