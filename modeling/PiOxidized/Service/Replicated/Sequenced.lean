/-
# The invariant of an orderly run

Along an orderly run what every listener is still to be told is a path of
consecutive sequence numbers from its last delivery, and what a hydration not yet
dispatched will miss is one from its captured sequence.
-/

import PiOxidized.Math.Path
import PiOxidized.Service.Replicated.Order

namespace PiOxidized.Service.Replicated

open List Math
open Service.Delta

/-- A publication moves a reader to the next sequence. -/
def Next (sequence : JsInteger) (publication : PendingPublication) (next : JsInteger) : Prop :=
  publication.sequence.toNat = sequence.toNat + 1 ∧ next = publication.sequence

namespace Replicator

/-- What every listener is still to be told continues its deliveries. -/
structure Sequenced (state : Replicator) : Prop where
  idle : state.inner.draining = false → state.stack = [] ∧ state.inner.pending = []
  low : ∀ frame ∈ state.stack.tail, frame.low = true
  settled : ∀ frame below, state.stack = frame :: below → frame.ahead ≠ [] →
    ∀ other ∈ below, other.settled = true
  distinct : ∀ publication rest, Frame.updates publication rest ∈ state.stack → rest.Nodup
  following : ∀ id ∈ state.listeners, ∃ last, (state.deliveries id).getLast? = some last ∧
    Path Next last.sequence (state.due id ++ state.ahead) state.inner.sequence
  leaving : ∀ id, state.due id ≠ [] → ∃ last sequence,
    (state.deliveries id).getLast? = some last ∧ Path Next last.sequence (state.due id) sequence
  hydrating : ∀ hydration below, state.stack = .hydrating hydration :: below →
    Path Next hydration.sequence state.ahead state.inner.sequence
  queued : ∀ before hydration after, state.inner.pending = before ++ .hydration hydration :: after →
    Path Next hydration.sequence (after.flatMap PendingDispatch.ahead) state.inner.sequence

variable {state : Replicator} {below : List Frame}

variable {state' : Replicator} {top : Frame}

/-- Frames below the top have no publication ahead of them. -/
theorem Sequenced.ahead_below (h : Sequenced state) {frame : Frame}
    (hstk : state.stack = frame :: below) :
    below.flatMap Frame.ahead = [] := by
  rw [flatMap_eq_nil_iff]
  intro other hmem
  apply Frame.ahead_of_low
  apply h.low
  rw [hstk]
  exact hmem

/-- Changes outside the stack, the queue, the listeners and their log. -/
theorem Sequenced.congr (h : Sequenced state)
    (hdrn : state'.inner.draining = state.inner.draining)
    (hpend : state'.inner.pending = state.inner.pending)
    (hseq : state'.inner.sequence = state.inner.sequence) (hstk : state'.stack = state.stack)
    (hlis : state'.listeners = state.listeners) (hlog : state'.log = state.log) :
    Sequenced state' := by
  have hahead : state'.ahead = state.ahead := by
    rw [ahead, ahead, hstk, hpend]
  have hdue : ∀ id, state'.due id = state.due id := by
    intro id
    rw [due, due, hstk]
  have hdels : ∀ id, state'.deliveries id = state.deliveries id := by
    intro id
    rw [deliveries, deliveries, hlog]
  constructor
  case idle =>
    rw [hdrn, hstk, hpend]
    exact h.idle
  case low =>
    rw [hstk]
    exact h.low
  case settled =>
    rw [hstk]
    exact h.settled
  case distinct =>
    rw [hstk]
    exact h.distinct
  case following =>
    intro id
    rw [hlis, hdels, hdue, hahead, hseq]
    exact h.following id
  case leaving =>
    intro id
    rw [hdue, hdels]
    exact h.leaving id
  case hydrating =>
    rw [hstk, hahead, hseq]
    exact h.hydrating
  case queued =>
    rw [hpend, hseq]
    exact h.queued

/-- The top frame is replaced by one that calls nobody in between. -/
theorem Sequenced.replace_top (h : Sequenced state) {top' : Frame}
    (hstk : state.stack = top :: below) (hahead : top'.ahead = top.ahead)
    (hdue : ∀ id, top'.due id = top.due id)
    (hdist : ∀ p rest, top' ≠ .updates p rest)
    (hhydrating : ∀ hyd, top' ≠ .hydrating hyd)
    (hdrn : state.inner.draining = true) :
    Sequenced { state with stack := top' :: below } := by
  have hsame : ({ state with stack := top' :: below } : Replicator).ahead = state.ahead := by
    rw [ahead, ahead, hstk, flatMap_cons, flatMap_cons, hahead]
  have hdues : ∀ id, ({ state with stack := top' :: below } : Replicator).due id =
      state.due id := by
    intro id
    rw [due, due, hstk, flatMap_cons, flatMap_cons, hdue]
  constructor
  case idle =>
    intro hidle
    rw [hdrn] at hidle
    cases hidle
  case low =>
    intro frame hmem
    apply h.low
    rw [hstk]
    exact hmem
  case settled =>
    intro frame other heq hne
    obtain ⟨rfl, rfl⟩ := cons.inj heq
    apply h.settled top _ hstk
    rw [← hahead]
    exact hne
  case distinct =>
    intro p rest hmem
    rcases mem_cons.mp hmem with heq | hmem
    · exact absurd heq.symm (hdist p rest)
    · apply h.distinct p
      rw [hstk]
      exact mem_cons_of_mem _ hmem
  case following =>
    intro id hid
    rw [hdues, hsame]
    exact h.following id hid
  case leaving =>
    intro id
    rw [hdues]
    exact h.leaving id
  case hydrating =>
    intro hyd other heq
    exact absurd (cons.inj heq).1 (hhydrating hyd)
  case queued => exact h.queued

/-- The top frame, which has nothing left to call, is taken off. -/
theorem Sequenced.pop (h : Sequenced state) (hstk : state.stack = top :: below)
    (hahead : top.ahead = []) (hdue : ∀ id, top.due id = [])
    (hdrn : state.inner.draining = true) :
    Sequenced { state with stack := below } := by
  have hlow : ∀ frame ∈ below, frame.low = true := by
    intro frame hmem
    apply h.low
    rw [hstk]
    exact hmem
  have hsame : ({ state with stack := below } : Replicator).ahead = state.ahead := by
    rw [ahead, ahead, hstk, flatMap_cons, hahead, nil_append]
  have hdues : ∀ id, ({ state with stack := below } : Replicator).due id = state.due id := by
    intro id
    rw [due, due, hstk, flatMap_cons, hdue, nil_append]
  constructor
  case idle =>
    intro hidle
    rw [hdrn] at hidle
    cases hidle
  case low =>
    intro frame hmem
    exact hlow frame (mem_of_mem_tail hmem)
  case settled =>
    intro frame other heq hne
    obtain rfl : below = frame :: other := heq
    exact absurd (Frame.ahead_of_low (hlow frame mem_cons_self)) hne
  case distinct =>
    intro p rest hmem
    apply h.distinct p
    rw [hstk]
    exact mem_cons_of_mem _ hmem
  case following =>
    intro id hid
    rw [hdues, hsame]
    exact h.following id hid
  case leaving =>
    intro id
    rw [hdues]
    exact h.leaving id
  case hydrating =>
    intro hyd other heq
    obtain rfl : below = .hydrating hyd :: other := heq
    cases hlow _ mem_cons_self
  case queued => exact h.queued

/-! ## Preservation -/

variable {p : PendingPublication}

section

variable (h : Sequenced state)

include h

/-- A stack with a frame on it is being drained. -/
theorem Sequenced.draining (hstk : state.stack = top :: below) : state.inner.draining = true := by
  cases hdrn : state.inner.draining with
  | true => rfl
  | false =>
    have hnil := (h.idle hdrn).1
    rw [hstk] at hnil
    cases hnil

/-- A dispatch put on top of the stack. -/
theorem Sequenced.push {inner : MutableInner} {frame : Frame} {added : List PendingPublication}
    (hahead : frame.ahead = added) (hdrn : inner.draining = true)
    (hpend : inner.pending = state.inner.pending)
    (hlow : ∀ other ∈ state.stack, other.low = true)
    (hset : added ≠ [] → ∀ other ∈ state.stack, other.settled = true)
    (hjump : state.inner.pending.flatMap PendingDispatch.ahead = [])
    (hdue : ∀ id, frame.due id = []) (hpath : Path Next state.inner.sequence added inner.sequence)
    (hhydrating : ∀ hyd, frame = .hydrating hyd → hyd.sequence = state.inner.sequence)
    (hdist : ∀ p rest, frame ≠ .updates p rest)
    (hwait : ∀ pre hyd after, state.inner.pending = pre ++ .hydration hyd :: after → added = []) :
    Sequenced { state with inner := inner, stack := frame :: state.stack } := by
  have hnone : state.stack.flatMap Frame.ahead = [] := by
    rw [flatMap_eq_nil_iff]
    intro other hmem
    exact Frame.ahead_of_low (hlow other hmem)
  have hold : state.ahead = [] := by
    rw [ahead, hnone, hjump, nil_append]
  have hnew : ({ state with inner := inner, stack := frame :: state.stack } : Replicator).ahead =
      added := by
    rw [ahead, flatMap_cons, hnone, hahead, hpend, hjump, append_nil, append_nil]
  have hdues : ∀ id, ({ state with inner := inner, stack := frame :: state.stack } :
      Replicator).due id = state.due id := by
    intro id
    rw [due, due, flatMap_cons, hdue, nil_append]
  constructor
  case idle =>
    intro hidle
    rw [hdrn] at hidle
    cases hidle
  case low => exact hlow
  case settled =>
    intro other below heq hne
    obtain ⟨rfl, rfl⟩ := cons.inj heq
    apply hset
    rw [← hahead]
    exact hne
  case distinct =>
    intro p rest hmem
    rcases mem_cons.mp hmem with heq | hmem
    · exact absurd heq.symm (hdist p rest)
    · exact h.distinct p rest hmem
  case following =>
    intro id hid
    obtain ⟨last, hlast, hfollow⟩ := h.following id hid
    refine ⟨last, hlast, ?_⟩
    rw [hold, append_nil] at hfollow
    rw [hdues, hnew]
    exact hfollow.append hpath
  case leaving =>
    intro id
    rw [hdues]
    exact h.leaving id
  case hydrating =>
    intro hyd below heq
    rw [hnew, hhydrating hyd (cons.inj heq).1]
    exact hpath
  case queued =>
    intro pre hyd after heq
    rw [hpend] at heq
    have hpast := h.queued pre hyd after heq
    rw [hwait pre hyd after heq] at hpath
    have hboth := hpast.append hpath
    rw [append_nil] at hboth
    exact hboth

/-- A dispatch put at the end of the queue. -/
theorem Sequenced.queue (inner : MutableInner) (next : PendingDispatch)
    (hdrn : inner.draining = true) (hpend : inner.pending = state.inner.pending ++ [next])
    (hpath : Path Next state.inner.sequence next.ahead inner.sequence)
    (hhydration : ∀ hyd, next = .hydration hyd →
      hyd.sequence = state.inner.sequence) : Sequenced { state with inner := inner } := by
  have hnew : ({ state with inner := inner } : Replicator).ahead = state.ahead ++ next.ahead := by
    rw [ahead, ahead, hpend, flatMap_append, append_assoc, flatMap_cons, flatMap_nil, append_nil]
  refine { h with
      idle := ?idle, following := ?following, hydrating := ?hydrating, queued := ?queued }
  case idle =>
    intro hidle
    rw [hdrn] at hidle
    cases hidle
  case following =>
    intro id hid
    obtain ⟨last, hlast, hfollow⟩ := h.following id hid
    refine ⟨last, hlast, ?_⟩
    rw [hnew, ← append_assoc]
    exact hfollow.append hpath
  case hydrating =>
    intro hyd below heq
    rw [hnew]
    exact (h.hydrating hyd below heq).append hpath
  case queued =>
    intro pre hyd after heq
    rw [hpend] at heq
    -- The entry found is either an older one or the new one itself.
    rcases append_eq_append_iff.mp heq with ⟨between, hpre, hnext⟩ | ⟨between, hold, hnext⟩
    · cases between with
      | nil =>
        obtain ⟨rfl, rfl⟩ := cons.inj hnext
        rw [hhydration hyd rfl]
        exact hpath
      | cons first between =>
        have hnil := (cons.inj hnext).2
        exact absurd hnil.symm (append_ne_nil_of_right_ne_nil _ (cons_ne_nil _ _))
    · cases between with
      | nil =>
        obtain ⟨rfl, rfl⟩ := cons.inj hnext
        rw [hhydration hyd rfl]
        exact hpath
      | cons first between =>
        obtain ⟨rfl, haft⟩ := cons.inj hnext
        rw [haft, append_eq, flatMap_append, flatMap_cons, flatMap_nil, append_nil]
        exact (h.queued pre hyd between hold).append hpath

/-- A publication leaves the lock. -/
theorem Sequenced.emit {thread : Nat} {tracker : DeltaTracker}
    (hinl : state.inner.route thread = .inline →
      state.inner.pending = [] ∧ ∀ frame ∈ state.stack, frame.settled = true)
    (hseq : p.sequence = state.inner.sequence.next)
    (hexact : state.inner.sequence.toNat < 2 ^ 53) :
    Sequenced ({ state with
      inner := { state.inner with
        tracker := tracker
        sequence := state.inner.sequence.next
        published := p.value }
      revisions := state.revisions ++ [(p.sequence, p.value)]
      : Replicator }.dispatch thread (.publication p)) := by
  have hpath : Path Next state.inner.sequence [p] state.inner.sequence.next := by
    refine .cons ⟨?_, hseq.symm⟩ .nil
    rw [hseq]
    exact JsInteger.toNat_next hexact
  have honto : state.inner.pending = [] → (∀ frame ∈ state.stack, frame.settled = true) →
      ∀ inner : MutableInner, inner.draining = true → inner.pending = state.inner.pending →
      inner.sequence = state.inner.sequence.next →
      Sequenced { state with inner := inner, stack := .publication p :: state.stack } := by
    intro hemp hset inner hdrn hpend hadvd
    apply h.push rfl hdrn hpend
    · intro other hmem
      exact Frame.low_of_settled (hset other hmem)
    · intro _
      exact hset
    · rw [hemp]
      rfl
    · intro id
      rfl
    · rw [hadvd]
      exact hpath
    · nofun
    · nofun
    · intro pre hyd after heq
      rw [hemp] at heq
      exact absurd heq.symm (append_ne_nil_of_right_ne_nil _ (cons_ne_nil _ _))
  cases hroute : state.inner.route thread with
  | start =>
    obtain ⟨hstk, hemp⟩ := h.idle (route_start hroute)
    have hset : ∀ frame ∈ state.stack, frame.settled = true := by
      rw [hstk]
      nofun
    rw [dispatch_start (by exact hroute)]
    exact (honto hemp hset { state.inner with
        sequence := state.inner.sequence.next
        draining := true } rfl rfl rfl).congr rfl rfl rfl rfl rfl rfl
  | inline =>
    obtain ⟨hemp, hset⟩ := hinl hroute
    have hdrn : state.inner.draining = true := route_draining (by rw [hroute]; nofun)
    rw [dispatch_inline (by exact hroute)]
    exact (honto hemp hset
      { state.inner with sequence := state.inner.sequence.next } hdrn rfl rfl).congr
      rfl rfl rfl rfl rfl rfl
  | queued =>
    have hdrn : state.inner.draining = true := route_draining (by rw [hroute]; nofun)
    rw [dispatch_queued (by exact hroute)]
    exact (h.queue { state.inner with
      sequence := state.inner.sequence.next
      pending := state.inner.pending ++ [.publication p] }
      (.publication p) hdrn rfl hpath nofun).congr rfl rfl rfl rfl rfl rfl

/-- A hydration leaves the lock. -/
theorem Sequenced.subscribe {thread id : Nat} (hinl : state.inner.route thread = .inline →
      state.ahead = [] ∧ state.stack.head?.any Frame.calling = true) :
    Sequenced ({ state with reserved := state.reserved.erase id : Replicator }.dispatch
      thread (.hydration ⟨id, state.inner.published, state.inner.sequence⟩)) := by
  have honto : state.inner.pending.flatMap PendingDispatch.ahead = [] →
      (∀ frame ∈ state.stack, frame.low = true) →
      ∀ inner : MutableInner, inner.draining = true → inner.pending = state.inner.pending →
      inner.sequence = state.inner.sequence →
      Sequenced { state with
        inner := inner
        stack := .hydrating ⟨id, state.inner.published, state.inner.sequence⟩ :: state.stack } := by
    intro hjump hlow inner hdrn hpend hsame
    apply h.push rfl hdrn hpend hlow _ hjump
    · intro other
      rfl
    · rw [hsame]
      exact .nil
    · intro hyd heq
      cases heq
      rfl
    · nofun
    · intros
      rfl
    · intro hne
      exact absurd rfl hne
  cases hroute : state.inner.route thread with
  | start =>
    obtain ⟨hstk, hemp⟩ := h.idle (route_start hroute)
    have hlow : ∀ frame ∈ state.stack, frame.low = true := by
      rw [hstk]
      nofun
    have hjump : state.inner.pending.flatMap PendingDispatch.ahead = [] := by
      rw [hemp]
      rfl
    rw [dispatch_start (by exact hroute)]
    exact (honto hjump hlow { state.inner with draining := true } rfl rfl rfl).congr
      rfl rfl rfl rfl rfl rfl
  | inline =>
    obtain ⟨hahead, hcalling⟩ := hinl hroute
    obtain ⟨hnone, hjump⟩ := append_eq_nil_iff.mp hahead
    have hlow : ∀ frame ∈ state.stack, frame.low = true := by
      cases hstk : state.stack with
      | nil => nofun
      | cons top below =>
        rw [hstk] at hcalling hnone
        have hbelow := h.low
        rw [hstk] at hbelow
        have htop : top.low = true := by
          rw [flatMap_cons] at hnone
          cases top with
          | publication | hydrating => cases hcalling
          | sources p rest => cases hnone
          | updates | hydrated => rfl
        intro frame hmem
        rcases mem_cons.mp hmem with rfl | hmem
        · exact htop
        · exact hbelow frame hmem
    have hdrn : state.inner.draining = true := route_draining (by rw [hroute]; nofun)
    rw [dispatch_inline (by exact hroute)]
    exact (honto hjump hlow state.inner hdrn rfl rfl).congr rfl rfl rfl rfl rfl rfl
  | queued =>
    have hdrn : state.inner.draining = true := route_draining (by rw [hroute]; nofun)
    have hcur : ∀ hyd, PendingDispatch.hydration
        ⟨id, state.inner.published, state.inner.sequence⟩ = .hydration hyd →
        hyd.sequence = state.inner.sequence := by
      intro hyd heq
      cases heq
      rfl
    rw [dispatch_queued (by exact hroute)]
    exact (h.queue { state.inner with
      pending := state.inner.pending ++
        [.hydration ⟨id, state.inner.published, state.inner.sequence⟩] }
      _ hdrn rfl .nil hcur).congr rfl rfl rfl rfl rfl rfl

/-- The listeners of a publication are collected. -/
theorem Sequenced.collectListeners (hstk : state.stack = .sources p [] :: below) :
    Sequenced { state with stack := .updates p (keys state.listeners) :: below } := by
  have hnone := h.ahead_below hstk
  have hdrn := h.draining hstk
  have hquiet : ∀ id, below.flatMap (Frame.due id) = [] := by
    intro id
    rw [flatMap_eq_nil_iff]
    intro other hmem
    apply Frame.due_of_settled
    exact h.settled _ _ hstk (cons_ne_nil _ _) other hmem
  have hold : state.ahead = p :: state.inner.pending.flatMap PendingDispatch.ahead := by
    rw [ahead, hstk, flatMap_cons, hnone]
    rfl
  have hnew : ({ state with stack := .updates p (keys state.listeners) :: below } :
      Replicator).ahead = state.inner.pending.flatMap PendingDispatch.ahead := by
    rw [ahead, flatMap_cons, hnone]
    rfl
  have hpre : ∀ id, state.due id = [] := by
    intro id
    rw [due, hstk, flatMap_cons, hquiet]
    rfl
  have hdues : ∀ id, ({ state with stack := .updates p (keys state.listeners) :: below } :
      Replicator).due id = if id ∈ state.listeners then [p] else [] := by
    intro id
    rw [due, flatMap_cons, hquiet, append_nil, Frame.due]
    simp only [mem_keys]
  -- A collected listener is led on by the p it has just become due.
  have hmove : ∀ id ∈ state.listeners, ∃ last, (state.deliveries id).getLast? = some last ∧
      Path Next last.sequence (p :: state.inner.pending.flatMap PendingDispatch.ahead)
        state.inner.sequence := by
    intro id hid
    obtain ⟨last, hlast, hfollow⟩ := h.following id hid
    rw [hpre, hold, nil_append] at hfollow
    exact ⟨last, hlast, hfollow⟩
  constructor
  case idle =>
    intro hidle
    rw [hdrn] at hidle
    cases hidle
  case low =>
    intro frame hmem
    apply h.low
    rw [hstk]
    exact hmem
  case settled =>
    intro frame other heq hne
    obtain ⟨rfl, rfl⟩ := cons.inj heq
    exact absurd rfl hne
  case distinct =>
    intro other rest hmem
    rcases mem_cons.mp hmem with heq | hmem
    · cases heq
      exact nodup_keys _
    · apply h.distinct other
      rw [hstk]
      exact mem_cons_of_mem _ hmem
  case following =>
    intro id hid
    obtain ⟨last, hlast, hpath⟩ := hmove id hid
    refine ⟨last, hlast, ?_⟩
    rw [hdues, hnew, if_pos hid]
    exact hpath
  case leaving =>
    intro id
    rw [hdues]
    split_ifs with hid
    · intro _
      obtain ⟨last, hlast, hpath⟩ := hmove id hid
      cases hpath with
      | cons hnext _ => exact ⟨last, _, hlast, .cons hnext .nil⟩
    · intro hne
      exact absurd rfl hne
  case hydrating =>
    intro hyd other heq
    cases (cons.inj heq).1
  case queued => exact h.queued

/-- A collected listener is called. -/
theorem Sequenced.callListener {called : Nat} {rest : List Nat}
    (hstk : state.stack = .updates p (called :: rest) :: below) :
    Sequenced { state with
      stack := .updates p rest :: below
      log := state.log ++ [(called, ⟨.update, p.sequence, p.value⟩)] } := by
  have hdrn := h.draining hstk
  have hnodup : (called :: rest).Nodup := by
    apply h.distinct p
    rw [hstk]
    exact mem_cons_self
  obtain ⟨hnotin, hrest⟩ := nodup_cons.mp hnodup
  have hahead : state.ahead = ({ state with
      stack := .updates p rest :: below
      log := state.log ++ [(called, ⟨.update, p.sequence, p.value⟩)] } :
      Replicator).ahead := by
    rw [ahead, ahead, hstk]
    rfl
  have hcalled : state.due called = p :: below.flatMap (Frame.due called) := by
    rw [due, hstk, flatMap_cons, Frame.due, if_pos mem_cons_self]
    rfl
  have haft : ({ state with
      stack := .updates p rest :: below
      log := state.log ++ [(called, ⟨.update, p.sequence, p.value⟩)] } :
      Replicator).due called = below.flatMap (Frame.due called) := by
    rw [due, flatMap_cons, Frame.due, if_neg hnotin, nil_append]
  have hsame : ∀ id, called ≠ id → ({ state with
      stack := .updates p rest :: below
      log := state.log ++ [(called, ⟨.update, p.sequence, p.value⟩)] } :
      Replicator).due id = state.due id := by
    intro id hne
    rw [due, due, hstk, flatMap_cons, flatMap_cons, Frame.due, Frame.due]
    simp only [mem_cons, Ne.symm hne, false_or]
  constructor
  case idle =>
    intro hidle
    rw [hdrn] at hidle
    cases hidle
  case low =>
    intro frame hmem
    apply h.low
    rw [hstk]
    exact hmem
  case settled =>
    intro frame other heq hne
    obtain ⟨rfl, rfl⟩ := cons.inj heq
    exact absurd rfl hne
  case distinct =>
    intro other left hmem
    rcases mem_cons.mp hmem with heq | hmem
    · cases heq
      exact hrest
    · apply h.distinct other
      rw [hstk]
      exact mem_cons_of_mem _ hmem
  case following =>
    intro id hid
    obtain ⟨last, hlast, hpath⟩ := h.following id hid
    rw [← hahead, deliveries_log rfl]
    by_cases heq : called = id
    · subst heq
      rw [hcalled] at hpath
      rw [haft, if_pos rfl]
      cases hpath with
      | cons hnext hpath =>
        rw [hnext.2] at hpath
        exact ⟨_, getLast?_concat, hpath⟩
    · rw [hsame id heq, if_neg heq, append_nil]
      exact ⟨last, hlast, hpath⟩
  case leaving =>
    intro id hne
    rw [deliveries_log rfl]
    by_cases heq : called = id
    · subst heq
      obtain ⟨last, sequence, hlast, hpath⟩ := h.leaving called (by rw [hcalled]; nofun)
      rw [hcalled] at hpath
      rw [haft, if_pos rfl]
      cases hpath with
      | cons hnext hpath =>
        rw [hnext.2] at hpath
        exact ⟨_, sequence, getLast?_concat, hpath⟩
    · rw [hsame id heq] at hne ⊢
      rw [if_neg heq, append_nil]
      exact h.leaving id hne
  case hydrating =>
    intro hyd other heq
    cases (cons.inj heq).1
  case queued => exact h.queued

/-- A listener that has not been called before is hydrated. -/
theorem Sequenced.hydrate {hyd : PendingHydration} (hstk : state.stack = .hydrating hyd :: below)
    (hfrs : state.deliveries hyd.id = []) :
    Sequenced { state with
      listeners := insert hyd.id state.listeners
      stack := .hydrated :: below
      log := state.log ++ [(hyd.id, ⟨.hydrate, hyd.sequence, hyd.value⟩)] } := by
  have hbase : Sequenced { state with stack := .hydrated :: below } :=
    h.replace_top hstk rfl (fun _ => rfl) nofun nofun (h.draining hstk)
  have hnot : state.due hyd.id = [] := by
    by_contra hne
    obtain ⟨last, sequence, hlast, -⟩ := h.leaving hyd.id hne
    rw [hfrs] at hlast
    cases hlast
  have hdues : ∀ id, ({ state with stack := .hydrated :: below } : Replicator).due id =
      state.due id := by
    intro id
    rw [due, due, hstk]
    rfl
  have hahead : ({ state with stack := .hydrated :: below } : Replicator).ahead = state.ahead := by
    rw [ahead, ahead, hstk]
    rfl
  have hpath := h.hydrating hyd below hstk
  refine { hbase with following := ?following, leaving := ?leaving }
  case following =>
    intro id hid
    rw [deliveries_log rfl]
    by_cases heq : hyd.id = id
    · subst heq
      rw [if_pos rfl]
      refine ⟨_, getLast?_concat, ?_⟩
      change Path Next _ (({ state with stack := .hydrated :: below } : Replicator).due _ ++
        ({ state with stack := .hydrated :: below } : Replicator).ahead) _
      rw [hdues, hahead, hnot]
      exact hpath
    · rw [if_neg heq, append_nil]
      apply hbase.following
      exact (Finset.mem_insert.mp hid).resolve_left (Ne.symm heq)
  case leaving =>
    intro id hne
    rw [deliveries_log rfl]
    by_cases heq : hyd.id = id
    · subst heq
      exact absurd ((hdues _).trans hnot) hne
    · rw [if_neg heq, append_nil]
      exact hbase.leaving id hne

/-- The next queue entry is taken. -/
theorem Sequenced.take {next : PendingDispatch} {pend : List PendingDispatch}
    (hstk : state.stack = []) (hdrn : state.inner.draining = true)
    (hpend : state.inner.pending = next :: pend) :
    Sequenced { state with
      inner := { state.inner with pending := pend }
      stack := [next.frame] } := by
  have hahead : ({ state with
      inner := { state.inner with pending := pend }
      stack := [next.frame] } : Replicator).ahead = state.ahead := by
    rw [ahead, ahead, hstk, hpend]
    cases next with
    | publication | hydration => rfl
  have hdues : ∀ id, ({ state with
      inner := { state.inner with pending := pend }
      stack := [next.frame] } : Replicator).due id = state.due id := by
    intro id
    rw [due, due, hstk]
    cases next with
    | publication | hydration => rfl
  constructor
  case idle =>
    intro hidle
    rw [hdrn] at hidle
    cases hidle
  case low => nofun
  case settled =>
    intro frame below heq _
    obtain ⟨-, rfl⟩ := cons.inj heq
    nofun
  case distinct =>
    intro publication rest hmem
    cases next with
    | publication | hydration => cases mem_singleton.mp hmem
  case following =>
    intro id hid
    rw [hdues, hahead]
    exact h.following id hid
  case leaving =>
    intro id
    rw [hdues]
    exact h.leaving id
  case hydrating =>
    intro hydration below heq
    rw [hahead]
    cases next with
    | publication publication => cases (cons.inj heq).1
    | hydration captured =>
      cases (cons.inj heq).1
      have hpath := h.queued [] hydration pend hpend
      rw [ahead, hstk, hpend]
      exact hpath
  case queued =>
    intro pre hydration after heq
    apply h.queued (next :: pre)
    rw [hpend]
    exact congrArg _ heq

/-- Listeners may be removed at any time. -/
theorem Sequenced.remove {listeners : Finset Nat} (hsub : ∀ id ∈ listeners, id ∈ state.listeners) :
    Sequenced { state with listeners := listeners } where
  __ := h
  following id hid := h.following id (hsub id hid)

/-- Every step keeps the order, given that a listener about to be hydrated has not been called. -/
theorem Sequenced.step (hfrs : ∀ id ∈ state.waiting, state.deliveries id = [])
    (heffect : Effect state state') : Sequenced state' := by
  cases heffect with
  | quiet | allocate | withdraw => exact h.congr rfl rfl rfl rfl rfl rfl
  | emit thread tracker p hinl hseq hexact =>
    exact h.emit hinl hseq hexact
  | subscribe thread id hresd hinl => exact h.subscribe hinl
  | remove id =>
    have hsub : ∀ other ∈ state.listeners.erase id, other ∈ state.listeners := by
      intro other hmem
      exact Finset.mem_of_mem_erase hmem
    exact (h.remove hsub).congr rfl rfl rfl rfl rfl rfl
  | sources p top rest below hstk htop =>
    rcases htop with rfl | ⟨all, rfl⟩
    · exact h.replace_top hstk rfl (fun _ => rfl) nofun nofun (h.draining hstk)
    · exact h.replace_top hstk rfl (fun _ => rfl) nofun nofun (h.draining hstk)
  | collectListeners p below hstk => exact h.collectListeners hstk
  | callListener p id rest below hstk => exact h.callListener hstk
  | skip hyd below hstk =>
    have hpop := h.pop hstk rfl (fun _ => rfl) (h.draining hstk)
    exact hpop.congr rfl rfl rfl rfl rfl rfl
  | hydrate hyd below hstk hreti =>
    apply h.hydrate hstk
    apply hfrs
    rw [waiting, hstk]
    exact mem_cons_self
  | finish top below hstk hset =>
    apply h.pop hstk (Frame.ahead_of_low (Frame.low_of_settled hset))
      (Frame.due_of_settled hset) (h.draining hstk)
  | take next pend hstk hdrn hpend => exact h.take hstk hdrn hpend
  | rest hstk hpend =>
    exact { h with idle := fun _ => ⟨hstk, hpend⟩ }

end

theorem sequenced_new (initial : JsonValue) : Sequenced (Replicator.new initial) where
  idle _ := ⟨rfl, rfl⟩
  low := nofun
  settled := nofun
  distinct := nofun
  following := nofun
  leaving _ hne := absurd rfl hne
  hydrating := nofun
  queued _ _ _ heq := absurd heq.symm (append_ne_nil_of_right_ne_nil _ (cons_ne_nil _ _))

end Replicator

end PiOxidized.Service.Replicated
