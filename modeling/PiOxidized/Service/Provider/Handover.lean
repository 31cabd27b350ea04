/-
# Snapshot and updates

A subscriber's snapshot of a member, then everything handed to it for the member,
then what the member has published but not emitted, is a path of consecutive
batches to the member's current revision.  The snapshot starts such a path when
nothing unemitted is already part of the revision it reads and when its two reads
see the same revision; neither is ensured by the provider lock, under which a
publication can take its sequence and wait for its emission.  What is handed over is
delivered in order as long as an update that a thread is to deliver at once does not
meet another one of its member that the subscriber has still to receive.
-/

import PiOxidized.Service.Provider.Deliveries

namespace PiOxidized.Service.Provider

open List Math
open Option hiding sequence
open Service.Delta
open Service.Replicated

section

variable [SerdeJson]

/-- A base batch from which batches lead to a revision. -/
def Based (base : Batch) (following : List Batch) (revision : Revision) : Prop :=
  ∃ value, base.2 = [.replace value] ∧ value.isJsonValue = true ∧
    Path Moves (base.1, value) following revision

/-- Fewer batches lead to an earlier revision. -/
theorem Based.split {base : Batch} {first second : List Batch} {revision : Revision}
    (h : Based base (first ++ second) revision) : ∃ early, Based base first early := by
  obtain ⟨value, hbase, hjson, hpath⟩ := h
  obtain ⟨early, hfst, -⟩ := hpath.split
  exact ⟨early, value, hbase, hjson, hfst⟩

namespace Host

/-- No publish of a member is unsteady, a batch is emitted when no update of its member is still to
be delivered at once and is delivered at once when nothing of its member is undelivered, a snapshot
reads a sequence when nothing is unemitted, and the sequence has not changed when it reads the
value. -/
def HandsOver (host : Host) : HostEvent → Prop
  | .member index event => ∀ state : Replicator, host.members[index]? = some state →
      state.Steady source event ∧ ∀ thread, event = .callSource →
        state.inner.drainingThread = some thread → (state.emitting source).isSome = true →
        ∀ (place : Nat) (subscriber : Subscriber), host.subscribers[place]? = some subscriber →
          subscriber.closed = false → batches index (host.immediates place) = [] ∧
            (subscriber.immediate thread = true → subscriber.outstanding index = [])
  | .readSequence => ∀ captured (state : Replicator), host.opening = some ⟨captured, none⟩ →
      host.members[captured.length]? = some state → state.unemitted source = []
  | .readValue => ∀ captured sequence (state : Replicator),
      host.opening = some ⟨captured, some sequence⟩ →
      host.members[captured.length]? = some state → state.inner.sequence = sequence
  | _ => True

/-- The snapshot of a subscriber leads with what was handed over and what is unemitted to the
current revision, and an update that is to be delivered at once is the only one of its member that
was not delivered. -/
structure Tracks (members : List Replicator) (immediates : List StateUpdate)
    (subscriber : Subscriber) : Prop where
  current : subscriber.closed = false →
    ∀ (index : Nat) (base : Batch) (state : Replicator), subscriber.snapshot[index]? = some base →
    members[index]? = some state →
    Based base (subscriber.handed immediates index ++ state.unemitted source) state.revision
  past : ∀ (index : Nat) base, subscriber.snapshot[index]? = some base →
    ∃ revision, Based base (subscriber.handed immediates index) revision
  complete : subscriber.snapshot.length = members.length
  alone : ∀ index, batches index immediates = [] ∨
    (∃ batch, batches index immediates = [batch]) ∧ subscriber.outstanding index = []

/-- Every snapshot, with what was handed over and what is unemitted, leads to the
current revision. -/
structure Served (host : Host) : Prop where
  sourced : ∀ (index : Nat) state, host.members[index]? = some state → state.Sourced source
  captured : ∀ opening, host.opening = some opening →
    ∀ (index : Nat) (base : Batch) (state : Replicator), opening.captured[index]? = some base →
    host.members[index]? = some state →
    Based base (state.unemitted source) state.revision
  reading : ∀ opening sequence, host.opening = some opening → opening.reading = some sequence →
    ∀ state : Replicator, host.members[opening.captured.length]? = some state →
    ∃ value, Path Moves (sequence, value) (state.unemitted source) state.revision
  tracks : ∀ (place : Nat) subscriber, host.subscribers[place]? = some subscriber →
    Tracks host.members (host.immediates place) subscriber
  known : ∀ place, host.subscribers.length ≤ place → host.immediates place = []

theorem served_new {initials : List JsonValue}
    (h : ∀ initial ∈ initials, initial.isJsonValue = true) : Served (Host.new initials) where
  sourced i state hstate := by
    obtain ⟨initial, hmem, rfl⟩ := mem_map.mp (mem_of_getElem? hstate)
    exact ⟨fun _ => ⟨rfl, rfl⟩, Finset.mem_singleton_self _, nofun, h initial hmem⟩
  captured := nofun
  reading := nofun
  tracks := nofun
  known _ _ := rfl

/-! ## Steps of a member -/

variable {state : Replicator} {host : Host} {i : Nat}

variable {host' : Host}

variable {state' : Replicator}

section

variable (h : Served host) (hstate : host.members[i]? = some state)

include h hstate

/-- A member takes a step that emits nothing. -/
theorem Served.feed (hsourced : state'.Sourced source)
    (hfeed : Replicator.Feed source state state') :
    Served { host with members := host.members.set i state' } := by
  -- A member is the old one, or the one that stepped, whose way is continued.
  have hway : ∀ (other : Nat) current, (host.members.set i state')[other]? = some current →
      ∃ pre, host.members[other]? = some pre ∧ ∀ revision handed,
        Path Moves revision (handed ++ pre.unemitted source) pre.revision →
        Path Moves revision (handed ++ current.unemitted source) current.revision := by
    intro other current hcur
    rcases getElem?_set_cases hcur with ⟨rfl, rfl⟩ | ⟨-, hcur⟩
    · exact ⟨state, hstate, fun _ _ => hfeed.path⟩
    · exact ⟨current, hcur, fun _ _ hpath => hpath⟩
  constructor
  case sourced =>
    exact forall_set h.sourced hsourced
  case captured =>
    intro opening hopen other base current hbase hcur
    obtain ⟨pre, hpre, hpath⟩ := hway other current hcur
    obtain ⟨value, heq, hjson, hold⟩ := h.captured opening hopen other base pre hbase hpre
    exact ⟨value, heq, hjson, hpath _ [] hold⟩
  case reading =>
    intro opening seq hopen hreading current hcur
    obtain ⟨pre, hpre, hpath⟩ := hway _ current hcur
    obtain ⟨value, hold⟩ := h.reading opening seq hopen hreading pre hpre
    exact ⟨value, hpath _ [] hold⟩
  case tracks =>
    intro place sub hsub
    have htracks := h.tracks place sub hsub
    refine { htracks with current := ?_, complete := ?_ }
    · intro hshut other base current hbase hcur
      obtain ⟨pre, hpre, hpath⟩ := hway other current hcur
      obtain ⟨value, heq, hjson, hold⟩ := htracks.current hshut other base pre hbase hpre
      exact ⟨value, heq, hjson, hpath _ _ hold⟩
    · rw [htracks.complete]
      exact length_set.symm
  case known => exact h.known

omit h in
/-- A subscriber is handed the first unemitted batch of a member. -/
theorem Tracks.emit {sub : Subscriber} {immediates : List StateUpdate} {thread place : Nat}
    {p : PendingPublication} (htracks : Tracks host.members immediates sub)
    (hrev : state'.revision = state.revision)
    (hunem : state.unemitted source = p.batch :: state'.unemitted source)
    (hover : sub.closed = false → batches i immediates = [] ∧
      (sub.immediate thread = true → sub.outstanding i = [])) :
    Tracks (host.members.set i state')
      ((if sub.immediate thread = true then [⟨i, p.sequence, p.ops⟩] else []) ++ immediates)
      (sub.emit thread place ⟨i, p.sequence, p.ops⟩).1 := by
  have hshape := sub.emit_frame thread place ⟨i, p.sequence, p.ops⟩
  have hlength : sub.snapshot.length = (host.members.set i state').length := by
    rw [length_set]
    exact htracks.complete
  cases hshut : sub.closed with
  | true =>
    have hnot : sub.immediate thread = false := by simp [Subscriber.immediate, hshut]
    rw [hnot, if_neg Bool.false_ne_true, nil_append, Subscriber.emit_closed hshut]
    refine ⟨?_, htracks.past, hlength, htracks.alone⟩
    intro hopen
    rw [hshut] at hopen
    cases hopen
  | false =>
    obtain ⟨hnone, himmediate⟩ := hover hshut
    obtain ⟨hmoved, halone⟩ := sub.handed_emit place p hshut hnone himmediate
      htracks.alone
    have hcurrent : ∀ (other : Nat) (base : Batch) (current : Replicator),
        sub.snapshot[other]? = some base →
        (host.members.set i state')[other]? = some current →
        Based base ((sub.emit thread place ⟨i, p.sequence, p.ops⟩).1.handed
          ((if sub.immediate thread = true then [⟨i, p.sequence, p.ops⟩] else []) ++ immediates)
            other ++ current.unemitted source) current.revision := by
      intro other base current hbase hcur
      rw [hmoved]
      rcases getElem?_set_cases hcur with ⟨rfl, rfl⟩ | ⟨hne, hcur⟩
      · have hold := htracks.current hshut other base state hbase ‹_›
        rw [hunem] at hold
        rw [if_pos rfl, hrev, append_assoc]
        exact hold
      · rw [if_neg (Ne.symm hne), append_nil]
        exact htracks.current hshut other base current hbase hcur
    refine ⟨?_, ?_, ?_, halone⟩
    · intro _ other base current hbase hcur
      rw [hshape.2] at hbase
      exact hcurrent other base current hbase hcur
    · intro other base hbase
      rw [hshape.2] at hbase
      have hlt : other < (host.members.set i state').length := by
        rw [← hlength]
        exact (List.getElem?_eq_some_iff.mp hbase).1
      exact (hcurrent other base _ hbase (getElem?_eq_getElem hlt)).split
    · rw [hshape.2]
      exact hlength

/-- A member hands its first unemitted batch to the subscribers. -/
theorem Served.emit {thread height : Nat} {p : PendingPublication}
    (hopen : host.opening = none) (hsourced : state'.Sourced source)
    (hrev : state'.revision = state.revision)
    (hunem : state.unemitted source = p.batch :: state'.unemitted source)
    (hover : ∀ (place : Nat) sub, host.subscribers[place]? = some sub → sub.closed = false →
      batches i (host.immediates place) = [] ∧
        (sub.immediate thread = true → sub.outstanding i = [])) :
    Served ({ host with members := host.members.set i state' : Host }.emit thread height
      ⟨i, p.sequence, p.ops⟩) := by
  constructor
  case sourced =>
    exact forall_set h.sourced hsourced
  case captured =>
    intro opening hnone
    rw [show host.opening = some opening from hnone] at hopen
    cases hopen
  case reading =>
    intro opening seq hnone
    rw [show host.opening = some opening from hnone] at hopen
    cases hopen
  case tracks =>
    intro place next hnext
    have hplace : (host.subscribers.mapIdx fun place sub =>
        sub.emit thread place ⟨i, p.sequence, p.ops⟩)[place]?.map Prod.fst = some next := by
      rw [← getElem?_map]
      exact hnext
    rw [getElem?_mapIdx, Option.map_map] at hplace
    obtain ⟨sub, hsub, rfl⟩ := Option.map_eq_some_iff.mp hplace
    have himm := immediates_emit { host with members := host.members.set i state' } thread height
      ⟨i, p.sequence, p.ops⟩ place
    rw [hsub, any_some] at himm
    rw [himm]
    exact Tracks.emit hstate (h.tracks place sub hsub) hrev hunem (hover place sub hsub)
  case known =>
    intro place hle
    have hlen : host.subscribers.length ≤ place := by
      refine le_of_eq_of_le ?_ hle
      simp [Host.emit]
    rw [immediates_emit, getElem?_eq_none hlen]
    exact h.known place hlen

theorem Served.stepMember {event : Event} (hover : host.HandsOver (.member i event))
    (hstep : host.stepMember i state event = some host') : Served host' := by
  obtain ⟨hsteady, himmediate⟩ := hover state hstate
  have hsourced := h.sourced i state hstate
  have hquiet : (event = .callSource → state.emitting source = none) →
      ((state.step event).map fun next => { host with members := host.members.set i next }) =
        some host' → Served host' := by
    intro hnone hmap
    obtain ⟨next, hnext, rfl⟩ := map_eq_some_iff.mp hmap
    obtain ⟨hkept, hfeed⟩ := hsourced.step hsteady hnone hnext
    exact h.feed hstate hkept hfeed
  unfold Host.stepMember at hstep
  split_ifs at hstep with hguard
  split at hstep
  · rename_i p hemit
    split at hstep
    · rename_i thread next hopen hthread hnext
      cases hstep
      obtain ⟨hkept, hrev, hunem⟩ := hsourced.call hemit hnext
      apply h.emit hstate hopen hkept hrev hunem
      exact himmediate thread rfl hthread (by rw [hemit]; rfl)
    · cases hstep
  · rename_i hoth
    apply hquiet _ hstep
    rintro rfl
    cases hemit : state.emitting source with
    | none => rfl
    | some p => exact absurd hemit (hoth p rfl)

end

/-! ## Steps of a subscribe call -/

variable {captured : List Batch}

theorem Served.readSequence (h : Served host) (hopen : host.opening = some ⟨captured, none⟩)
    (hstate : host.members[captured.length]? = some state) (hnone : state.unemitted source = []) :
    Served { host with opening := some ⟨captured, some state.inner.sequence⟩ } := by
  refine { h with captured := ?captured, reading := ?reading }
  case captured =>
    intro opening heq
    cases heq
    exact h.captured ⟨captured, none⟩ hopen
  case reading =>
    intro opening seq heq hreading cur hcur
    cases heq
    cases hreading
    obtain rfl := some.inj (hstate.symm.trans hcur)
    refine ⟨state.inner.published, ?_⟩
    rw [hnone]
    exact .nil

theorem Served.readValue (h : Served host) {seq : JsInteger}
    (hopen : host.opening = some ⟨captured, some seq⟩)
    (hstate : host.members[captured.length]? = some state) (hsame : state.inner.sequence = seq) :
    Served { host with
      opening := some ⟨captured ++ [(seq, [.replace state.inner.published])], none⟩ } := by
  -- The sequence has not moved since it was read, so nothing was published in between.
  have hnone : state.unemitted source = [] := by
    obtain ⟨value, hpath⟩ := h.reading _ seq hopen rfl state hstate
    have hcnt := path_toNat hpath
    simp only [Replicator.revision, hsame] at hcnt
    exact eq_nil_of_length_eq_zero (by omega)
  refine { h with captured := ?captured, reading := ?reading }
  case captured =>
    intro opening heq i base cur hbase hcur
    cases heq
    rcases getElem?_append_cases hbase with hbase | ⟨rfl, rfl⟩
    · exact h.captured _ hopen i base cur hbase hcur
    · obtain rfl := some.inj (hstate.symm.trans hcur)
      refine ⟨state.inner.published, rfl, (h.sourced _ state hstate).admitted, ?_⟩
      rw [hnone, Replicator.revision, hsame]
      exact .nil
  case reading =>
    intro opening other heq hreading
    cases heq
    cases hreading

theorem Served.register (h : Served host) (hopen : host.opening = some ⟨captured, none⟩)
    (hcomp : captured.length = host.members.length) :
    Served { host with
      opening := none
      subscribers := host.subscribers ++ [Subscriber.new captured] } := by
  constructor
  case sourced => exact h.sourced
  case captured => simp
  case reading => simp
  case tracks =>
    refine forall_concat h.tracks ?_
    have hnone : host.immediates host.subscribers.length = [] := h.known _ le_rfl
    change Tracks host.members (host.immediates host.subscribers.length) _
    rw [hnone]
    refine ⟨?_, ?_, hcomp, fun _ => .inl rfl⟩
    · intro _ i base state hbase hstate
      exact h.captured _ hopen i base state hbase hstate
    · intro i base hbase
      have hlt : i < host.members.length := by
        rw [← hcomp]
        exact (List.getElem?_eq_some_iff.mp hbase).1
      obtain ⟨value, heq, hjson, -⟩ := h.captured _ hopen i base _ hbase (getElem?_eq_getElem hlt)
      exact ⟨_, value, heq, hjson, .nil⟩
  case known =>
    intro place hle
    rw [length_append] at hle
    exact h.known place (by omega)

/-! ## Steps of a subscriber -/

variable {event : HostEvent}

/-- A subscriber changes without losing or reordering what was handed to it. -/
theorem Tracks.move {members : List Replicator} {immediates rest : List StateUpdate}
    {sub next : Subscriber} (h : Tracks members immediates sub)
    (hframe : next.snapshot = sub.snapshot ∧ next.closed = sub.closed)
    (hhanded : ∀ i, next.handed rest i = sub.handed immediates i)
    (halone : ∀ i, batches i rest = [] ∨
      (∃ batch, batches i rest = [batch]) ∧ next.outstanding i = []) :
    Tracks members rest next := by
  obtain ⟨hsnap, hshut⟩ := hframe
  refine ⟨?_, ?_, ?_, halone⟩
  · intro hopen i base state hbase hstate
    rw [hhanded]
    exact h.current (hshut.symm.trans hopen) i base state (hsnap ▸ hbase) hstate
  · intro i base hbase
    rw [hhanded]
    exact h.past i base (hsnap ▸ hbase)
  · rw [hsnap]
    exact h.complete

/-- Closing drops what is in the buffer. -/
theorem Tracks.close {members : List Replicator} {immediates : List StateUpdate}
    {sub : Subscriber} (h : Tracks members immediates sub) :
    Tracks members immediates sub.close := by
  obtain ⟨hsnap, hshut, hdrops⟩ := sub.close_cases
  refine ⟨?_, ?_, ?_, ?_⟩
  · intro hopen
    rw [hshut] at hopen
    cases hopen
  · intro i base hbase
    obtain ⟨revision, hbased⟩ := h.past i base (hsnap ▸ hbase)
    obtain ⟨dropped, hdrop⟩ := (hdrops immediates i).1
    rw [hdrop] at hbased
    exact hbased.split
  · rw [hsnap]
    exact h.complete
  · intro i
    exact (h.alone i).imp id (.imp id (hdrops immediates i).2)

/-- One subscriber changes, and no delivery of another one. -/
theorem Served.change (h : Served host) {index : Nat} {next : Subscriber} {calls : List Call}
    (hlt : index < host.subscribers.length)
    (hothers : ∀ other, other ≠ index →
      ({ host with calls := calls } : Host).immediates other = host.immediates other)
    (htracks : Tracks host.members (({ host with calls := calls } : Host).immediates index) next) :
    Served { host with subscribers := host.subscribers.set index next, calls := calls } := by
  refine { h with tracks := ?_, known := ?_ }
  · intro place sub hsub
    rcases getElem?_set_cases hsub with ⟨rfl, rfl⟩ | ⟨hne, hsub⟩
    · exact htracks
    · have himm := hothers place hne
      change Tracks host.members (({ host with calls := calls } : Host).immediates place) sub
      rw [himm]
      exact h.tracks place sub hsub
  · intro place hle
    rw [length_set] at hle
    exact (hothers place (by omega)).trans (h.known place hle)

omit [SerdeJson] in
/-- The update that is delivered at once is the only one of its member that is. -/
theorem alone_split {before after : List Batch} {update : StateUpdate} {i : Nat} {rest : Prop}
    (hmember : update.member = i)
    (h : before ++ batches i [update] ++ after = [] ∨
      (∃ batch, before ++ batches i [update] ++ after = [batch]) ∧ rest) :
    before = [] ∧ after = [] := by
  have hlength : (before ++ batches i [update] ++ after).length ≤ 1 := by
    rcases h with hnil | ⟨⟨batch, hone⟩, -⟩
    · rw [hnil]
      exact Nat.zero_le 1
    · rw [hone]
      rfl
  subst hmember
  rw [length_append, length_append, show batches update.member [update] = _ from
    batches_self _ _ _, length_singleton] at hlength
  exact ⟨eq_nil_of_length_eq_zero (by omega), eq_nil_of_length_eq_zero (by omega)⟩

/-- What is delivered at once was the only undelivered update of its member. -/
theorem Served.immediate (h : Served host) {index thread : Nat} {update : StateUpdate}
    {calls : List Call} {sub : Subscriber}
    (hnext : nextDelivery thread host.calls = some (.immediate index update, calls))
    (hsub : host.subscribers[index]? = some sub) :
    Served { host with
      subscribers := host.subscribers.set index
        { sub with received := sub.received ++ [update] }
      calls := calls } := by
  obtain ⟨hlt, -⟩ := List.getElem?_eq_some_iff.mp hsub
  apply h.change hlt
  · intro other hne
    obtain ⟨before, after, hold, hnew⟩ := updates_nextDelivery hnext other
    rw [Delivery.updates, if_neg (Ne.symm hne), append_nil] at hold
    exact hnew.trans hold.symm
  · obtain ⟨before, after, hold, hnew⟩ := updates_nextDelivery hnext index
    rw [Delivery.updates, if_pos rfl] at hold
    have htracks := h.tracks index sub hsub
    rw [show host.immediates index = before ++ [update] ++ after from hold] at htracks
    rw [show ({ host with calls := calls } : Host).immediates index = before ++ after from hnew]
    have hsplit := fun i => htracks.alone i
    simp only [batches_append] at hsplit
    refine htracks.move ⟨rfl, rfl⟩ ?_ ?_
    · intro i
      simp only [Subscriber.handed, batches_append]
      by_cases hmember : update.member = i
      · obtain ⟨hbefore, hafter⟩ := alone_split hmember (hsplit i)
        simp only [hbefore, hafter, nil_append, append_nil]
        rfl
      · rw [show batches i [update] = [] from batches_other hmember _ _, append_nil, append_nil]
        rfl
    · intro i
      by_cases hmember : update.member = i
      · obtain ⟨hbefore, hafter⟩ := alone_split hmember (hsplit i)
        rw [batches_append, hbefore, hafter]
        exact .inl rfl
      · have hsame := hsplit i
        rw [show batches i [update] = [] from batches_other hmember _ _, append_nil,
          ← batches_append] at hsame
        exact hsame

/-- A thread goes on with a delivery. -/
theorem Served.run (h : Served host) {thread : Nat} (hrun : host.run thread = some host') :
    Served host' := by
  unfold Host.run at hrun
  split at hrun
  · rename_i index update calls hnext
    obtain ⟨sub, hsub, rfl⟩ := map_eq_some_iff.mp hrun
    exact h.immediate hnext hsub
  · rename_i index calls hnext
    obtain ⟨sub, hsub, rfl⟩ := map_eq_some_iff.mp hrun
    obtain ⟨hlt, -⟩ := List.getElem?_eq_some_iff.mp hsub
    -- A buffer that is drained is no delivery at once.
    have hsame : ∀ other, ({ host with
        calls := if sub.drain.2 = true then calls else host.calls } : Host).immediates other =
          host.immediates other := by
      intro other
      obtain ⟨before, after, hold, hnew⟩ := updates_nextDelivery hnext other
      rw [Delivery.updates, append_nil] at hold
      cases hdone : sub.drain.2 with
      | true => exact hnew.trans hold.symm
      | false => rfl
    apply h.change hlt fun other _ => hsame other
    rw [hsame]
    have htracks := h.tracks index sub hsub
    refine htracks.move sub.drain_frame ?_ ?_
    · intro i
      exact (Subscriber.handed_drain ((htracks.alone i).imp id And.right)).1
    · intro i
      refine (htracks.alone i).imp id (.imp id ?_)
      exact (Subscriber.handed_drain ((htracks.alone i).imp id And.right)).2
  · cases hrun

/-- Every step that hands over keeps the subscribers served. -/
theorem Served.step (h : Served host) (hover : host.HandsOver event)
    (hstep : host.step event = some host') : Served host' := by
  cases event with
  | member i event =>
    simp only [Host.step] at hstep
    split at hstep
    · rename_i state hstate
      exact h.stepMember hstate hover hstep
    · cases hstep
  | lock =>
    simp only [Host.step] at hstep
    split at hstep
    · cases hstep
      refine { h with captured := ?_, reading := ?_ }
      · intro opening heq
        cases heq
        simp
      · intro opening seq heq hreading
        cases heq
        cases hreading
    · cases hstep
  | readSequence =>
    simp only [Host.step] at hstep
    split at hstep
    · rename_i captured hopening
      split at hstep
      · rename_i state hstate
        cases hstep
        exact h.readSequence hopening hstate (hover captured state hopening hstate)
      · cases hstep
    · cases hstep
  | readValue =>
    simp only [Host.step] at hstep
    split at hstep
    · rename_i captured seq hopening
      split at hstep
      · rename_i state hstate
        cases hstep
        exact h.readValue hopening hstate (hover captured seq state hopening hstate)
      · cases hstep
    · cases hstep
  | register =>
    simp only [Host.step] at hstep
    split at hstep
    · rename_i captured hopening
      split_ifs at hstep with hcomp
      cases hstep
      exact h.register hopening hcomp
    · cases hstep
  | activate i thread =>
    obtain ⟨sub, hsub, rfl⟩ := map_eq_some_iff.mp hstep
    obtain ⟨hlt, -⟩ := List.getElem?_eq_some_iff.mp hsub
    rw [Host.activate]
    split_ifs
    · exact h
    · have htracks := h.tracks i sub hsub
      have hmoved : Tracks host.members (host.immediates i)
          { sub with active := true, draining := some thread } :=
        htracks.move ⟨rfl, rfl⟩ (fun _ => rfl) htracks.alone
      exact @Served.change _ host h i _
        ({ thread := thread, caller := none, deliveries := [.claim i] } :: host.calls) hlt
        (fun _ _ => rfl) hmoved
  | run thread => exact h.run hstep
  | close i =>
    obtain ⟨sub, hsub, rfl⟩ := map_eq_some_iff.mp hstep
    obtain ⟨hlt, -⟩ := List.getElem?_eq_some_iff.mp hsub
    apply h.change hlt fun _ _ => rfl
    exact (h.tracks i sub hsub).close

theorem run_served {state : Host} (h : Provider.host.Run HandsOver state) : Served state := by
  apply h.invariant
  · rintro state ⟨initials, hjson, rfl⟩
    exact served_new hjson
  · intro state state' event hserved hover hstep
    exact hserved.step hover hstep

/-- The updates a subscriber receives for a member continue its snapshot one sequence
at a time; a replica hydrated with the snapshot applies them without an error, and is at
the published revision when nothing is on its way to an open subscriber. -/
theorem snapshot_handed_over (state : Host) (h : Provider.host.Run HandsOver state)
    (place : Nat) (sub : Subscriber) (hsubscriber : state.subscribers[place]? = some sub)
    (i : Nat) (member : Replicator) (hmember : state.members[i]? = some member) :
    ∃ seq ops, sub.snapshot[i]? = some (seq, ops) ∧
      (∀ (count : Nat) batch, (batches i sub.received)[count]? = some batch →
        batch.1.toNat = seq.toNat + count + 1) ∧
      ∃ replica value last, ReplicaInner.new.hydrate seq ops = (.ok (), replica) ∧
        replica.follow (batches i sub.received) = (.ok (), ⟨some value, some last⟩) ∧
        (sub.closed = false → batches i (state.immediates place) = [] → sub.outstanding i = [] →
          member.unemitted source = [] → last = member.inner.sequence ∧
            value = member.inner.published) := by
  have htracks := (run_served h).tracks place sub hsubscriber
  have hlt : i < sub.snapshot.length := by
    rw [htracks.complete]
    exact (List.getElem?_eq_some_iff.mp hmember).1
  obtain ⟨base, hbase⟩ : ∃ base, sub.snapshot[i]? = some base := ⟨_, getElem?_eq_getElem hlt⟩
  obtain ⟨reached, value, hops, hjson, hpath⟩ := htracks.past i base hbase
  rw [Subscriber.handed, append_assoc] at hpath
  obtain ⟨revision, hreceived, -⟩ := hpath.split
  refine ⟨base.1, base.2, hbase, fun count batch => path_consecutive hreceived,
    ⟨some value, some base.1⟩, revision.2, revision.1, ?_, follow_path hreceived, ?_⟩
  · rw [ReplicaInner.hydrate, hops, stageHydration_replace hjson]
  · intro hclosed himmediates houtstanding hunemitted
    obtain ⟨other, hother, -, hcur⟩ := htracks.current hclosed i base member hbase hmember
    obtain rfl : value = other := by
      rw [hops] at hother
      cases hother
      rfl
    rw [Subscriber.handed, himmediates, houtstanding, hunemitted, append_nil,
      append_nil, append_nil] at hcur
    -- Both lead from the snapshot along the same batches.
    have hfollow := (follow_path hreceived).symm.trans (follow_path hcur)
    injection hfollow with _ hreplica
    injection hreplica with hvalue hlast
    exact ⟨some.inj hlast, some.inj hvalue⟩

/-- A check for steps that hand over, with no publish on a thread that dispatches for the same
member. -/
def handsOverCheck (host : Host) : HostEvent → Bool
  | .member index event =>
    match host.members[index]? with
    | none => true
    | some state =>
      match event with
      | .publish thread => state.inner.flushPublication.1.isOk &&
          (decide (state.inner.sequence.toNat < 2 ^ 53) &&
            decide (state.inner.route thread ≠ .inline))
      | .callSource => state.inner.drainingThread.all fun thread =>
        host.subscribers.zipIdx.all fun (subscriber, place) =>
          (batches index (host.immediates place)).isEmpty &&
            (!subscriber.immediate thread || (subscriber.outstanding index).isEmpty)
      | .unsubscribeSource _ => false
      | _ => true
  | .readSequence =>
    match host.opening with
    | some ⟨captured, none⟩ => host.members[captured.length]?.all fun state =>
      (state.unemitted source).isEmpty
    | _ => true
  | .readValue =>
    match host.opening with
    | some ⟨captured, some sequence⟩ => host.members[captured.length]?.all fun state =>
      decide (state.inner.sequence = sequence)
    | _ => true
  | _ => true

theorem handsOver_of_check (h : host.handsOverCheck event = true) : host.HandsOver event := by
  cases event with
  | member i event =>
    intro state hstate
    simp only [handsOverCheck, hstate] at h
    cases event with
    | publish thread =>
      obtain ⟨hok, hrest⟩ := Bool.and_eq_true_iff.mp h
      obtain ⟨hexact, hroute⟩ := Bool.and_eq_true_iff.mp hrest
      refine ⟨⟨MutableInner.not_wastes_of_ok hok, fun _ => ⟨of_decide_eq_true hexact, ?_⟩⟩, nofun⟩
      intro hinl
      exact absurd hinl (of_decide_eq_true hroute)
    | callSource =>
      refine ⟨trivial, ?_⟩
      intro thread _ hthread _ place sub hsub _
      rw [hthread, all_some] at h
      have hboth := all_eq_true.mp h (sub, place) (mem_zipIdx_iff_getElem?.mpr hsub)
      rw [Bool.and_eq_true, Bool.or_eq_true, List.isEmpty_iff, List.isEmpty_iff] at hboth
      refine ⟨hboth.1, fun hnow => hboth.2.resolve_left ?_⟩
      rw [hnow]
      exact Bool.false_ne_true
    | unsubscribeSource id => cases h
    | _ => exact ⟨trivial, nofun⟩
  | readSequence =>
    intro captured state hopen hstate
    simp only [handsOverCheck, hopen, hstate] at h
    exact isEmpty_iff.mp h
  | readValue =>
    intro captured seq state hopen hstate
    simp only [handsOverCheck, hopen, hstate] at h
    exact of_decide_eq_true h
  | _ => trivial

end Host

end

namespace Host

/-- A subscriber is activated, and receives an update of the second member, in whose delivery the
same thread publishes the first one. -/
def publishInDelivery : List HostEvent :=
  [.member 0 (.publish 7), .member 1 (.publish 7), .lock, .readSequence, .readValue, .readSequence,
    .readValue, .register, .activate 0 7, .run 7, .member 1 (.mutate (.bool true)),
    .member 1 (.publish 1), .member 1 .collectSources, .member 1 .callSource, .run 1, .run 1,
    .member 0 (.mutate (.bool true)), .member 0 (.publish 1), .member 0 .collectSources,
    .member 0 .callSource, .run 1, .run 1]

/-- Whether the first subscriber received one update of each member and lacks none of the first. -/
def bothReceived (state : Host) : Bool :=
  state.subscribers[0]?.any fun subscriber => state.members[0]?.any fun member =>
    decide (subscriber.received.map StateUpdate.member = [1, 0]) && !subscriber.closed &&
      ((batches 0 (state.immediates 0)).isEmpty && (subscriber.outstanding 0).isEmpty &&
        (member.unemitted source).isEmpty)

theorem snapshot_handed_over_once : ∃ state subscriber member,
    (@Provider.host SerdeJson.integral).Run (@HandsOver SerdeJson.integral) state ∧
      state.subscribers[0]? = some subscriber ∧ state.members[0]? = some member ∧
      subscriber.received.map StateUpdate.member = [1, 0] ∧
      ∃ seq ops replica, subscriber.snapshot[0]? = some (seq, ops) ∧
        @ReplicaInner.hydrate SerdeJson.integral ReplicaInner.new seq ops = (.ok (), replica) ∧
        @ReplicaInner.follow SerdeJson.integral replica (batches 0 subscriber.received) =
          (.ok (), ⟨some member.inner.published, some member.inner.sequence⟩) := by
  have hstart : (@Provider.host SerdeJson.integral).Run (@HandsOver SerdeJson.integral)
      (Host.new [.null, .null]) := Machine.Run.start ⟨[.null, .null], by decide +kernel, rfl⟩
  obtain ⟨state, hrun, hstate⟩ := hstart.execute (@handsOverCheck SerdeJson.integral)
    publishInDelivery
    bothReceived (fun _ _ => @handsOver_of_check SerdeJson.integral _ _) (by decide +kernel)
  obtain ⟨subscriber, hsubscriber, hstate⟩ := (any_eq_true _ _).mp hstate
  obtain ⟨member, hmember, hstate⟩ := (any_eq_true _ _).mp hstate
  simp only [Bool.and_eq_true, decide_eq_true_eq, Bool.not_eq_true', List.isEmpty_iff] at hstate
  obtain ⟨⟨hreceived, hclosed⟩, ⟨himmediates, houtstanding⟩, hunemitted⟩ := hstate
  obtain ⟨seq, ops, hsnap, -, replica, value, last, hhydrate, hfollow, hends⟩ :=
    @snapshot_handed_over SerdeJson.integral state hrun 0 subscriber hsubscriber 0 member hmember
  obtain ⟨rfl, rfl⟩ := hends hclosed himmediates houtstanding hunemitted
  exact ⟨state, subscriber, member, hrun, hsubscriber, hmember, hreceived, seq, ops, replica,
    hsnap, hhydrate, hfollow⟩

/-- Whether the first subscriber misses a batch after its snapshot. -/
def skipsBatch (state : Host) : Bool :=
  state.subscribers[0]?.any fun sub => sub.snapshot[0]?.any fun snapshot =>
    match @ReplicaInner.hydrate SerdeJson.integral ReplicaInner.new snapshot.1 snapshot.2 with
    | (.ok (), replica) =>
      match (@ReplicaInner.follow SerdeJson.integral replica (batches 0 sub.received)).1 with
      | .error (.state .sequenceGap) => true
      | _ => false
    | _ => false

/-- A subscribe between the lock section of a publish and its dispatch: the snapshot
holds the revision, and the batch that led to it is delivered as an update. -/
theorem snapshot_repeats_update : ∃ state sub seq ops replica,
    (@Provider.host SerdeJson.integral).Run (fun _ _ => True) state ∧
      sub ∈ state.subscribers ∧ sub.snapshot[0]? = some (seq, ops) ∧
      @ReplicaInner.hydrate SerdeJson.integral ReplicaInner.new seq ops = (.ok (), replica) ∧
      (@ReplicaInner.follow SerdeJson.integral replica (batches 0 sub.received)).1 =
        .error (.state .sequenceGap) := by
  have hstart : (@Provider.host SerdeJson.integral).Run (fun _ _ => True)
      (Host.new [.null]) := Machine.Run.start ⟨[.null], by decide +kernel, rfl⟩
  obtain ⟨state, hrun, hstate⟩ := hstart.execute (fun _ _ => true)
    [.member 0 (.mutate (.bool true)), .member 0 (.publish 1), .member 0 (.publish 7), .lock,
      .readSequence, .readValue, .register, .member 0 .collectSources, .member 0 .callSource,
      .activate 0 7, .run 7, .run 7]
    skipsBatch (fun _ _ _ => trivial) (by decide +kernel)
  obtain ⟨sub, hsub, hstate⟩ := (any_eq_true _ _).mp hstate
  obtain ⟨⟨seq, ops⟩, hsnap, hstate⟩ := (any_eq_true _ _).mp hstate
  split at hstate
  · rename_i replica hhydrate
    split at hstate
    · rename_i hgap
      exact ⟨state, sub, seq, ops, replica, hrun, mem_of_getElem? hsub, hsnap, hhydrate, hgap⟩
    · cases hstate
  · cases hstate

end Host

end PiOxidized.Service.Provider
