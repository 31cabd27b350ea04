/-
# The bus as a desk

A batch is a ticket that is owed its calls: waiting while it is queued, served while a consumer
delivers it, closed when its completion is sent.  The batches of one source are a line.  Every
step of the bus that meets the conditions is a move of the desk or leaves it alone.

The conditions: no consumer is dropped while it delivers; a batch is not taken while another
one of its source is being delivered; an inline delivery does not find the queue empty before
its own batch is done; an emission is taken for a nested one exactly when a recipient makes it
while it is called, and then a worker is scheduled; a barrier finds a worker or a runtime.
-/

import PiOxidized.Math.Desk
import PiOxidized.Math.Slots
import PiOxidized.Harness.Bus.Delivery

namespace PiOxidized.Harness.HarnessBus

open List Bool Math

universe u v

variable {K : Type u} {P : Type v}

namespace DeliveryItem

/-- A queued batch with its calls. -/
def owed : DeliveryItem K P → Option (Ticket × List (Call K P))
  | .batch done events => some (done, events.flatMap BoundEvent.calls)
  | .barrier _ => none

end DeliveryItem

namespace Consumer

/-- The batch a consumer delivers, with the calls still to be made. -/
def held (consumer : Consumer K P) : Option (Ticket × List (Call K P)) := match consumer.phase with
  | .delivering done rest => some (done, rest)
  | .calling done _ rest => some (done, rest)
  | _ => none

/-- Whether a consumer is a worker that goes on to look at the queue. -/
def Works (consumer : Consumer K P) : Prop := consumer.awaits = none ∧ match consumer.phase with
    | .created | .ready | .delivering _ _ | .calling _ _ _ => True
    | .unspawned | .finished | .dropped => False

/-- Whether a consumer is in the middle of its work, an inline delivery from its first poll on. -/
def Busy (consumer : Consumer K P) : Prop := match consumer.phase with
  | .created | .unspawned => consumer.awaits = none
  | .ready | .delivering _ _ | .calling _ _ _ => True
  | .finished | .dropped => False

end Consumer

theorem BusState.mem_of_popFront {s bus : BusState K P} {item : DeliveryItem K P}
    (h : s.popFront = some (item, bus)) : item ∈ s.queue := by
  rw [popFront] at h
  cases hque : s.queue with
  | nil => simp [hque] at h
  | cons first rest =>
    rw [hque] at h
    obtain ⟨rfl, -⟩ := Prod.mk.inj (Option.some.inj h)
    exact mem_cons_self

theorem BusState.queue_of_popFront {s : BusState K P} (h : s.popFront = none) : s.queue = [] := by
  rw [popFront] at h
  split at h
  · assumption
  · cases h

namespace World

/-- The bus as a desk. -/
def desk (s : World K P) : Desk Ticket (Call K P) where
  opened := s.admissions.map fun a => (a.ticket, a.calls)
  waiting := s.bus.queue.filterMap DeliveryItem.owed
  serving := s.consumers.filterMap Consumer.held
  handed := s.made
  closed := s.sent

/-- An emission is taken for a nested one exactly when a recipient makes it while it is called,
and then a worker is scheduled. -/
def Recognised (s : World K P) (place : Place) : Caller → Prop
  | .outside _ => s.bus.reentrantFromDrain place = false
  | .inside _ => s.bus.reentrantFromDrain place = true ∧ s.bus.workerScheduled = true

/-- Whether a consumer may look at a queue: none of the source of the first batch is being
delivered, and who waits for a batch of its own finds something. -/
def MayTake (s : World K P) (awaits : Option Ticket) : List (DeliveryItem K P) → Prop
  | [] => awaits = none
  | .batch done _ :: _ => ∀ other ∈ s.consumers.filterMap Consumer.held, other.1.source ≠ done.source
  | .barrier _ :: _ => True

/-- The conditions. -/
def Careful (s : World K P) : Event K P → Prop
  | .emitBatch caller events _ =>
    ∀ place ∈ s.placeOf caller, events ≠ [] → s.bus.closed = false → s.Recognised place caller
  | .enqueueBarrier caller _ =>
    ∀ place ∈ s.placeOf caller, s.bus.workerScheduled = true ∨
      (s.bus.reentrantFromDrain place = false ∧ place.runtime = true)
  | .advance index =>
    ∀ consumer ∈ s.consumers[index]?, consumer.phase = .ready →
      (∀ ticket ∈ consumer.awaits, s.observed ticket = false) → s.MayTake consumer.awaits s.bus.queue
  | .drop index =>
    ∀ consumer ∈ s.consumers[index]?, consumer.awaits.isSome ∧ consumer.held = none
  | _ => True

instance (s : World K P) (place : Place) : (caller : Caller) → Decidable (s.Recognised place caller)
  | .outside _ => inferInstanceAs (Decidable (_ = _))
  | .inside _ => inferInstanceAs (Decidable (_ ∧ _))

instance [DecidableEq K] [DecidableEq P] (s : World K P) (awaits : Option Ticket) :
    (queue : List (DeliveryItem K P)) → Decidable (s.MayTake awaits queue)
  | [] => inferInstanceAs (Decidable (_ = _))
  | .batch done _ :: _ =>
    inferInstanceAs (Decidable (∀ other ∈ s.consumers.filterMap Consumer.held,
      other.1.source ≠ done.source))
  | .barrier _ :: _ => inferInstanceAs (Decidable True)

instance [DecidableEq K] [DecidableEq P] (s : World K P) :
    (event : Event K P) → Decidable (s.Careful event)
  | .emitBatch caller events _ =>
    inferInstanceAs (Decidable (∀ place ∈ s.placeOf caller,
      events ≠ [] → s.bus.closed = false → s.Recognised place caller))
  | .enqueueBarrier caller _ =>
    inferInstanceAs (Decidable (∀ place ∈ s.placeOf caller, s.bus.workerScheduled = true ∨
      (s.bus.reentrantFromDrain place = false ∧ place.runtime = true)))
  | .advance index =>
    inferInstanceAs (Decidable (∀ consumer ∈ s.consumers[index]?, consumer.phase = .ready →
      (∀ ticket ∈ consumer.awaits, s.observed ticket = false) → s.MayTake consumer.awaits s.bus.queue))
  | .drop index =>
    inferInstanceAs (Decidable (∀ consumer ∈ s.consumers[index]?,
      consumer.awaits.isSome ∧ consumer.held = none))
  | .on _ | .installWatcher | .off _ _ | .unwatch _ | .close | .ensureDrain _ | .resolve _
  | .poll _ _ => inferInstanceAs (Decidable True)

/-- What holds at the flags of a bus along a careful run. -/
structure Staffed (s : World K P) : Prop where
  numbered : ∀ a ∈ s.admissions, a.ticket.number < s.tickets
  /-- The nested batches stand at the front, and nowhere else. -/
  front : ∃ nested rest, s.bus.queue = nested ++ rest ∧ nested.length = s.bus.reentrantFront ∧
    (∀ x ∈ nested.filterMap DeliveryItem.owed, x.1.source ≠ .outside) ∧
      ∀ x ∈ rest.filterMap DeliveryItem.owed, x.1.source = .outside
  scheduled : s.bus.queue ≠ [] → s.bus.workerScheduled = true
  running : s.bus.running = true → s.bus.workerScheduled = true
  working : s.bus.workerScheduled = true → ∃ consumer ∈ s.consumers, consumer.Works
  spawned : ∀ consumer ∈ s.consumers, consumer.phase ≠ .unspawned
  kept : s.lost = []
  truthful : ∀ ticket ∈ s.resolved, ticket ∈ s.sent ∨ ticket ∈ s.fired
  batches : ∀ a ∈ s.admissions, a.ticket.source ≠ .barrier
  barriers : ∀ ticket, .barrier ticket ∈ s.bus.queue ∨ ticket ∈ s.fired → ticket.source = .barrier

variable {s s' : World K P}

/-! ## The flags -/

variable {item : DeliveryItem K P} {consumer : Consumer K P} {i : Nat}

variable {bus : BusState K P} {caller : Caller} {ticket : Ticket}

theorem placeOf_inside {place : Place} (h : s.placeOf (.inside i) = some place) :
    ∃ consumer done call rest, s.consumers[i]? = some consumer ∧
      consumer.phase = .calling done call rest ∧ s.sourceOf (.inside i) = .nested call.recipient := by
  rw [placeOf] at h
  cases hcons : s.consumers[i]? with
  | none => simp [hcons] at h
  | some consumer =>
    cases hph : consumer.phase with
    | calling done call rest => exact ⟨consumer, done, call, rest, rfl, hph, by simp [sourceOf, hcons, hph]⟩
    | created | unspawned | ready | delivering | finished | dropped =>
      simp [hcons, hph] at h

/-- A worker goes on working when it is replaced by one that does. -/
theorem exists_works_put {old new : Consumer K P} (hold : s.consumers[k]? = some old)
    (hworks : old.Works → new.Works) (h : ∃ consumer ∈ s.consumers, consumer.Works) :
    ∃ consumer ∈ (s.put k new).consumers, consumer.Works := by
  obtain ⟨consumer, hmem, hcons⟩ := h
  obtain ⟨j, hj⟩ := mem_iff_getElem?.mp hmem
  by_cases hidx : j = k
  · subst hidx
    have hsame : old = consumer := Option.some.inj (hold.symm.trans hj)
    refine ⟨new, mem_of_getElem? (getElem?_set_of_some hold), hworks ?_⟩
    rw [hsame]
    exact hcons
  · refine ⟨consumer, mem_of_getElem? (i := j) ?_, hcons⟩
    rw [put, getElem?_set_ne (Ne.symm hidx)]
    exact hj

section

variable (h : s.Staffed)

include h

theorem Staffed.put {old new : Consumer K P} (hold : s.consumers[i]? = some old)
    (hworks : old.Works → new.Works) (hspawned : new.phase ≠ .unspawned) :
    (s.put i new).Staffed := by
  refine { h with working := ?_, spawned := ?_ }
  · intro hsched
    exact exists_works_put hold hworks (h.working hsched)
  · intro consumer hcons
    cases mem_or_eq_of_mem_set hcons with
    | inl hmem => exact h.spawned consumer hmem
    | inr heq =>
      rw [heq]
      exact hspawned

/-- A consumer that takes an item leaves the flags as they should be. -/
theorem Staffed.popFront (hpop : s.bus.popFront = some (item, bus)) :
    { s with bus := bus }.Staffed := by
  rw [BusState.popFront] at hpop
  cases hque : s.bus.queue with
  | nil => simp [hque] at hpop
  | cons first rest =>
    rw [hque] at hpop
    cases hpop
    have hsched : s.bus.workerScheduled = true := h.scheduled (by simp [hque])
    have hbarriers : ∀ ticket, .barrier ticket ∈ rest ∨ ticket ∈ s.fired →
        ticket.source = .barrier := by
      intro ticket hticket
      refine h.barriers ticket (hticket.imp_left ?_)
      rw [hque]
      exact mem_cons_of_mem _
    refine { h with front := ?_, scheduled := fun _ => hsched, barriers := hbarriers }
    obtain ⟨nested, outer, happ, hlen, hnested, houter⟩ := h.front
    cases nested with
    | nil =>
      rw [hque, nil_append] at happ
      refine ⟨[], rest, rfl, ?_, by simp, ?_⟩
      · rw [← hlen]
        rfl
      · intro x hx
        refine houter x ?_
        rw [← happ]
        exact (sublist_cons_self _ _).filterMap _ |>.subset hx
    | cons head nested =>
      rw [hque, cons_append] at happ
      obtain ⟨rfl, rfl⟩ := cons.inj happ
      refine ⟨nested, outer, rfl, ?_, ?_, houter⟩
      · rw [← hlen, length_cons, Nat.add_sub_cancel]
      · intro x hx
        exact hnested x ((sublist_cons_self _ _).filterMap _ |>.subset hx)

/-- An item at the back with a worker for it. -/
theorem Staffed.pushBack {worker : Consumer K P}
    (hitem : ∀ x, item.owed = some x → x.1.source = .outside)
    (hbarrier : ∀ ticket, item = .barrier ticket → ticket.source = .barrier)
    (hwork : s.bus.workerScheduled = true ∨ (worker.Works ∧ worker.phase ≠ .unspawned)) :
    (s.pushBack item worker).Staffed := by
  have hfront : ∃ nested rest, s.bus.queue ++ [item] = nested ++ rest ∧
      nested.length = s.bus.reentrantFront ∧
      (∀ x ∈ nested.filterMap DeliveryItem.owed, x.1.source ≠ .outside) ∧
        ∀ x ∈ rest.filterMap DeliveryItem.owed, x.1.source = .outside := by
    obtain ⟨nested, rest, happ, hlen, hnested, hrest⟩ := h.front
    refine ⟨nested, rest ++ [item], by rw [happ, append_assoc], hlen, hnested, ?_⟩
    intro x hx
    rw [filterMap_append] at hx
    cases mem_append.mp hx with
    | inl hx => exact hrest x hx
    | inr hx =>
      obtain ⟨y, hy, hx⟩ := mem_filterMap.mp hx
      rw [mem_singleton.mp hy] at hx
      exact hitem x hx
  refine { h with
    front := hfront, scheduled := fun _ => rfl, running := fun _ => rfl, working := ?_,
    spawned := ?_, barriers := ?_ }
  · intro _
    by_cases hsched : s.bus.workerScheduled = true
    · simpa [World.pushBack, hsched] using h.working hsched
    · obtain ⟨hworks, -⟩ := hwork.resolve_left hsched
      exact ⟨worker, by simp [World.pushBack, hsched], hworks⟩
  · intro consumer hcons
    by_cases hsched : s.bus.workerScheduled = true
    · rw [World.pushBack, if_pos hsched] at hcons
      exact h.spawned consumer hcons
    · rw [World.pushBack, if_neg hsched] at hcons
      cases mem_append.mp hcons with
      | inl hmem => exact h.spawned consumer hmem
      | inr hmem =>
        rw [mem_singleton.mp hmem]
        exact (hwork.resolve_left hsched).2
  · rintro ticket (hmem | hmem)
    · cases mem_append.mp hmem with
      | inl hmem => exact h.barriers ticket (.inl hmem)
      | inr hmem => exact hbarrier ticket (mem_singleton.mp hmem).symm
    · exact h.barriers ticket (.inr hmem)

/-- One more consumer that is not waiting for a runtime. -/
theorem Staffed.hire (consumer : Consumer K P) (hspawned : consumer.phase ≠ .unspawned) :
    { s with consumers := s.consumers ++ [consumer] }.Staffed := by
  refine { h with working := ?_, spawned := ?_ }
  · intro hsched
    obtain ⟨worker, hmem, hworks⟩ := h.working hsched
    exact ⟨worker, mem_append_left _ hmem, hworks⟩
  · exact forall_mem_concat h.spawned hspawned

theorem Staffed.admitted {source : Source} (hsource : source ≠ .barrier)
    (events : List (HarnessEvent K P)) : (s.admitted ⟨s.tickets, source⟩ events).Staffed := by
  refine { h with numbered := ?_, batches := ?_ }
  · intro a ha
    cases mem_append.mp ha with
    | inl ha => exact Nat.lt_succ_of_lt (h.numbered a ha)
    | inr ha =>
      rw [mem_singleton.mp ha]
      exact Nat.lt_succ_self _
  · exact forall_mem_concat h.batches hsource

/-- A nested batch goes behind the nested batches, and a worker is there for it. -/
theorem Staffed.insertNested {inline : Consumer K P}
    (hitem : ∀ x, item.owed = some x → x.1.source ≠ .outside)
    (hbarrier : ∀ ticket, item ≠ .barrier ticket) (hsched : s.bus.workerScheduled = true)
    (hspawned : inline.phase ≠ .unspawned) : (s.insertNested item inline).Staffed := by
  obtain ⟨nested, rest, happ, hlen, hnested, hrest⟩ := h.front
  have hfront : ∃ nested rest, s.bus.queue.insertIdx s.bus.reentrantFront item = nested ++ rest ∧
      nested.length = s.bus.reentrantFront + 1 ∧
      (∀ x ∈ nested.filterMap DeliveryItem.owed, x.1.source ≠ .outside) ∧
        ∀ x ∈ rest.filterMap DeliveryItem.owed, x.1.source = .outside := by
    refine ⟨nested ++ [item], rest, ?_, by rw [length_append, hlen, length_singleton], ?_, hrest⟩
    · rw [happ, ← hlen, insertIdx_length_append, append_assoc, singleton_append]
    · intro x hx
      rw [filterMap_append] at hx
      cases mem_append.mp hx with
      | inl hx => exact hnested x hx
      | inr hx =>
        obtain ⟨y, hy, hx⟩ := mem_filterMap.mp hx
        rw [mem_singleton.mp hy] at hx
        exact hitem x hx
  have hbarriers : ∀ ticket, .barrier ticket ∈ s.bus.queue.insertIdx s.bus.reentrantFront item ∨
      ticket ∈ s.fired → ticket.source = .barrier := by
    rintro ticket (hmem | hmem)
    · cases eq_or_mem_of_mem_insertIdx hmem with
      | inl heq => exact absurd heq.symm (hbarrier ticket)
      | inr hmem => exact h.barriers ticket (.inl hmem)
    · exact h.barriers ticket (.inr hmem)
  have hhired := h.hire inline hspawned
  exact { hhired with front := hfront, scheduled := fun _ => hsched, barriers := hbarriers }

theorem Staffed.emitBatch {events : List (HarnessEvent K P)} {worker : Nat}
    (hcare : s.Careful (.emitBatch caller events worker))
    (hstep : s.emitBatch caller events worker = some s') : s'.Staffed := by
  rw [World.emitBatch] at hstep
  cases hplc : s.placeOf caller with
  | none => simp [hplc] at hstep
  | some place =>
    rw [hplc] at hstep
    have hcond := hcare place hplc
    dsimp only at hstep
    split_ifs at hstep with hemp hshut hreentrant
    · cases hstep
      exact h
    · cases hstep
      exact h
    · cases hstep
      have hcond := hcond (by simpa using hemp) (by simpa using hshut)
      cases caller with
      | outside at_ => exact absurd (hreentrant.symm.trans hcond) (by decide)
      | inside i =>
        obtain ⟨_, _, call, _, _, _, hsource⟩ := placeOf_inside hplc
        refine (h.admitted (by simp [hsource]) events).insertNested ?_ (by simp) hcond.2 (by simp)
        intro x hx
        rw [DeliveryItem.owed, Option.some.injEq] at hx
        rw [← hx, hsource]
        simp
    · cases hstep
      have hcond := hcond (by simpa using hemp) (by simpa using hshut)
      cases caller with
      | inside i => exact absurd hcond.1 hreentrant
      | outside at_ =>
        refine (h.admitted (by simp [sourceOf]) events).pushBack ?_ (by simp)
          (.inr ⟨⟨rfl, trivial⟩, by simp [spawnDrain]⟩)
        intro x hx
        rw [DeliveryItem.owed, Option.some.injEq] at hx
        rw [← hx]
        rfl

theorem Staffed.enqueueBarrier {worker : Nat} (hcare : s.Careful (.enqueueBarrier caller worker))
    (hstep : s.enqueueBarrier caller worker = some s') : s'.Staffed := by
  rw [World.enqueueBarrier] at hstep
  cases hplc : s.placeOf caller with
  | none => simp [hplc] at hstep
  | some place =>
    rw [hplc] at hstep
    have hcond := hcare place hplc
    have hticket : { s with tickets := s.tickets + 1 }.Staffed :=
      { h with numbered := fun a ha => Nat.lt_succ_of_lt (h.numbered a ha) }
    dsimp only at hstep
    split_ifs at hstep with hreentrant
    · cases hstep
      have hsched : s.bus.workerScheduled = true := by
        cases hcond with
        | inl hsched => exact hsched
        | inr hcond =>
          rw [hreentrant] at hcond
          cases hcond.1
      -- The same as an item at the back, but for the flag that says that work is going on.
      have hpushed : ({ s with tickets := s.tickets + 1 }.pushBack
          (.barrier ⟨s.tickets, .barrier⟩) (spawnDrain place worker)).Staffed :=
        hticket.pushBack (by simp [DeliveryItem.owed]) (by simp) (.inl hsched)
      have hhired := hticket.hire
        { place := place, awaits := some ⟨s.tickets, .barrier⟩, phase := .created } (by simp)
      exact { hhired with
        front := hpushed.front, scheduled := fun _ => hsched, barriers := hpushed.barriers }
    · cases hstep
      refine hticket.pushBack (by simp [DeliveryItem.owed]) (by simp) ?_
      cases hcond with
      | inl hsched => exact .inl hsched
      | inr hcond =>
        exact .inr (by simp [spawnBarrierDrain, Consumer.Works, hcond.2])

theorem Staffed.take (hcons : s.consumers[i]? = some consumer)
    (hpop : s.bus.popFront = some (item, bus)) : (s.take i consumer item bus).Staffed := by
  have hpopped := h.popFront hpop
  cases item with
  | batch done events =>
    refine hpopped.put hcons ?_ (by simp)
    intro hworks
    exact ⟨hworks.1, trivial⟩
  | barrier done =>
    refine { hpopped with truthful := ?_, barriers := ?_ }
    · intro ticket hticket
      exact (h.truthful ticket hticket).imp_right (mem_append_left _)
    · rintro ticket (hmem | hmem)
      · exact hpopped.barriers ticket (.inl hmem)
      · cases mem_append.mp hmem with
        | inl hmem => exact h.barriers ticket (.inr hmem)
        | inr hmem =>
          rw [mem_singleton.mp hmem]
          exact h.barriers done (.inl (BusState.mem_of_popFront hpop))

theorem Staffed.observed (hticket : s.observed ticket = true) :
    ticket ∈ s.sent ∨ ticket ∈ s.fired := by
  simpa [World.observed, h.kept] using hticket

theorem Staffed.resolve (hticket : s.observed ticket = true) :
    { s with resolved := s.resolved ++ [ticket] }.Staffed := by
  refine { h with truthful := ?_ }
  exact forall_mem_concat h.truthful (h.observed hticket)

theorem Staffed.look (hcons : s.consumers[i]? = some consumer)
    (hrdy : consumer.phase = .ready) (hcare : s.Careful (.advance i)) :
    (s.look i consumer).Staffed := by
  have hcond := hcare consumer hcons hrdy
  rw [World.look]
  cases hawt : consumer.awaits with
  | none =>
    cases hpop : s.bus.popFront with
    | none =>
      have hemp : s.bus.queue = [] := BusState.queue_of_popFront hpop
      refine { h with
        scheduled := fun hque => absurd hemp hque
        running := fun hrunning => (nomatch hrunning)
        working := fun hsched => (nomatch hsched)
        spawned := ?_ }
      intro other hoth
      cases mem_or_eq_of_mem_set hoth with
      | inl hmem => exact h.spawned other hmem
      | inr heq =>
        rw [heq]
        simp
    | some popped => exact h.take hcons hpop
  | some ticket =>
    have hidle : ¬ consumer.Works := by
      intro hworks
      rw [hworks.1] at hawt
      cases hawt
    by_cases hobs : s.observed ticket = true
    · simp only [hobs, if_true]
      exact (h.resolve hobs).put hcons (fun hworks => absurd hworks hidle) (by simp)
    · simp only [hobs, false_eq_true, if_false]
      cases hpop : s.bus.popFront with
      | none =>
        have hemp : s.bus.queue = [] := BusState.queue_of_popFront hpop
        have hlooks : ∀ other, consumer.awaits = some other → s.observed other = false := by
          intro other hoth
          rw [hawt] at hoth
          rw [← Option.some.inj hoth]
          simpa using hobs
        have hnone := hcond hlooks
        rw [hemp, hawt] at hnone
        cases hnone
      | some popped => exact h.take hcons hpop

theorem Staffed.consume (hcons : s.consumers[i]? = some consumer)
    (hcare : s.Careful (.advance i)) (hstep : s.consume i consumer = some s') :
    s'.Staffed := by
  rw [World.consume] at hstep
  cases hph : consumer.phase with
  | created =>
    rw [hph] at hstep
    cases hawt : consumer.awaits with
    | some ticket => simp [hawt] at hstep
    | none =>
      simp only [hawt] at hstep
      cases hstep
      have hbus : { s with bus := { s.bus with drainTask := consumer.place.task } }.Staffed :=
        { h with }
      exact hbus.put hcons (fun _ => ⟨rfl, trivial⟩) (by simp)
  | unspawned => exact absurd hph (h.spawned consumer (mem_of_getElem? hcons))
  | ready =>
    rw [hph] at hstep
    cases hstep
    exact h.look hcons hph hcare
  | delivering done calls =>
    rw [hph] at hstep
    cases calls with
    | nil =>
      cases hstep
      have hsent : { s with sent := s.sent ++ [done] }.Staffed := by
        refine { h with truthful := ?_ }
        intro ticket hticket
        exact (h.truthful ticket hticket).imp_left (mem_append_left _)
      exact hsent.put hcons (fun hworks => ⟨hworks.1, trivial⟩) (by simp)
    | cons call rest =>
      cases hstep
      have hmade : { s with made := s.made ++ [(done, call)] }.Staffed := { h with }
      exact hmade.put hcons (fun hworks => ⟨hworks.1, trivial⟩) (by simp)
  | calling done call rest =>
    rw [hph] at hstep
    cases hstep
    exact h.put hcons (fun hworks => ⟨hworks.1, trivial⟩) (by simp)
  | finished | dropped =>
    rw [hph] at hstep
    cases hstep

/-- Along a careful run there is a worker for whatever is queued, and nothing is lost. -/
theorem Staffed.step [DecidableEq K] {event : Event K P} (hcare : s.Careful event)
    (hstep : s.step event = some s') : s'.Staffed := by
  cases event with
  | on | installWatcher =>
    rw [World.step] at hstep
    split_ifs at hstep
    · cases hstep
      exact h
    · cases hstep
      exact { h with }
  | off | unwatch | close =>
    cases hstep
    exact { h with }
  | emitBatch caller events worker => exact h.emitBatch hcare hstep
  | enqueueBarrier caller worker => exact h.enqueueBarrier hcare hstep
  | ensureDrain place =>
    cases hstep
    rw [World.ensureDrain, if_neg]
    · exact h
    · intro hcond
      rw [and_eq_true, not_eq_true'] at hcond
      rw [h.running hcond.1] at hcond
      cases hcond.2
  | resolve ticket =>
    rw [World.step] at hstep
    split_ifs at hstep with hobs
    cases hstep
    exact h.resolve hobs
  | poll i place =>
    rw [World.step] at hstep
    cases hcons : s.consumers[i]? with
    | none => simp [hcons] at hstep
    | some consumer =>
      simp only [hcons] at hstep
      split_ifs at hstep with hmade hinl
      cases hstep
      exact h.put hcons (fun hworks => ⟨hworks.1, trivial⟩) (by simp)
  | advance i =>
    rw [World.step] at hstep
    cases hcons : s.consumers[i]? with
    | none => simp [hcons] at hstep
    | some consumer =>
      simp only [hcons] at hstep
      exact h.consume hcons hcare hstep
  | drop i =>
    rw [World.step] at hstep
    cases hcons : s.consumers[i]? with
    | none => simp [hcons] at hstep
    | some consumer =>
      simp only [hcons] at hstep
      obtain ⟨hinl, hfree⟩ := hcare consumer hcons
      have hdrop : (s.put i { consumer with phase := .dropped }).Staffed := by
        refine h.put hcons ?_ (by simp)
        intro hworks
        rw [hworks.1] at hinl
        cases hinl
      rw [World.dropConsumer] at hstep
      cases hph : consumer.phase with
      | created | unspawned | ready =>
        rw [hph] at hstep
        cases hstep
        exact hdrop
      | delivering | calling => simp [Consumer.held, hph] at hfree
      | finished | dropped =>
        rw [hph] at hstep
        cases hstep

end

end World

end PiOxidized.Harness.HarnessBus
