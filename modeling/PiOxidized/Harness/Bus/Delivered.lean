/-
# Complete and ordered delivery

Along careful runs every admitted batch is delivered exactly once to exactly the recipients
bound at its admission, the batches of one source reach each recipient in the order they were
admitted in, an emission resolves only after its batch was delivered, and nothing is queued
while no worker is scheduled.
-/

import PiOxidized.Harness.Bus.Served

namespace PiOxidized.Harness.HarnessBus

open List Bool Math

universe u v

variable {K : Type u} {P : Type v}

namespace World

variable {s s' : World K P}

/-- The batches on their way, each with the calls still to be made. -/
def undelivered (s : World K P) : List (Ticket × List (Call K P)) :=
  s.bus.queue.filterMap DeliveryItem.owed ++ s.consumers.filterMap Consumer.held

/-- The calls that were made for a batch. -/
def received (s : World K P) (ticket : Ticket) : List (Call K P) :=
  (s.made.filter fun x => x.1 = ticket).map Prod.snd

/-- What the bus promises. -/
structure Delivers (s : World K P) : Prop where
  /-- A batch is done and its calls are those of the recipients bound at its admission, or the
  calls that are missing are on their way. -/
  exact : ∀ a ∈ s.admissions,
    (a.ticket ∈ s.sent ∧ a.ticket ∉ s.undelivered.map Prod.fst ∧ s.received a.ticket = a.calls) ∨
      (a.ticket ∉ s.sent ∧ ∃ rest, (a.ticket, rest) ∈ s.undelivered ∧
        s.received a.ticket ++ rest = a.calls)
  once : (s.undelivered.map Prod.fst).Nodup
  alone : ∀ x ∈ s.made, ∃ a ∈ s.admissions, a.ticket = x.1
  ordered : ∀ source recipient,
    ((s.made.filter fun x => x.1.source = source ∧ x.2.recipient = recipient).map
      fun x => x.1.number).Pairwise (· ≤ ·)
  truthful : ∀ a ∈ s.admissions, a.ticket ∈ s.resolved → s.received a.ticket = a.calls
  idle : s.bus.workerScheduled = false → s.bus.queue = []
  /-- A batch that is not delivered in full has somebody at work. -/
  complete : (∀ consumer ∈ s.consumers, ¬ consumer.Busy) → ∀ a ∈ s.admissions,
    a.ticket ∈ s.sent ∧ s.received a.ticket = a.calls

/-! ## The moves of the desk -/

/-- A step leaves the desk alone or is one of its moves. -/
def Moves (s s' : World K P) : Prop :=
  s'.desk = s.desk ∨ Desk.Step Ticket.number Ticket.source s.desk s'.desk

variable {consumer : Consumer K P} {i : Nat}

variable {events : List (HarnessEvent K P)} {event : Event K P} {caller : Caller}

theorem serving_put {old : Consumer K P} (hold : s.consumers[i]? = some old)
    (new : Consumer K P) : ∃ others : Multiset (Ticket × List (Call K P)),
      s.desk.serving = (old.held.toList : Multiset _) + others ∧
        (s.put i new).desk.serving = (new.held.toList : Multiset _) + others :=
  exists_filterMap_set Consumer.held hold new

/-- A consumer that holds the same is served the same. -/
theorem desk_put_of_held {old new : Consumer K P} (hold : s.consumers[i]? = some old)
    (hheld : new.held = old.held) :
    (s.put i new).desk = s.desk := by
  obtain ⟨others, hpre, haft⟩ := serving_put hold new
  have hservg : (s.put i new).desk.serving = s.desk.serving := by
    rw [hpre, haft, hheld]
  exact congrArg (fun serving => { s.desk with serving := serving }) hservg

/-- A consumer that holds nothing is not served. -/
theorem serving_hire (s : World K P) (hheld : consumer.held = none) :
    ((s.consumers ++ [consumer]).filterMap Consumer.held : Multiset (Ticket × List (Call K P))) =
      s.desk.serving := by
  rw [filterMap_append]
  simp [hheld, desk]

theorem serving_pushBack (s : World K P) (item : DeliveryItem K P) {worker : Consumer K P}
    (hheld : worker.held = none) : (s.pushBack item worker).desk.serving = s.desk.serving := by
  by_cases hsched : s.bus.workerScheduled = true
  · simp [desk, pushBack, hsched]
  · simp [desk, pushBack, hsched, hheld]

/-- The calls of a bound batch are those of its admission. -/
theorem calls_bind (s : BusState K P) (ticket : Ticket) (events : List (HarnessEvent K P)) :
    (events.map s.bind).flatMap BoundEvent.calls =
      (Admission.mk ticket events s.listeners s.watchers).calls := by
  rw [flatMap_map]
  rfl

/-- A batch that is put into the queue is a ticket that is opened. -/
theorem Moves.opens (h : s.Staffed) {source : Source}
    {before after : List (Ticket × List (Call K P))} (hwait : s.desk.waiting = before ++ after)
    (hline : ∀ x ∈ after, x.1.source ≠ source)
    (hadmissions : s'.admissions = (s.admitted ⟨s.tickets, source⟩ events).admissions)
    (hque : s'.desk.waiting = before ++
      (⟨s.tickets, source⟩, (events.map s.bus.bind).flatMap BoundEvent.calls) :: after)
    (hservg : s'.desk.serving = s.desk.serving) (hmade : s'.made = s.made)
    (hsent : s'.sent = s.sent) : s.Moves s' := by
  refine .inr ?_
  have hdesk : s'.desk = { s.desk with
      opened := s.desk.opened ++
        [(⟨s.tickets, source⟩, (events.map s.bus.bind).flatMap BoundEvent.calls)]
      waiting := before ++
        (⟨s.tickets, source⟩, (events.map s.bus.bind).flatMap BoundEvent.calls) :: after } := by
    apply Desk.ext
    · rw [calls_bind s.bus ⟨s.tickets, source⟩ events]
      show s'.admissions.map _ = s.admissions.map _ ++ _
      rw [hadmissions, admitted, map_append]
      rfl
    · exact hque
    · exact hservg
    · exact hmade
    · exact hsent
  rw [hdesk]
  refine .opens _ _ hwait ?_ hline
  intro x hx
  obtain ⟨a, ha, rfl⟩ := mem_map.mp hx
  exact h.numbered a ha

theorem Moves.emitBatch (h : s.Staffed) {worker : Nat}
    (hcare : s.Careful (.emitBatch caller events worker))
    (hstep : s.emitBatch caller events worker = some s') : s.Moves s' := by
  rw [World.emitBatch] at hstep
  cases hplc : s.placeOf caller with
  | none => simp [hplc] at hstep
  | some place =>
    rw [hplc] at hstep
    have hcond := hcare place hplc
    dsimp only at hstep
    split_ifs at hstep with hemp hshut hreentrant
    · cases hstep
      exact .inl rfl
    · cases hstep
      exact .inl rfl
    · cases hstep
      have hcond := hcond (by simpa using hemp) (by simpa using hshut)
      cases caller with
      | outside at_ => exact absurd (hreentrant.symm.trans hcond) (by decide)
      | inside i =>
        obtain ⟨_, _, call, _, _, _, hsource⟩ := placeOf_inside hplc
        obtain ⟨nested, rest, happ, hlen, -, hrest⟩ := h.front
        have hwait : s.desk.waiting =
            nested.filterMap DeliveryItem.owed ++ rest.filterMap DeliveryItem.owed := by
          rw [← filterMap_append, ← happ]
          rfl
        refine Moves.opens h hwait ?_ rfl ?_ ?_ rfl rfl
        · intro x hx
          rw [hrest x hx, hsource]
          simp
        · show (s.bus.queue.insertIdx s.bus.reentrantFront _).filterMap _ = _
          rw [happ, ← hlen, insertIdx_length_append, filterMap_append]
          rfl
        · exact serving_hire s rfl
    · cases hstep
      refine Moves.opens h (append_nil _).symm (by simp) rfl ?_ ?_ rfl rfl
      · show (s.bus.queue ++ [_]).filterMap _ = _
        rw [filterMap_append]
        rfl
      · exact serving_pushBack _ _ rfl

theorem Moves.enqueueBarrier {worker : Nat} (hstep : s.enqueueBarrier caller worker = some s') :
    s.Moves s' := by
  rw [World.enqueueBarrier] at hstep
  cases hplc : s.placeOf caller with
  | none => simp [hplc] at hstep
  | some place =>
    rw [hplc] at hstep
    have hque : (s.bus.queue ++ [DeliveryItem.barrier ⟨s.tickets, .barrier⟩]).filterMap
        DeliveryItem.owed = s.bus.queue.filterMap DeliveryItem.owed := by
      rw [filterMap_append]
      simp [DeliveryItem.owed]
    dsimp only at hstep
    split_ifs at hstep with hreentrant
    · cases hstep
      exact .inl (Desk.ext rfl hque (serving_hire s rfl) rfl rfl)
    · cases hstep
      refine .inl (Desk.ext rfl hque (serving_pushBack _ _ ?_) rfl rfl)
      rw [Consumer.held, spawnBarrierDrain]
      split_ifs <;> rfl

/-- An item that is taken off the queue is a ticket that is served, or a barrier. -/
theorem Moves.take {item : DeliveryItem K P} {bus : BusState K P}
    (hcons : s.consumers[i]? = some consumer) (hheld : consumer.held = none)
    (hpop : s.bus.popFront = some (item, bus)) (hfree : ∀ done events, item = .batch done events →
      ∀ other ∈ s.consumers.filterMap Consumer.held, other.1.source ≠ done.source) :
    s.Moves (s.take i consumer item bus) := by
  rw [BusState.popFront] at hpop
  cases hque : s.bus.queue with
  | nil => simp [hque] at hpop
  | cons first rest =>
    rw [hque] at hpop
    obtain ⟨rfl, rfl⟩ := Prod.mk.inj (Option.some.inj hpop)
    cases first with
    | barrier done =>
      refine .inl (Desk.ext rfl ?_ rfl rfl rfl)
      show rest.filterMap _ = s.bus.queue.filterMap _
      rw [hque]
      rfl
    | batch done events =>
      have hwait : s.desk.waiting =
          (done, events.flatMap BoundEvent.calls) :: rest.filterMap DeliveryItem.owed := by
        show s.bus.queue.filterMap _ = _
        rw [hque]
        rfl
      obtain ⟨others, hpre, haft⟩ := serving_put hcons
        { consumer with phase := .delivering done (events.flatMap BoundEvent.calls) }
      refine .inr ?_
      have hdesk : (s.take i consumer (.batch done events)
            { s.bus with queue := rest, reentrantFront := s.bus.reentrantFront - 1 }).desk =
          { s.desk with
            waiting := rest.filterMap DeliveryItem.owed
            serving := (done, events.flatMap BoundEvent.calls) ::ₘ s.desk.serving } := by
        refine Desk.ext rfl rfl ?_ rfl rfl
        show (s.put i _).desk.serving = _
        rw [haft, hpre, hheld]
        simp [Consumer.held]
      rw [hdesk]
      exact .takes hwait (hfree done events rfl)

theorem Moves.look (hcons : s.consumers[i]? = some consumer)
    (hrdy : consumer.phase = .ready) (hcare : s.Careful (.advance i)) :
    s.Moves (s.look i consumer) := by
  have hcond := hcare consumer hcons hrdy
  have hheld : consumer.held = none := by
    rw [Consumer.held, hrdy]
  -- What is taken may be taken.
  have htake : (∀ ticket, consumer.awaits = some ticket → s.observed ticket = false) →
      ∀ item bus, s.bus.popFront = some (item, bus) → s.Moves (s.take i consumer item bus) := by
    intro hlooks item bus hpop
    refine Moves.take hcons hheld hpop ?_
    intro done events hitem
    have hfree := hcond hlooks
    rw [hitem] at hpop
    rw [BusState.popFront] at hpop
    cases hque : s.bus.queue with
    | nil => simp [hque] at hpop
    | cons first rest =>
      rw [hque] at hpop hfree
      obtain ⟨rfl, -⟩ := Prod.mk.inj (Option.some.inj hpop)
      exact hfree
  -- A consumer that is done leaves the desk alone.
  have hfinish : ∀ awaits,
      (s.put i { place := consumer.place, awaits := awaits, phase := .finished }).desk = s.desk :=
    fun _ => desk_put_of_held hcons hheld.symm
  rw [World.look]
  cases hawt : consumer.awaits with
  | none =>
    cases hpop : s.bus.popFront with
    | none => exact .inl (hfinish none)
    | some popped => exact htake (by simp [hawt]) popped.1 popped.2 hpop
  | some ticket =>
    by_cases hobs : s.observed ticket = true
    · simp only [hobs, if_true]
      exact .inl (hfinish (some ticket))
    · simp only [hobs, false_eq_true, if_false]
      cases hpop : s.bus.popFront with
      | none => exact .inl (hfinish (some ticket))
      | some popped =>
        refine htake ?_ popped.1 popped.2 hpop
        intro other hoth
        rw [hawt] at hoth
        rw [← Option.some.inj hoth]
        simpa using hobs

theorem Moves.consume (h : s.Staffed) (hcons : s.consumers[i]? = some consumer)
    (hcare : s.Careful (.advance i)) (hstep : s.consume i consumer = some s') :
    s.Moves s' := by
  rw [World.consume] at hstep
  cases hph : consumer.phase with
  | created =>
    rw [hph] at hstep
    cases hawt : consumer.awaits with
    | some ticket => simp [hawt] at hstep
    | none =>
      simp only [hawt] at hstep
      cases hstep
      refine .inl (desk_put_of_held hcons ?_)
      rw [Consumer.held, Consumer.held, hph]
  | unspawned => exact absurd hph (h.spawned consumer (mem_of_getElem? hcons))
  | ready =>
    rw [hph] at hstep
    cases hstep
    exact Moves.look hcons hph hcare
  | delivering done calls =>
    rw [hph] at hstep
    have hheld : consumer.held = some (done, calls) := by
      rw [Consumer.held, hph]
    cases calls with
    | nil =>
      cases hstep
      obtain ⟨others, hpre, haft⟩ := serving_put hcons { consumer with phase := .ready }
      refine .inr ?_
      have hdesk : ({ s with sent := s.sent ++ [done] }.put i
          { consumer with phase := .ready }).desk =
          { s.desk with serving := others, closed := s.desk.closed ++ [done] } := by
        refine Desk.ext rfl rfl ?_ rfl rfl
        refine Eq.trans haft ?_
        simp [Consumer.held]
      rw [hdesk]
      refine .closes ?_
      rw [hpre, hheld]
      rfl
    | cons call rest =>
      cases hstep
      obtain ⟨others, hpre, haft⟩ := serving_put hcons
        { consumer with phase := .calling done call rest }
      refine .inr ?_
      have hdesk : ({ s with made := s.made ++ [(done, call)] }.put i
          { consumer with phase := .calling done call rest }).desk =
          { s.desk with
            serving := (done, rest) ::ₘ others, handed := s.desk.handed ++ [(done, call)] } := by
        refine Desk.ext rfl rfl ?_ rfl rfl
        refine Eq.trans haft ?_
        simp [Consumer.held]
      rw [hdesk]
      refine .hands ?_
      rw [hpre, hheld]
      rfl
  | calling done call rest =>
    rw [hph] at hstep
    cases hstep
    refine .inl (desk_put_of_held hcons ?_)
    rw [Consumer.held, Consumer.held, hph]
  | finished | dropped =>
    rw [hph] at hstep
    cases hstep

/-- Every step that meets the conditions is a move of the desk or leaves it alone. -/
theorem Moves.step [DecidableEq K] (h : s.Staffed) (hcare : s.Careful event)
    (hstep : s.step event = some s') : s.Moves s' := by
  cases event with
  | on | installWatcher =>
    rw [World.step] at hstep
    split_ifs at hstep
    · cases hstep
      exact .inl rfl
    · cases hstep
      exact .inl rfl
  | off | unwatch | close =>
    cases hstep
    exact .inl rfl
  | emitBatch caller events worker => exact Moves.emitBatch h hcare hstep
  | enqueueBarrier caller worker => exact Moves.enqueueBarrier hstep
  | ensureDrain place =>
    cases hstep
    rw [World.ensureDrain, if_neg]
    · exact .inl rfl
    · intro hcond
      rw [and_eq_true, not_eq_true'] at hcond
      rw [h.running hcond.1] at hcond
      cases hcond.2
  | resolve ticket =>
    rw [World.step] at hstep
    split_ifs at hstep with hobs
    cases hstep
    exact .inl rfl
  | poll i place =>
    rw [World.step] at hstep
    cases hcons : s.consumers[i]? with
    | none => simp [hcons] at hstep
    | some consumer =>
      simp only [hcons] at hstep
      split_ifs at hstep with hmade hinl
      cases hstep
      refine .inl (desk_put_of_held hcons ?_)
      cases hph : consumer.phase with
      | created => rw [Consumer.held, Consumer.held, hph]
      | unspawned | ready | delivering | calling | finished | dropped => simp [hph] at hmade
  | advance i =>
    rw [World.step] at hstep
    cases hcons : s.consumers[i]? with
    | none => simp [hcons] at hstep
    | some consumer =>
      simp only [hcons] at hstep
      exact Moves.consume h hcons hcare hstep
  | drop i =>
    rw [World.step] at hstep
    cases hcons : s.consumers[i]? with
    | none => simp [hcons] at hstep
    | some consumer =>
      simp only [hcons] at hstep
      obtain ⟨hinl, hfree⟩ := hcare consumer hcons
      have hdrop : (s.put i { consumer with phase := .dropped }).desk = s.desk :=
        desk_put_of_held hcons hfree.symm
      rw [World.dropConsumer] at hstep
      cases hph : consumer.phase with
      | created | unspawned | ready =>
        rw [hph] at hstep
        cases hstep
        exact .inl hdrop
      | delivering | calling => simp [Consumer.held, hph] at hfree
      | finished | dropped =>
        rw [hph] at hstep
        cases hstep

/-! ## What a run has delivered -/

/-- What every careful step keeps. -/
structure Runs (s : World K P) : Prop where
  staffed : s.Staffed
  sound : s.desk.Sound Ticket.number Ticket.source

theorem Runs.new : (new : World K P).Runs where
  staffed :=
    { numbered := by simp [World.new], front := ⟨[], [], rfl, rfl, by simp, by simp⟩,
      scheduled := fun h => absurd rfl h, running := fun h => (nomatch h),
      working := fun h => (nomatch h), spawned := by simp [World.new], kept := rfl,
      truthful := by simp [World.new], batches := by simp [World.new],
      barriers := by simp [World.new, BusState.new] }
  sound := Desk.Sound.empty

theorem Runs.step [DecidableEq K] (h : s.Runs) (hcare : s.Careful event)
    (hstep : s.step event = some s') : s'.Runs where
  staffed := h.staffed.step hcare hstep
  sound := by
    cases Moves.step h.staffed hcare hstep with
    | inl hsame =>
      rw [hsame]
      exact h.sound
    | inr hmove => exact h.sound.step hmove

theorem mem_undelivered {x : Ticket × List (Call K P)} :
    x ∈ s.undelivered ↔ x ∈ s.desk.pending := by
  rw [undelivered, mem_append, Desk.pending, Multiset.mem_add]
  rfl

theorem Runs.exact (h : s.Runs) {a : Admission K P} (ha : a ∈ s.admissions) :
    (a.ticket ∈ s.sent ∧ a.ticket ∉ s.undelivered.map Prod.fst ∧ s.received a.ticket = a.calls) ∨
      (a.ticket ∉ s.sent ∧ ∃ rest, (a.ticket, rest) ∈ s.undelivered ∧
        s.received a.ticket ++ rest = a.calls) := by
  have hopn : (a.ticket, a.calls) ∈ s.desk.opened := mem_map_of_mem ha
  cases h.sound.exact hopn with
  | inl hdone =>
    refine .inl ⟨hdone.1, ?_, hdone.2⟩
    intro hmem
    obtain ⟨x, hx, heq⟩ := mem_map.mp hmem
    exact h.sound.ne_of_closed hdone.1 (mem_undelivered.mp hx) heq
  | inr hopen =>
    obtain ⟨hnot, rest, hrest, hcalls⟩ := hopen
    exact .inr ⟨hnot, rest, mem_undelivered.mpr hrest, hcalls⟩

/-- Nothing is on its way when nobody is at work. -/
theorem Runs.undelivered_eq_nil (h : s.Runs) (hrest : ∀ consumer ∈ s.consumers, ¬ consumer.Busy) :
    s.undelivered = [] := by
  have hidle : s.bus.workerScheduled = false := by
    rw [eq_false_iff]
    intro hsched
    obtain ⟨consumer, hmem, hworks⟩ := h.staffed.working hsched
    refine hrest consumer hmem ?_
    obtain ⟨hawt, hph⟩ := hworks
    rw [Consumer.Busy]
    split at hph <;> simp_all
  have hque : s.bus.queue = [] := by
    by_contra hque
    rw [h.staffed.scheduled hque] at hidle
    cases hidle
  have hheld : s.consumers.filterMap Consumer.held = [] := by
    rw [filterMap_eq_nil_iff]
    intro consumer hmem
    have hbusy := hrest consumer hmem
    rw [Consumer.Busy] at hbusy
    rw [Consumer.held]
    split at hbusy <;> simp_all
  rw [undelivered, hque, hheld]
  rfl

theorem Runs.delivers (h : s.Runs) : s.Delivers where
  exact a ha := h.exact ha
  once := (Multiset.nodup_add.mp h.sound.nodup_places).1
  alone x hx := by
    obtain ⟨y, hy, heq⟩ := mem_map.mp (h.sound.known x hx)
    obtain ⟨a, ha, rfl⟩ := mem_map.mp hy
    exact ⟨a, ha, heq⟩
  ordered source recipient := by
    rw [pairwise_map]
    refine List.Pairwise.imp_of_mem ?_ (h.sound.ordered.sublist filter_sublist)
    intro x y hx hy hle
    simp only [mem_filter, decide_eq_true_eq] at hx hy
    exact hle (hx.2.1.trans hy.2.1.symm)
  truthful a ha hsolved := by
    cases h.exact ha with
    | inl hdone => exact hdone.2.2
    | inr hopen =>
      cases h.staffed.truthful a.ticket hsolved with
      | inl hsent => exact absurd hsent hopen.1
      | inr hfired =>
        exact absurd (h.staffed.barriers a.ticket (.inr hfired)) (h.staffed.batches a ha)
  idle hidle := by
    by_contra hque
    rw [h.staffed.scheduled hque] at hidle
    cases hidle
  complete hrest a ha := by
    cases h.exact ha with
    | inl hdone => exact ⟨hdone.1, hdone.2.2⟩
    | inr hopen =>
      obtain ⟨rest, hmem, -⟩ := hopen.2
      rw [h.undelivered_eq_nil hrest] at hmem
      cases hmem

variable [DecidableEq K]

/-- A bus delivers everything once and in order, along every run that meets the conditions. -/
theorem delivers_of_run (h : machine.Run Careful s) : s.Delivers := by
  refine Runs.delivers (h.invariant ?_ ?_)
  · rintro s rfl
    exact Runs.new
  · exact fun _ _ _ hruns hcare hstep => hruns.step hcare hstep

/-- Listener 0 emits an event while it is called; the future delivers it to listener 1, and the
watcher is still to come. -/
def nestedTrace : List (Event Nat Nat) :=
  let place : Place := { task := none, inlineDrain := false, runtime := true }
  let task : Place := { task := some 7, inlineDrain := false, runtime := true }
  [.on 0, .on 1, .installWatcher, .emitBatch (.outside place) [⟨0, 10⟩] 7, .advance 0, .advance 0,
   .advance 0, .emitBatch (.inside 0) [⟨1, 11⟩] 8, .poll 1 task, .advance 1, .advance 1]

/-- Polled to its end, the future delivers the nested batch, and the worker goes on. -/
theorem delivers_nested : ∃ s : World Nat Nat, machine.Run Careful s ∧ s.Delivers ∧
    s.made.length = 4 ∧ s.undelivered = [] := by
  have hstart : (machine : Machine (World Nat Nat) _).Run Careful new := .start rfl
  obtain ⟨s, hrun, hs⟩ := hstart.execute (fun s event => decide (s.Careful event))
    (nestedTrace ++ [.advance 1, .advance 1, .advance 1, .advance 1, .advance 1, .advance 0,
      .advance 0, .advance 0, .advance 0, .advance 0])
    (fun s => decide (s.made.length = 4 ∧ s.undelivered = []))
    (fun s event h => of_decide_eq_true h) (by decide +kernel)
  exact ⟨s, hrun, delivers_of_run hrun, of_decide_eq_true hs⟩

/-- The same future is dropped while the first of two recipients is called: the batch is gone. -/
theorem dropped_future_loses_batch : ∃ s : World Nat Nat,
    machine.Run (fun _ _ => True) s ∧ ¬ s.Delivers := by
  have hstart : (machine : Machine (World Nat Nat) _).Run (fun _ _ => True) new := .start rfl
  obtain ⟨s, hrun, hs⟩ := hstart.execute (fun _ _ => true) (nestedTrace ++ [.drop 1])
    (fun s => s.undelivered.all (fun x => x.1.number = 0) &&
      s.admissions.any (fun a => a.ticket.number = 1 && !s.sent.contains a.ticket))
    (fun _ _ _ => trivial) (by decide +kernel)
  refine ⟨s, hrun, ?_⟩
  intro hdelivers
  rw [and_eq_true, List.all_eq_true, List.any_eq_true] at hs
  obtain ⟨hall, a, ha, hone⟩ := hs
  rw [and_eq_true, decide_eq_true_eq, not_eq_true'] at hone
  cases hdelivers.exact a ha with
  | inl hdone =>
    rw [List.contains_iff_mem.mpr hdone.1] at hone
    cases hone.2
  | inr hopen =>
    obtain ⟨-, rest, hmem, -⟩ := hopen
    have hzero := of_decide_eq_true (hall _ hmem)
    rw [hone.1] at hzero
    cases hzero

end World

end PiOxidized.Harness.HarnessBus
