/-
# Messages take effect in the order received

As long as no session call joins the queue behind one that was received later, no request is
looked up while an earlier one with its id is unanswered and not in the table, and no
cancellation finds its request unregistered, session calls begin in order, cancellations reach
their requests, and an id stands for the request that was received first.
-/

import PiOxidized.Remote.Ordering

namespace PiOxidized.Remote

open List Math Function

namespace ServerConnection

variable {s s' : ServerConnection}

/-- What the server promises about the order of messages. -/
structure InOrder (s : ServerConnection) : Prop where
  /-- Session calls began in the order their requests were received. -/
  ordered : s.begun.Pairwise (· < ·)
  /-- A request that was to be cancelled is cancelled, or never gets a context. -/
  cancelled : ∀ task ∈ s.tasks, task.owed = true → task.phase.hasContext = true →
    task.cancelled = true
  /-- A request with the id of an unanswered one is refused. -/
  refused : ∀ task ∈ s.tasks, task.rival = true →
    task.phase = .spawned ∨ task.phase = .refusing ∨ task.phase = .refused
  /-- The id of a request stands for its token until its result is sent. -/
  kept : ∀ (index : Nat) task, s.tasks[index]? = some task →
    task.phase.listed = true → s.activeRequests task.id = some index

/-- A cancellation finds its request in the table, a request with the id of an unanswered one
finds the id there, and a session call joins the queue behind earlier ones only. -/
def Careful (s : ServerConnection) : ConnectionEvent → Prop
  | .request _ _ _ => True
  | .cancel id target =>
    ∀ task ∈ s.tasks, task.id = id → task.target = target → task.phase.settled = false →
      task.rival = true ∨ task.valid = false ∨ task.phase = .refusing ∨
        (task.phase.listed = true ∧ target.serverId = s.serverId)
  | .advance index subscription =>
    ∀ task, s.tasks[index]? = some task →
      (task.phase = .spawned → task.rival = true → (s.activeRequests task.id).isSome = true) ∧
        (task.phase = .registered → s.joins task subscription = true →
          ∀ other ∈ s.begun ++ s.clientOperations, other < index)

/-! ## What every step keeps -/

/-- What the table says of a task, and what a task says of itself. -/
structure Fits (listing : Option Nat) (index : Nat) (task : RequestTask) : Prop where
  listed : task.phase.listed = true → listing = some index
  free : task.phase = .checked → task.rival = false ∧ listing = none
  rival : task.rival = true → task.phase = .spawned ∨ task.phase = .refusing ∨ task.phase = .refused
  parses : task.phase.hasContext = true → task.valid = true
  cancelled : task.owed = true → task.phase.hasContext = true → task.cancelled = true
  early : task.owed = true → task.phase = .spawned ∨ task.phase = .checked →
    task.rival = true ∨ task.valid = false

structure Sound (s : ServerConnection) : Prop where
  fits : ∀ (index : Nat) task, s.tasks[index]? = some task →
    Fits (s.activeRequests task.id) index task
  /-- A request received while its id was answered follows settled ones. -/
  sole : ∀ (i j : Nat) (first second : RequestTask), i < j → s.tasks[i]? = some first →
    s.tasks[j]? = some second → first.id = second.id → second.rival = false →
      first.phase.settled = true
  ordered : (s.begun ++ s.clientOperations).Pairwise (· < ·)

variable {task : RequestTask} {phase : RequestTaskPhase} {i : Nat} {listing : Option Nat}

theorem Sound.inOrder (h : s.Sound) : s.InOrder where
  ordered := (pairwise_append.mp h.ordered).1
  cancelled task hmem := by
    obtain ⟨i, hidx⟩ := mem_iff_getElem?.mp hmem
    exact (h.fits i task hidx).cancelled
  refused task hmem := by
    obtain ⟨i, hidx⟩ := mem_iff_getElem?.mp hmem
    exact (h.fits i task hidx).rival
  kept i task hidx := (h.fits i task hidx).listed

/-- A request that is registered is no rival. -/
theorem Fits.rival_eq_false (h : Fits listing i task) (hph : task.phase.hasContext = true) :
    task.rival = false := by
  by_contra hrival
  rw [Bool.not_eq_false] at hrival
  rcases h.rival hrival with heq | heq | heq <;>
  · rw [heq] at hph
    cases hph

/-- A task that moves on stays settled once it is. -/
theorem Sound.sole_set (h : s.Sound) (htask : s.tasks[k]? = some task)
    (hset : task.phase.settled = true → phase.settled = true) (i j : Nat)
    (first snd : RequestTask) (hlt : i < j)
    (hfst : (s.tasks.set k { task with phase := phase })[i]? = some first)
    (hsnd : (s.tasks.set k { task with phase := phase })[j]? = some snd)
    (hid : first.id = snd.id) (hrival : snd.rival = false) : first.phase.settled = true := by
  rcases getElem?_set_cases hfst with ⟨rfl, rfl⟩ | ⟨-, hold⟩
  · rcases getElem?_set_cases hsnd with ⟨rfl, -⟩ | ⟨-, hold'⟩
    · exact absurd hlt (Nat.lt_irrefl _)
    · exact hset (h.sole i j task snd hlt htask hold' hid hrival)
  · rcases getElem?_set_cases hsnd with ⟨rfl, rfl⟩ | ⟨-, hold'⟩
    · exact h.sole i j first task hlt hold htask hid hrival
    · exact h.sole i j first snd hlt hold hold' hid hrival

/-- A task moves on, and the table stays or loses what the task had there. -/
theorem Sound.move (h : s.Sound) {active : String → Option Nat} {running : Option Nat}
    {operations begun : List Nat} (htask : s.tasks[i]? = some task)
    (hact : active = s.activeRequests ∨
      task.phase.listed = true ∧ active = update s.activeRequests task.id none)
    (hord : (begun ++ operations).Pairwise (· < ·))
    (hset : task.phase.settled = true → phase.settled = true)
    (hfits : Fits (active task.id) i { task with phase := phase }) :
    ({ s with
      activeRequests := active
      running := running
      clientOperations := operations
      begun := begun }.put i task phase).Sound where
  fits j other hoth := by
    rcases getElem?_set_cases hoth with ⟨rfl, rfl⟩ | ⟨hne, hold⟩
    · exact hfits
    · have hoth := h.fits j other hold
      show Fits (active other.id) j other
      cases hact with
      | inl hsame =>
        rw [hsame]
        exact hoth
      | inr hgone =>
        obtain ⟨hlist, hupd⟩ := hgone
        by_cases hid : other.id = task.id
        · rw [hupd, hid, update_self]
          refine { hoth with listed := ?_, free := ?_ }
          · intro hlist'
            have hidx := hoth.listed hlist'
            rw [hid, (h.fits i task htask).listed hlist] at hidx
            exact absurd (Option.some.inj hidx).symm hne
          · exact fun hph => ⟨(hoth.free hph).1, rfl⟩
        · rw [hupd, update_of_ne hid]
          exact hoth
  sole := h.sole_set htask hset
  ordered := hord

/-- Two requests that were received while their id was answered are not both on their way. -/
theorem Sound.eq_of_id_eq (h : s.Sound) {i j : Nat} {first snd : RequestTask}
    (hfst : s.tasks[i]? = some first) (hsnd : s.tasks[j]? = some snd)
    (hid : first.id = snd.id) (hrival : first.rival = false) (hrival' : snd.rival = false)
    (hopen : first.phase.settled = false) (hopen' : snd.phase.settled = false) : i = j := by
  rcases Nat.lt_trichotomy i j with hlt | heq | hgt
  · have hset := h.sole i j first snd hlt hfst hsnd hid hrival'
    rw [hopen] at hset
    cases hset
  · exact heq
  · have hset := h.sole j i snd first hgt hsnd hfst hid.symm hrival
    rw [hopen'] at hset
    cases hset

/-- A task whose id is free registers it. -/
theorem Sound.register (h : s.Sound) (htask : s.tasks[i]? = some task)
    (hph : task.phase = .checked) (hval : task.valid = true) :
    ({ s with
      activeRequests := update s.activeRequests task.id (some i) }.put i task
        .registered).Sound where
  fits j other hoth := by
    have hself := h.fits i task htask
    obtain ⟨hrival, hfree⟩ := hself.free hph
    show Fits (update s.activeRequests task.id (some i) other.id) j other
    rcases getElem?_set_cases hoth with ⟨rfl, rfl⟩ | ⟨hne, hold⟩
    · rw [update_self]
      have hnot_owed : task.owed = false := by
        by_contra howed
        rw [Bool.not_eq_false] at howed
        rcases hself.early howed (.inr hph) with heq | heq
        · rw [hrival] at heq
          cases heq
        · rw [hval] at heq
          cases heq
      constructor
      · exact fun _ => rfl
      · exact nofun
      · intro heq
        rw [hrival] at heq
        cases heq
      · exact fun _ => hval
      · intro howed
        rw [hnot_owed] at howed
        cases howed
      · intro howed
        rw [hnot_owed] at howed
        cases howed
    · have hoth := h.fits j other hold
      by_cases hid : other.id = task.id
      · rw [hid] at hoth
        refine { hoth with listed := ?_, free := ?_ }
        · intro hlist
          have hidx := hoth.listed hlist
          rw [hfree] at hidx
          cases hidx
        · intro hph'
          have heq := h.eq_of_id_eq hold htask hid (hoth.free hph').1 hrival
            (by rw [hph']; rfl) (by rw [hph]; rfl)
          exact absurd heq hne
      · rw [update_of_ne hid]
        exact hoth
  sole := h.sole_set htask fun hset => by
    rw [hph] at hset
    cases hset
  ordered := h.ordered

/-- A registered request that moves on and stays in the table. -/
theorem Fits.listed_move (h : Fits listing i task) (hlist : task.phase.listed = true)
    (hph : phase.listed = true) : Fits listing i { task with phase := phase } := by
  have hctx : ∀ phase : RequestTaskPhase, phase.listed = true → phase.hasContext = true ∧
      phase ≠ .spawned ∧ phase ≠ .checked := by
    intro phase hph
    cases phase <;> simp_all [RequestTaskPhase.listed, RequestTaskPhase.hasContext]
  constructor
  · exact fun _ => h.listed hlist
  · exact fun heq => absurd heq (hctx phase hph).2.2
  · intro hrival
    rw [h.rival_eq_false (hctx _ hlist).1] at hrival
    cases hrival
  · exact fun _ => h.parses (hctx _ hlist).1
  · exact fun howed _ => h.cancelled howed (hctx _ hlist).1
  · rintro - (heq | heq)
    · exact absurd heq (hctx phase hph).2.1
    · exact absurd heq (hctx phase hph).2.2

/-- A request that leaves the table. -/
theorem Fits.unlist (h : Fits listing i task) (hctx : task.phase.hasContext = true)
    (hph : phase = .withdrawn ∨ phase = .removed) :
    Fits none i { task with phase := phase } := by
  constructor
  · rcases hph with rfl | rfl <;> exact nofun
  · rcases hph with rfl | rfl <;> exact nofun
  · intro hrival
    rw [h.rival_eq_false hctx] at hrival
    cases hrival
  · exact fun _ => h.parses hctx
  · exact fun howed _ => h.cancelled howed hctx
  · rcases hph with rfl | rfl <;> exact fun _ heq => by rcases heq with heq | heq <;> cases heq

/-- A request that is refused has no context any more. -/
theorem Fits.refuse (hph : phase = .refusing ∨ phase = .refused) :
    Fits listing i { task with phase := phase } := by
  rcases hph with rfl | rfl
  · exact ⟨nofun, nofun, fun _ => .inr (.inl rfl), nofun, fun _ => nofun,
      fun _ heq => by rcases heq with heq | heq <;> cases heq⟩
  · exact ⟨nofun, nofun, fun _ => .inr (.inr rfl), nofun, fun _ => nofun,
      fun _ heq => by rcases heq with heq | heq <;> cases heq⟩

theorem Sound.handleRequest (h : s.Sound) {sub : SubscriptionCheck}
    (htask : s.tasks[i]? = some task) (hcare : s.Careful (.advance i sub))
    (hstep : s.handleRequest i task sub = some s') : s'.Sound := by
  have hself := h.fits i task htask
  obtain ⟨hlook, hjoin⟩ := hcare task htask
  unfold ServerConnection.handleRequest at hstep
  cases hph : task.phase with
  | spawned =>
    simp only [hph] at hstep
    have hopen : ∀ phase : RequestTaskPhase, task.phase.settled = true → phase.settled = true := by
      intro phase hset
      rw [hph] at hset
      cases hset
    split_ifs at hstep with hact
    · cases hstep
      exact h.move htask (.inl rfl) h.ordered (hopen _) (.refuse (.inl rfl))
    · cases hstep
      have hrival : task.rival = false := by
        by_contra hrival
        rw [Bool.not_eq_false] at hrival
        exact hact (hlook hph hrival)
      refine h.move htask (.inl rfl) h.ordered (hopen _) ?_
      constructor
      · exact nofun
      · exact fun _ => ⟨hrival, Option.not_isSome_iff_eq_none.mp hact⟩
      · intro heq
        rw [hrival] at heq
        cases heq
      · exact nofun
      · exact fun _ => nofun
      · exact fun howed _ => hself.early howed (.inl hph)
  | checked =>
    simp only [hph] at hstep
    split_ifs at hstep with hval
    · cases hstep
      exact h.register htask hph hval
    · cases hstep
      refine h.move htask (.inl rfl) h.ordered ?_ (.refuse (.inl rfl))
      intro hset
      rw [hph] at hset
      cases hset
  | refusing | withdrawn =>
    simp only [hph] at hstep
    cases hstep
    exact h.move htask (.inl rfl) h.ordered (fun _ => rfl) (.refuse (.inr rfl))
  | registered =>
    simp only [hph] at hstep
    have hlist : task.phase.listed = true := by rw [hph]; rfl
    have hopen : ∀ phase : RequestTaskPhase, task.phase.settled = true → phase.settled = true := by
      intro phase hset
      rw [hph] at hset
      cases hset
    cases sub with
    | undecodable =>
      cases hstep
      refine h.move htask (.inr ⟨hlist, rfl⟩) h.ordered (hopen _) ?_
      rw [update_self]
      exact hself.unlist (by rw [hph]; rfl) (.inl rfl)
    | duplicate =>
      cases hstep
      exact h.move htask (.inl rfl) h.ordered (hopen _) (hself.listed_move hlist rfl)
    | fine =>
      simp only at hstep
      split_ifs at hstep with hjoins
      · cases hstep
        refine h.move htask (.inl rfl) ?_ (hopen _) (hself.listed_move hlist rfl)
        rw [← append_assoc, pairwise_append]
        refine ⟨h.ordered, pairwise_singleton _ _, ?_⟩
        intro other hmem next hnext
        rw [mem_singleton.mp hnext]
        exact hjoin hph hjoins other hmem
      · cases hstep
        exact h.move htask (.inl rfl) h.ordered (hopen _) (hself.listed_move hlist rfl)
      · cases hstep
        exact h.move htask (.inl rfl) h.ordered (hopen _) (hself.listed_move hlist rfl)
  | queued =>
    simp only [hph] at hstep
    split at hstep
    · rename_i next rest hrunning hops
      split_ifs at hstep with hnext
      cases hstep
      refine h.move htask (.inl rfl) ?_ (by rw [hph]; exact nofun)
        (hself.listed_move (by rw [hph]; rfl) rfl)
      have hord := h.ordered
      rw [hops, hnext] at hord
      rw [append_assoc]
      exact hord
    · cases hstep
  | executing | invoking | executed =>
    simp only [hph] at hstep
    cases hstep
    exact h.move htask (.inl rfl) h.ordered (by rw [hph]; exact nofun)
      (hself.listed_move (by rw [hph]; rfl) rfl)
  | answered =>
    simp only [hph] at hstep
    cases hstep
    refine h.move htask (.inr ⟨by rw [hph]; rfl, rfl⟩) h.ordered (fun _ => rfl) ?_
    rw [update_self]
    exact hself.unlist (by rw [hph]; rfl) (.inr rfl)
  | refused | removed =>
    simp only [hph] at hstep
    cases hstep

/-! ## Messages received -/

variable {tgt : RpcTarget}

variable {event : ConnectionEvent} {id : String}

/-- A cancellation marks requests and leaves everything else alone. -/
theorem handleCancel_frame (s : ServerConnection) (id : String) (tgt : RpcTarget) :
    (s.handleCancel id tgt).activeRequests = s.activeRequests ∧
      (s.handleCancel id tgt).begun = s.begun ∧
        (s.handleCancel id tgt).clientOperations = s.clientOperations := by
  unfold handleCancel
  split_ifs
  · exact ⟨rfl, rfl, rfl⟩
  · split
    · exact ⟨rfl, rfl, rfl⟩
    · split
      · exact ⟨rfl, rfl, rfl⟩
      · split_ifs
        · exact ⟨rfl, rfl, rfl⟩
        · exact ⟨rfl, rfl, rfl⟩

/-- A cancellation cancels tokens, and that of the request it finds. -/
theorem getElem?_handleCancel (h : (s.handleCancel id tgt).tasks[i]? = some task) :
    ∃ old, s.tasks[i]? = some old ∧ (task = old ∨ task = { old with cancelled := true }) ∧
      (tgt.serverId = s.serverId → s.activeRequests id = some i → old.target = tgt →
        task.cancelled = true) := by
  unfold handleCancel at h
  split_ifs at h with hsrv
  · exact ⟨task, h, .inl rfl, fun heq => absurd heq hsrv⟩
  · cases hact : s.activeRequests id with
    | none =>
      simp only [hact] at h
      exact ⟨task, h, .inl rfl, fun _ => nofun⟩
    | some found =>
      simp only [hact] at h
      cases hfnd : s.tasks[found]? with
      | none =>
        simp only [hfnd] at h
        refine ⟨task, h, .inl rfl, fun _ heq => ?_⟩
        rw [Option.some.inj heq, h] at hfnd
        cases hfnd
      | some old =>
        simp only [hfnd] at h
        split_ifs at h with htgt
        · rcases getElem?_set_cases h with ⟨rfl, rfl⟩ | ⟨hne, hold⟩
          · exact ⟨old, hfnd, .inr rfl, fun _ _ _ => rfl⟩
          · exact ⟨task, hold, .inl rfl, fun _ heq => absurd (Option.some.inj heq).symm hne⟩
        · refine ⟨task, h, .inl rfl, fun _ heq htgt' => ?_⟩
          rw [Option.some.inj heq, h] at hfnd
          exact absurd ((Option.some.inj hfnd) ▸ htgt') htgt

/-- A cancellation is owed to the unanswered requests it names. -/
theorem getElem?_owe (h : (s.owe id tgt).tasks[i]? = some task) : ∃ old, s.tasks[i]? = some old ∧
      (task = old ∨ old.id = id ∧ old.target = tgt ∧ old.phase.settled = false ∧
          task = { old with owed := true }) := by
  have h : (s.tasks.map _)[i]? = some task := h
  rw [getElem?_map, Option.map_eq_some_iff] at h
  obtain ⟨old, hold, rfl⟩ := h
  refine ⟨old, hold, ?_⟩
  split_ifs with hnamed
  · exact .inr ⟨hnamed.1, hnamed.2.1, hnamed.2.2, rfl⟩
  · exact .inl rfl

theorem Sound.cancel (h : s.Sound) (hcare : s.Careful (.cancel id tgt)) :
    ((s.owe id tgt).handleCancel id tgt).Sound := by
  obtain ⟨hact, hbegun, hops⟩ := handleCancel_frame (s.owe id tgt) id tgt
  -- What a request was before, and why it is cancelled if it should be.
  have hpre : ∀ (k : Nat) task, ((s.owe id tgt).handleCancel id tgt).tasks[k]? = some task →
        ∃ old, s.tasks[k]? = some old ∧ task.id = old.id ∧ task.phase = old.phase ∧
          task.rival = old.rival ∧ task.valid = old.valid ∧
            (old.cancelled = true → task.cancelled = true) ∧ (task.owed = true → old.owed = true ∨
                old.rival = true ∨ old.valid = false ∨ old.phase = .refusing ∨
                  old.phase.listed = true ∧ task.cancelled = true) := by
    intro k task htask
    obtain ⟨marked, hmarked, hcancel, hreached⟩ := getElem?_handleCancel htask
    obtain ⟨old, hold, howe⟩ := getElem?_owe hmarked
    refine ⟨old, hold, ?_⟩
    rcases howe with rfl | ⟨hid, htgt, hopen, rfl⟩
    · rcases hcancel with rfl | rfl
      · exact ⟨rfl, rfl, rfl, rfl, fun heq => heq, .inl⟩
      · exact ⟨rfl, rfl, rfl, rfl, fun _ => rfl, .inl⟩
    · have hfnd := hcare old (mem_of_getElem? hold) hid htgt hopen
      have howed : old.rival = true ∨ old.valid = false ∨ old.phase = .refusing ∨
          old.phase.listed = true ∧ task.cancelled = true := by
        refine hfnd.imp_right fun hfnd => hfnd.imp_right fun hfnd => hfnd.imp_right ?_
        rintro ⟨hlist, hsrv⟩
        have hent := (h.fits k old hold).listed hlist
        rw [hid] at hent
        exact ⟨hlist, hreached hsrv hent htgt⟩
      rcases hcancel with rfl | rfl
      · exact ⟨rfl, rfl, rfl, rfl, fun heq => heq, fun _ => .inr howed⟩
      · exact ⟨rfl, rfl, rfl, rfl, fun _ => rfl, fun _ => .inr howed⟩
  refine { fits := ?_, sole := ?_, ordered := ?_ }
  · intro k task htask
    obtain ⟨old, hold, hid, hph, hrival, hval, hkept, howed⟩ := hpre k task htask
    have hfits := h.fits k old hold
    rw [hact, hid]
    refine { listed := ?_, free := ?_, rival := ?_, parses := ?_, cancelled := ?_, early := ?_ }
    · rw [hph]
      exact hfits.listed
    · rw [hph, hrival]
      exact hfits.free
    · rw [hph, hrival]
      exact hfits.rival
    · rw [hph, hval]
      exact hfits.parses
    · intro howe hctx
      rw [hph] at hctx
      rcases howed howe with hold_owed | hrival' | hval' | hrefusing | hcancelled
      · exact hkept (hfits.cancelled hold_owed hctx)
      · rw [hfits.rival_eq_false hctx] at hrival'
        cases hrival'
      · rw [hfits.parses hctx] at hval'
        cases hval'
      · rw [hrefusing] at hctx
        cases hctx
      · exact hcancelled.2
    · intro howe hear
      rw [hph] at hear
      rw [hrival, hval]
      rcases howed howe with hold_owed | hrival' | hval' | hrefusing | ⟨hlist, -⟩
      · exact hfits.early hold_owed hear
      · exact .inl hrival'
      · exact .inr hval'
      · rcases hear with heq | heq <;>
        · rw [hrefusing] at heq
          cases heq
      · rcases hear with heq | heq <;>
        · rw [heq] at hlist
          cases hlist
  · intro i j first snd hlt hfst hsnd hid hrival
    obtain ⟨old, hold, hold_id, hph, -⟩ := hpre i first hfst
    obtain ⟨old', hold', hold_id', -, hrival', -⟩ := hpre j snd hsnd
    rw [hph]
    refine h.sole i j old old' hlt hold hold' ?_ ?_
    · rw [← hold_id, ← hold_id', hid]
    · rw [← hrival', hrival]
  · rw [hbegun, hops]
    exact h.ordered

theorem Sound.request (h : s.Sound) (id : String) (tgt : RpcTarget) (valid : Bool) :
    (s.request id tgt valid).Sound := by
  refine { h with fits := ?_, sole := ?_ }
  · exact forall_concat h.fits ⟨nofun, nofun, fun _ => .inl rfl, nofun, nofun, nofun⟩
  · intro i j first snd hlt hfst hsnd hid hrival
    rcases getElem?_append_cases hfst with hold | ⟨hi, -⟩
    · rcases getElem?_append_cases hsnd with hold' | ⟨-, rfl⟩
      · exact h.sole i j first snd hlt hold hold' hid hrival
      · have hnone := List.any_eq_false.mp hrival first (mem_of_getElem? hold)
        simpa [hid] using hnone
    · obtain ⟨hj, -⟩ := List.getElem?_eq_some_iff.mp hsnd
      have hlen : (s.request id tgt valid).tasks.length = s.tasks.length + 1 := length_append
      omega

theorem Sound.step (h : s.Sound) (hcare : s.Careful event) (hstep : s.step event = some s') :
    s'.Sound := by
  cases event with
  | request id tgt valid =>
    cases hstep
    exact h.request id tgt valid
  | cancel id tgt =>
    cases hstep
    exact h.cancel hcare
  | advance i sub =>
    rw [ServerConnection.step] at hstep
    cases htask : s.tasks[i]? with
    | none => simp [htask] at hstep
    | some task =>
      simp only [htask] at hstep
      exact h.handleRequest htask hcare hstep

/-- Messages take effect in order, along every run that meets the conditions. -/
theorem in_order_of_run (h : machine.Run Careful s) : s.InOrder := by
  refine Sound.inOrder (h.invariant ?_ ?_)
  · rintro s ⟨serverId, rfl⟩
    exact ⟨fun _ _ => nofun, fun _ _ _ _ _ => nofun, List.Pairwise.nil⟩
  · exact fun _ _ _ hsound hcare hstep => hsound.step hcare hstep

/-- The conditions, computed. -/
def checks (s : ServerConnection) : ConnectionEvent → Bool
  | .request _ _ _ => true
  | .cancel id target =>
    s.tasks.all fun task =>
      task.id ≠ id || task.target ≠ target || task.phase.settled || task.rival || !task.valid ||
        task.phase = .refusing || (task.phase.listed && target.serverId = s.serverId)
  | .advance index subscription =>
    match s.tasks[index]? with
    | none => true
    | some task =>
      (task.phase ≠ .spawned || !task.rival || (s.activeRequests task.id).isSome) &&
        (task.phase ≠ .registered || !s.joins task subscription ||
          (s.begun ++ s.clientOperations).all fun other => other < index)

theorem careful_of_checks (h : s.checks event = true) : s.Careful event := by
  cases event with
  | request id tgt valid => trivial
  | cancel id tgt =>
    intro task hmem hid htgt hopen
    have htask := all_eq_true.mp h task hmem
    simpa [hid, htgt, hopen, or_assoc] using htask
  | advance i sub =>
    intro task htask
    simp only [checks, htask, Bool.and_eq_true] at h
    refine ⟨?_, ?_⟩
    · intro hph hrival
      simpa [hph, hrival] using h.1
    · intro hph hjoins other hmem
      have hall : ((s.begun ++ s.clientOperations).all fun other => other < i) = true := by
        simpa [hph, hjoins] using h.2
      exact of_decide_eq_true (all_eq_true.mp hall other hmem)

/-- Two session calls of which the first is cancelled while it runs, and a request with its id. -/
theorem in_order_of_three : ∃ s, machine.Run Careful s ∧ s.InOrder ∧ s.begun = [0, 1] ∧
    s.tasks.map (fun task => (task.phase, task.cancelled)) =
      [(.removed, true), (.executing, false), (.refused, false)] := by
  have hstart : machine.Run Careful { serverId := "s" } := .start ⟨"s", rfl⟩
  obtain ⟨s, hrun, hs⟩ := hstart.execute checks
    [.request "a" (.session ⟨"s", "x", "y"⟩) true, .request "b" (.session ⟨"s", "x", "y"⟩) true,
      .advance 0 .fine, .advance 0 .fine, .advance 0 .fine,
      .request "a" (.session ⟨"s", "x", "y"⟩) true, .advance 2 .fine, .advance 2 .fine,
      .advance 1 .fine, .advance 1 .fine, .advance 1 .fine, .advance 0 .fine,
      .cancel "a" (.session ⟨"s", "x", "y"⟩), .advance 0 .fine, .advance 1 .fine,
      .advance 0 .fine, .advance 0 .fine]
    (fun s => s.begun = [0, 1] ∧ s.tasks.map (fun task => (task.phase, task.cancelled)) =
      [(.removed, true), (.executing, false), (.refused, false)])
    (fun _ _ => careful_of_checks) (by decide +kernel)
  obtain ⟨hbegun, htasks⟩ := of_decide_eq_true hs
  exact ⟨s, hrun, in_order_of_run hrun, hbegun, htasks⟩

/-- The second session call begins first when its task is scheduled first; a cancellation that is
handled before the task of its request has registered is lost; and of two requests with one id
that both look before either registers, the second takes the place of the first. -/
theorem scheduler_breaks_order :
    (∃ s, machine.Run (fun _ _ => True) s ∧ s.begun = [1, 0] ∧ ¬ s.InOrder) ∧
      (∃ s, machine.Run (fun _ _ => True) s ∧ s.begun = [0] ∧
        s.tasks.map (fun task => (task.owed, task.cancelled)) = [(true, false)] ∧ ¬ s.InOrder) ∧
        ∃ s, machine.Run (fun _ _ => True) s ∧ s.begun = [0, 1] ∧ s.activeRequests "a" = some 1 ∧
          s.tasks.map RequestTask.rival = [false, true] ∧ ¬ s.InOrder := by
  have hstart : machine.Run (fun _ _ => True) { serverId := "s" } := .start ⟨"s", rfl⟩
  refine ⟨?_, ?_, ?_⟩
  · obtain ⟨s, hrun, hs⟩ := hstart.execute (fun _ _ => true)
      [.request "a" (.session ⟨"s", "x", "y"⟩) true, .request "b" (.session ⟨"s", "x", "y"⟩) true,
        .advance 1 .fine, .advance 1 .fine, .advance 1 .fine, .advance 1 .fine, .advance 1 .fine,
        .advance 0 .fine, .advance 0 .fine, .advance 0 .fine, .advance 0 .fine]
      (fun s => s.begun = [1, 0]) (fun _ _ _ => trivial) (by decide +kernel)
    have hbegun := of_decide_eq_true hs
    refine ⟨s, hrun, hbegun, ?_⟩
    intro horder
    have hordered := horder.ordered
    rw [hbegun] at hordered
    exact absurd hordered (by decide)
  · obtain ⟨s, hrun, hs⟩ := hstart.execute (fun _ _ => true)
      [.request "a" (.session ⟨"s", "x", "y"⟩) true, .cancel "a" (.session ⟨"s", "x", "y"⟩),
        .advance 0 .fine, .advance 0 .fine, .advance 0 .fine, .advance 0 .fine]
      (fun s => s.begun = [0] ∧ s.tasks = [{
        id := "a", target := .session ⟨"s", "x", "y"⟩, valid := true, rival := false, owed := true,
        phase := .executing }])
      (fun _ _ _ => trivial) (by decide +kernel)
    obtain ⟨hbegun, htasks⟩ := of_decide_eq_true hs
    refine ⟨s, hrun, hbegun, by rw [htasks]; rfl, ?_⟩
    intro horder
    have hcancelled := horder.cancelled
    rw [htasks] at hcancelled
    exact absurd (hcancelled _ (mem_singleton_self _) rfl rfl) (by decide)
  · obtain ⟨s, hrun, hs⟩ := hstart.execute (fun _ _ => true)
      [.request "a" (.session ⟨"s", "x", "y"⟩) true, .request "a" (.session ⟨"s", "x", "y"⟩) true,
        .advance 0 .fine, .advance 1 .fine, .advance 0 .fine, .advance 1 .fine, .advance 0 .fine,
        .advance 1 .fine, .advance 0 .fine, .advance 0 .fine, .advance 1 .fine]
      (fun s => s.begun = [0, 1] ∧ s.activeRequests "a" = some 1 ∧
        s.tasks.map RequestTask.rival = [false, true] ∧
          s.tasks[0]?.map RequestTask.phase = some .executed ∧
            s.tasks[0]?.map RequestTask.id = some "a")
      (fun _ _ _ => trivial) (by decide +kernel)
    obtain ⟨hbegun, hactive, hrivals, hphase, hid⟩ := of_decide_eq_true hs
    refine ⟨s, hrun, hbegun, hactive, hrivals, ?_⟩
    intro horder
    obtain ⟨task, htask, hexecuted⟩ := Option.map_eq_some_iff.mp hphase
    rw [htask] at hid
    have hkept := horder.kept 0 task htask (by rw [hexecuted]; rfl)
    rw [Option.some.inj hid, hactive] at hkept
    cases hkept

end ServerConnection

end PiOxidized.Remote
