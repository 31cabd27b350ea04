/-
# Clients know their attachments

As long as no switch fails after it has dropped the old attachment without a word, a session is
found hosted only by an attach that every sweep of its handle has seen, nothing is cleared or told
between the last look of an attach and its word to the client, and nobody is told of a release
after a newer attachment, a client with no call and no sweep under way was last told what is
entered for it, and what is entered is listed, hosted and not released.
-/

import PiOxidized.Remote.Router.Entered

namespace PiOxidized.Remote

open List Option Function Bool Math

namespace SessionRouter

namespace Attaching

variable {s s' : Attaching} {att cl : Nat} {session : String} {found : ClientAttachment}

/-! ## Sections of releases and of sweeps -/

theorem Sound.releaseStep (h : s.Sound) {task : ReleaseTask} {ans : AttachAnswer}
    (hfnd : s.created[att]? = some found) (htask : s.releases att = some task)
    (hcare : s.Careful (.advanceRelease att ans))
    (hstep : s.releaseStep att found task ans = some s') : s'.Sound := by
  have hcare := hcare found task hfnd htask
  obtain ⟨owner, hown, hlive, -⟩ := h.owed att task htask
  rw [hfnd] at hown
  cases hown
  obtain ⟨publish, failed, phase⟩ := task
  cases phase with
  | begun =>
    cases hstep
    exact h.putRelease htask nofun rfl rfl nofun
  | released =>
    cases hstep
    exact (h.unlist (by rw [htask]; rfl) (hlive rfl)).putRelease htask nofun rfl rfl nofun
  | unlisted =>
    simp only [Attaching.releaseStep] at hstep
    split_ifs at hstep with hent
    · cases hstep
      refine h.clear ⟨hfnd, htask, rfl, hcare, ?_, ?_⟩
      · intro cl
        by_cases heq : cl = found.client
        · rw [heq]
          exact .inr ⟨rfl, hent, update_self _ _ _, rfl⟩
        · exact .inl (update_of_ne heq _ _)
      · rw [update_self]
        nofun
    · cases hstep
      exact h.clear ⟨hfnd, htask, rfl, hcare, fun _ => .inl rfl, hent⟩
  | cleared removed =>
    cases removed with
    | false =>
      cases hstep
      exact h.putRelease htask nofun rfl rfl nofun
    | true =>
      simp only [Attaching.releaseStep, Bool.true_and] at hstep
      split_ifs at hstep with hpub
      · cases hstep
        have htold : { s with told := update s.told found.client none }.Sound :=
          h.tell (.inl ⟨att, found, hfnd, rfl, _, htask, hpub, rfl⟩)
        obtain ⟨hnob, hnewer⟩ := hcare hpub
        refine htold.putRelease htask nofun rfl rfl fun _ _ => ⟨hnob, fun owner hown => ?_⟩
        have hown : s.created[att]? = some owner := hown
        rw [hfnd] at hown
        cases hown
        rcases hnewer with hnone | ⟨call, hmem, hclient, htells⟩
        · exact .inl ((update_self _ _ _).trans hnone.symm)
        · obtain ⟨i, hidx⟩ := mem_iff_getElem?.mp hmem
          exact .inr ⟨i, call, hidx, hclient, htells⟩
      · cases hstep
        exact h.putRelease htask nofun rfl rfl fun htrue => absurd htrue hpub
  | done => cases hstep

/-- Whoever stands on a handle was not taken from its client. -/
theorem Sound.not_cleared (h : s.Sound) (hstand : s.Standing cl att) : s.cleared att = false := by
  rcases hstand with hent | ⟨i, call, hcall, -, hstd⟩
  · exact (h.entry cl att hent).1
  · have hsuits := h.suits i call hcall
    cases hph : call.phase with
    | current dropped found =>
      rw [hph] at hsuits hstd
      rw [← some.inj hstd]
      exact hsuits.2
    | _ =>
      rw [hph] at hstd
      cases hstd

section Sweep

variable {i att : Nat} {sweep : Sweep} {removal : Bool} {handle : Option Nat}
  {snap : Option (List Nat)}

/-- Nobody stands on the handle of a sweep that has waited for its releases. -/
theorem Sound.nobody (h : s.Sound) (hswp : s.sweeps[i]? = some sweep)
    (hph : sweep.phase = .closing ∨ sweep.phase = .closed ∨ sweep.phase = .removing)
    (hswept : s.Swept sweep) (hfnd : s.created[att]? = some found)
    (hhdl : sweep.handle = some found.handle) :
    ¬ s.Standing found.client att := by
  intro hstand
  have hclr := h.not_cleared hstand
  obtain ⟨snap, hsnap, hdone⟩ := (h.sweeps i sweep hswp).waited hph
  by_cases hmem : att ∈ snap
  · rw [cleared_of_released (hdone att hmem)] at hclr
    cases hclr
  · have hsome := (h.seen i sweep hswp att found snap hfnd hhdl hsnap hstand).resolve_left hmem
    rcases hswept att found snap hfnd hhdl hsnap hmem with hnone | hover
    · rw [hnone] at hsome
      cases hsome
    · rw [hover] at hclr
      cases hclr

/-- What is listed for a handle. -/
theorem mem_attachmentsOf {handle : Nat} :
    att ∈ s.attachmentsOf handle ↔ ∃ found, s.created[att]? = some found ∧
      found.handle = handle ∧ s.attachments (handle, found.client) = some att := by
  unfold attachmentsOf
  rw [mem_filter, mem_range]
  constructor
  · rintro ⟨-, hany⟩
    cases hfnd : s.created[att]? with
    | none =>
      rw [hfnd] at hany
      cases hany
    | some found =>
      rw [hfnd, any_some, and_eq_true, decide_eq_true_eq, decide_eq_true_eq] at hany
      exact ⟨found, rfl, hany⟩
  · rintro ⟨found, hfnd, hlist⟩
    obtain ⟨hlt, -⟩ := List.getElem?_eq_some_iff.mp hfnd
    refine ⟨hlt, ?_⟩
    rw [hfnd, any_some, and_eq_true, decide_eq_true_eq, decide_eq_true_eq]
    exact hlist

/-- A sweep that is not about to release anything moves on, with what it has seen. -/
theorem Sound.moveSweep (h : s.Sound) {phase : SweepPhase} (hswp : s.sweeps[i]? = some sweep)
    (hidle : ∀ handle att, ¬ Awaits sweep handle att)
    (hnext : s.Sweeps { sweep with phase := phase }) :
    (s.putSweep i { sweep with phase := phase }).Sound :=
  h.putSweep hswp hnext (h.seen i sweep hswp)
    fun att found _ _ hawt => absurd hawt (hidle found.handle att)

theorem not_awaits (hfnd : sweep.phase ≠ .found) (htodo : ∀ todo, sweep.phase = .releasing todo →
      todo = []) (handle att : Nat) : ¬ Awaits sweep handle att := by
  rintro ⟨-, heq | ⟨todo, heq, hmem⟩⟩
  · exact hfnd heq
  · rw [htodo todo heq] at hmem
    cases hmem

section

variable (h : s.Sound)

include h

/-- A sweep looks for the handle of its session. -/
theorem Sound.sweepEntered (hswp : s.sweeps[i]? = some ⟨removal, session, handle, snap, .entered⟩)
    (hstep : s.sweepStep i ⟨removal, session, handle, snap, .entered⟩ = some s') :
    s'.Sound := by
  have hpre := h.sweeps i _ hswp
  obtain ⟨rfl, hnone⟩ := hpre.fresh rfl
  have hidle := @not_awaits ⟨removal, session, handle, none, .entered⟩ nofun nofun
  simp only [Attaching.sweepStep] at hstep
  split_ifs at hstep with hrmv hhost
  · cases hhost : s.hosted session with
    | none =>
      simp only [hhost] at hstep
      cases hstep
      refine h.moveSweep hswp hidle ⟨nofun, hpre.handle, nofun, nofun, ?_⟩
      intro _ _ handle hhdl
      cases (hnone hrmv).symm.trans hhdl
    | some found =>
      simp only [hhost] at hstep
      cases hstep
      refine h.putSweep hswp ⟨nofun, ?_, nofun, nofun, nofun⟩ nofun ?_
      · intro handle hhdl
        rw [← some.inj hhdl]
        exact h.opened session found hhost
      · exact fun att owner _ _ hawt => absurd hawt (hidle owner.handle att)
  · cases hstep
    have hfnd : (s.putSweep i ⟨removal, session, handle, none, .found⟩).Sound :=
      h.moveSweep hswp hidle ⟨nofun, hpre.handle, nofun, nofun, nofun⟩
    refine hfnd.unhost ?_
    intro att owner _ _ _ hsame
    refine .inr ⟨i, _, getElem?_set_of_some hswp, ?_, .inl rfl⟩
    exact hhost.symm.trans hsame
  · cases hstep
    exact h.moveSweep hswp hidle ⟨nofun, hpre.handle, nofun, nofun,
      fun htrue => absurd htrue hrmv⟩

/-- A sweep looks at the attachments of its handle. -/
theorem Sound.sweepFound {handle : Nat} (hswp : s.sweeps[i]? = some sweep)
    (hhdl : sweep.handle = some handle) :
    (s.putSweep i { sweep with
      snapshot := some (s.attachmentsOf handle)
      phase := .releasing (s.attachmentsOf handle) }).Sound := by
  have hpre := h.sweeps i sweep hswp
  have hmem : ∀ (att : Nat) found, s.created[att]? = some found →
      sweep.handle = some found.handle → s.Standing found.client att →
        att ∈ s.attachmentsOf handle ∨ (s.releases att).isSome = true := by
    intro att found hfnd hsame hstand
    rw [hhdl] at hsame
    cases hsame
    refine (h.listed att found hfnd hstand.live).imp_left fun hlist => ?_
    exact mem_attachmentsOf.mpr ⟨found, hfnd, rfl, hlist⟩
  refine h.putSweep hswp ⟨nofun, hpre.handle, ?_, nofun, nofun⟩ ?_ ?_
  · intro todo hreleasing
    obtain rfl := SweepPhase.releasing.inj hreleasing
    refine ⟨_, rfl, fun att hatt => .inl hatt, ?_⟩
    intro att hatt
    obtain ⟨found, hfnd, -, hlist⟩ := mem_attachmentsOf.mp hatt
    exact ⟨found, hfnd, (h.mapped handle found.client att hlist).2⟩
  · intro att found snap hfnd hsame hsnap hstand
    cases hsnap
    exact hmem att found hfnd hsame hstand
  · intro att found hfnd hstand hawt
    refine (hmem att found hfnd hawt.1 hstand).symm.imp_right fun hatt => ?_
    exact ⟨hawt.1, .inr ⟨_, rfl, hatt⟩⟩

/-- A sweep begins the next release. -/
theorem Sound.sweepReleasing {todo : List Nat} (hswp : s.sweeps[i]? =
      some ⟨removal, session, handle, snap, .releasing (att :: todo)⟩) :
    ((s.beginRelease att true).putSweep i
      ⟨removal, session, handle, snap, .releasing todo⟩).Sound := by
  obtain ⟨-, -, hsweeps, hmade, -⟩ := beginRelease_frame s att true
  obtain ⟨-, -, -, htodo⟩ := (h.sweeps i _ hswp).releasing _ rfl
  obtain ⟨found, hfnd, hlive⟩ := htodo att mem_cons_self
  have hbegun : (s.beginRelease att true).Sound := h.beginRelease hfnd hlive (.inl rfl)
  rw [← hsweeps] at hswp
  have hself := isSome_beginRelease s att true
  have hpre := hbegun.sweeps i _ hswp
  have hseen := hbegun.seen i _ hswp
  refine hbegun.putSweep hswp ⟨nofun, hpre.handle, ?_, nofun, nofun⟩ hseen ?_
  · intro rest hreleasing
    obtain rfl := SweepPhase.releasing.inj hreleasing
    obtain ⟨snap, hsnap, hdone, hknown⟩ := hpre.releasing _ rfl
    refine ⟨snap, hsnap, ?_, fun other hmem => hknown other (mem_cons_of_mem _ hmem)⟩
    intro other hmem
    rcases hdone other hmem with hwaits | hsome
    · rcases mem_cons.mp hwaits with rfl | hwaits
      · exact .inr hself
      · exact .inl hwaits
    · exact .inr hsome
  · rintro other owner - - ⟨hhdl, heq | ⟨rest, hreleasing, hmem⟩⟩
    · cases heq
    · obtain rfl := SweepPhase.releasing.inj hreleasing
      rcases mem_cons.mp hmem with rfl | hmem
      · exact .inl hself
      · exact .inr ⟨hhdl, .inr ⟨todo, rfl, hmem⟩⟩

theorem Sound.sweepStep (hswp : s.sweeps[i]? = some sweep) (hcare : s.Careful (.advanceSweep i))
    (hstep : s.sweepStep i sweep = some s') : s'.Sound := by
  have hcare := hcare sweep hswp
  have hpre := h.sweeps i sweep hswp
  obtain ⟨removal, session, handle, snap, phase⟩ := sweep
  cases phase with
  | entered => exact h.sweepEntered hswp hstep
  | found =>
    cases handle with
    | none => cases hstep
    | some handle =>
      cases hstep
      exact h.sweepFound hswp rfl
  | releasing todo =>
    obtain ⟨snap, rfl, -⟩ := hpre.releasing todo rfl
    cases todo with
    | nil =>
      by_cases hdone : snap.all s.released = true
      · simp only [Attaching.sweepStep, if_pos hdone] at hstep
        cases hstep
        refine h.moveSweep hswp (not_awaits nofun ?_) ⟨?_, hpre.handle, ?_, ?_, ?_⟩
        · exact fun todo heq => (SweepPhase.releasing.inj heq).symm
        · cases removal <;> nofun
        · cases removal <;> nofun
        · exact fun _ => ⟨snap, rfl, all_eq_true.mp hdone⟩
        · rintro rfl
          nofun
      · simp only [Attaching.sweepStep, if_neg hdone] at hstep
        cases hstep
    | cons att todo =>
      simp only [Attaching.sweepStep] at hstep
      split_ifs at hstep
      cases hstep
      exact h.sweepReleasing hswp
  | closing =>
    cases hstep
    exact h.moveSweep hswp (not_awaits nofun nofun)
      ⟨nofun, hpre.handle, nofun, fun _ => hpre.waited (.inl rfl), nofun⟩
  | closed =>
    cases hstep
    refine h.moveSweep hswp (not_awaits nofun nofun) ⟨?_, hpre.handle, ?_, ?_, ?_⟩
    · split <;> nofun
    · split <;> nofun
    · exact fun _ => hpre.waited (.inr (.inl rfl))
    · intro _ hret other hhdl
      have hoth : s.hosted session ≠ handle := by
        intro heq
        simp only [heq, if_true] at hret
        cases hret
      refine ⟨fun heq => hoth (heq.trans hhdl.symm), ?_⟩
      rintro att found hfnd rfl
      exact h.nobody hswp (.inr (.inl rfl)) (hcare hoth) hfnd hhdl
  | removing =>
    cases hstep
    obtain ⟨hswept, hhost⟩ := hcare
    have hnob : ∀ (att : Nat) found, s.created[att]? = some found → handle = some found.handle →
          ¬ s.Standing found.client att :=
      fun att found hfnd => h.nobody hswp (.inr (.inr rfl)) hswept hfnd
    have hunhosted : { s with hosted := update s.hosted session none }.Sound := by
      refine h.unhost ?_
      intro att found hfnd hstand _ hsame
      rcases hhost with hnone | heq
      · cases hnone.symm.trans hsame
      · exact absurd hstand (hnob att found hfnd (heq.symm.trans hsame))
    refine hunhosted.moveSweep hswp (not_awaits nofun nofun)
      ⟨nofun, hpre.handle, nofun, nofun, ?_⟩
    intro _ _ other hhdl
    refine ⟨?_, ?_⟩
    · show update s.hosted session none session ≠ some other
      rw [update_self]
      nofun
    · rintro att found hfnd rfl
      exact hnob att found hfnd hhdl
  | returned => cases hstep

end

end Sweep

/-! ## Along a run -/

variable {event : AttachEvent}

/-- A new call of a client waits for its turn. -/
theorem Sound.call (h : s.Sound) {next : ClientCall} (hph : next.phase = .queued) :
    { s with calls := s.calls ++ [next] }.Sound := by
  have hlive_before : ∀ other att,
      { s with calls := s.calls ++ [next] }.Live other att → s.Live other att := by
    rintro other att (hent | ⟨k, call, hcall, hclient, hholds⟩)
    · exact .inl hent
    · rcases getElem?_append_cases hcall with hold | ⟨-, rfl⟩
      · exact .inr ⟨k, call, hold, hclient, hholds⟩
      · rw [hph] at hholds
        cases hholds
  have hstanding_before : ∀ other att,
      { s with calls := s.calls ++ [next] }.Standing other att → s.Standing other att := by
    rintro other att (hent | ⟨k, call, hcall, hclient, hstd⟩)
    · exact .inl hent
    · rcases getElem?_append_cases hcall with hold | ⟨-, rfl⟩
      · exact .inr ⟨k, call, hold, hclient, hstd⟩
      · rw [hph] at hstd
        cases hstd
  have hlive : ∀ other att,
      s.Live other att → { s with calls := s.calls ++ [next] }.Live other att := by
    rintro other att (hent | ⟨k, call, hcall, hclient, hholds⟩)
    · exact .inl hent
    · exact .inr ⟨k, call, getElem?_append_of_some hcall, hclient, hholds⟩
  have hfr : s.Frames { s with calls := s.calls ++ [next] } :=
    ⟨rfl, rfl, rfl, rfl, fun _ _ hfnd => hfnd,
      fun _ _ hfnd hheld => ⟨hfnd, hlive_before _ _ hheld⟩, hstanding_before,
      fun _ _ hheld => .inl (hlive _ _ hheld), fun _ hsome => hsome, fun _ hdone => hdone⟩
  refine { h with
    sole := ?_
    suits := ?_
    made := ?_
    reached := ?_
    listed := fun _ _ => hfr.listed h
    owed := ?_
    told := ?_
    standing := fun _ _ _ => hfr.stands h
    seen := fun _ _ hswp _ _ _ => hfr.seen h hswp
    sweeps := fun _ _ => hfr.swept h
    mapped := fun _ _ _ => hfr.mapped h }
  · intro i j first snd hlt hfst hsnd hclient hq
    rcases getElem?_append_cases hsnd with hold' | ⟨-, rfl⟩
    · rcases getElem?_append_cases hfst with hold | ⟨rfl, -⟩
      · exact h.sole i j first snd hlt hold hold' hclient hq
      · obtain ⟨hbound, -⟩ := List.getElem?_eq_some_iff.mp hold'
        exact absurd hlt (Nat.not_lt.mpr (Nat.le_of_lt hbound))
    · exact absurd hph hq
  · refine forall_concat h.suits ?_
    rw [hph]
    trivial
  · refine forall_concat h.made ?_
    intro att hmade
    rw [hph] at hmade
    cases hmade
  · refine forall_concat h.reached ?_
    intro handle hrch
    rw [hph] at hrch
    cases hrch
  · intro att task htask
    obtain ⟨found, hfnd, hheld, hsil⟩ := h.owed att task htask
    refine ⟨found, hfnd, fun hpast => hlive _ _ (hheld hpast), ?_⟩
    intro hpast hpub
    obtain ⟨k, call, hcall, hhushes⟩ := hsil hpast hpub
    exact ⟨k, call, getElem?_append_of_some hcall, hhushes⟩
  · intro other
    refine (h.told other).imp_right fun hpend => hpend.imp_right ?_
    rintro ⟨k, call, hcall, hann⟩
    exact ⟨k, call, getElem?_append_of_some hcall, hann⟩

/-- A sweep that has not begun. -/
theorem Sound.sweep (h : s.Sound) {sweep : Sweep} (hph : sweep.phase = .entered)
    (hsnap : sweep.snapshot = none) (hnone : sweep.removal = true → sweep.handle = none)
    (hhdl : ∀ handle, sweep.handle = some handle → s.handles[handle]? = some sweep.session) :
    { s with sweeps := s.sweeps ++ [sweep] }.Sound := by
  refine { h with
    standing := ?_
    seen := ?_
    sweeps := ?_ }
  · intro att found session hfnd hstand hsess
    refine (h.standing att found session hfnd hstand hsess).imp_right fun hrest =>
      hrest.imp_right ?_
    rintro ⟨i, other, hoth, hawt⟩
    exact ⟨i, other, getElem?_append_of_some hoth, hawt⟩
  · refine forall_concat h.seen ?_
    intro att found snap hfnd hsame hseen
    rw [hsnap] at hseen
    cases hseen
  · intro i other hoth
    rcases getElem?_append_cases hoth with hold | ⟨-, rfl⟩
    · exact { h.sweeps i other hold with }
    · refine ⟨fun _ => ⟨hsnap, hnone⟩, hhdl, ?_, ?_, ?_⟩
      · rw [hph]
        exact fun _ => nofun
      · rw [hph]
        rintro (heq | heq | heq) <;> cases heq
      · rw [hph]
        exact fun _ => nofun

theorem Sound.step (h : s.Sound) (hcare : s.Careful event) (hstep : s.step event = some s') :
    s'.Sound := by
  cases event with
  | attach | detach =>
    cases hstep
    exact h.call rfl
  | advance i ans =>
    rw [Attaching.step] at hstep
    cases hcall : s.calls[i]? with
    | none => simp [hcall] at hstep
    | some call =>
      simp only [hcall] at hstep
      exact h.callStep hcall hcare hstep
  | advanceRelease att ans =>
    rw [Attaching.step] at hstep
    cases hfnd : s.created[att]? with
    | none => simp [hfnd] at hstep
    | some found =>
      cases htask : s.releases att with
      | none => simp [hfnd, htask] at hstep
      | some task =>
        simp only [hfnd, htask] at hstep
        exact h.releaseStep hfnd htask hcare hstep
  | remove session =>
    cases hstep
    exact h.sweep rfl rfl (fun _ => rfl) (fun _ => nofun)
  | invalidate handle =>
    rw [Attaching.step] at hstep
    cases hhdl : s.handles[handle]? with
    | none => simp [hhdl] at hstep
    | some session =>
      simp only [hhdl] at hstep
      cases hstep
      refine h.sweep rfl rfl (fun _ => by contradiction) ?_
      intro other hoth
      rw [← some.inj hoth]
      exact hhdl
  | advanceSweep i =>
    rw [Attaching.step] at hstep
    cases hswp : s.sweeps[i]? with
    | none => simp [hswp] at hstep
    | some sweep =>
      simp only [hswp] at hstep
      exact h.sweepStep hswp hcare hstep

/-- Clients know their attachments, along every run that meets the conditions. -/
theorem truthful_of_run (h : machine.Run Careful s) : s.Truthful := by
  refine Sound.truthful (h.invariant ?_ ?_)
  · rintro s rfl
    constructor
    · constructor <;> simp [Told, Live, Standing]
    · simp
  · exact fun _ _ _ hsound hcare hstep => hsound.step hcare hstep

/-! ## The conditions, computed -/

def hushed (s : Attaching) (dropped : Option Nat) : Bool :=
  dropped.any fun old => (s.releases old).any fun task => !task.publish

theorem not_hushed_of_eq_false {dropped : Option Nat} (h : s.hushed dropped = false) :
    ¬ s.Hushed dropped := by
  rintro ⟨old, task, rfl, htask, hpub⟩
  rw [hushed, any_some, htask, any_some, hpub] at h
  cases h

def swept (s : Attaching) (sweep : Sweep) : Bool :=
  (range s.created.length).all fun attachment => s.created[attachment]?.all fun found =>
    sweep.handle ≠ some found.handle || sweep.snapshot.all fun snapshot =>
      snapshot.contains attachment || (s.releases attachment).isNone || s.cleared attachment

theorem swept_of_eq_true {sweep : Sweep} (h : s.swept sweep = true) : s.Swept sweep := by
  intro att found snap hfnd hhdl hsnap hmem
  obtain ⟨hlt, -⟩ := List.getElem?_eq_some_iff.mp hfnd
  have hself := List.all_eq_true.mp h att (List.mem_range.mpr hlt)
  simpa [hfnd, hhdl, hsnap, hmem] using hself

def checks (s : Attaching) : AttachEvent → Bool
  | .advance index answer =>
    match s.calls[index]? with
    | none => true
    | some call =>
      match call.phase with
      | .acquiring _ =>
        call.session.all fun session => answer ≠ .opened || (s.hosted session).isNone
      | .releasing old _ => (s.releases old).all fun task => !task.failed || task.publish
      | .attaching dropped _ => answer ≠ .error || !s.hushed dropped
      | .inserted dropped attachment =>
        if (s.sessionOf attachment).bind s.hosted =
            s.created[attachment]?.map ClientAttachment.handle then
          !s.cleared attachment && s.sweeps.all fun sweep =>
            s.created[attachment]?.all fun found => sweep.handle ≠ some found.handle ||
              sweep.snapshot.all fun snapshot =>
                snapshot.contains attachment || (s.releases attachment).isSome
        else !s.hushed dropped
      | _ => true
  | .advanceRelease attachment _ =>
    match s.created[attachment]?, s.releases attachment with
    | some found, some task =>
      match task.phase with
      | .unlisted => s.calls.all fun call => call.phase.stands ≠ some attachment
      | .cleared true => !task.publish ||
          ((s.calls.all fun call => call.phase.tells ≠ some attachment) &&
            ((s.attachmentsByClient found.client).isNone || s.calls.any fun call =>
              call.client = found.client && call.phase.tells.isSome))
      | _ => true
    | _, _ => true
  | .advanceSweep index =>
    match s.sweeps[index]? with
    | none => true
    | some sweep =>
      match sweep.phase with
      | .closed => s.hosted sweep.session = sweep.handle || s.swept sweep
      | .removing => s.swept sweep &&
          ((s.hosted sweep.session).isNone || s.hosted sweep.session = sweep.handle)
      | _ => true
  | _ => true

theorem careful_of_checks (h : s.checks event = true) : s.Careful event := by
  cases event with
  | attach | detach | remove | invalidate => trivial
  | advance i ans =>
    intro call hcall
    simp only [checks, hcall] at h
    cases hph : call.phase with
    | acquiring old =>
      simp only [hph] at h
      intro session hsess hans
      simpa [hsess, hans] using h
    | releasing old handle =>
      simp only [hph] at h
      intro task htask hfail
      simpa [htask, hfail] using h
    | attaching dropped handle =>
      simp only [hph] at h
      intro hans
      exact not_hushed_of_eq_false (by simpa [hans] using h)
    | inserted dropped att =>
      simp only [hph] at h
      split_ifs at h with hhost
      · rw [and_eq_true, not_eq_true'] at h
        simp only [if_pos hhost]
        refine ⟨h.1, ?_⟩
        intro sweep hmem found snap hfnd hhdl hsnap
        have hswp := all_eq_true.mp h.2 sweep hmem
        simpa [hfnd, hhdl, hsnap] using hswp
      · simp only [if_neg hhost]
        exact not_hushed_of_eq_false (by simpa using h)
    | _ => trivial
  | advanceRelease att ans =>
    intro found task hfnd htask
    simp only [checks, hfnd, htask] at h
    cases hph : task.phase with
    | unlisted =>
      simp only [hph] at h
      intro call hmem
      simpa using all_eq_true.mp h call hmem
    | cleared removed =>
      cases removed with
      | false => trivial
      | true =>
        simp only [hph] at h
        intro hpub
        simp only [hpub, Bool.not_true, Bool.false_or, and_eq_true] at h
        refine ⟨?_, ?_⟩
        · intro call hmem
          simpa using List.all_eq_true.mp h.1 call hmem
        · simpa using h.2
    | _ => trivial
  | advanceSweep i =>
    intro sweep hswp
    simp only [checks, hswp] at h
    cases hph : sweep.phase with
    | closed =>
      simp only [hph] at h
      intro hhost
      exact swept_of_eq_true (by simpa [hhost] using h)
    | removing =>
      simp only [hph, and_eq_true] at h
      exact ⟨swept_of_eq_true h.1, by simpa using h.2⟩
    | _ => trivial

/-- A client attaches to a session, switches to another one, and that one is removed. -/
theorem truthful_switch : ∃ s, machine.Run Careful s ∧ s.Truthful ∧ s.told 1 = none ∧
    s.attachmentsByClient 2 = some 1 ∧ s.told 2 = some 1 ∧
      s.sweeps.map Sweep.phase = [.returned] ∧ s.releases 1 = none := by
  have hstart : machine.Run Careful {} := .start rfl
  obtain ⟨s, hrun, hs⟩ := hstart.execute checks
    ([.attach 1 "a", .attach 2 "a", .attach 1 "b", .advance 0 .ok, .advance 0 .opened] ++
      replicate 6 (.advance 0 .ok) ++ replicate 8 (.advance 1 .ok) ++
      [.advance 2 .ok, .advance 2 .opened, .advance 2 .ok] ++
      replicate 4 (.advanceRelease 0 .ok) ++ replicate 6 (.advance 2 .ok) ++
      [.remove "b"] ++ replicate 3 (.advanceSweep 0) ++
      replicate 4 (.advanceRelease 2 .ok) ++ replicate 4 (.advanceSweep 0))
    (fun s => s.told 1 = none ∧ s.attachmentsByClient 2 = some 1 ∧ s.told 2 = some 1 ∧
      s.sweeps.map Sweep.phase = [.returned] ∧ s.releases 1 = none)
    (fun _ _ => careful_of_checks) (by decide +kernel)
  exact ⟨s, hrun, truthful_of_run hrun, of_decide_eq_true hs⟩

/-- A switch whose new attachment the host refuses leaves the client told of the old one, which is
gone; and a removal that looks at the attachments before one is listed, and forgets the session
after it was found hosted, leaves the client attached to what it removed. -/
theorem switch_and_removal_mislead :
    (∃ s, machine.Run (fun _ _ => True) s ∧ s.told 1 = some 0 ∧ s.attachmentsByClient 1 = none ∧
      s.Quiet 1 ∧ ¬ s.Truthful) ∧
      ∃ s, machine.Run (fun _ _ => True) s ∧ s.attachmentsByClient 1 = some 0 ∧
        s.hosted "a" = none ∧ s.sweeps.map Sweep.phase = [.returned] ∧ ¬ s.Truthful := by
  have hstart : machine.Run (fun _ _ => True) {} := .start rfl
  refine ⟨?_, ?_⟩
  · obtain ⟨s, hrun, hs⟩ := hstart.execute (fun _ _ => true)
      ([.attach 1 "a", .attach 1 "b", .advance 0 .ok, .advance 0 .opened] ++
        replicate 6 (.advance 0 .ok) ++ [.advance 1 .ok, .advance 1 .opened, .advance 1 .ok] ++
        replicate 4 (.advanceRelease 0 .ok) ++ [.advance 1 .ok, .advance 1 .error])
      (fun s => s.told 1 = some 0 ∧ s.attachmentsByClient 1 = none ∧ s.sweeps = [] ∧
        s.calls.map ClientCall.phase = [.returned true, .returned false] ∧
          s.created = [⟨1, 0⟩] ∧ s.released 0 = true)
      (fun _ _ _ => trivial) (by decide +kernel)
    obtain ⟨htold, hent, hsweeps, hcalls, hcreated, hdone⟩ := of_decide_eq_true hs
    have hquiet : s.Quiet 1 := by
      constructor
      · intro call hmem _
        have hphase := mem_map_of_mem (f := ClientCall.phase) hmem
        rw [hcalls] at hphase
        rcases mem_cons.mp hphase with heq | hphase
        · exact .inr (by rw [heq]; rfl)
        · rw [mem_singleton.mp hphase]
          exact .inr rfl
      · intro att found hfound _
        rw [hcreated] at hfound
        obtain ⟨hlt, -⟩ := List.getElem?_eq_some_iff.mp hfound
        obtain rfl := Nat.lt_one_iff.mp hlt
        exact .inr hdone
      · rw [hsweeps]
        exact fun _ hmem => absurd hmem not_mem_nil
    refine ⟨s, hrun, htold, hent, hquiet, fun htruthful => ?_⟩
    have heq := htruthful.told 1 hquiet
    rw [htold, hent] at heq
    cases heq
  · obtain ⟨s, hrun, hs⟩ := hstart.execute (fun _ _ => true)
      ([.attach 1 "a", .advance 0 .ok, .advance 0 .opened, .advance 0 .ok, .advance 0 .ok,
        .remove "a"] ++ replicate 5 (.advanceSweep 0) ++
        [.advance 0 .ok, .advance 0 .ok, .advanceSweep 0, .advance 0 .ok, .advance 0 .ok])
      (fun s => s.attachmentsByClient 1 = some 0 ∧ s.hosted "a" = none ∧ s.created = [⟨1, 0⟩] ∧
        s.sweeps = [⟨true, "a", some 0, some [], .returned⟩])
      (fun _ _ _ => trivial) (by decide +kernel)
    obtain ⟨hent, hhosted, hcreated, hsweeps⟩ := of_decide_eq_true hs
    refine ⟨s, hrun, hent, hhosted, by rw [hsweeps]; rfl, fun htruthful => ?_⟩
    have hremoved := htruthful.removed
    rw [hsweeps] at hremoved
    exact hremoved _ (mem_singleton_self _) rfl rfl 0 ⟨1, 0⟩ (by rw [hcreated]; rfl) rfl hent

end Attaching

end SessionRouter

end PiOxidized.Remote
