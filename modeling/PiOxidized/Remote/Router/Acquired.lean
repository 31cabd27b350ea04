/-
# One hosted handle for each session

As long as no handle is hosted between a caller's two looks, and no opening completes between
the look that finds it and the creation of the future, a session is opened only while nothing of
it is hosted or being opened, every caller gets what is hosted, and every caller that waits has
an opening under way that will wake it.
-/

import PiOxidized.Remote.Router.Acquire

namespace PiOxidized.Remote

open List Function Math

namespace SessionRouter

namespace Hosting

variable {s s' : Hosting}

/-- What the router promises about its sessions. -/
structure SingleHosted (s : Hosting) : Prop where
  /-- No session was opened while it was hosted or being opened. -/
  alone : s.clashes = []
  /-- What a caller got is what was hosted, if anything was. -/
  same : ∀ call ∈ s.acquires, ∀ handle hosted,
    call.phase = .returned (.hosted handle) (some hosted) → handle = hosted
  kept : ∀ handle ∈ s.overwritten, handle ∈ s.closedHandles
  /-- A caller that sleeps waits for an opening under way. -/
  awaited : ∀ call ∈ s.acquires, ∀ opening, call.phase = .watching opening (s.done opening) →
    ∃ other ∈ s.acquires, other.session = call.session ∧ other.phase.owns = some opening ∧
      s.openings other.session = some opening

/-- A caller that finds no opening has nothing hosted, and the opening a caller is about to wait
for is still under way. -/
def Careful (s : Hosting) : HostingEvent → Prop
  | .advance index _ =>
    ∀ call, s.acquires[index]? = some call →
      (call.phase = .missed → s.openings call.session = none → s.hosted call.session = none) ∧
        ∀ opening, call.phase = .found opening → s.openings call.session = some opening
  | _ => True

/-! ## What every step keeps -/

/-- What the maps say of the session of a call. -/
def Fits (hosted openings : Option Nat) (done : Nat → Nat) : AcquirePhase → Prop
  | .resolving opening | .asked opening | .opened opening _ =>
    openings = some opening ∧ hosted = none
  | .finishing opening (.hosted handle) =>
    openings = some opening ∧ (hosted = some handle ∨ hosted = none)
  | .finishing opening .failed => openings = some opening
  | .watching opening since => since ≤ done opening ∧ (since = done opening → openings = some opening)
  | .returned (.hosted handle) (some found) => handle = found
  | _ => True

structure Sound (s : Hosting) : Prop where
  fits : ∀ (index : Nat) call, s.acquires[index]? = some call →
    Fits (s.hosted call.session) (s.openings call.session) s.done call.phase
  single : ∀ (i j : Nat) (first second : AcquireCall), s.acquires[i]? = some first →
    s.acquires[j]? = some second → first.phase.owns.isSome → first.phase.owns = second.phase.owns →
      i = j
  present : ∀ session opening, s.openings session = some opening →
    ∃ call ∈ s.acquires, call.session = session ∧ call.phase.owns = some opening
  bound : ∀ session opening, s.openings session = some opening → opening < s.opened
  clean : s.clashes = [] ∧ s.overwritten = []

variable {call : AcquireCall} {phase : AcquirePhase} {k opening : Nat} {done : Nat → Nat}

variable {openings hosted : Option Nat} {event : HostingEvent}

/-- Whoever has an opening in the map has it there. -/
theorem Fits.openings_of_owns (h : Fits hosted openings done phase)
    (howns : phase.owns = some opening) : openings = some opening := by
  cases phase with
  | resolving | asked | opened =>
    cases howns
    exact h.1
  | finishing found res =>
    cases howns
    cases res with
    | hosted handle => exact h.1
    | failed => exact h
  | entered | missed | found | watching | returned => cases howns

/-- A phase that fits goes on to fit when its session is not hosted any more. -/
theorem Fits.unhost (h : Fits hosted openings done phase) : Fits none openings done phase := by
  cases phase with
  | resolving | asked | opened => exact ⟨h.1, rfl⟩
  | finishing opening res =>
    cases res with
    | hosted handle => exact ⟨h.1, .inr rfl⟩
    | failed => exact h
  | watching => exact h
  | entered | missed | found => trivial
  | returned res found =>
    cases res with
    | hosted handle => cases found <;> exact h
    | failed => trivial

/-- A phase that owns nothing does not care about what is hosted. -/
theorem Fits.of_not_owns {hosted' : Option Nat} (h : Fits hosted openings done phase)
    (howns : phase.owns = none) :
    Fits hosted' openings done phase := by
  cases phase with
  | resolving | asked | opened | finishing => cases howns
  | watching => exact h
  | entered | missed | found => trivial
  | returned res found =>
    cases res with
    | hosted handle => cases found <;> exact h
    | failed => trivial

section

variable (h : s.Sound)

include h

theorem Sound.singleHosted : s.SingleHosted where
  alone := h.clean.1
  same call hmem handle hosted hph := by
    obtain ⟨i, hidx⟩ := mem_iff_getElem?.mp hmem
    have hfits := h.fits i call hidx
    rw [hph] at hfits
    exact hfits
  kept handle hmem := by
    rw [h.clean.2] at hmem
    cases hmem
  awaited call hmem opening hph := by
    obtain ⟨i, hidx⟩ := mem_iff_getElem?.mp hmem
    have hfits := h.fits i call hidx
    rw [hph] at hfits
    have hopen := hfits.2 rfl
    obtain ⟨other, hoth, hsess, howns⟩ := h.present call.session opening hopen
    refine ⟨other, hoth, hsess, howns, ?_⟩
    rw [hsess]
    exact hopen

/-- Two calls of a session that have an opening are the same. -/
theorem Sound.index_eq {i j : Nat} {first snd : AcquireCall}
    (hfst : s.acquires[i]? = some first) (hsnd : s.acquires[j]? = some snd)
    (hsess : first.session = snd.session) (howns : first.phase.owns = some opening)
    (howns' : snd.phase.owns.isSome) : i = j := by
  obtain ⟨other, hoth⟩ := Option.isSome_iff_exists.mp howns'
  have hopen := (h.fits i first hfst).openings_of_owns howns
  have hopen' := (h.fits j snd hsnd).openings_of_owns hoth
  rw [← hsess, hopen] at hopen'
  refine h.single i j first snd hfst hsnd (by simp [howns]) ?_
  rw [howns, hoth, Option.some.inj hopen']

/-- A call moves on without a change of the maps, and keeps the opening it has. -/
theorem Sound.put (hcall : s.acquires[index]? = some call) (howns : phase.owns = call.phase.owns)
    (hfits : Fits (s.hosted call.session) (s.openings call.session) s.done phase) :
    (s.put index call phase).Sound := by
  refine { h with fits := ?_, single := ?_, present := ?_ }
  · exact forall_set h.fits hfits
  · intro i j first snd hfst hsnd hsome hsame
    -- Both were there before, with the same openings.
    have hpre : ∀ (k : Nat) found, (s.put index call phase).acquires[k]? = some found →
        ∃ old : AcquireCall, s.acquires[k]? = some old ∧ old.phase.owns = found.phase.owns := by
      intro k found hfnd
      rcases getElem?_set_cases hfnd with ⟨rfl, rfl⟩ | ⟨-, hfnd⟩
      · exact ⟨call, hcall, howns.symm⟩
      · exact ⟨found, hfnd, rfl⟩
    obtain ⟨old, hold, heq⟩ := hpre i first hfst
    obtain ⟨old', hold', heq'⟩ := hpre j snd hsnd
    refine h.single i j old old' hold hold' ?_ ?_
    · rw [heq]
      exact hsome
    · rw [heq, heq']
      exact hsame
  · intro session opening hopen
    obtain ⟨other, hmem, hsess, hoth⟩ := h.present session opening hopen
    obtain ⟨j, hj⟩ := mem_iff_getElem?.mp hmem
    by_cases heq : j = index
    · obtain rfl : call = other := Option.some.inj (hcall.symm.trans (heq ▸ hj))
      exact ⟨_, mem_of_getElem? (getElem?_set_of_some hcall), hsess, howns.trans hoth⟩
    · refine ⟨other, mem_of_getElem? (i := j) ?_, hsess, hoth⟩
      rw [Hosting.put, getElem?_set_ne (Ne.symm heq)]
      exact hj

/-- A session that is not hosted any more. -/
theorem Sound.unhost {hosted : String → Option Nat} {closed : List Nat}
    (hhost : ∀ session, hosted session = s.hosted session ∨ hosted session = none) :
    { s with hosted := hosted, closedHandles := closed }.Sound := by
  refine { h with fits := ?_ }
  intro i call hcall
  have hfits := h.fits i call hcall
  cases hhost call.session with
  | inl hsame =>
    rw [← hsame] at hfits
    exact hfits
  | inr hnone =>
    have hunhosted := hfits.unhost
    rw [← hnone] at hunhosted
    exact hunhosted

section

variable (hcall : s.acquires[k]? = some call)

include hcall

/-- A caller that finds neither a handle nor an opening begins one. -/
theorem Sound.begin (hopenings : s.openings call.session = none)
    (hhost : s.hosted call.session = none) :
    ({ s with
      openings := update s.openings call.session (some s.opened)
      opened := s.opened + 1 }.put k call (.resolving s.opened)).Sound := by
  -- Nobody has the new opening yet, and nobody else has one of the session.
  have hfrs : ∀ (j : Nat) other, s.acquires[j]? = some other →
      other.phase.owns ≠ some s.opened := by
    intro j other hoth howns
    have hbound := h.bound _ _ ((h.fits j other hoth).openings_of_owns howns)
    exact Nat.lt_irrefl _ hbound
  refine { h with fits := ?_, single := ?_, present := ?_, bound := ?_ }
  · intro j other hoth
    rcases getElem?_set_cases hoth with ⟨rfl, rfl⟩ | ⟨-, hoth⟩
    · exact ⟨update_self _ _ _, hhost⟩
    · have hfits := h.fits j other hoth
      by_cases hsess : other.session = call.session
      · -- A call of the session has no opening and does not sleep.
        rw [hsess, hopenings] at hfits
        cases hph : other.phase with
        | resolving | asked | opened =>
          rw [hph] at hfits
          cases hfits.1
        | finishing opening res =>
          rw [hph] at hfits
          cases res with
          | hosted handle => cases hfits.1
          | failed => cases hfits
        | watching opening since =>
          rw [hph] at hfits
          exact ⟨hfits.1, fun heq => by cases hfits.2 heq⟩
        | entered | missed | found => trivial
        | returned res found =>
          rw [hph] at hfits
          cases res with
          | hosted handle => cases found <;> exact hfits
          | failed => trivial
      · show Fits (s.hosted other.session)
          (update s.openings call.session (some s.opened) other.session) s.done other.phase
        rw [update_of_ne hsess]
        exact hfits
  · intro i j first snd hfst hsnd hsome hsame
    rcases getElem?_set_cases hfst with ⟨hi, rfl⟩ | ⟨-, hold⟩
    · rcases getElem?_set_cases hsnd with ⟨hj, -⟩ | ⟨-, hold'⟩
      · rw [hi, hj]
      · exact absurd hsame.symm (hfrs j snd hold')
    · rcases getElem?_set_cases hsnd with ⟨-, rfl⟩ | ⟨-, hold'⟩
      · exact absurd hsame (hfrs i first hold)
      · exact h.single i j first snd hold hold' hsome hsame
  · intro session opening hopen
    have hopen : update s.openings call.session (some s.opened) session = some opening :=
      hopen
    by_cases hsess : session = call.session
    · rw [hsess, update_self] at hopen
      exact ⟨_, mem_of_getElem? (getElem?_set_of_some hcall), hsess.symm, hopen⟩
    · rw [update_of_ne hsess] at hopen
      obtain ⟨other, hmem, hoth, howns⟩ := h.present session opening hopen
      obtain ⟨j, hj⟩ := mem_iff_getElem?.mp hmem
      have hne : k ≠ j := by
        rintro rfl
        rw [hcall] at hj
        exact hsess ((Option.some.inj hj) ▸ hoth.symm)
      refine ⟨other, mem_of_getElem? (i := j) ?_, hoth, howns⟩
      rw [Hosting.put, getElem?_set_ne hne]
      exact hj
  · intro session opening hopen
    have hopen : update s.openings call.session (some s.opened) session = some opening :=
      hopen
    by_cases hsess : session = call.session
    · rw [hsess, update_self] at hopen
      rw [← Option.some.inj hopen]
      exact Nat.lt_succ_self _
    · rw [update_of_ne hsess] at hopen
      exact Nat.lt_succ_of_lt (h.bound session opening hopen)

/-- A handle that was opened is hosted where nothing was. -/
theorem Sound.host {handle : Nat} (hph : call.phase = .opened opening handle) :
    ((s.host call.session handle).put k call (.finishing opening (.hosted handle))).Sound := by
  have hself := h.fits k call hcall
  rw [hph] at hself
  have howns : call.phase.owns = some opening := by rw [hph, AcquirePhase.owns]
  have hput : (s.put k call (.finishing opening (.hosted handle))).Sound :=
    h.put hcall howns.symm ⟨hself.1, .inr hself.2⟩
  refine { hput with fits := ?_, clean := ⟨h.clean.1, ?_⟩ }
  · intro j other hoth
    have hfits := hput.fits j other hoth
    show Fits (update s.hosted call.session (some handle) other.session)
      (s.openings other.session) s.done other.phase
    by_cases hsess : other.session = call.session
    · rw [hsess, update_self]
      rw [hsess] at hfits
      rcases getElem?_set_cases hoth with ⟨-, rfl⟩ | ⟨hne, hold⟩
      · exact ⟨hself.1, .inl rfl⟩
      · refine hfits.of_not_owns ?_
        by_contra hsome
        exact hne (h.index_eq hcall hold hsess.symm howns
          (Option.isSome_iff_ne_none.mpr hsome)).symm
    · rw [update_of_ne hsess]
      exact hfits
  · show s.overwritten ++ (s.hosted call.session).toList = []
    rw [h.clean.2, hself.2]
    rfl

/-- An opening is completed, and whoever waits for it is woken. -/
theorem Sound.complete {res : Acquired} (hph : call.phase = .finishing opening res) :
    ((s.completeOpening call.session).put k call
      (.returned res (s.hosted call.session))).Sound := by
  have hself := h.fits k call hcall
  have howns : call.phase.owns = some opening := by rw [hph, AcquirePhase.owns]
  have hopen := hself.openings_of_owns howns
  have hcomp : s.completeOpening call.session = { s with
        openings := update s.openings call.session none
        done := update s.done opening (s.done opening + 1) } := by
    rw [completeOpening, hopen]
  rw [hcomp]
  refine { h with fits := ?_, single := ?_, present := ?_, bound := ?_ }
  · intro j other hoth
    show Fits (s.hosted other.session) (update s.openings call.session none other.session)
      (update s.done opening (s.done opening + 1)) other.phase
    rcases getElem?_set_cases hoth with ⟨-, rfl⟩ | ⟨hne, hold⟩
    · rw [hph] at hself
      cases res with
      | failed => trivial
      | hosted handle =>
        cases hself.2 with
        | inl hhost =>
          rw [hhost]
          rfl
        | inr hnone =>
          rw [hnone]
          trivial
    · have hfits := h.fits j other hold
      -- A call of another session has another opening, and one of the session has none.
      have hother_owns : other.session = call.session → other.phase.owns = none := by
        intro hsess
        by_contra hsome
        exact hne (h.index_eq hcall hold hsess.symm howns
          (Option.isSome_iff_ne_none.mpr hsome)).symm
      have hopenings : other.session ≠ call.session →
          update s.openings call.session none other.session = s.openings other.session :=
        fun hsess => update_of_ne hsess _ _
      cases hother_phase : other.phase with
      | resolving found | asked found | opened found handle =>
        rw [hother_phase] at hfits hother_owns
        have hsess : other.session ≠ call.session := fun heq => by cases hother_owns heq
        rw [hopenings hsess]
        exact hfits
      | finishing found res =>
        rw [hother_phase] at hfits hother_owns
        have hsess : other.session ≠ call.session := fun heq => by cases hother_owns heq
        rw [hopenings hsess]
        cases res <;> exact hfits
      | watching found since =>
        rw [hother_phase] at hfits
        by_cases heq : found = opening
        · subst heq
          have hsince := hfits.1
          refine ⟨?_, ?_⟩
          · rw [update_self]
            exact Nat.le_succ_of_le hsince
          · rw [update_self]
            omega
        · refine ⟨?_, ?_⟩
          · rw [update_of_ne heq]
            exact hfits.1
          · rw [update_of_ne heq]
            intro hslp
            have hfnd := hfits.2 hslp
            by_cases hsess : other.session = call.session
            · rw [hsess, hopen] at hfnd
              exact absurd (Option.some.inj hfnd).symm heq
            · rw [hopenings hsess]
              exact hfnd
      | entered | missed | found => trivial
      | returned res found =>
        rw [hother_phase] at hfits
        cases res with
        | hosted handle => cases found <;> exact hfits
        | failed => trivial
  · intro i j first snd hfst hsnd hsome hsame
    rcases getElem?_set_cases hfst with ⟨-, rfl⟩ | ⟨-, hold⟩
    · cases hsome
    · rcases getElem?_set_cases hsnd with ⟨-, rfl⟩ | ⟨-, hold'⟩
      · rw [hsame] at hsome
        cases hsome
      · exact h.single i j first snd hold hold' hsome hsame
  · intro session found hfnd
    have hfnd : update s.openings call.session none session = some found := hfnd
    by_cases hsess : session = call.session
    · rw [hsess, update_self] at hfnd
      cases hfnd
    · rw [update_of_ne hsess] at hfnd
      obtain ⟨other, hmem, hoth, hfnd⟩ := h.present session found hfnd
      obtain ⟨j, hj⟩ := mem_iff_getElem?.mp hmem
      have hne : k ≠ j := by
        rintro rfl
        rw [hcall] at hj
        exact hsess ((Option.some.inj hj) ▸ hoth.symm)
      refine ⟨other, mem_of_getElem? (i := j) ?_, hoth, hfnd⟩
      rw [Hosting.put, getElem?_set_ne hne]
      exact hj
  · intro session found hfnd
    have hfnd : update s.openings call.session none session = some found := hfnd
    by_cases hsess : session = call.session
    · rw [hsess, update_self] at hfnd
      cases hfnd
    · rw [update_of_ne hsess] at hfnd
      exact h.bound session found hfnd

theorem Sound.acquireStep {answer : HostAnswer} (hcare : s.Careful (.advance k answer))
    (hstep : s.acquireStep k call answer = some s') : s'.Sound := by
  obtain ⟨hmissed, hfnd⟩ := hcare call hcall
  have hself := h.fits k call hcall
  rw [Hosting.acquireStep] at hstep
  cases hph : call.phase with
  | entered =>
    simp only [hph] at hstep
    cases hhost : s.hosted call.session with
    | some handle =>
      simp only [hhost] at hstep
      cases hstep
      exact h.put hcall (by rw [hph]; rfl) rfl
    | none =>
      simp only [hhost] at hstep
      cases hstep
      exact h.put hcall (by rw [hph]; rfl) trivial
  | missed =>
    simp only [hph] at hstep
    cases hopen : s.openings call.session with
    | some opening =>
      simp only [hopen] at hstep
      cases hstep
      exact h.put hcall (by rw [hph]; rfl) trivial
    | none =>
      simp only [hopen] at hstep
      cases hstep
      exact h.begin hcall hopen (hmissed hph hopen)
  | found opening =>
    simp only [hph] at hstep
    cases hstep
    exact h.put hcall (by rw [hph]; rfl) ⟨Nat.le_refl _, fun _ => hfnd opening hph⟩
  | watching opening since =>
    simp only [hph] at hstep
    split_ifs at hstep
    cases hstep
    exact h.put hcall (by rw [hph]; rfl) trivial
  | resolving opening =>
    simp only [hph] at hstep
    rw [hph] at hself
    cases answer with
    | error =>
      cases hstep
      exact h.put hcall (by rw [hph]; rfl) hself.1
    | ok =>
      cases hstep
      have hfree : s.taken call.session = false := by
        rw [taken, hself.2, Option.isSome_none, Bool.false_or, any_eq_false]
        intro other hmem hopens
        simp only [Bool.and_eq_true, decide_eq_true_eq] at hopens
        obtain ⟨j, hj⟩ := mem_iff_getElem?.mp hmem
        have howns : call.phase.owns = some opening := by rw [hph, AcquirePhase.owns]
        have hoth : other.phase.owns.isSome := by
          cases hoth : other.phase <;> simp_all [AcquirePhase.opens, AcquirePhase.owns]
        have hidx := h.index_eq hcall hj hopens.1.symm howns hoth
        rw [← hidx, hcall] at hj
        rw [← Option.some.inj hj, hph] at hopens
        exact absurd hopens.2 (by simp [AcquirePhase.opens])
      have hasked : s.callOpen call.session = s := by
        rw [callOpen, hfree]
        rfl
      rw [hasked]
      exact h.put hcall (by rw [hph]; rfl) hself
  | asked opening =>
    simp only [hph] at hstep
    rw [hph] at hself
    cases answer with
    | error =>
      cases hstep
      exact h.put hcall (by rw [hph]; rfl) hself.1
    | ok =>
      cases hstep
      have hhandles : { s with handles := s.handles ++ [call.session] }.Sound := { h with }
      exact hhandles.put hcall (by rw [hph]; rfl) hself
  | opened opening handle =>
    simp only [hph] at hstep
    rw [hph] at hself
    split_ifs at hstep
    · cases hstep
      have hshut : { s with closedHandles := s.closedHandles ++ [handle] }.Sound := { h with }
      exact hshut.put hcall (by rw [hph]; rfl) hself.1
    · cases hstep
      exact h.host hcall hph
  | finishing opening res =>
    simp only [hph] at hstep
    cases hstep
    exact h.complete hcall hph
  | returned res hosted =>
    simp only [hph] at hstep
    cases hstep

end

theorem Sound.removalStep {call : RemovalCall} (hstep : s.removalStep i call = some s') :
    s'.Sound := by
  rw [Hosting.removalStep] at hstep
  cases hph : call.phase with
  | entered =>
    simp only [hph] at hstep
    split_ifs at hstep
    · cases hstep
      exact { h with }
    · cases hhost : s.hosted call.session <;>
      · simp only [hhost] at hstep
        cases hstep
        exact { h with }
  | closing | closed =>
    simp only [hph] at hstep
    cases hstep
    exact { h with }
  | removing =>
    simp only [hph] at hstep
    cases hstep
    have hunhosted : { s with
        hosted := update s.hosted call.session none
        closedHandles := s.closedHandles }.Sound := by
      refine h.unhost ?_
      intro session
      by_cases heq : session = call.session
      · exact .inr (by rw [heq, update_self])
      · exact .inl (update_of_ne heq _ _)
    exact { hunhosted with }
  | returned =>
    simp only [hph] at hstep
    cases hstep

theorem Sound.step (hcare : s.Careful event) (hstep : s.step event = some s') : s'.Sound := by
  cases event with
  | acquire session =>
    cases hstep
    refine { h with fits := ?_, single := ?_, present := ?_ }
    · exact forall_concat h.fits trivial
    · intro i j first snd hfst hsnd hsome hsame
      rcases getElem?_append_cases hfst with hold | ⟨-, rfl⟩
      · rcases getElem?_append_cases hsnd with hold' | ⟨-, rfl⟩
        · exact h.single i j first snd hold hold' hsome hsame
        · rw [hsame] at hsome
          cases hsome
      · cases hsome
    · intro other opening hopen
      obtain ⟨call, hmem, hcall⟩ := h.present other opening hopen
      exact ⟨call, mem_append_left _ hmem, hcall⟩
  | advance k answer =>
    rw [Hosting.step] at hstep
    cases hcall : s.acquires[k]? with
    | none => simp [hcall] at hstep
    | some call =>
      simp only [hcall] at hstep
      exact h.acquireStep hcall hcare hstep
  | cancel k =>
    rw [Hosting.step] at hstep
    cases hcall : s.acquires[k]? with
    | none => simp [hcall] at hstep
    | some call =>
      simp only [hcall] at hstep
      split at hstep
      · rename_i hph
        cases hstep
        exact h.put hcall (by rw [hph]; rfl) trivial
      · cases hstep
  | remove | close =>
    cases hstep
    exact { h with }
  | advanceRemoval k =>
    rw [Hosting.step] at hstep
    cases hcall : s.removals[k]? with
    | none => simp [hcall] at hstep
    | some call =>
      simp only [hcall] at hstep
      exact h.removalStep hstep
  | invalidate handle =>
    rw [Hosting.step] at hstep
    cases hhdl : s.handles[handle]? with
    | none => simp [hhdl] at hstep
    | some session =>
      simp only [hhdl] at hstep
      split_ifs at hstep
      · cases hstep
        refine h.unhost ?_
        intro other
        by_cases heq : other = session
        · exact .inr (by rw [heq, update_self])
        · exact .inl (update_of_ne heq _ _)
      · cases hstep
        exact h
  | clear =>
    rw [Hosting.step] at hstep
    split_ifs at hstep
    cases hstep
    exact h.unhost fun _ => .inr rfl

end

/-- One handle for each session, along every run that meets the conditions. -/
theorem single_hosted_of_run (h : machine.Run Careful s) : s.SingleHosted := by
  refine Sound.singleHosted (h.invariant ?_ ?_)
  · rintro s rfl
    constructor <;> simp
  · exact fun _ _ _ hsound hcareful hstep => hsound.step hcareful hstep

/-- The conditions, computed. -/
def checks (s : Hosting) : HostingEvent → Bool
  | .advance index _ =>
    match s.acquires[index]? with
    | none => true
    | some call =>
      match call.phase with
      | .missed => (s.openings call.session).isSome || (s.hosted call.session).isNone
      | .found opening => s.openings call.session = some opening
      | _ => true
  | _ => true

theorem careful_of_checks (h : s.checks event = true) : s.Careful event := by
  cases event with
  | advance i answer =>
    intro call hcall
    rw [checks, hcall] at h
    refine ⟨?_, ?_⟩
    · intro hph hopenings
      simpa [hph, hopenings] using h
    · intro opening hph
      simpa [hph] using h
  | acquire | cancel | remove | advanceRemoval | invalidate | close | clear => trivial

/-- Two callers, one of which opens the session while the other one waits. -/
theorem single_hosted_two_callers : ∃ s, machine.Run Careful s ∧ s.SingleHosted ∧
    s.acquires.map AcquireCall.phase =
      [.returned (.hosted 0) (some 0), .returned (.hosted 0) (some 0)] := by
  have hstart : machine.Run Careful {} := .start rfl
  obtain ⟨s, hrun, hs⟩ := hstart.execute checks
    [.acquire "a", .acquire "a", .advance 0 .ok, .advance 1 .ok, .advance 0 .ok, .advance 1 .ok,
      .advance 1 .ok, .advance 0 .ok, .advance 0 .ok, .advance 0 .ok, .advance 0 .ok,
      .advance 1 .ok, .advance 1 .ok]
    (fun s => s.acquires.map AcquireCall.phase =
      [.returned (.hosted 0) (some 0), .returned (.hosted 0) (some 0)])
    (fun _ _ => careful_of_checks) (by decide)
  exact ⟨s, hrun, single_hosted_of_run hrun, of_decide_eq_true hs⟩

/-- A caller that looked for a handle before it was hosted and for an opening after it was
completed opens the session again, in place of the handle nobody has closed; a caller that
creates its future after the opening was completed sleeps with nothing under way. -/
theorem gaps_break_hosting :
    (∃ s, machine.Run (fun _ _ => True) s ∧ s.clashes = ["a"] ∧ s.overwritten = [0] ∧
      ¬ s.SingleHosted) ∧
    ∃ s, machine.Run (fun _ _ => True) s ∧ s.clashes = [] ∧ ¬ s.SingleHosted := by
  have hstart : machine.Run (fun _ _ => True) {} := .start rfl
  refine ⟨?_, ?_⟩
  · obtain ⟨s, hrun, hs⟩ := hstart.execute (fun _ _ => true)
      [.acquire "a", .acquire "a", .advance 0 .ok, .advance 1 .ok, .advance 0 .ok, .advance 0 .ok,
        .advance 0 .ok, .advance 0 .ok, .advance 0 .ok, .advance 1 .ok, .advance 1 .ok,
        .advance 1 .ok, .advance 1 .ok]
      (fun s => s.clashes = ["a"] ∧ s.overwritten = [0]) (fun _ _ _ => trivial) (by decide)
    obtain ⟨hclashes, hoverwritten⟩ := of_decide_eq_true hs
    refine ⟨s, hrun, hclashes, hoverwritten, ?_⟩
    intro hsingle
    rw [hsingle.alone] at hclashes
    cases hclashes
  · obtain ⟨s, hrun, hs⟩ := hstart.execute (fun _ _ => true)
      [.acquire "a", .acquire "a", .advance 0 .ok, .advance 1 .ok, .advance 0 .ok, .advance 1 .ok,
        .advance 0 .ok, .advance 0 .ok, .advance 0 .ok, .advance 0 .ok, .advance 1 .ok]
      (fun s => s.clashes = [] ∧ s.openings "a" = none ∧ s.done 0 = 1 ∧
        s.acquires[1]? = some { session := "a", phase := .watching 0 1 })
      (fun _ _ _ => trivial) (by decide)
    obtain ⟨hclashes, hnone, hdone, hcall⟩ := of_decide_eq_true hs
    refine ⟨s, hrun, hclashes, ?_⟩
    intro hsingle
    have hphase : (AcquirePhase.watching 0 1) = .watching 0 (s.done 0) := by rw [hdone]
    obtain ⟨other, -, hsession, -, hopening⟩ := hsingle.awaited _ (mem_of_getElem? hcall) 0 hphase
    rw [hsession, hnone] at hopening
    cases hopening

end Hosting

end SessionRouter

end PiOxidized.Remote
