/-
# Entering an attachment

An attach lists, enters and tells its attachment, section by section.
-/

import PiOxidized.Remote.Router.Released

namespace PiOxidized.Remote

open List Option Function Bool Math

namespace SessionRouter

namespace Attaching

variable {s s' : Attaching} {att cl : Nat} {session : String} {found : ClientAttachment}

/-! ## An attachment is listed, entered and told -/

section Attach

variable {i : Nat} {call : ClientCall} {att : Nat} {dropped : Option Nat}

/-- While a call of a client attaches, no other call of it holds anything. -/
theorem Sound.not_live (h : s.Sound) (hcall : s.calls[i]? = some call)
    (hq : call.phase ≠ .queued) (hfin : call.phase.finished = false)
    (hent : s.attachmentsByClient call.client = none) (hholds : call.phase.holds = none)
    (other : Nat) : ¬ s.Live call.client other := by
  rintro (hoth | ⟨j, snd, hsnd, hclient, hoth⟩)
  · rw [hent] at hoth
    cases hoth
  · obtain ⟨hq', hfin', -⟩ := entry_of_holds (h.suits j snd hsnd) hoth
    have heq := h.index_eq hcall hsnd hclient.symm hq hfin hq' hfin'
    rw [← heq, hcall] at hsnd
    rw [← some.inj hsnd, hholds] at hoth
    cases hoth

/-- A new attachment is listed in its session. -/
theorem Sound.insert (h : s.Sound) {name : Option String}
    (hcall : s.calls[i]? = some ⟨cl, name, .attached dropped att⟩)
    (hfnd : s.created[att]? = some found) (hclient : found.client = cl) :
    ({ s with
      attachments := update s.attachments (found.handle, cl)
        (some att) }.put i ⟨cl, name, .attached dropped att⟩
        (.inserted dropped att)).Sound := by
  have hsuits := h.suits i _ hcall
  have hnob := h.not_live hcall nofun rfl hsuits rfl
  have hbound : { s with
      attachments := update s.attachments (found.handle, cl) (some att) }.Bound := by
    refine { h.toBound with
      listed := ?_
      sweeps := fun j sweep hswp => { h.sweeps j sweep hswp with } }
    intro other owner hown hlive
    have hlive : s.Live owner.client other := hlive
    refine (h.listed other owner hown hlive).imp_left fun hlist => ?_
    refine (update_of_ne ?_ _ _).trans hlist
    intro hkey
    rw [(Prod.mk.inj hkey).2] at hlive
    exact hnob other hlive
  have hput : ({ s with
      attachments := update s.attachments (found.handle, cl)
        (some att) }.put i ⟨cl, name, .attached dropped att⟩
        (.inserted dropped att)).Bound :=
    hbound.put hcall rfl nofun hsuits (fun _ => .inl) nofun nofun (fun other hoth => by
      cases hoth
      refine .inr fun owner hown => .inl ?_
      have hown : s.created[att]? = some owner := hown
      rw [hfnd] at hown
      cases hown
      rw [hclient]
      exact update_self _ _ _)
    nofun nofun (fun hdrop => .inr (hdrop.imp_left nofun))
  refine { hput with mapped := ?_ }
  intro handle owner other hoth
  have hoth : update s.attachments (found.handle, cl) (some att)
      (handle, owner) = some other := hoth
  by_cases hkey : (handle, owner) = (found.handle, cl)
  · obtain ⟨rfl, rfl⟩ := Prod.mk.inj hkey
    rw [update_self] at hoth
    cases hoth
    refine ⟨?_, .inl (.inr ⟨i, _, getElem?_set_of_some hcall, rfl, rfl⟩)⟩
    show s.created[att]? = some ⟨owner, found.handle⟩
    rw [hfnd, ← hclient]
  · rw [update_of_ne hkey] at hoth
    obtain ⟨hmade, hlive⟩ := h.mapped handle owner other hoth
    refine ⟨hmade, ?_⟩
    rcases hlive with hlive | hsome
    · have hkept : (s.put i ⟨cl, name, .attached dropped att⟩
          (.inserted dropped att)).Live owner other ∨ s.cleared other = true :=
        live_put hcall nofun hlive
      exact hkept.imp_right isSome_of_cleared
    · exact .inr hsome

/-- An attachment that a call holds is entered for its client. -/
theorem Sound.record (h : s.Sound) (hcall : s.calls[i]? = some call)
    (hph : call.phase = .current dropped att)
    (hent : s.attachmentsByClient call.client = none) (hclr : s.cleared att = false)
    (hself : entries call.client = some att)
    (hoth : ∀ cl, cl ≠ call.client → entries cl = s.attachmentsByClient cl) :
    { s with attachmentsByClient := entries }.Sound := by
  have hentered : ∀ cl other, entries cl = some other → s.Standing cl other := by
    intro cl other hother
    by_cases heq : cl = call.client
    · rw [heq, hself] at hother
      exact .inr ⟨i, call, hcall, heq.symm, by rw [hph]; exact hother⟩
    · rw [hoth cl heq] at hother
      exact .inl hother
  have hlive : ∀ cl other,
      s.Live cl other → { s with attachmentsByClient := entries }.Live cl other := by
    rintro cl other (hother | hheld)
    · refine .inl ((hoth cl ?_).trans hother)
      rintro rfl
      rw [hent] at hother
      cases hother
    · exact .inr hheld
  have hfr : s.Frames { s with attachmentsByClient := entries } :=
    ⟨rfl, rfl, rfl, rfl, fun _ _ hmade => hmade,
      fun _ _ hmade hheld => ⟨hmade, Live.of_entries hentered hheld⟩,
      fun _ _ => Standing.of_entries hentered, fun _ _ hheld => .inl (hlive _ _ hheld),
      fun _ hsome => hsome, fun _ hdone => hdone⟩
  refine { h with
    suits := ?_
    entry := ?_
    listed := fun _ _ => hfr.listed h
    owed := ?_
    told := ?_
    standing := fun _ _ _ => hfr.stands h
    seen := fun _ _ hswp _ _ _ => hfr.seen h hswp
    sweeps := fun _ _ => hfr.swept h
    mapped := fun _ _ _ => hfr.mapped h }
  · intro j other hother
    have hother : s.calls[j]? = some other := hother
    have hsuits := h.suits j other hother
    show s.Suits (entries other.client) other.phase
    by_cases heq : other.client = call.client
    · rw [heq, hself]
      by_cases hidx : j = i
      · rw [hidx, hcall] at hother
        rw [← some.inj hother, hph]
        exact ⟨.inr rfl, hclr⟩
      · -- Every other call of the client waits or has returned.
        cases hother_phase : other.phase with
        | queued | returned => trivial
        | _ =>
          refine absurd (h.index_eq hother hcall heq ?_ ?_ ?_ ?_) hidx
          · rw [hother_phase]
            exact nofun
          · rw [hother_phase]
            rfl
          · rw [hph]
            exact nofun
          · rw [hph]
            rfl
    · rw [hoth other.client heq]
      exact hsuits
  · intro cl other hother
    have hother : entries cl = some other := hother
    by_cases heq : cl = call.client
    · rw [heq, hself] at hother
      cases hother
      refine ⟨hclr, ?_⟩
      rw [heq]
      exact h.made i call hcall att (by rw [hph]; rfl)
    · rw [hoth cl heq] at hother
      exact h.entry cl other hother
  · intro other task htask
    obtain ⟨owner, hown, hheld, hsil⟩ := h.owed other task htask
    exact ⟨owner, hown, fun hpast => hlive _ _ (hheld hpast), hsil⟩
  · intro cl
    by_cases heq : cl = call.client
    · exact .inr (.inr ⟨i, call, hcall, heq.symm, .inl (by rw [hph]; rfl)⟩)
    · refine (h.told cl).imp_left fun htold => ?_
      exact htold.trans (hoth cl heq).symm

/-- Whoever is about to be told something may be told anything. -/
theorem Sound.tell (h : s.Sound) {told : Option Nat}
    (hpend : (∃ (att : Nat) (found : ClientAttachment), s.created[att]? = some found ∧
      found.client = cl ∧ Untold s.releases att) ∨
        ∃ (i : Nat) (call : ClientCall), s.calls[i]? = some call ∧ call.client = cl ∧
          call.phase.announces.isSome = true) :
    { s with told := update s.told cl told }.Sound := by
  refine { h with
    told := ?_
    sweeps := fun j sweep hswp => { h.sweeps j sweep hswp with } }
  intro other
  by_cases heq : other = cl
  · subst heq
    rcases hpend with hunt | ⟨i, call, hcall, hclient, hann⟩
    · exact .inr (.inl hunt)
    · exact .inr (.inr ⟨i, call, hcall, hclient, .inl hann⟩)
  · exact (h.told other).imp_left fun htold => (update_of_ne heq _ _).trans htold

end Attach

/-! ## Sections of calls -/

@[simp] theorem beginRelease_frame (s : Attaching) (att : Nat) (publish : Bool) :
    (s.beginRelease att publish).calls = s.calls ∧
      (s.beginRelease att publish).attachmentsByClient = s.attachmentsByClient ∧
        (s.beginRelease att publish).sweeps = s.sweeps ∧
          (s.beginRelease att publish).created = s.created ∧
            (s.beginRelease att publish).handles = s.handles := by
  unfold beginRelease
  split <;> exact ⟨rfl, rfl, rfl, rfl, rfl⟩

/-- A release that was begun is under way or over. -/
theorem isSome_beginRelease (s : Attaching) (att : Nat) (publish : Bool) :
    ((s.beginRelease att publish).releases att).isSome = true := by
  unfold beginRelease
  split
  · rename_i task htask
    rw [htask]
    rfl
  · show (update s.releases att _ att).isSome = true
    rw [update_self]
    rfl

theorem beginRelease_put (s : Attaching) (att i : Nat) (publish : Bool)
    (call : ClientCall) (phase : CallPhase) :
    (s.beginRelease att publish).put i call phase =
      (s.put i call phase).beginRelease att publish := by
  have hrels : (s.put i call phase).releases = s.releases := rfl
  unfold beginRelease
  rw [hrels]
  cases s.releases att <;> rfl

/-- A call that neither holds nor announces anything moves on. -/
theorem Sound.move (h : s.Sound) {call : ClientCall} (hcall : s.calls[i]? = some call)
    (hopen : call.phase.finished = false)
    (hidle : call.phase.holds = none ∧ call.phase.announces = none)
    (hnext : call.phase = .queued → s.isNext i call.client = true)
    (hsuits : s.Suits (s.attachmentsByClient call.client) phase)
    (hmade : ∀ att, phase.made = some att →
      ∃ found, s.created[att]? = some found ∧ found.client = call.client)
    (hrch : ∀ handle, reaches phase = some handle → (s.handles[handle]?).isSome = true)
    (hholds : phase.holds = none) (hhushes : ∀ att, call.phase.hushes = some att →
      phase.hushes = some att ∨ s.cleared att = true)
    (hdrop : s.Hushed call.phase.dropped → s.Hushed phase.dropped) :
    (s.put i call phase).Sound := by
  have hkps : ∀ att, call.phase.holds = some att → phase.holds = some att ∨
      s.attachmentsByClient call.client = some att ∨ s.cleared att = true := by
    intro att heq
    rw [hidle.1] at heq
    cases heq
  refine h.put hcall hkps (h.toBound.put hcall hopen hnext hsuits
    (fun att heq => .inr (hmade att heq)) hrch hkps ?_ ?_ ?_ ?_)
  · intro att heq
    rw [hholds] at heq
    cases heq
  · intro att heq
    have hheld := holds_of_stands heq
    rw [hholds] at hheld
    cases hheld
  · intro att heq
    refine (hhushes att heq).imp_right ?_
    intro hclr task htask _
    rw [cleared, htask, any_some] at hclr
    exact hclr
  · intro hann
    refine .inr (.inr (hdrop (hann.resolve_left ?_)))
    rw [hidle.2]
    exact Bool.false_ne_true

/-- Nothing was dropped, so nothing was hushed. -/
theorem not_hushed_none : ¬ s.Hushed none := by
  rintro ⟨old, task, hold, -⟩
  cases hold

/-- What is entered for a client, or released, was made. -/
theorem Sound.known (h : s.Sound) (hknown : s.attachmentsByClient cl = some att ∨
      (s.releases att).isSome = true) :
    ∃ found, s.created[att]? = some found ∧
      (s.Live found.client att ∨ (s.releases att).isSome = true) := by
  rcases hknown with hent | hsome
  · obtain ⟨-, found, hfnd, hclient⟩ := h.entry cl att hent
    exact ⟨found, hfnd, .inl (.inl (by rw [hclient]; exact hent))⟩
  · obtain ⟨task, htask⟩ := isSome_iff_exists.mp hsome
    obtain ⟨found, hfnd, -⟩ := h.owed att task htask
    exact ⟨found, hfnd, .inr hsome⟩

section CallStep

variable {i : Nat} {name : Option String} {ans : AttachAnswer} {att handle : Nat}
  {old dropped : Option Nat}

section

variable (h : s.Sound)

include h

/-- A call that is the next one of its client begins. -/
theorem Sound.begin (hcall : s.calls[i]? = some ⟨cl, name, .queued⟩) (hnext : s.isNext i cl = true)
    (hsuits : s.Suits (s.attachmentsByClient cl) phase) (hmade : phase.made = none)
    (hrch : reaches phase = none) (hholds : phase.holds = none) :
    (s.put i ⟨cl, name, .queued⟩ phase).Sound := by
  refine h.move hcall rfl ⟨rfl, rfl⟩ (fun _ => hnext) hsuits ?_ ?_ hholds nofun
    (absurd · not_hushed_none)
  · intro att heq
    rw [hmade] at heq
    cases heq
  · intro handle heq
    rw [hrch] at heq
    cases heq

theorem Sound.queued (hcall : s.calls[i]? = some ⟨cl, name, .queued⟩)
    (hstep : s.callStep i ⟨cl, name, .queued⟩ ans = some s') : s'.Sound := by
  simp only [Attaching.callStep] at hstep
  split_ifs at hstep with hnext
  cases name with
  | none =>
    cases hent : s.attachmentsByClient cl with
    | none =>
      simp only [hent] at hstep
      cases hstep
      exact h.begin hcall hnext trivial rfl rfl rfl
    | some old =>
      simp only [hent] at hstep
      cases hstep
      exact h.begin hcall hnext (.inl hent) rfl rfl rfl
  | some session =>
    cases hent : s.attachmentsByClient cl with
    | none =>
      simp only [hent] at hstep
      cases hstep
      exact h.begin hcall hnext (.inl hent) rfl rfl rfl
    | some old =>
      simp only [hent] at hstep
      split_ifs at hstep
      · cases hstep
        exact h.begin hcall hnext trivial rfl rfl rfl
      · cases hstep
        exact h.begin hcall hnext (.inl hent) rfl rfl rfl

theorem Sound.acquiring (hcall : s.calls[i]? = some ⟨cl, name, .acquiring old⟩)
    (hfree : ∀ session, name = some session → ans = .opened → s.hosted session = none)
    (hstep : s.callStep i ⟨cl, name, .acquiring old⟩ ans = some s') : s'.Sound := by
  have hsuits := h.suits i _ hcall
  simp only [Attaching.callStep] at hstep
  cases name with
  | none => cases hstep
  | some session =>
    cases ans with
    | ok =>
      cases hhost : s.hosted session with
      | none => simp [hhost] at hstep
      | some handle =>
        simp only [hhost] at hstep
        cases hstep
        refine h.move hcall rfl ⟨rfl, rfl⟩ nofun hsuits nofun ?_ rfl nofun (absurd · not_hushed_none)
        intro other hoth
        cases hoth
        rw [h.opened session handle hhost]
        rfl
    | opened =>
      cases hstep
      refine (h.open (hfree session rfl rfl)).move hcall rfl ⟨rfl, rfl⟩ nofun hsuits nofun ?_ rfl
        nofun (absurd · not_hushed_none)
      intro other hoth
      cases hoth
      show ((s.handles ++ [session])[s.handles.length]?).isSome = true
      rw [getElem?_concat_length]
      rfl
    | error =>
      cases hstep
      exact h.move hcall rfl ⟨rfl, rfl⟩ nofun trivial nofun nofun rfl nofun
        (absurd · not_hushed_none)

theorem Sound.acquired (hcall : s.calls[i]? = some ⟨cl, name, .acquired old handle⟩)
    (hstep : s.callStep i ⟨cl, name, .acquired old handle⟩ ans = some s') :
    s'.Sound := by
  have hsuits := h.suits i _ hcall
  have hreached := h.reached i _ hcall
  cases old with
  | none =>
    cases hstep
    exact h.move hcall rfl ⟨rfl, rfl⟩ nofun (hsuits.elim id And.left) nofun hreached rfl nofun id
  | some old =>
    cases hstep
    have hknown : s.attachmentsByClient cl = some old ∨ (s.releases old).isSome = true := by
      refine hsuits.imp_right ?_
      rintro ⟨-, found, hfnd, hsome⟩
      rw [some.inj hfnd]
      exact hsome
    obtain ⟨hcalls, hents, -, -, hhandles⟩ := beginRelease_frame s old false
    -- The release is silent, but the call is there to tell the client.
    have hbegun : (s.beginRelease old false).Sound := by
      rcases hknown with hent | hsome
      · obtain ⟨-, found, hfnd, hclient⟩ := h.entry cl old hent
        refine h.beginRelease hfnd (.inl (.inl (by rw [hclient]; exact hent))) (.inr ?_)
        exact ⟨i, _, hcall, hclient.symm, rfl⟩
      · obtain ⟨task, htask⟩ := isSome_iff_exists.mp hsome
        have hsame : s.beginRelease old false = s := by
          unfold Attaching.beginRelease
          rw [htask]
        rw [hsame]
        exact h
    refine hbegun.move (by rw [hcalls]; exact hcall) rfl ⟨rfl, rfl⟩ nofun ?_ nofun ?_ rfl
      (fun _ => .inl) id
    · rw [hents]
      exact ⟨hsuits.imp_right And.left, isSome_beginRelease s old false⟩
    · rw [hhandles]
      exact hreached

theorem Sound.releasing {old : Nat}
    (hcall : s.calls[i]? = some ⟨cl, name, .releasing old handle⟩)
    (hgoes : ∀ task, s.releases old = some task → task.failed = true → task.publish = true)
    (hstep : s.callStep i ⟨cl, name, .releasing old handle⟩ ans = some s') :
    s'.Sound := by
  have hsuits := h.suits i _ hcall
  simp only [Attaching.callStep] at hstep
  cases htask : s.releases old with
  | none => simp [htask] at hstep
  | some task =>
    simp only [htask] at hstep
    split_ifs at hstep with hdone hfail
    all_goals
      have hclr : s.cleared old = true := by
        rw [cleared, htask, any_some, hdone]
        rfl
      cases hstep
    · refine h.move hcall rfl ⟨rfl, rfl⟩ (by rintro ⟨⟩) trivial (by rintro _ ⟨⟩)
        (by rintro _ ⟨⟩) rfl ?_ ?_
      · intro att heq
        rw [← some.inj heq]
        exact .inr hclr
      · rintro ⟨other, pre, hoth, hpre, hpub⟩
        cases hoth
        rw [htask] at hpre
        rw [← some.inj hpre, hgoes task htask hfail] at hpub
        cases hpub
    · refine h.move hcall rfl ⟨rfl, rfl⟩ (by rintro ⟨⟩) ?_ (by rintro _ ⟨⟩)
        (h.reached i _ hcall) rfl ?_ id
      · rcases hsuits.1 with hent | hnone
        · rw [(h.entry cl old hent).1] at hclr
          cases hclr
        · exact hnone
      · intro att heq
        rw [← some.inj heq]
        exact .inr hclr

theorem Sound.attaching (hcall : s.calls[i]? = some ⟨cl, name, .attaching dropped handle⟩)
    (hgoes : ans = .error → ¬ s.Hushed dropped)
    (hstep : s.callStep i ⟨cl, name, .attaching dropped handle⟩ ans = some s') :
    s'.Sound := by
  cases ans with
  | ok =>
    cases hstep
    have hmade : (s.create ⟨cl, handle⟩).Sound := h.create (h.reached i _ hcall handle rfl)
    refine hmade.move hcall rfl ⟨rfl, rfl⟩ nofun (h.suits i _ hcall) ?_ nofun rfl nofun id
    intro att heq
    rw [← some.inj heq]
    exact ⟨_, getElem?_concat_length, rfl⟩
  | opened => cases hstep
  | error =>
    cases hstep
    exact h.move hcall rfl ⟨rfl, rfl⟩ nofun trivial nofun nofun rfl nofun (absurd · (hgoes rfl))

/-- A new attachment finds its session still hosted, or is released again. -/
theorem Sound.inserted (hcall : s.calls[i]? = some ⟨cl, name, .inserted dropped att⟩)
    (hcare : if (s.sessionOf att).bind s.hosted = s.created[att]?.map ClientAttachment.handle then
      s.cleared att = false ∧ ∀ sweep ∈ s.sweeps, ∀ found snap, s.created[att]? = some found →
          sweep.handle = some found.handle → sweep.snapshot = some snap →
            att ∈ snap ∨ (s.releases att).isSome = true
      else ¬ s.Hushed dropped)
    (hstep : s.callStep i ⟨cl, name, .inserted dropped att⟩ ans = some s') :
    s'.Sound := by
  have hsuits := h.suits i _ hcall
  obtain ⟨found, hfnd, hclient⟩ := h.made i _ hcall att rfl
  simp only [Attaching.callStep, hfnd] at hstep
  rw [sessionOf, hfnd, bind_some, map_some] at hcare
  have hkps : ∀ phase : CallPhase, phase.holds = some att →
      ∀ other, some att = some other → phase.holds = some other ∨
        s.attachmentsByClient cl = some other ∨ s.cleared other = true :=
    fun phase hholds other heq => .inl (hholds.trans heq)
  split_ifs at hstep with hhost
  · rw [if_pos hhost] at hcare
    cases hstep
    refine h.put hcall (hkps _ rfl) (h.toBound.put hcall rfl nofun ⟨.inl hsuits, hcare.1⟩
      (fun _ => .inl) nofun (hkps _ rfl) (fun _ => .inl) ?_ nofun
      (fun _ => .inr (.inl rfl)))
    intro other hoth owner hown
    cases hoth
    rw [hfnd] at hown
    cases hown
    exact ⟨hhost, fun sweep hmem snap hhdl hsnap =>
      hcare.2 sweep hmem found snap rfl hhdl hsnap⟩
  · rw [if_neg hhost] at hcare
    cases hstep
    rw [beginRelease_put]
    have hput : (s.put i ⟨cl, name, .inserted dropped att⟩ (.discarding att)).Sound := by
      refine h.put hcall (hkps _ rfl) (h.toBound.put hcall rfl nofun hsuits (fun _ => .inl)
        nofun (hkps _ rfl) (fun _ => .inl) nofun nofun ?_)
      rintro (hann | hdrop)
      · cases hann
      · exact absurd hdrop hcare
    refine hput.beginRelease hfnd (.inl (.inr ?_)) (.inr ?_)
    · exact ⟨i, _, getElem?_set_of_some hcall, hclient.symm, rfl⟩
    · exact ⟨i, _, getElem?_set_of_some hcall, hclient.symm, rfl⟩

/-- An attachment is entered for its client. -/
theorem Sound.current (hcall : s.calls[i]? = some ⟨cl, name, .current dropped att⟩)
    (hstep : s.callStep i ⟨cl, name, .current dropped att⟩ ans = some s') :
    s'.Sound := by
  have hsuits := h.suits i _ hcall
  cases hstep
  have hself : update s.attachmentsByClient cl (some att) cl =
      some att := update_self _ _ _
  have hrecd : { s with
      attachmentsByClient := update s.attachmentsByClient cl (some att) }.Sound := by
    rcases hsuits.1 with hnone | hent
    · exact h.record hcall rfl hnone hsuits.2 hself fun cl hne => update_of_ne hne _ _
    · rw [← hent, update_eq_self]
      exact h
  have hkps : ∀ other, some att = some other → none = some other ∨
      update s.attachmentsByClient cl (some att) cl = some other ∨
        s.cleared other = true := by
    rw [hself]
    exact fun other heq => .inr (.inl heq)
  exact hrecd.put hcall hkps (hrecd.toBound.put hcall rfl nofun (.inl hself)
    (fun _ => .inl) nofun hkps nofun nofun nofun (fun _ => .inr (.inl rfl)))

/-- A client is told of what is entered for it, or was until now. -/
theorem Sound.entered (hcall : s.calls[i]? = some ⟨cl, name, .entered att⟩)
    (hstep : s.callStep i ⟨cl, name, .entered att⟩ ans = some s') :
    s'.Sound := by
  have hsuits := h.suits i _ hcall
  obtain ⟨found, hfnd, hclient⟩ := h.made i _ hcall att rfl
  cases hstep
  have htold : { s with told := update s.told cl (some att) }.Sound :=
    h.tell (.inr ⟨i, _, hcall, rfl, rfl⟩)
  refine htold.put hcall nofun (htold.toBound.put hcall rfl nofun trivial nofun nofun nofun nofun
    nofun nofun fun _ => .inl ?_)
  rcases hsuits with hent | ⟨-, hunt⟩
  · exact .inl ((update_self _ _ _).trans hent.symm)
  · exact .inr ⟨att, found, hfnd, hclient, hunt⟩

/-- A call returns when the release it waits for is over. -/
theorem Sound.discarding (hcall : s.calls[i]? = some ⟨cl, name, .discarding att⟩)
    (hstep : s.callStep i ⟨cl, name, .discarding att⟩ ans = some s') :
    s'.Sound := by
  simp only [Attaching.callStep] at hstep
  split_ifs at hstep with hdone
  cases hstep
  have hclr := cleared_of_released hdone
  have hkps : ∀ other, some att = some other → none = some other ∨
      s.attachmentsByClient cl = some other ∨ s.cleared other = true := by
    intro other heq
    rw [← some.inj heq]
    exact .inr (.inr hclr)
  refine h.put hcall hkps (h.toBound.put hcall rfl nofun trivial nofun nofun hkps nofun nofun
    ?_ ?_)
  · intro other heq
    refine .inr fun task htask _ => ?_
    rw [some.inj heq, cleared, htask, any_some] at hclr
    exact hclr
  · rintro (hann | hdrop)
    · cases hann
    · exact absurd hdrop not_hushed_none

/-- A detach begins the release of what it found, or waits for it. -/
theorem Sound.leaving (hcall : s.calls[i]? = some ⟨cl, name, .leaving att⟩)
    (hstep : s.callStep i ⟨cl, name, .leaving att⟩ ans = some s') :
    s'.Sound := by
  cases hstep
  obtain ⟨found, hfnd, hlive⟩ := h.known (h.suits i _ hcall)
  obtain ⟨hcalls, -⟩ := beginRelease_frame s att true
  exact (h.beginRelease hfnd hlive (.inl rfl)).move (by rw [hcalls]; exact hcall) rfl ⟨rfl, rfl⟩
    nofun (isSome_beginRelease s att true) nofun nofun rfl nofun (absurd · not_hushed_none)

theorem Sound.detaching (hcall : s.calls[i]? = some ⟨cl, name, .detaching att⟩)
    (hstep : s.callStep i ⟨cl, name, .detaching att⟩ ans = some s') :
    s'.Sound := by
  simp only [Attaching.callStep] at hstep
  cases htask : s.releases att with
  | none => simp [htask] at hstep
  | some task =>
    simp only [htask] at hstep
    split_ifs at hstep
    cases hstep
    exact h.move hcall rfl ⟨rfl, rfl⟩ nofun trivial nofun nofun rfl nofun (absurd · not_hushed_none)

theorem Sound.callStep {call : ClientCall} (hcall : s.calls[i]? = some call)
    (hcare : s.Careful (.advance i ans))
    (hstep : s.callStep i call ans = some s') : s'.Sound := by
  have hcare := hcare call hcall
  obtain ⟨cl, name, phase⟩ := call
  cases phase with
  | queued => exact h.queued hcall hstep
  | acquiring old => exact h.acquiring hcall hcare hstep
  | acquired old handle => exact h.acquired hcall hstep
  | releasing old handle => exact h.releasing hcall hcare hstep
  | attaching dropped handle => exact h.attaching hcall hcare hstep
  | attached dropped att =>
    obtain ⟨found, hfnd, hclient⟩ := h.made i _ hcall att rfl
    simp only [Attaching.callStep, hfnd] at hstep
    cases hstep
    exact h.insert hcall hfnd hclient
  | inserted dropped att => exact h.inserted hcall hcare hstep
  | current dropped att => exact h.current hcall hstep
  | entered att => exact h.entered hcall hstep
  | discarding att => exact h.discarding hcall hstep
  | leaving att => exact h.leaving hcall hstep
  | detaching att => exact h.detaching hcall hstep
  | returned ok => cases hstep

end

end CallStep

end Attaching

end SessionRouter

end PiOxidized.Remote
