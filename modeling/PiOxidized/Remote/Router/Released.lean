/-
# Releasing an attachment

A release moves on, takes its attachment from its client, and the maps of the router change.
-/

import PiOxidized.Remote.Router.Standing

namespace PiOxidized.Remote

open List Option Function Bool Math

namespace SessionRouter

namespace Attaching

variable {s s' : Attaching} {att cl : Nat} {phase : CallPhase} {entries : Nat → Option Nat}
  {entry : Option Nat} {i : Nat}

/-! ## A release moves on -/

/-- Releases that know everything the old ones knew: what is begun stays begun, nothing is taken
from a client, and whoever had still to be told is told. -/
structure Later (s : Attaching) (releases : Nat → Option ReleaseTask) : Prop where
  some : ∀ attachment, (s.releases attachment).isSome = true → (releases attachment).isSome = true
  cleared : ∀ attachment, { s with releases := releases }.cleared attachment = s.cleared attachment
  released : ∀ attachment, s.released attachment = true →
    { s with releases := releases }.released attachment = true
  hushed : ∀ dropped, s.Hushed dropped → { s with releases := releases }.Hushed dropped
  untold : ∀ attachment, Untold s.releases attachment → Untold releases attachment ∨
    (∀ call ∈ s.calls, call.phase.tells ≠ Option.some attachment) ∧
      ∀ found, s.created[attachment]? = Option.some found →
        s.told found.client = s.attachmentsByClient found.client ∨
          ∃ (index : Nat) (call : ClientCall), s.calls[index]? = Option.some call ∧
            call.client = found.client ∧ call.phase.tells.isSome = true

variable {releases : Nat → Option ReleaseTask} {found : ClientAttachment}

/-- Where more releases are begun, a call is suited by the same phase as long as what it is about to
enter is not cleared, and what it announces is told. -/
theorem Suits.imp (hsome : ∀ att, (s.releases att).isSome = true → (s'.releases att).isSome = true)
    (hclr : ∀ dropped att, phase = .current dropped att →
      s.cleared att = false → s'.cleared att = false)
    (hunt : ∀ att, phase = .entered att → Untold s.releases att →
      Untold s'.releases att) (h : s.Suits entry phase) : s'.Suits entry phase := by
  cases phase with
  | queued | returned => trivial
  | acquiring old | acquired old handle =>
    refine Or.imp_right (fun hgone => ⟨hgone.1, ?_⟩) h
    obtain ⟨found, hold, hfnd⟩ := hgone.2
    exact ⟨found, hold, hsome found hfnd⟩
  | releasing old handle => exact ⟨h.1, hsome old h.2⟩
  | attaching | attached | inserted | discarding => exact h
  | current dropped att => exact ⟨h.1, hclr dropped att rfl h.2⟩
  | entered att => exact Or.imp_right (fun hgone => ⟨hgone.1, hunt _ rfl hgone.2⟩) h
  | leaving att => exact Or.imp_right (hsome att) h
  | detaching att => exact hsome att h

theorem Later.suits (h : s.Later releases) {call : ClientCall} (hmem : call ∈ s.calls)
    (hsuits : s.Suits entry call.phase) :
    { s with releases := releases }.Suits entry call.phase := by
  refine Suits.imp h.some (fun _ att _ => (h.cleared att).trans) ?_ hsuits
  intro att hph hunt
  refine (h.untold att hunt).resolve_right fun hnob => hnob.1 call hmem ?_
  rw [hph]
  rfl

theorem Later.frames (h : s.Later releases) : s.Frames { s with releases := releases } where
  __ := h
  hosted := rfl
  handles := rfl
  sweeps := rfl
  attachments := rfl
  created _ _ hfnd := hfnd
  made _ _ hfnd hlive := ⟨hfnd, hlive⟩
  standing _ _ hstand := hstand
  live _ _ hlive := .inl hlive

/-- The releases go on, and nothing is taken from a client. -/
theorem Sound.later (h : s.Sound) (hlater : s.Later releases)
    (howed : ∀ att task, releases att = some task → ∃ found, s.created[att]? = some found ∧
        (task.phase.past = false → s.Live found.client att) ∧
          (task.phase.past = false → task.publish = false →
            ∃ (i : Nat) (call : ClientCall), s.calls[i]? = some call ∧
              call.client = found.client ∧ call.phase.hushes = some att)) :
    { s with releases := releases }.Sound where
  __ := h
  suits i call hcall := hlater.suits (mem_of_getElem? hcall) (h.suits i call hcall)
  entry cl att hent := by
    obtain ⟨hclr, hfnd⟩ := h.entry cl att hent
    exact ⟨(hlater.cleared att).trans hclr, hfnd⟩
  mapped _ _ _ := (hlater.frames).mapped h
  listed _ _ := (hlater.frames).listed h
  owed := howed
  told cl := by
    rcases h.told cl with heq | ⟨att, found, hfnd, hclient, hunt⟩ | ⟨i, call, hcall, hclient, htells⟩
    · exact .inl heq
    · rcases hlater.untold att hunt with hunt | ⟨-, htold⟩
      · exact .inr (.inl ⟨att, found, hfnd, hclient, hunt⟩)
      · rcases htold found hfnd with heq | ⟨i, call, hcall, hsame, htells⟩
        · rw [hclient] at heq
          exact .inl heq
        · exact .inr (.inr ⟨i, call, hcall, hsame.trans hclient, .inl (announces_of_tells htells)⟩)
    · exact .inr (.inr ⟨i, call, hcall, hclient, htells.imp_right (hlater.hushed _)⟩)
  standing _ _ _ := (hlater.frames).stands h
  seen _ _ hswp _ _ _ := (hlater.frames).seen h hswp
  sweeps _ _ := (hlater.frames).swept h

/-- One release is written down, and takes nothing from a client. -/
theorem Sound.updateRelease (h : s.Sound) {next : ReleaseTask}
    (hpast : next.phase.past = s.cleared att) (hopen : s.released att = false)
    (hpub : ∀ task, s.releases att = some task → next.publish = task.publish)
    (hunt : ∀ task, s.releases att = some task → task.publish = true →
      task.phase = .cleared true → (∀ call ∈ s.calls, call.phase.tells ≠ some att) ∧
          ∀ found, s.created[att]? = some found →
            s.told found.client = s.attachmentsByClient found.client ∨
              ∃ (i : Nat) (call : ClientCall), s.calls[i]? = some call ∧
                call.client = found.client ∧ call.phase.tells.isSome = true)
    (howed : ∃ found, s.created[att]? = some found ∧
      (next.phase.past = false → s.Live found.client att) ∧
        (next.phase.past = false → next.publish = false →
          ∃ (i : Nat) (call : ClientCall), s.calls[i]? = some call ∧
            call.client = found.client ∧ call.phase.hushes = some att)) :
    { s with releases := update s.releases att (some next) }.Sound := by
  have hoth : ∀ other, other ≠ att →
      update s.releases att (some next) other = s.releases other :=
    fun other hne => update_of_ne hne _ _
  have hself : update s.releases att (some next) att = some next := update_self _ _ _
  refine h.later ?_ ?_
  · constructor
    · intro other hsome
      by_cases heq : other = att
      · rw [heq, hself]
        rfl
      · rw [hoth other heq]
        exact hsome
    · intro other
      by_cases heq : other = att
      · rw [heq, ← hpast]
        simp only [cleared, hself, any_some]
      · simp only [cleared, hoth other heq]
    · intro other hdone
      by_cases heq : other = att
      · rw [heq, hopen] at hdone
        cases hdone
      · simp only [released, hoth other heq]
        exact hdone
    · rintro dropped ⟨old, task, hold, htask, hsil⟩
      by_cases heq : old = att
      · refine ⟨old, next, hold, by rw [heq]; exact hself, ?_⟩
        rw [heq] at htask
        rw [hpub task htask]
        exact hsil
      · exact ⟨old, task, hold, (hoth old heq).trans htask, hsil⟩
    · rintro other ⟨task, htask, hpubd, hph⟩
      by_cases heq : other = att
      · rw [heq] at htask ⊢
        exact .inr (hunt task htask hpubd hph)
      · exact .inl ⟨task, (hoth other heq).trans htask, hpubd, hph⟩
  · intro other task htask
    by_cases heq : other = att
    · subst heq
      rw [hself] at htask
      cases htask
      exact howed
    · rw [hoth other heq] at htask
      exact h.owed other task htask

/-- The release of a live attachment begins, or goes on. -/
theorem Sound.beginRelease (h : s.Sound) {publish : Bool} (hfnd : s.created[att]? = some found)
    (hlive : s.Live found.client att ∨ (s.releases att).isSome = true)
    (hown : publish = true ∨ ∃ (i : Nat) (call : ClientCall), s.calls[i]? = some call ∧
      call.client = found.client ∧ call.phase.hushes = some att) :
    (s.beginRelease att publish).Sound := by
  unfold Attaching.beginRelease
  cases hrelease : s.releases att with
  | some task => exact h
  | none =>
    have hnone : ∀ task, s.releases att ≠ some task := by
      rw [hrelease]
      exact fun _ => nofun
    refine h.updateRelease ?_ ?_ (fun task htask => absurd htask (hnone task))
      (fun task htask => absurd htask (hnone task)) ⟨found, hfnd, ?_, ?_⟩
    · rw [cleared, hrelease]
      rfl
    · rw [released, hrelease]
      rfl
    · refine fun _ => hlive.resolve_right ?_
      rw [hrelease]
      exact Bool.false_ne_true
    · intro _ hpub
      refine hown.resolve_left ?_
      intro htrue
      rw [htrue] at hpub
      cases hpub

/-- A release moves on without taking the attachment from its client. -/
theorem Sound.putRelease (h : s.Sound) {task next : ReleaseTask}
    (htask : s.releases att = some task) (hopen : task.phase ≠ .done)
    (hpub : next.publish = task.publish) (hpast : next.phase.past = task.phase.past)
    (hunt : task.publish = true → task.phase = .cleared true →
      (∀ call ∈ s.calls, call.phase.tells ≠ some att) ∧ ∀ found, s.created[att]? = some found →
          s.told found.client = s.attachmentsByClient found.client ∨
            ∃ (i : Nat) (call : ClientCall), s.calls[i]? = some call ∧
              call.client = found.client ∧ call.phase.tells.isSome = true) :
    (s.putRelease att next).Sound := by
  have hsame : ∀ found, s.releases att = some found → found = task := by
    intro found hfnd
    rw [htask] at hfnd
    exact (some.inj hfnd).symm
  refine h.updateRelease ?_ ?_ ?_ ?_ ?_
  · rw [cleared, htask, any_some]
    exact hpast
  · rw [released, htask, any_some]
    exact decide_eq_false hopen
  · intro found hfnd
    rw [hsame found hfnd]
    exact hpub
  · intro found hfnd
    rw [hsame found hfnd]
    exact hunt
  · rw [hpast, hpub]
    exact h.owed att task htask

/-- A call that releases what is entered for its client, and says nothing, has dropped it. -/
theorem dropped_of_hushes (hsuits : s.Suits (some att) phase) (h : phase.hushes = some att) :
    phase.dropped = some att ∧ phase.tells = none := by
  cases phase with
  | acquired | releasing => exact ⟨h, rfl⟩
  | discarding => cases hsuits
  | _ => cases h

section Clear

variable {att : Nat} {found : ClientAttachment} {task : ReleaseTask} {removed : Bool}

/-- A release has taken its attachment from its client. -/
def clear (s : Attaching) (entries : Nat → Option Nat) (attachment : Nat) (task : ReleaseTask)
    (removed : Bool) : Attaching :=
  { s with attachmentsByClient := entries }.putRelease attachment
    { task with phase := .cleared removed }

/-- A release may take its attachment: nobody stands on it, and at most its own client's entry
goes. -/
structure Clears (s : Attaching) (attachment : Nat) (found : ClientAttachment) (task : ReleaseTask)
    (removed : Bool) (entries : Nat → Option Nat) : Prop where
  created : s.created[attachment]? = some found
  release : s.releases attachment = some task
  unlisted : task.phase = .unlisted
  nobody : ∀ call ∈ s.calls, call.phase.stands ≠ some attachment
  kept : ∀ client, entries client = s.attachmentsByClient client ∨
    client = found.client ∧ s.attachmentsByClient client = some attachment ∧
      entries client = none ∧ removed = true
  gone : entries found.client ≠ some attachment

namespace Clears

section

variable (h : s.Clears att found task removed entries)

include h

omit h in
/-- The releases after one has taken its attachment from its client. -/
theorem releases_cases (s : Attaching) (entries : Nat → Option Nat) (att : Nat) (task : ReleaseTask)
    (removed : Bool) (other : Nat) :
    (other = att ∧ (s.clear entries att task removed).releases other =
      some { task with phase := .cleared removed }) ∨
    other ≠ att ∧ (s.clear entries att task removed).releases other = s.releases other := by
  by_cases heq : other = att
  · exact .inl ⟨heq, by rw [heq]; exact update_self _ _ _⟩
  · exact .inr ⟨heq, update_of_ne heq _ _⟩

omit h in
theorem isSome {other : Nat} (hsome : (s.releases other).isSome = true) :
    ((s.clear entries att task removed).releases other).isSome = true := by
  rcases releases_cases s entries att task removed other with ⟨-, heq⟩ | ⟨-, heq⟩
  · rw [heq]
    rfl
  · rw [heq]
    exact hsome

omit h in
theorem cleared {other : Nat} (hne : other ≠ att) :
    (s.clear entries att task removed).cleared other = s.cleared other := by
  rcases releases_cases s entries att task removed other with ⟨heq, -⟩ | ⟨-, heq⟩
  · exact absurd heq hne
  · rw [Attaching.cleared, heq]
    rfl

theorem self : ((s.clear entries att task removed).releases att).isSome = true :=
  isSome (by rw [h.release]; rfl)

theorem untold {other : Nat} (hunt : Untold s.releases other) :
    Untold (s.clear entries att task removed).releases other := by
  obtain ⟨old, hold, hpub, hclr⟩ := hunt
  rcases releases_cases s entries att task removed other with ⟨rfl, -⟩ | ⟨-, heq⟩
  · rw [h.release] at hold
    rw [← some.inj hold, h.unlisted] at hclr
    cases hclr
  · exact ⟨old, heq.trans hold, hpub, hclr⟩

theorem hushed {dropped : Option Nat} (hhush : s.Hushed dropped) :
    (s.clear entries att task removed).Hushed dropped := by
  obtain ⟨old, pre, hdropped, hpre, hpub⟩ := hhush
  rcases releases_cases s entries att task removed old with ⟨rfl, heq⟩ | ⟨-, heq⟩
  · rw [h.release] at hpre
    cases hpre
    exact ⟨old, _, hdropped, heq, hpub⟩
  · exact ⟨old, pre, hdropped, heq.trans hpre, hpub⟩

/-- What is live after an attachment was taken from its client was live before, and was not that
one. -/
theorem live {other : Nat} (hlive : s.Live cl other) :
    (s.clear entries att task removed).Live cl other ∨ other = att := by
  rcases hlive with hent | hheld
  · rcases h.kept cl with hsame | ⟨-, hgone, -⟩
    · exact .inl (.inl (hsame.trans hent))
    · rw [hent] at hgone
      exact .inr (some.inj hgone)
  · exact .inl (.inr hheld)

theorem frames : s.Frames (s.clear entries att task removed) := by
  have hentered : ∀ cl other, entries cl = some other → s.Standing cl other := by
    intro cl other hent
    rcases h.kept cl with hsame | ⟨-, -, hnone, -⟩
    · exact .inl (hsame.symm.trans hent)
    · rw [hnone] at hent
      cases hent
  refine ⟨rfl, rfl, rfl, rfl, fun _ _ hcreated => hcreated, ?_, ?_, ?_, fun _ => isSome, ?_⟩
  · exact fun _ _ hcreated hlive => ⟨hcreated, Live.of_entries hentered hlive⟩
  · exact fun _ _ => Standing.of_entries hentered
  · intro cl other hlive
    rcases h.live hlive with hlive | heq
    · exact .inl hlive
    · rw [heq]
      exact .inr h.self
  · intro other hover
    rcases releases_cases s entries att task removed other with ⟨rfl, -⟩ | ⟨-, heq⟩
    · rw [released, h.release, any_some, h.unlisted] at hover
      cases hover
    · unfold released at hover ⊢
      rw [heq]
      exact hover

end

section

variable (h : s.Clears att found task removed entries) (hs : s.Sound)

include h hs

/-- A silent release is that of the one call its client has under way. -/
theorem owner (hpub : task.publish = false) : ∃ (i : Nat) (call : ClientCall),
    s.calls[i]? = some call ∧ call.client = found.client ∧ call.phase.hushes = some att := by
  obtain ⟨owner, hown, -, hsilent⟩ := hs.owed att task h.release
  rw [h.created] at hown
  cases hown
  exact hsilent (by rw [h.unlisted]; rfl) hpub

/-- A client whose entry was taken while its call is entering it will be told. -/
theorem publishes {call : ClientCall} {i : Nat} (hcall : s.calls[i]? = some call)
    (hclient : call.client = found.client) (hcase : call.phase = .entered att) :
    task.publish = true := by
  -- A silent release belongs to another call, and the client has one under way.
  by_contra hpub
  rw [not_eq_true] at hpub
  obtain ⟨j, other, hoth, hsame, hhushes⟩ := h.owner hs hpub
  have hannounces : call.phase.announces.isSome = true := by rw [hcase]; rfl
  obtain ⟨hq, hfin⟩ := @active_of_announces s _ (.inl hannounces)
  have hact : other.phase ≠ .queued ∧ other.phase.finished = false := by
    cases hphase : other.phase <;> simp_all [CallPhase.hushes, CallPhase.finished]
  have hidx := hs.index_eq hcall hoth (hclient.trans hsame.symm) hq hfin hact.1 hact.2
  rw [← hidx, hcall] at hoth
  rw [← some.inj hoth, hcase] at hhushes
  cases hhushes

/-- Every call is still where it may be. -/
theorem suits {call : ClientCall} {i : Nat} (hcall : s.calls[i]? = some call) :
    (s.clear entries att task removed).Suits (entries call.client) call.phase := by
  have hsuits := hs.suits i call hcall
  have hnobody := h.nobody call (mem_of_getElem? hcall)
  rcases h.kept call.client with hsame | ⟨hclient, hent, hnone, hremoved⟩
  · rw [hsame]
    refine Suits.imp (fun _ => isSome) ?_ (fun other _ => h.untold) hsuits
    intro dropped other hcur hclr
    refine (cleared ?_).trans hclr
    rintro rfl
    exact hnobody (by rw [hcur]; rfl)
  · rw [hnone]
    rw [hent] at hsuits
    cases hcase : call.phase with
    | queued | returned => trivial
    | acquiring old | acquired old handle =>
      rw [hcase] at hsuits
      rcases hsuits with heq | ⟨hnone', -⟩
      · exact .inr ⟨rfl, att, heq.symm, h.self⟩
      · cases hnone'
    | releasing old handle =>
      rw [hcase] at hsuits
      exact ⟨.inr rfl, isSome hsuits.2⟩
    | attaching | attached | inserted | discarding =>
      rw [hcase] at hsuits
      cases hsuits
    | current dropped other =>
      rw [hcase] at hsuits
      rcases hsuits.1 with hnone' | heq
      · cases hnone'
      · rw [hcase, some.inj heq] at hnobody
        exact absurd rfl hnobody
    | entered other =>
      rw [hcase] at hsuits
      rcases hsuits with heq | ⟨hnone', -⟩
      · cases heq
        exact .inr ⟨rfl, { task with phase := .cleared removed }, update_self _ _ _,
          h.publishes hs hcall hclient hcase, by rw [hremoved]⟩
      · cases hnone'
    | leaving other =>
      rw [hcase] at hsuits
      rcases hsuits with heq | hoth
      · cases heq
        exact .inr h.self
      · exact .inr (isSome hoth)
    | detaching other =>
      rw [hcase] at hsuits
      exact isSome hsuits

/-- What is entered for a client was not taken. -/
theorem entered {client other : Nat} (hent : entries client = some other) :
    (s.clear entries att task removed).cleared other = false ∧
      ∃ owner, s.created[other]? = some owner ∧ owner.client = client := by
  rcases h.kept client with hsame | ⟨-, -, hnone, -⟩
  · obtain ⟨hclr, owner, hown, hclient⟩ := hs.entry client other (hsame.symm.trans hent)
    refine ⟨(cleared ?_).trans hclr, owner, hown, hclient⟩
    rintro rfl
    rw [h.created] at hown
    cases hown
    rw [← hclient] at hent
    exact h.gone hent
  · rw [hnone] at hent
    cases hent

/-- A client was told what is entered for it, or will be told. -/
theorem told (client : Nat) : (s.clear entries att task removed).Told client := by
  rcases hs.told client with
    heq | ⟨other, owner, hown, hclient, hoth⟩ | ⟨i, call, hcall, hclient, htells⟩
  · rcases h.kept client with hsame | ⟨hclient, hent, -, hremoved⟩
    · exact .inl (heq.trans hsame.symm)
    · by_cases hpub : task.publish = true
      · exact .inr (.inl ⟨att, found, h.created, hclient.symm, _, update_self _ _ _, hpub,
          by rw [hremoved]⟩)
      · rw [not_eq_true] at hpub
        obtain ⟨i, call, hcall, hsame, hhushes⟩ := h.owner hs hpub
        have hsuits := hs.suits i call hcall
        rw [hsame, ← hclient, hent] at hsuits
        have hdropped := (dropped_of_hushes hsuits hhushes).1
        refine .inr (.inr ⟨i, call, hcall, hsame.trans hclient.symm, .inr ?_⟩)
        exact h.hushed ⟨att, task, hdropped, h.release, hpub⟩
  · exact .inr (.inl ⟨other, owner, hown, hclient, h.untold hoth⟩)
  · exact .inr (.inr ⟨i, call, hcall, hclient, htells.imp_right h.hushed⟩)

end

end Clears

/-- A release takes its attachment from its client. -/
theorem Sound.clear (h : s.Sound) (hclears : s.Clears att found task removed entries) :
    (s.clear entries att task removed).Sound := by
  have hfr := hclears.frames
  refine { h with
    suits := fun _ _ => hclears.suits h
    entry := fun _ _ => hclears.entered h
    listed := fun _ _ => hfr.listed h
    owed := ?_
    told := hclears.told h
    standing := fun _ _ _ => hfr.stands h
    seen := fun _ _ hswp _ _ _ => hfr.seen h hswp
    sweeps := fun _ _ => hfr.swept h
    mapped := fun _ _ _ => hfr.mapped h }
  intro other pre hpre
  rcases Clears.releases_cases s entries att task removed other with ⟨rfl, heq⟩ | ⟨hne, heq⟩
  · rw [heq] at hpre
    cases hpre
    exact ⟨found, hclears.created, nofun, nofun⟩
  · rw [heq] at hpre
    obtain ⟨owner, hown, hlive, hsilent⟩ := h.owed other pre hpre
    exact ⟨owner, hown, fun hpast => (hclears.live (hlive hpast)).resolve_right hne, hsilent⟩

end Clear

/-! ## The maps change -/

variable {session : String}

/-- An attachment whose release is under way is taken out of its session. -/
theorem Sound.unlist (h : s.Sound) (hsome : (s.releases att).isSome = true)
    (hlive : s.Live found.client att) :
    { s with
      attachments := update s.attachments (found.handle, found.client) none }.Sound := by
  refine { h with
    listed := ?_
    sweeps := fun i sweep hswp => { h.sweeps i sweep hswp with }
    mapped := ?_ }
  · intro other owner hown hoth
    by_cases hkey : (owner.handle, owner.client) = (found.handle, found.client)
    · have hoth : s.Live owner.client other := hoth
      rw [(Prod.mk.inj hkey).2] at hoth
      rw [h.live_unique hoth hlive]
      exact .inr hsome
    · refine (h.listed other owner hown hoth).imp_left fun hlist => ?_
      exact (update_of_ne hkey _ _).trans hlist
  · intro handle cl other hoth
    have hoth : update s.attachments (found.handle, found.client) none (handle, cl) =
        some other := hoth
    by_cases hkey : (handle, cl) = (found.handle, found.client)
    · rw [hkey, update_self] at hoth
      cases hoth
    · rw [update_of_ne hkey] at hoth
      exact h.mapped handle cl other hoth

/-- What is live was made. -/
theorem Sound.created_of_live (h : s.Sound) (hlive : s.Live client att) :
    ∃ found, s.created[att]? = some found ∧ found.client = client := by
  rcases hlive with hent | ⟨i, call, hcall, rfl, hholds⟩
  · exact (h.entry client att hent).2
  · refine h.made i call hcall att ?_
    cases hph : call.phase with
    | inserted | current | discarding =>
      rw [hph] at hholds
      exact hholds
    | _ =>
      rw [hph] at hholds
      cases hholds

/-- The host makes an attachment nobody has yet. -/
theorem Sound.create (h : s.Sound) {att : ClientAttachment}
    (hhdl : (s.handles[att.handle]?).isSome = true) : (s.create att).Sound := by
  have hlive : ∀ (other : Nat) found,
      (s.create att).created[other]? = some found → s.Live found.client other →
        s.created[other]? = some found := by
    intro other found hfnd hlive
    rcases getElem?_append_cases hfnd with hold | ⟨rfl, -⟩
    · exact hold
    · obtain ⟨owner, hown, -⟩ := h.created_of_live hlive
      rw [getElem?_eq_none (Nat.le_refl _)] at hown
      cases hown
  have hfr : s.Frames (s.create att) := ⟨rfl, rfl, rfl, rfl, fun _ _ => getElem?_append_of_some,
      fun other found hfnd hoth => ⟨hlive other found hfnd hoth, hoth⟩,
      fun _ _ hstand => hstand, fun _ _ hoth => .inl hoth, fun _ hsome => hsome,
      fun _ hdone => hdone⟩
  refine { h with
    made := ?_
    entry := ?_
    listed := fun _ _ => hfr.listed h
    owed := ?_
    handled := ?_
    told := ?_
    standing := fun _ _ _ => hfr.stands h
    seen := fun _ _ hswp _ _ _ => hfr.seen h hswp
    sweeps := fun _ _ => hfr.swept h
    mapped := fun _ _ _ => hfr.mapped h }
  · intro i call hcall other hmade
    obtain ⟨found, hfnd, hclient⟩ := h.made i call hcall other hmade
    exact ⟨found, getElem?_append_of_some hfnd, hclient⟩
  · intro client other hent
    obtain ⟨hclr, found, hfnd, hclient⟩ := h.entry client other hent
    exact ⟨hclr, found, getElem?_append_of_some hfnd, hclient⟩
  · intro other task htask
    obtain ⟨found, hfnd, hoth⟩ := h.owed other task htask
    exact ⟨found, getElem?_append_of_some hfnd, hoth⟩
  · exact forall_concat h.handled hhdl
  · intro client
    refine (h.told client).imp_right fun hpend => hpend.imp_left ?_
    rintro ⟨other, found, hfnd, hclient, hunt⟩
    exact ⟨other, found, getElem?_append_of_some hfnd, hclient, hunt⟩

/-- A session that is not hosted is opened. -/
theorem Sound.open (h : s.Sound) (hfree : s.hosted session = none) : { s with
      hosted := update s.hosted session (some s.handles.length)
      handles := s.handles ++ [session] }.Sound := by
  have hhandles : ∀ handle : Nat, (s.handles[handle]?).isSome = true →
      ((s.handles ++ [session])[handle]?).isSome = true := by
    intro handle hsome
    obtain ⟨found, hfnd⟩ := isSome_iff_exists.mp hsome
    rw [getElem?_append_of_some hfnd]
    rfl
  refine { h with
    reached := ?_
    opened := ?_
    handled := ?_
    standing := ?_
    sweeps := ?_ }
  · exact fun i call hcall handle hrch => hhandles handle (h.reached i call hcall handle hrch)
  · intro other handle hhost
    have hhost : update s.hosted session (some s.handles.length) other = some handle :=
      hhost
    by_cases heq : other = session
    · rw [heq, update_self] at hhost
      rw [heq, ← some.inj hhost]
      exact getElem?_concat_length
    · rw [update_of_ne heq] at hhost
      exact getElem?_append_of_some (h.opened other handle hhost)
  · exact fun att found hfnd => hhandles _ (h.handled att found hfnd)
  · intro att found other hfnd hstand hsess
    have hsess : (s.handles ++ [session])[found.handle]? = some other := hsess
    obtain ⟨pre, hpre⟩ := isSome_iff_exists.mp (h.handled att found hfnd)
    rw [getElem?_append_of_some hpre] at hsess
    obtain rfl := some.inj hsess
    rcases h.standing att found pre hfnd hstand hpre with hhost | hrest
    · refine .inl ?_
      show update s.hosted session (some s.handles.length) pre = some found.handle
      rw [update_of_ne]
      · exact hhost
      · rintro rfl
        rw [hfree] at hhost
        cases hhost
    · exact .inr hrest
  · intro i sweep hswp
    have hpre := h.sweeps i sweep hswp
    refine { hpre with
      handle := ?_
      returned := ?_ }
    · exact fun handle hhdl => getElem?_append_of_some (hpre.handle handle hhdl)
    · intro hrmv hret handle hhdl
      obtain ⟨hhost, hnob⟩ := hpre.returned hrmv hret handle hhdl
      refine ⟨?_, hnob⟩
      show update s.hosted session (some s.handles.length) sweep.session ≠ some handle
      by_cases heq : sweep.session = session
      · rw [heq, update_self]
        intro hlen
        have hsess := hpre.handle handle hhdl
        rw [← some.inj hlen, getElem?_eq_none (Nat.le_refl _)] at hsess
        cases hsess
      · rw [update_of_ne heq]
        exact hhost

/-- A session is forgotten: whoever stands on its handle is on the way out. -/
theorem Sound.unhost (h : s.Sound) (hstand : ∀ (att : Nat) found, s.created[att]? = some found →
      s.Standing found.client att → s.handles[found.handle]? = some session →
        s.hosted session = some found.handle → (s.releases att).isSome = true ∨
          ∃ (i : Nat) (sweep : Sweep), s.sweeps[i]? = some sweep ∧ Awaits sweep found.handle att) :
    { s with hosted := update s.hosted session none }.Sound := by
  refine { h with
    opened := ?_
    standing := ?_
    sweeps := ?_ }
  · intro other handle hhost
    have hhost : update s.hosted session none other = some handle := hhost
    by_cases heq : other = session
    · rw [heq, update_self] at hhost
      cases hhost
    · rw [update_of_ne heq] at hhost
      exact h.opened other handle hhost
  · intro att found other hfnd hstd hsess
    rcases h.standing att found other hfnd hstd hsess with hhost | hrest
    · by_cases heq : other = session
      · subst heq
        exact .inr (hstand att found hfnd hstd hsess hhost)
      · exact .inl ((update_of_ne heq _ _).trans hhost)
    · exact .inr hrest
  · intro i sweep hswp
    have hpre := h.sweeps i sweep hswp
    refine { hpre with returned := ?_ }
    intro hrmv hret handle hhdl
    obtain ⟨hhost, hnob⟩ := hpre.returned hrmv hret handle hhdl
    refine ⟨?_, hnob⟩
    show update s.hosted session none sweep.session ≠ some handle
    by_cases heq : sweep.session = session
    · rw [heq, update_self]
      exact nofun
    · rw [update_of_ne heq]
      exact hhost

/-- A sweep moves on. -/
theorem Sound.putSweep (h : s.Sound) {sweep next : Sweep} (hswp : s.sweeps[i]? = some sweep)
    (hnext : s.Sweeps next)
    (hseen : ∀ (att : Nat) (found : ClientAttachment) (snap : List Nat),
      s.created[att]? = some found → next.handle = some found.handle →
        next.snapshot = some snap → s.Standing found.client att →
          att ∈ snap ∨ (s.releases att).isSome = true)
    (hawt : ∀ (att : Nat) found, s.created[att]? = some found →
      s.Standing found.client att → Awaits sweep found.handle att →
        (s.releases att).isSome = true ∨ Awaits next found.handle att) :
    (s.putSweep i next).Sound := by
  refine { h with
    standing := ?_
    seen := ?_
    sweeps := ?_ }
  · intro att found session hfnd hstand hsess
    rcases h.standing att found session hfnd hstand hsess with
      hhost | hsome | ⟨j, other, hoth, hawaited⟩
    · exact .inl hhost
    · exact .inr (.inl hsome)
    · by_cases heq : j = i
      · rw [heq, hswp] at hoth
        cases hoth
        rcases hawt att found hfnd hstand hawaited with hsome | hnext
        · exact .inr (.inl hsome)
        · exact .inr (.inr ⟨i, next, getElem?_set_of_some hswp, hnext⟩)
      · refine .inr (.inr ⟨j, other, ?_, hawaited⟩)
        show (s.sweeps.set i next)[j]? = some other
        rw [getElem?_set_ne (Ne.symm heq)]
        exact hoth
  · exact forall_set h.seen hseen
  · intro j other hoth
    rcases getElem?_set_cases hoth with ⟨-, rfl⟩ | ⟨-, hold⟩
    · exact { hnext with }
    · exact { h.sweeps j other hold with }

end Attaching

end SessionRouter

end PiOxidized.Remote
