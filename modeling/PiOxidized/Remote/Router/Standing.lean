/-
# What attachments rely on

The conditions under which clients know their attachments, what every step keeps under them, and
what a change leaves alone.
-/

import PiOxidized.Remote.Router.Attach

namespace PiOxidized.Remote

open List Option Function Bool Math

namespace SessionRouter

/-- The attachment an attach has dropped, or is about to. -/
def CallPhase.dropped : CallPhase → Option Nat
  | acquired old _ => old
  | releasing old _ => some old
  | attaching dropped _ => dropped
  | attached dropped _ => dropped
  | inserted dropped _ => dropped
  | current dropped _ => dropped
  | _ => none

/-- The attachment a call has made. -/
def CallPhase.made : CallPhase → Option Nat
  | attached _ attachment => some attachment
  | inserted _ attachment => some attachment
  | current _ attachment => some attachment
  | entered attachment => some attachment
  | discarding attachment => some attachment
  | _ => none

/-- The attachment a call has listed in its session and not entered. -/
def CallPhase.holds : CallPhase → Option Nat
  | inserted _ attachment => some attachment
  | current _ attachment => some attachment
  | discarding attachment => some attachment
  | _ => none

/-- The attachment a call is about to enter. -/
def CallPhase.stands : CallPhase → Option Nat
  | current _ attachment => some attachment
  | _ => none

/-- The attachment a call is about to tell its client of. -/
def CallPhase.tells : CallPhase → Option Nat
  | entered attachment => some attachment
  | _ => none

/-- The attachment a call is about to enter or to tell its client of. -/
def CallPhase.announces : CallPhase → Option Nat
  | current _ attachment => some attachment
  | entered attachment => some attachment
  | _ => none

/-- The attachment a call releases without telling its client, or is about to. -/
def CallPhase.hushes : CallPhase → Option Nat
  | acquired old _ => old
  | releasing old _ => some old
  | discarding attachment => some attachment
  | _ => none

namespace Attaching

variable {s s' : Attaching}

/-- Whether nothing that concerns a client is under way: no call of it, no release of an
attachment of it, and no sweep of the handle it is attached to. -/
structure Quiet (s : Attaching) (client : Nat) : Prop where
  calls : ∀ call ∈ s.calls, call.client = client → call.phase = .queued ∨ call.phase.finished = true
  releases : ∀ (attachment : Nat) found, s.created[attachment]? = some found →
    found.client = client → s.releases attachment = none ∨ s.released attachment = true
  sweeps : ∀ sweep ∈ s.sweeps, ∀ (attachment : Nat) found,
    s.attachmentsByClient client = some attachment → s.created[attachment]? = some found →
      sweep.handle = some found.handle → sweep.phase = .entered ∨ sweep.phase = .returned

/-- What the router promises about attachments. -/
structure Truthful (s : Attaching) : Prop where
  told : ∀ client, s.Quiet client → s.told client = s.attachmentsByClient client
  standing : ∀ client, s.Quiet client → ∀ attachment,
    s.attachmentsByClient client = some attachment →
      ∃ found session, s.created[attachment]? = some found ∧ found.client = client ∧
        s.handles[found.handle]? = some session ∧
          s.attachments (found.handle, client) = some attachment ∧
            s.hosted session = some found.handle ∧ s.releases attachment = none
  /-- Once a removal has returned nobody is attached to what it removed. -/
  removed : ∀ sweep ∈ s.sweeps, sweep.removal = true → sweep.phase = .returned →
    ∀ (attachment : Nat) found, s.created[attachment]? = some found →
      sweep.handle = some found.handle → s.attachmentsByClient found.client ≠ some attachment

/-- Whether what an attach has dropped was released without a word. -/
def Hushed (s : Attaching) (dropped : Option Nat) : Prop :=
  ∃ old task, dropped = some old ∧ s.releases old = some task ∧ task.publish = false

/-- A removal that has waited for the releases it began finds no other one of its handle under
way. -/
def Swept (s : Attaching) (sweep : Sweep) : Prop :=
  ∀ (attachment : Nat) (found : ClientAttachment) (snapshot : List Nat),
    s.created[attachment]? = some found → sweep.handle = some found.handle →
      sweep.snapshot = some snapshot → attachment ∉ snapshot →
        s.releases attachment = none ∨ s.cleared attachment = true

def Careful (s : Attaching) : AttachEvent → Prop
  | .advance index answer =>
    ∀ call, s.calls[index]? = some call → match call.phase with
      | .acquiring _ =>
        -- A session is opened only while it is not hosted.
        ∀ session, call.session = some session → answer = .opened → s.hosted session = none
      | .releasing old _ =>
        -- A switch goes on, or the client was told.
        ∀ task, s.releases old = some task → task.failed = true → task.publish = true
      | .attaching dropped _ => answer = .error → ¬ s.Hushed dropped
      | .inserted dropped attachment =>
        if (s.sessionOf attachment).bind s.hosted =
            s.created[attachment]?.map ClientAttachment.handle then
          -- The sweeps of the handle have seen the attachment, and it is not cleared yet.
          s.cleared attachment = false ∧
            ∀ sweep ∈ s.sweeps, ∀ found snapshot, s.created[attachment]? = some found →
              sweep.handle = some found.handle → sweep.snapshot = some snapshot →
                attachment ∈ snapshot ∨ (s.releases attachment).isSome = true
        else ¬ s.Hushed dropped
      | _ => True
  | .advanceRelease attachment _ =>
    ∀ found task, s.created[attachment]? = some found → s.releases attachment = some task →
      match task.phase with
      | .unlisted => ∀ call ∈ s.calls, call.phase.stands ≠ some attachment
      | .cleared true =>
        -- What the client is told next is newer, and what it was told last is not.
        task.publish = true → (∀ call ∈ s.calls, call.phase.tells ≠ some attachment) ∧
            (s.attachmentsByClient found.client = none ∨
              ∃ call ∈ s.calls, call.client = found.client ∧ call.phase.tells.isSome = true)
      | _ => True
  | .advanceSweep index =>
    ∀ sweep, s.sweeps[index]? = some sweep → match sweep.phase with
      | .closed => s.hosted sweep.session ≠ sweep.handle → s.Swept sweep
      | .removing =>
        s.Swept sweep ∧ (s.hosted sweep.session = none ∨ s.hosted sweep.session = sweep.handle)
      | _ => True
  | _ => True

/-! ## What every step keeps -/

/-- Whether an attachment is entered for a client, or held by a call of it. -/
def Live (s : Attaching) (client attachment : Nat) : Prop :=
  s.attachmentsByClient client = some attachment ∨
    ∃ (index : Nat) (call : ClientCall), s.calls[index]? = some call ∧ call.client = client ∧
      call.phase.holds = some attachment

/-- Whether an attachment is entered for a client, or about to be. -/
def Standing (s : Attaching) (client attachment : Nat) : Prop :=
  s.attachmentsByClient client = some attachment ∨
    ∃ (index : Nat) (call : ClientCall), s.calls[index]? = some call ∧ call.client = client ∧
      call.phase.stands = some attachment

/-- Whether a release still has to tell the client. -/
def Untold (releases : Nat → Option ReleaseTask) (attachment : Nat) : Prop :=
  ∃ task, releases attachment = some task ∧ task.publish = true ∧ task.phase = .cleared true

/-- What a client was told last is what is entered for it, or it is about to be told. -/
def Told (s : Attaching) (client : Nat) : Prop := s.told client = s.attachmentsByClient client ∨
    (∃ (attachment : Nat) (found : ClientAttachment), s.created[attachment]? = some found ∧
      found.client = client ∧ Untold s.releases attachment) ∨
    ∃ (index : Nat) (call : ClientCall), s.calls[index]? = some call ∧ call.client = client ∧
      (call.phase.announces.isSome = true ∨ s.Hushed call.phase.dropped)

/-- What the maps say of the phase of a call, given what is entered for its client. -/
def Suits (s : Attaching) (entry : Option Nat) : CallPhase → Prop
  | .queued => True
  | .acquiring old | .acquired old _ =>
    entry = old ∨ entry = none ∧ ∃ found, old = some found ∧ (s.releases found).isSome = true
  | .releasing old _ => (entry = some old ∨ entry = none) ∧ (s.releases old).isSome = true
  | .attaching _ _ | .attached _ _ | .inserted _ _ | .discarding _ => entry = none
  | .current _ attachment =>
    (entry = none ∨ entry = some attachment) ∧ s.cleared attachment = false
  | .entered attachment => entry = some attachment ∨ entry = none ∧ Untold s.releases attachment
  | .leaving attachment => entry = some attachment ∨ (s.releases attachment).isSome = true
  | .detaching attachment => (s.releases attachment).isSome = true
  | .returned _ => True

/-- The handle a call is about to attach to. -/
def reaches : CallPhase → Option Nat
  | .acquired _ handle => some handle
  | .releasing _ handle => some handle
  | .attaching _ handle => some handle
  | _ => none

/-- What a sweep has done. -/
structure Sweeps (s : Attaching) (sweep : Sweep) : Prop where
  fresh : sweep.phase = .entered → sweep.snapshot = none ∧
    (sweep.removal = true → sweep.handle = none)
  handle : ∀ handle, sweep.handle = some handle → s.handles[handle]? = some sweep.session
  releasing : ∀ todo, sweep.phase = .releasing todo → ∃ snapshot, sweep.snapshot = some snapshot ∧
    (∀ attachment ∈ snapshot, attachment ∈ todo ∨ (s.releases attachment).isSome = true) ∧
      ∀ attachment ∈ todo, ∃ found, s.created[attachment]? = some found ∧
        (s.Live found.client attachment ∨ (s.releases attachment).isSome = true)
  waited : sweep.phase = .closing ∨ sweep.phase = .closed ∨ sweep.phase = .removing →
    ∃ snapshot, sweep.snapshot = some snapshot ∧
      ∀ attachment ∈ snapshot, s.released attachment = true
  returned : sweep.removal = true → sweep.phase = .returned → ∀ handle,
    sweep.handle = some handle → s.hosted sweep.session ≠ some handle ∧
      ∀ (attachment : Nat) found, s.created[attachment]? = some found →
        found.handle = handle → ¬ s.Standing found.client attachment

/-- Whether a sweep is going to release an attachment of a handle. -/
def Awaits (sweep : Sweep) (handle attachment : Nat) : Prop := sweep.handle = some handle ∧
    (sweep.phase = .found ∨ ∃ todo, sweep.phase = .releasing todo ∧ attachment ∈ todo)

structure Bound (s : Attaching) : Prop where
  /-- The calls of a client run one after another. -/
  sole : ∀ (i j : Nat) (first second : ClientCall), i < j → s.calls[i]? = some first →
    s.calls[j]? = some second → first.client = second.client → second.phase ≠ .queued →
      first.phase.finished = true
  suits : ∀ (index : Nat) call, s.calls[index]? = some call →
    s.Suits (s.attachmentsByClient call.client) call.phase
  made : ∀ (index : Nat) call, s.calls[index]? = some call → ∀ attachment,
    call.phase.made = some attachment →
      ∃ found, s.created[attachment]? = some found ∧ found.client = call.client
  reached : ∀ (index : Nat) call, s.calls[index]? = some call → ∀ handle,
    reaches call.phase = some handle → (s.handles[handle]?).isSome = true
  entry : ∀ client attachment, s.attachmentsByClient client = some attachment →
    s.cleared attachment = false ∧
      ∃ found, s.created[attachment]? = some found ∧ found.client = client
  listed : ∀ (attachment : Nat) found, s.created[attachment]? = some found →
    s.Live found.client attachment → s.attachments (found.handle, found.client) = some attachment ∨
        (s.releases attachment).isSome = true
  /-- A release takes an attachment from its client, silently only for a call that says so. -/
  owed : ∀ attachment task, s.releases attachment = some task →
    ∃ found, s.created[attachment]? = some found ∧
      (task.phase.past = false → s.Live found.client attachment) ∧
        (task.phase.past = false → task.publish = false →
          ∃ (index : Nat) (call : ClientCall), s.calls[index]? = some call ∧
            call.client = found.client ∧ call.phase.hushes = some attachment)
  opened : ∀ session handle, s.hosted session = some handle → s.handles[handle]? = some session
  handled : ∀ (attachment : Nat) found, s.created[attachment]? = some found →
    (s.handles[found.handle]?).isSome = true
  told : ∀ client, s.Told client
  standing : ∀ (attachment : Nat) (found : ClientAttachment) (session : String),
    s.created[attachment]? = some found → s.Standing found.client attachment →
      s.handles[found.handle]? = some session → s.hosted session = some found.handle ∨
        (s.releases attachment).isSome = true ∨
          ∃ (index : Nat) (sweep : Sweep), s.sweeps[index]? = some sweep ∧
            Awaits sweep found.handle attachment
  seen : ∀ (index : Nat) sweep, s.sweeps[index]? = some sweep →
    ∀ (attachment : Nat) (found : ClientAttachment) (snapshot : List Nat),
      s.created[attachment]? = some found → sweep.handle = some found.handle →
        sweep.snapshot = some snapshot → s.Standing found.client attachment →
          attachment ∈ snapshot ∨ (s.releases attachment).isSome = true
  sweeps : ∀ (index : Nat) sweep, s.sweeps[index]? = some sweep → s.Sweeps sweep

/-- What is listed in a session belongs to somebody. -/
structure Sound (s : Attaching) : Prop extends Bound s where
  mapped : ∀ handle client attachment, s.attachments (handle, client) = some attachment →
    s.created[attachment]? = some ⟨client, handle⟩ ∧
      (s.Live client attachment ∨ (s.releases attachment).isSome = true)

variable {att cl : Nat} {phase : CallPhase}

variable {entries : Nat → Option Nat} {entry : Option Nat} {i : Nat}

/-- What a call is about to enter it also holds. -/
theorem holds_of_stands (h : phase.stands = some att) : phase.holds = some att := by
  cases phase with
  | current dropped found => exact h
  | _ => cases h

theorem Standing.live (h : s.Standing cl att) : s.Live cl att := by
  rcases h with h | ⟨i, call, hcall, hclient, hstd⟩
  · exact .inl h
  · exact .inr ⟨i, call, hcall, hclient, holds_of_stands hstd⟩

/-- A release that is not over has not been forgotten, and one that is has taken the
attachment from its client. -/
theorem cleared_of_released (h : s.released att = true) : s.cleared att = true := by
  unfold released at h
  unfold cleared
  cases hrelease : s.releases att with
  | none =>
    rw [hrelease] at h
    cases h
  | some task =>
    rw [hrelease] at h
    have hph : task.phase = .done := of_decide_eq_true h
    rw [any_some, hph]
    rfl

theorem isSome_of_cleared (h : s.cleared att = true) : (s.releases att).isSome = true := by
  unfold cleared at h
  cases hrelease : s.releases att with
  | none =>
    rw [hrelease] at h
    cases h
  | some task => rfl

/-- A call under way is the only one of its client. -/
theorem Sound.index_eq (h : s.Sound) {i j : Nat} {first snd : ClientCall}
    (hfst : s.calls[i]? = some first) (hsnd : s.calls[j]? = some snd)
    (hclient : first.client = snd.client) (hq : first.phase ≠ .queued)
    (hfin : first.phase.finished = false) (hq' : snd.phase ≠ .queued)
    (hfin' : snd.phase.finished = false) : i = j := by
  rcases Nat.lt_trichotomy i j with hlt | heq | hgt
  · have hdone := h.sole i j first snd hlt hfst hsnd hclient hq'
    rw [hfin] at hdone
    cases hdone
  · exact heq
  · have hdone := h.sole j i snd first hgt hsnd hfst hclient.symm hq
    rw [hfin'] at hdone
    cases hdone

/-- A call that holds an attachment is under way, and nothing else is entered for its client. -/
theorem entry_of_holds (h : s.Suits entry phase) (hholds : phase.holds = some att) :
    phase ≠ .queued ∧ phase.finished = false ∧ (entry = none ∨ entry = some att) := by
  cases phase with
  | inserted | discarding => exact ⟨nofun, rfl, .inl h⟩
  | current => exact ⟨nofun, rfl, hholds ▸ h.1⟩
  | _ => cases hholds

/-- What is entered for a client is what a call of it holds. -/
theorem Sound.entry_eq_of_holds (h : s.Sound) {a b : Nat} {call : ClientCall}
    (ha : s.attachmentsByClient cl = some a) (hcall : s.calls[i]? = some call)
    (hclient : call.client = cl) (hb : call.phase.holds = some b) : a = b := by
  have hent := (entry_of_holds (h.suits i call hcall) hb).2.2
  rw [hclient, ha] at hent
  rcases hent with hnone | hsame
  · cases hnone
  · exact some.inj hsame

/-- A client has one attachment that is live. -/
theorem Sound.live_unique (h : s.Sound) {a b : Nat} (ha : s.Live cl a) (hb : s.Live cl b) :
    a = b := by
  rcases ha with ha | ⟨i, first, hfst, hclient, ha⟩
  · rcases hb with hb | ⟨j, snd, hsnd, hclient', hb⟩
    · rw [ha] at hb
      exact some.inj hb
    · exact h.entry_eq_of_holds ha hsnd hclient' hb
  · rcases hb with hb | ⟨j, snd, hsnd, hclient', hb⟩
    · exact (h.entry_eq_of_holds hb hfst hclient ha).symm
    · obtain ⟨hq, hfin, -⟩ := entry_of_holds (h.suits i first hfst) ha
      obtain ⟨hq', hfin', -⟩ := entry_of_holds (h.suits j snd hsnd) hb
      have heq := h.index_eq hfst hsnd (hclient.trans hclient'.symm) hq hfin hq' hfin'
      rw [heq, hsnd] at hfst
      cases hfst
      rw [ha] at hb
      exact some.inj hb

theorem not_released_of_untold (h : Untold s.releases att) :
    (s.releases att).isSome = true ∧ s.released att = false := by
  obtain ⟨task, htask, -, hph⟩ := h
  refine ⟨by rw [htask]; rfl, ?_⟩
  rw [released, htask, any_some, hph]
  rfl

theorem announces_of_tells (h : phase.tells.isSome = true) : phase.announces.isSome = true := by
  cases phase with
  | entered => rfl
  | _ => cases h

/-- A call that tells its client something, or has dropped an attachment, is under way. -/
theorem active_of_announces (h : phase.announces.isSome = true ∨ s.Hushed phase.dropped) :
    phase ≠ .queued ∧ phase.finished = false := by
  rcases h with h | ⟨old, task, h, -⟩
  · cases phase <;> simp_all [CallPhase.announces, CallPhase.finished]
  · cases phase <;> simp_all [CallPhase.dropped, CallPhase.finished]

theorem Sound.truthful (h : s.Sound) : s.Truthful where
  told cl hquiet := by
    rcases h.told cl with heq | ⟨att, found, hfnd, hclient, hunt⟩ | ⟨i, call, hcall, hclient, htells⟩
    · exact heq
    · obtain ⟨hsome, hnot⟩ := not_released_of_untold hunt
      rcases hquiet.releases att found hfnd hclient with hnone | hdone
      · rw [hnone] at hsome
        cases hsome
      · rw [hnot] at hdone
        cases hdone
    · obtain ⟨hq, hfin⟩ := active_of_announces htells
      rcases hquiet.calls call (mem_of_getElem? hcall) hclient with heq | hdone
      · exact absurd heq hq
      · rw [hfin] at hdone
        cases hdone
  standing cl hquiet att hent := by
    obtain ⟨hclr, found, hfnd, hclient⟩ := h.entry cl att hent
    have hnone : s.releases att = none := by
      rcases hquiet.releases att found hfnd hclient with hnone | hdone
      · exact hnone
      · rw [cleared_of_released hdone] at hclr
        cases hclr
    obtain ⟨session, hsess⟩ := isSome_iff_exists.mp (h.handled att found hfnd)
    have hstand : s.Standing found.client att := .inl (by rw [hclient]; exact hent)
    refine ⟨found, session, hfnd, hclient, hsess, ?_, ?_, hnone⟩
    · have hlist := h.listed att found hfnd hstand.live
      rw [hnone, hclient] at hlist
      exact hlist.resolve_right nofun
    · rcases h.standing att found session hfnd hstand hsess with
        hhost | hsome | ⟨i, sweep, hswp, hhdl, hph⟩
      · exact hhost
      · rw [hnone] at hsome
        cases hsome
      · rcases hquiet.sweeps sweep (mem_of_getElem? hswp) att found hent hfnd
          hhdl with heq | heq
        · rw [heq] at hph
          rcases hph with hph | ⟨todo, hph, -⟩ <;> cases hph
        · rw [heq] at hph
          rcases hph with hph | ⟨todo, hph, -⟩ <;> cases hph
  removed sweep hmem hrmv hret att found hfnd hhdl hent := by
    obtain ⟨i, hidx⟩ := mem_iff_getElem?.mp hmem
    exact ((h.sweeps i sweep hidx).returned hrmv hret found.handle hhdl).2
      att found hfnd rfl (.inl hent)

section

variable (hents : ∀ cl att, entries cl = some att → s.Standing cl att)

include hents

/-- What is entered for clients changes, and nobody new stands anywhere. -/
theorem Standing.of_entries (h : { s with attachmentsByClient := entries }.Standing cl att) :
    s.Standing cl att :=
  h.elim (hents cl att) .inr

theorem Live.of_entries (h : { s with attachmentsByClient := entries }.Live cl att) :
    s.Live cl att :=
  h.elim (fun hent => (hents cl att hent).live) .inr

end

/-! ## What a change leaves alone -/

/-- What is hosted, listed and swept stays, nobody new holds or enters an attachment, and what was
held is still held or on the way out. -/
structure Frames (s s' : Attaching) : Prop where
  hosted : s'.hosted = s.hosted
  handles : s'.handles = s.handles
  sweeps : s'.sweeps = s.sweeps
  attachments : s'.attachments = s.attachments
  created : ∀ (attachment : Nat) found, s.created[attachment]? = some found →
    s'.created[attachment]? = some found
  made : ∀ (attachment : Nat) found, s'.created[attachment]? = some found →
    s'.Live found.client attachment →
      s.created[attachment]? = some found ∧ s.Live found.client attachment
  standing : ∀ client attachment, s'.Standing client attachment → s.Standing client attachment
  live : ∀ client attachment, s.Live client attachment →
    s'.Live client attachment ∨ (s'.releases attachment).isSome = true
  some : ∀ attachment, (s.releases attachment).isSome = true →
    (s'.releases attachment).isSome = true
  released : ∀ attachment, s.released attachment = true → s'.released attachment = true

section Frames

variable {att : Nat} {found : ClientAttachment}

section

variable (h : s.Frames s')

include h

theorem Frames.held (hlive : s.Live cl att ∨ (s.releases att).isSome = true) :
    s'.Live cl att ∨ (s'.releases att).isSome = true :=
  hlive.elim (h.live cl att) fun hsome => .inr (h.some att hsome)

theorem Frames.stood (hfnd : s'.created[att]? = Option.some found)
    (hstand : s'.Standing found.client att) :
    s.created[att]? = Option.some found ∧ s.Standing found.client att :=
  ⟨(h.made att found hfnd hstand.live).1, h.standing _ _ hstand⟩

theorem Frames.listed (hsnd : s.Sound) (hfnd : s'.created[att]? = Option.some found)
    (hlive : s'.Live found.client att) :
    s'.attachments (found.handle, found.client) = Option.some att ∨
      (s'.releases att).isSome = true := by
  obtain ⟨hmade, hpre⟩ := h.made att found hfnd hlive
  rw [h.attachments]
  exact (hsnd.listed att found hmade hpre).imp_right (h.some att)

theorem Frames.stands (hsnd : s.Sound) {session : String}
    (hfnd : s'.created[att]? = Option.some found)
    (hstand : s'.Standing found.client att)
    (hsess : s'.handles[found.handle]? = Option.some session) :
    s'.hosted session = Option.some found.handle ∨ (s'.releases att).isSome = true ∨
      ∃ (i : Nat) (sweep : Sweep), s'.sweeps[i]? = Option.some sweep ∧
        Awaits sweep found.handle att := by
  obtain ⟨hmade, hstood⟩ := h.stood hfnd hstand
  rw [h.handles] at hsess
  rw [h.hosted, h.sweeps]
  refine (hsnd.standing att found session hmade hstood hsess).imp_right fun hrest => ?_
  exact hrest.imp_left (h.some att)

theorem Frames.seen (hsnd : s.Sound) {sweep : Sweep} {snap : List Nat}
    (hswp : s'.sweeps[i]? = Option.some sweep)
    (hfnd : s'.created[att]? = Option.some found)
    (hhdl : sweep.handle = Option.some found.handle)
    (hsnap : sweep.snapshot = Option.some snap)
    (hstand : s'.Standing found.client att) :
    att ∈ snap ∨ (s'.releases att).isSome = true := by
  obtain ⟨hmade, hstood⟩ := h.stood hfnd hstand
  rw [h.sweeps] at hswp
  exact (hsnd.seen i sweep hswp att found snap hmade hhdl hsnap hstood).imp_right (h.some att)

theorem Frames.swept (hsnd : s.Sound) {sweep : Sweep}
    (hswp : s'.sweeps[i]? = Option.some sweep) : s'.Sweeps sweep := by
  rw [h.sweeps] at hswp
  have hpre := hsnd.sweeps i sweep hswp
  refine ⟨hpre.fresh, ?_, ?_, ?_, ?_⟩
  · rw [h.handles]
    exact hpre.handle
  · intro todo hph
    obtain ⟨snap, hsnap, hdone, htodo⟩ := hpre.releasing todo hph
    refine ⟨snap, hsnap, ?_, ?_⟩
    · exact fun other hmem => (hdone other hmem).imp_right (h.some other)
    · intro other hmem
      obtain ⟨owner, hown, hlive⟩ := htodo other hmem
      exact ⟨owner, h.created other owner hown, h.held hlive⟩
  · intro hwaited
    obtain ⟨snap, hsnap, hdone⟩ := hpre.waited hwaited
    exact ⟨snap, hsnap, fun other hmem => h.released other (hdone other hmem)⟩
  · intro hrmv hret handle hhdl
    obtain ⟨hhost, hnob⟩ := hpre.returned hrmv hret handle hhdl
    rw [h.hosted]
    refine ⟨hhost, ?_⟩
    intro other owner hown hsame hstand
    obtain ⟨hmade, hstood⟩ := h.stood hown hstand
    exact hnob other owner hmade hsame hstood

theorem Frames.mapped (hsnd : s.Sound) {handle : Nat}
    (hatt : s'.attachments (handle, cl) = Option.some att) :
    s'.created[att]? = Option.some ⟨cl, handle⟩ ∧
      (s'.Live cl att ∨ (s'.releases att).isSome = true) := by
  rw [h.attachments] at hatt
  obtain ⟨hfnd, hlive⟩ := hsnd.mapped handle cl att hatt
  exact ⟨h.created att _ hfnd, h.held hlive⟩

end

end Frames

/-! ## A call moves on -/

section Put

variable {i : Nat} {call : ClientCall} {phase : CallPhase}

/-- Whoever holds an attachment after a call has moved on held it before, or is that call. -/
theorem live_of_put (h : (s.put i call phase).Live cl att) :
    s.Live cl att ∨ cl = call.client ∧ phase.holds = some att := by
  rcases h with hent | ⟨j, other, hoth, hclient, hholds⟩
  · exact .inl (.inl hent)
  · rcases getElem?_set_cases hoth with ⟨-, rfl⟩ | ⟨-, hold⟩
    · exact .inr ⟨hclient.symm, hholds⟩
    · exact .inl (.inr ⟨j, other, hold, hclient, hholds⟩)

theorem standing_of_put (h : (s.put i call phase).Standing cl att) :
    s.Standing cl att ∨ cl = call.client ∧ phase.stands = some att := by
  rcases h with hent | ⟨j, other, hoth, hclient, hstd⟩
  · exact .inl (.inl hent)
  · rcases getElem?_set_cases hoth with ⟨-, rfl⟩ | ⟨-, hold⟩
    · exact .inr ⟨hclient.symm, hstd⟩
    · exact .inl (.inr ⟨j, other, hold, hclient, hstd⟩)

/-- A call other than the one that moves is there afterwards. -/
theorem getElem?_put {j : Nat} {other : ClientCall} (phase : CallPhase) (hcall : s.calls[i]? = some call)
    (hoth : s.calls[j]? = some other) :
    (s.put i call phase).calls[j]? = some other ∨ j = i ∧ other = call := by
  by_cases heq : j = i
  · rw [heq, hcall] at hoth
    exact .inr ⟨heq, (some.inj hoth).symm⟩
  · refine .inl ?_
    rw [put, getElem?_set_ne (Ne.symm heq)]
    exact hoth

/-- What is held stays held while the call that moves on holds it. -/
theorem live_put (hcall : s.calls[i]? = some call)
    (hkps : ∀ found, call.phase.holds = some found → phase.holds = some found ∨
      s.attachmentsByClient call.client = some found ∨ s.cleared found = true)
    (h : s.Live cl att) :
    (s.put i call phase).Live cl att ∨ s.cleared att = true := by
  rcases h with hent | ⟨j, other, hoth, hclient, hheld⟩
  · exact .inl (.inl hent)
  · rcases getElem?_put phase hcall hoth with hput | ⟨rfl, rfl⟩
    · exact .inl (.inr ⟨j, other, hput, hclient, hheld⟩)
    · rcases hkps att hheld with hsame | hent | hgone
      · exact .inl (.inr ⟨j, _, getElem?_set_of_some hcall, hclient, hsame⟩)
      · rw [hclient] at hent
        exact .inl (.inl hent)
      · exact .inr hgone

/-- A call of a client moves on, by a section that changes nothing else. -/
theorem Bound.put (h : s.Bound) (hcall : s.calls[k]? = some call)
    (hopen : call.phase.finished = false)
    (hnext : call.phase = .queued → s.isNext k call.client = true)
    (hsuits : s.Suits (s.attachmentsByClient call.client) phase)
    (hmade : ∀ att, phase.made = some att → call.phase.made = some att ∨
        ∃ found, s.created[att]? = some found ∧ found.client = call.client)
    (hrch : ∀ handle, reaches phase = some handle → (s.handles[handle]?).isSome = true)
    (hkps : ∀ att, call.phase.holds = some att → phase.holds = some att ∨
      s.attachmentsByClient call.client = some att ∨ s.cleared att = true)
    (hlist : ∀ att, phase.holds = some att → call.phase.holds = some att ∨
      ∀ found, s.created[att]? = some found →
        s.attachments (found.handle, found.client) = some att ∨ (s.releases att).isSome = true)
    (hstd : ∀ att, phase.stands = some att → ∀ found, s.created[att]? = some found →
        (s.handles[found.handle]?).bind s.hosted = some found.handle ∧
          ∀ sweep ∈ s.sweeps, ∀ snap, sweep.handle = some found.handle →
            sweep.snapshot = some snap → att ∈ snap ∨ (s.releases att).isSome = true)
    (hhushes : ∀ att, call.phase.hushes = some att →
      phase.hushes = some att ∨ ∀ task, s.releases att = some task →
        task.publish = false → task.phase.past = true)
    (htold : call.phase.announces.isSome = true ∨ s.Hushed call.phase.dropped →
      (s.told call.client = s.attachmentsByClient call.client ∨
        ∃ (att : Nat) (found : ClientAttachment), s.created[att]? = some found ∧
          found.client = call.client ∧ Untold s.releases att) ∨
        phase.announces.isSome = true ∨ s.Hushed phase.dropped) :
    (s.put k call phase).Bound where
  __ := h
  sole i j first snd hlt hfst hsnd hclient hq := by
    rcases getElem?_set_cases hfst with ⟨rfl, rfl⟩ | ⟨hne, hold⟩
    · rcases getElem?_set_cases hsnd with ⟨rfl, -⟩ | ⟨-, hold'⟩
      · exact absurd hlt (Nat.lt_irrefl _)
      · have hdone := h.sole i j call snd hlt hcall hold' hclient hq
        rw [hopen] at hdone
        cases hdone
    · rcases getElem?_set_cases hsnd with ⟨rfl, rfl⟩ | ⟨-, hold'⟩
      · by_cases hsta : call.phase = .queued
        · have hpre := all_eq_true.mp (hnext hsta) first
            (mem_of_getElem? (i := i) (by rw [getElem?_take, if_pos hlt]; exact hold))
          have hclient : first.client = call.client := hclient
          simpa [hclient] using hpre
        · exact h.sole i j first call hlt hold hcall hclient hsta
      · exact h.sole i j first snd hlt hold hold' hclient hq
  suits := forall_set h.suits hsuits
  made := by
    refine forall_set h.made ?_
    intro att hatt
    cases hmade att hatt with
    | inl hsame => exact h.made k call hcall att hsame
    | inr hfnd => exact hfnd
  reached := forall_set h.reached fun handle hhdl => hrch handle hhdl
  listed att found hfnd hlive := by
    rcases live_of_put hlive with hlive | ⟨hclient, hheld⟩
    · exact h.listed att found hfnd hlive
    · rcases hlist att hheld with hsame | hnew
      · exact h.listed att found hfnd (.inr ⟨k, call, hcall, hclient.symm, hsame⟩)
      · exact hnew found hfnd
  owed att task htask := by
    obtain ⟨found, hfnd, hlive, hown⟩ := h.owed att task htask
    refine ⟨found, hfnd, ?_, ?_⟩
    · intro hpast
      refine (live_put hcall hkps (hlive hpast)).resolve_right ?_
      intro hclr
      have htask : s.releases att = some task := htask
      rw [cleared, htask, any_some, hpast] at hclr
      cases hclr
    · intro hpast hpub
      obtain ⟨j, other, hoth, hclient, hhushed⟩ := hown hpast hpub
      rcases getElem?_put phase hcall hoth with hput | ⟨rfl, rfl⟩
      · exact ⟨j, other, hput, hclient, hhushed⟩
      · rcases hhushes att hhushed with hsame | hover
        · exact ⟨j, _, getElem?_set_of_some hcall, hclient, hsame⟩
        · rw [hover task htask hpub] at hpast
          cases hpast
  told cl := by
    rcases h.told cl with heq | hunt | ⟨j, other, hoth, hclient, htells⟩
    · exact .inl heq
    · exact .inr (.inl hunt)
    · rcases getElem?_put phase hcall hoth with hput | ⟨rfl, rfl⟩
      · exact .inr (.inr ⟨j, other, hput, hclient, htells⟩)
      · subst hclient
        rcases htold htells with (heq | hunt) | hstill
        · exact .inl heq
        · exact .inr (.inl hunt)
        · exact .inr (.inr ⟨j, _, getElem?_set_of_some hcall, rfl, hstill⟩)
  standing att found session hfnd hstdg hsess := by
    rcases standing_of_put hstdg with hstdg | ⟨-, hstand⟩
    · exact h.standing att found session hfnd hstdg hsess
    · have hhost := (hstd att hstand found hfnd).1
      have hsess : s.handles[found.handle]? = some session := hsess
      rw [hsess] at hhost
      exact .inl hhost
  seen j sweep hswp att found snap hfnd hhdl hsnap hstdg := by
    rcases standing_of_put hstdg with hstdg | ⟨-, hstand⟩
    · exact h.seen j sweep hswp att found snap hfnd hhdl hsnap hstdg
    · exact (hstd att hstand found hfnd).2 sweep (mem_of_getElem? hswp) snap hhdl hsnap
  sweeps j sweep hswp := by
    have hpre := h.sweeps j sweep hswp
    refine { hpre with releasing := ?_, returned := ?_ }
    · intro todo hph
      obtain ⟨snap, hsnap, hdone, htodo⟩ := hpre.releasing todo hph
      refine ⟨snap, hsnap, hdone, ?_⟩
      intro att hmem
      obtain ⟨found, hfnd, hlive⟩ := htodo att hmem
      refine ⟨found, hfnd, ?_⟩
      rcases hlive with hlive | hsome
      · exact (live_put hcall hkps hlive).imp_right isSome_of_cleared
      · exact .inr hsome
    · intro hrmv hret handle hhdl
      obtain ⟨hhost, hnob⟩ := hpre.returned hrmv hret handle hhdl
      refine ⟨hhost, ?_⟩
      intro att found hfnd hsame hstdg
      rcases standing_of_put hstdg with hstdg | ⟨-, hstand⟩
      · exact hnob att found hfnd hsame hstdg
      · have hfree := (hstd att hstand found hfnd).1
        rw [hsame, hpre.handle handle hhdl] at hfree
        exact hhost hfree

/-- What is listed still belongs to somebody. -/
theorem Sound.put (h : s.Sound) (hcall : s.calls[i]? = some call)
    (hkps : ∀ att, call.phase.holds = some att → phase.holds = some att ∨
      s.attachmentsByClient call.client = some att ∨ s.cleared att = true)
    (hbound : (s.put i call phase).Bound) : (s.put i call phase).Sound where
  toBound := hbound
  mapped handle cl att hatt := by
    obtain ⟨hfnd, hlive⟩ := h.mapped handle cl att hatt
    refine ⟨hfnd, ?_⟩
    rcases hlive with hlive | hsome
    · exact (live_put hcall hkps hlive).imp_right isSome_of_cleared
    · exact .inr hsome

end Put

end Attaching

end SessionRouter

end PiOxidized.Remote
