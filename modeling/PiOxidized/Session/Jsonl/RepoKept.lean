/-
# One open session for each file

The repository keeps a ledger: the key that each file's header makes, the open sessions,
who holds the reservations and what each call relies on.  Every step is one of the ledger,
so its soundness is kept as long as no call takes a path without a file while another call
still acts on what it saw there.
-/

import PiOxidized.Session.Jsonl.Repo

namespace PiOxidized.Session.Jsonl.Repo

open Option List Math Function

/-! ## The ledger -/

def LoadPhase.claim (path : SessionPath) : LoadPhase → Claim String SessionPath
  | .restoring | .finding | .reading => .idle
  | .repairing header => .repairing header.sessionKey path

def NewPhase.party (key : String) : NewPhase → Party String SessionPath
  | .reserving | .returned => ⟨none, .idle⟩
  | .resolving => ⟨some key, .idle⟩
  | .publishing path => ⟨some key, .fresh path⟩
  | .registering path => ⟨some key, .written path⟩
  | .discarding path => ⟨some key, .discarding path⟩
  | .releasing => ⟨some key, .done⟩

def OpenPhase.party (key : String) (path : SessionPath) : OpenPhase → Party String SessionPath
  | .checking | .reserving | .returned => ⟨none, .idle⟩
  | .loading phase => ⟨some key, phase.claim path⟩
  | .registering => ⟨some key, .loaded path⟩
  | .releasing => ⟨some key, .done⟩

def ForkPhase.party (key : String) (path : SessionPath) : ForkPhase → Party String SessionPath
  | .checking => ⟨none, .idle⟩
  | .loading phase => ⟨none, phase.claim path⟩
  | .creating phase => phase.party key

def DeletePhase.party (key : String) (path : SessionPath) : DeletePhase → Party String SessionPath
  | .checking | .reserving | .returned => ⟨none, .idle⟩
  | .restoring | .finding => ⟨some key, .idle⟩
  | .reading => ⟨some key, .inspecting path⟩
  | .removing => ⟨some key, .removing path⟩
  | .releasing => ⟨some key, .done⟩

/-- The key that a call has reserved and what it relies on. -/
def Call.party : Call → Party String SessionPath
  | .create identity _ phase => phase.party identity.sessionKey
  | .open metadata phase => phase.party metadata.identity.sessionKey metadata.path
  | .fork source id _ phase =>
    phase.party (Identity.sessionKey ⟨source.identity.cwd, id⟩) source.path
  | .delete metadata phase => phase.party metadata.identity.sessionKey metadata.path

def owner (files : Dict SessionPath SessionFile) (path : SessionPath) : Option (Option String) :=
  (files.get? path).map fun file => file.header.map Identity.sessionKey

def partyAt (calls : List Call) (index : Nat) : Party String SessionPath :=
  (calls[index]?).elim ⟨none, .idle⟩ Call.party

def ledger (r : Repo) : Ledger String SessionPath where
  owner := owner r.files
  opened := r.opened.get?
  holder := r.pending.get?
  party := partyAt r.calls

/-! ## The condition -/

/-- Whether restoring would put a backup at the path. -/
def restores (r : Repo) (path : SessionPath) : Bool :=
  !r.files.contains path && r.backups.contains path

/-- The path without a file that a step of loading takes. -/
def LoadPhase.takes (r : Repo) (path : SessionPath) : LoadPhase → Option SessionPath
  | .restoring | .reading => if r.restores path then some path else none
  | .finding => none
  | .repairing _ => if r.files.contains path then none else some path

section Condition

variable (isoFromMillis : Int → List Char)

def NewPhase.takes (r : Repo) (identity : Identity) (createdAt : Int) :
    NewPhase → Option SessionPath
  | .resolving =>
    if r.hasDuplicate identity then none else some (newSessionPath isoFromMillis identity createdAt)
  | _ => none

/-- The path without a file that a step takes if it proceeds: that of the new session for which no
duplicate was found, or the one at which it puts a backup or a repaired file back. -/
def Call.takes (r : Repo) : Call → Option SessionPath
  | .create identity createdAt phase => phase.takes isoFromMillis r identity createdAt
  | .open metadata (.loading phase) => phase.takes r metadata.path
  | .fork source _ _ (.loading phase) => phase.takes r source.path
  | .fork source id createdAt (.creating phase) =>
    phase.takes isoFromMillis r ⟨source.identity.cwd, id⟩ createdAt
  | .delete metadata .restoring => if r.restores metadata.path then some metadata.path else none
  | _ => none

/-- The condition of a step: when a call takes a path without a file, no other call acts on what it
saw at the path. -/
def TakesAlone (r : Repo) : Event → Prop
  | .step index _ => ∀ call path, r.calls[index]? = some call →
      call.takes isoFromMillis r = some path →
      ∀ j other, j ≠ index → r.calls[j]? = some other → ¬other.party.claim.Touches path
  | _ => True

end Condition

variable {isoFromMillis : Int → List Char} {r r' next : Repo} {i : Nat} {call : Call}
  {path : SessionPath} {key : String}

/-! ## Operations on the ledger -/

variable {calls : List Call}

theorem partyAt_of_some (h : calls[i]? = some call) : partyAt calls i = call.party := by
  rw [partyAt, h]
  rfl

theorem partyAt_set (h : calls[k]? = some call) (other : Call) :
    partyAt (calls.set k other) = update (partyAt calls) k other.party := by
  funext i
  by_cases hi : i = k
  · subst hi
    rw [update_self, partyAt_of_some (getElem?_set_of_some h)]
  · rw [update_of_ne hi, partyAt, partyAt, getElem?_set_ne (Ne.symm hi)]

theorem partyAt_append (hidle : call.party = ⟨none, .idle⟩) :
    partyAt (calls ++ [call]) = partyAt calls := by
  funext i
  rw [partyAt, partyAt, getElem?_append]
  split_ifs with hi
  · rfl
  · rw [getElem?_eq_none (not_lt.mp hi)]
    cases i - calls.length with
    | zero => exact hidle
    | succ n => rfl

theorem ledger_setCall (h : r.calls[i]? = some call) (other : Call) :
    (r.setCall i other).ledger = r.ledger.set i other.party := by
  simp only [ledger, setCall, Ledger.set, partyAt_set h]

/-- The key that a file's header makes. -/
theorem owner_eq (files : Dict SessionPath SessionFile) :
    owner files = (Option.map fun file => file.header.map Identity.sessionKey) ∘ files.get? := rfl

theorem owner_insert (files : Dict SessionPath SessionFile) (path : SessionPath)
    (file : SessionFile) :
    owner (files.insert path file) =
      Function.update (owner files) path (some (file.header.map Identity.sessionKey)) := by
  rw [owner_eq, owner_eq, Dict.get?_insert_eq_update, Function.comp_update]
  rfl

theorem owner_erase (files : Dict SessionPath SessionFile) (path : SessionPath) :
    owner (files.erase path) = Function.update (owner files) path none := by
  rw [owner_eq, owner_eq, Dict.get?_erase_eq_update, Function.comp_update]
  rfl

theorem owner_eq_none_iff {files : Dict SessionPath SessionFile} :
    owner files path = none ↔ files.get? path = none := by
  rw [owner, map_eq_none_iff]

theorem ledger_insertPending (r : Repo) (key : String) (i : Nat) :
    ledger { r with pending := r.pending.insert key i } = r.ledger.setHolder key (some i) := by
  simp only [ledger, Ledger.setHolder, Dict.get?_insert_eq_update]

theorem ledger_release (r : Repo) (key : String) :
    (r.release key).ledger = r.ledger.setHolder key none := by
  simp only [ledger, release, Ledger.setHolder, Dict.get?_erase_eq_update]

theorem ledger_publishOpen (r : Repo) (key : String) (path : SessionPath) :
    (r.publishOpen key path).ledger = r.ledger.setOpened key (some path) := by
  simp only [ledger, publishOpen, Ledger.setOpened, Dict.get?_insert_eq_update]

theorem ledger_eraseOpened (r : Repo) (key : String) :
    ledger { r with opened := r.opened.erase key } = r.ledger.setOpened key none := by
  simp only [ledger, Ledger.setOpened, Dict.get?_erase_eq_update]

theorem ledger_insertFile (r : Repo) (backups : Dict SessionPath SessionFile) (replaced : Bool)
    (path : SessionPath) (file : SessionFile) :
    ledger { r with
        files := r.files.insert path file, backups := backups, replaced := replaced } =
      r.ledger.setOwner path (some (file.header.map Identity.sessionKey)) := by
  simp only [ledger, Ledger.setOwner, owner_insert]

theorem ledger_removeFile (r : Repo) (path : SessionPath) :
    (r.removeFile path).ledger = r.ledger.setOwner path none := by
  simp only [ledger, removeFile, Ledger.setOwner, owner_erase]

/-! ## Soundness -/

structure Sound (r : Repo) : Prop where
  ledger : r.ledger.Sound
  replaced : r.replaced = false

/-- The call at an index becomes a party while the others stay. -/
structure Leads (r next : Repo) (index : Nat) (party : Party String SessionPath) : Prop where
  calls : next.calls = r.calls
  replaced : next.replaced = false
  ledger : (next.ledger.set index party).Sound

/-- No call but one acts on what it saw at a path. -/
def Others (r : Repo) (index : Nat) (path : SessionPath) : Prop :=
  ∀ j, j ≠ index → ¬(r.ledger.party j).claim.Touches path

variable {party : Party String SessionPath}

variable {identity : Identity}

variable {header : Identity}

theorem Leads.sound (h : Leads r next i call.party) {before : Call}
    (hcall : r.calls[i]? = some before) : (next.setCall i call).Sound where
  ledger := by
    rw [← h.calls] at hcall
    rw [ledger_setCall hcall]
    exact h.ledger
  replaced := h.replaced

/-- A call changes what it relies on, and nothing else changes. -/
theorem Sound.moves (h : r.Sound) (hmoves : r.ledger.Moves i party) : Leads r r i party :=
  ⟨rfl, h.replaced, h.ledger.set hmoves⟩

/-- A call that acts on no path any more. -/
theorem Sound.settles (h : r.Sound) (hkps : r.ledger.Keeps i party)
    (hset : ∀ path, ¬party.claim.Touches path) : Leads r r i party :=
  h.moves (h.ledger.settles hkps hset)

theorem Sound.reserveId (h : r.Sound) (hresv : r.reserveId i key = some next) :
    Leads r next i ⟨some key, .idle⟩ := by
  rw [Repo.reserveId] at hresv
  split_ifs at hresv with hbusy
  cases hresv
  simp only [Dict.contains, Bool.or_eq_true, not_or, Bool.not_eq_true,
    isSome_eq_false_iff, isNone_iff_eq_none] at hbusy
  refine ⟨rfl, h.replaced, ?_⟩
  rw [ledger_insertPending]
  exact h.ledger.reserve hbusy.2 hbusy.1

theorem Sound.release (h : r.Sound) (hres : (r.ledger.party i).reserved = some key) :
    Leads r (r.release key) i ⟨none, .idle⟩ := by
  refine ⟨rfl, h.replaced, ?_⟩
  rw [ledger_release]
  exact h.ledger.release hres

theorem Sound.publishOpen (h : r.Sound) (hres : (r.ledger.party i).reserved = some key)
    (hown : r.ledger.owner path = some (some key)) :
    Leads r (r.publishOpen key path) i ⟨some key, .done⟩ := by
  refine ⟨rfl, h.replaced, ?_⟩
  rw [ledger_publishOpen]
  exact h.ledger.open hres hown

/-- A call removes a file that has its key or no header. -/
theorem Sound.removeFile (h : r.Sound) (hres : (r.ledger.party i).reserved = some key)
    (hent : (r.ledger.party i).claim ≠ .done)
    (hnamed : ∀ named, r.ledger.owner path = some (some named) → named = key) :
    Leads r (r.removeFile path) i ⟨some key, .done⟩ := by
  refine ⟨rfl, h.replaced, ?_⟩
  rw [ledger_removeFile]
  exact h.ledger.vanish hres hent hnamed

/-- A backup is put back at a path that no other call acts on. -/
theorem Sound.restoreStrandedBackup (h : r.Sound) (path : SessionPath)
    (hidle : ¬(r.ledger.party i).claim.Touches path)
    (hoth : r.restores path = true → Others r i path) :
    (r.restoreStrandedBackup path).Sound := by
  rw [Repo.restoreStrandedBackup]
  split
  · rename_i backup hnone hbackup
    have hrestores : r.restores path = true := by
      simp only [restores, Dict.contains, hnone, hbackup, isSome_none, isSome_some,
        Bool.not_false, Bool.and_self]
    refine ⟨?_, h.replaced⟩
    rw [ledger_insertFile]
    apply h.ledger.appear _ (owner_eq_none_iff.mpr hnone)
    intro j
    by_cases hj : j = i
    · subst hj
      exact hidle
    · exact hoth hrestores j hj
  · exact h

theorem restoreStrandedBackup_calls (r : Repo) (path : SessionPath) :
    (r.restoreStrandedBackup path).calls = r.calls := by
  rw [Repo.restoreStrandedBackup]
  split <;> rfl

theorem Leads.of_restored (path : SessionPath)
    (h : Leads (r.restoreStrandedBackup path) next i party) :
    Leads r next i party :=
  ⟨h.calls.trans (restoreStrandedBackup_calls r path), h.replaced, h.ledger⟩

theorem party_restoreStrandedBackup (r : Repo) (path : SessionPath) (i : Nat) :
    (r.restoreStrandedBackup path).ledger.party i = r.ledger.party i := by
  change partyAt _ i = partyAt _ i
  rw [restoreStrandedBackup_calls]

/-- A call puts its new file at the path that it found free. -/
theorem Sound.publish (h : r.Sound)
    (hparty : r.ledger.party i = ⟨some identity.sessionKey, .fresh path⟩) :
    Leads r (r.publish path identity) i ⟨some identity.sessionKey, .written path⟩ := by
  have hfits := h.ledger.fits i
  rw [hparty] at hfits
  have hnone : r.files.get? path = none := owner_eq_none_iff.mp hfits
  constructor
  case calls => rfl
  case replaced =>
    change (r.replaced || (r.files.get? path).isSome) = false
    rw [h.replaced, hnone]
    rfl
  case ledger =>
    rw [Repo.publish, ledger_insertFile]
    apply h.ledger.puts _ (owner_eq_none_iff.mpr hnone)
    case hoth =>
      intro j hj
      exact h.ledger.alone i j path (Ne.symm hj) (by rw [hparty])
    case hres => rw [hparty]
    case hent =>
      rw [hparty]
      exact nofun
    case hfits => exact ⟨_, rfl, update_self _ _ _⟩
    case honly => exact fun other hoth => hoth.symm

/-- A call replaces the file that it read, or puts it back where no other call acts. -/
theorem Sound.repair (h : r.Sound)
    (hclaim : (r.ledger.party i).claim = .repairing header.sessionKey path)
    (hoth : r.files.contains path = false → Others r i path)
    (hres : party.reserved = (r.ledger.party i).reserved)
    (hfits : ∀ owner, owner path = some (some header.sessionKey) →
      party.claim.Fits owner party.reserved) (hset : ∀ path, ¬party.claim.Touches path) :
    Leads r (r.repair path header) i party := by
  have hent : (r.ledger.party i).claim ≠ .done := by
    rw [hclaim]
    exact nofun
  refine ⟨rfl, h.replaced, ?_⟩
  rw [Repo.repair, ledger_insertFile]
  cases hget : r.files.get? path with
  | none =>
    apply h.ledger.puts _ (owner_eq_none_iff.mpr hget) (hoth _) hres hent
    case hfits => exact hfits _ (update_self _ _ _)
    case honly => exact fun other hother => absurd hother (hset other)
    rw [Dict.contains, hget]
    rfl
  | some file =>
    have hread := h.ledger.fits i
    rw [hclaim] at hread
    have hown : r.ledger.owner path = some (file.header.map Identity.sessionKey) := by
      change owner r.files path = _
      rw [owner, hget]
      rfl
    have hnamed := hread _ hown
    have hsame : r.ledger.setOwner path (some (some header.sessionKey)) = r.ledger := by
      rw [← hnamed, ← hown, Ledger.setOwner, update_eq_self]
    change ((r.ledger.setOwner path (some (some header.sessionKey))).set i party).Sound
    rw [hsame]
    rw [hnamed] at hown
    exact h.ledger.set (h.ledger.settles ⟨hres, fun _ => hent, hfits _ hown⟩ hset)

/-! ## Loading -/

/-- What a call may rely on after a step of loading. -/
def Loading.Fits (metadata : Metadata) (reserved : Option String)
    (party : Party String SessionPath) : Loading → Prop
  | .goes phase => party = ⟨reserved, phase.claim metadata.path⟩
  | .loaded => party = ⟨reserved, .idle⟩ ∨
      (reserved = some metadata.identity.sessionKey ∧ party = ⟨reserved, .loaded metadata.path⟩)
  | .failed => party = ⟨reserved, .idle⟩ ∨ party = ⟨reserved, .done⟩

variable {metadata : Metadata} {reserved : Option String} {ans : Answer}

theorem Loading.Fits.settled {loading : Loading} (h : loading.Fits metadata reserved party)
    (hgoes : ∀ header, loading ≠ .goes (.repairing header)) :
    party.reserved = reserved ∧ ∀ path, ¬party.claim.Touches path := by
  cases loading with
  | goes phase =>
    obtain rfl : party = _ := h
    cases phase with
    | restoring | finding | reading => exact ⟨rfl, fun _ => id⟩
    | repairing header => exact absurd rfl (hgoes header)
  | loaded =>
    rcases h with rfl | ⟨-, rfl⟩
    · exact ⟨rfl, fun _ => id⟩
    · exact ⟨rfl, fun _ => id⟩
  | failed =>
    rcases h with rfl | rfl
    · exact ⟨rfl, fun _ => id⟩
    · exact ⟨rfl, fun _ => id⟩

/-- A call whose file was validated relies on the header that it read. -/
theorem validated_fits (h : (validated metadata header).Fits metadata reserved party)
    {owner : SessionPath → Option (Option String)}
    (hown : owner metadata.path = some (some header.sessionKey)) :
    party.claim.Fits owner party.reserved := by
  rw [validated] at h
  split_ifs at h with hhead
  · rcases h with rfl | ⟨hres, rfl⟩
    · trivial
    · subst hhead
      exact ⟨_, hres, hown⟩
  · rcases h with rfl | rfl
    · trivial
    · trivial

theorem validated_ne_goes (metadata : Metadata) (header other : Identity) :
    validated metadata header ≠ .goes (.repairing other) := by
  rw [validated]
  split_ifs
  · exact nofun
  · exact nofun

/-- A step of loading that does nothing but fail. -/
theorem Sound.loadFails (h : r.Sound) {phase : LoadPhase}
    (hparty : r.ledger.party i = ⟨reserved, phase.claim metadata.path⟩)
    (hfits : Loading.failed.Fits metadata reserved party) : Leads r r i party := by
  have hent : (r.ledger.party i).claim ≠ .done := by
    rw [hparty]
    cases phase <;> exact nofun
  obtain ⟨hres, hset⟩ := hfits.settled nofun
  apply h.settles ⟨by rw [hres, hparty], fun _ => hent, ?_⟩ hset
  rcases hfits with rfl | rfl
  · trivial
  · trivial

/-- A step of loading a file. -/
theorem Sound.stepLoad (h : r.Sound) {phase : LoadPhase} {loading : Loading}
    (hparty : r.ledger.party i = ⟨reserved, phase.claim metadata.path⟩)
    (htakes : ∀ path, phase.takes r metadata.path = some path → Others r i path)
    (hstep : r.stepLoad metadata ans phase = (next, loading))
    (hfits : loading.Fits metadata reserved party) : Leads r next i party := by
  have hent : (r.ledger.party i).claim ≠ .done := by
    rw [hparty]
    cases phase <;> exact nofun
  cases phase with
  | restoring =>
    have hrestored := h.restoreStrandedBackup metadata.path (by rw [hparty]; exact id)
      fun hrestores => htakes metadata.path (if_pos hrestores)
    cases ans with
    | stopped =>
      obtain ⟨rfl, rfl⟩ := Prod.mk.inj hstep
      exact h.loadFails hparty hfits
    | fails =>
      obtain ⟨rfl, rfl⟩ := Prod.mk.inj hstep
      obtain rfl : party = _ := hfits
      exact h.settles ⟨by rw [hparty], fun _ => hent, trivial⟩ fun _ => id
    | proceeds =>
      obtain ⟨rfl, rfl⟩ := Prod.mk.inj hstep
      obtain rfl : party = _ := hfits
      apply Leads.of_restored metadata.path
      refine hrestored.settles ⟨?_, fun _ => ?_, trivial⟩ fun _ => id
      · rw [party_restoreStrandedBackup, hparty]
      · rw [party_restoreStrandedBackup]
        exact hent
  | finding =>
    simp only [Repo.stepLoad] at hstep
    split_ifs at hstep
    · obtain ⟨rfl, rfl⟩ := Prod.mk.inj hstep
      obtain rfl : party = _ := hfits
      exact h.settles ⟨by rw [hparty], fun _ => hent, trivial⟩ fun _ => id
    · obtain ⟨rfl, rfl⟩ := Prod.mk.inj hstep
      exact h.loadFails hparty hfits
  | reading =>
    simp only [Repo.stepLoad] at hstep
    split_ifs at hstep
    · have hrestored := h.restoreStrandedBackup metadata.path (by rw [hparty]; exact id)
        fun hrestores => htakes metadata.path (if_pos hrestores)
      have hparty' := hparty
      rw [← party_restoreStrandedBackup r metadata.path] at hparty'
      apply Leads.of_restored metadata.path
      split at hstep
      · rename_i header torn hget
        have hown : (r.restoreStrandedBackup metadata.path).ledger.owner metadata.path =
            some (some header.sessionKey) := by
          change owner _ _ = _
          rw [owner, hget]
          rfl
        split_ifs at hstep
        · obtain ⟨rfl, rfl⟩ := Prod.mk.inj hstep
          obtain rfl : party = _ := hfits
          apply hrestored.moves
          apply hrestored.ledger.finds
          · refine ⟨by rw [hparty'], fun _ => by rw [hparty']; exact nofun, ?_⟩
            intro named hnamed
            exact some.inj (hnamed.symm.trans hown)
          · exact fun _ => id
          · rintro path rfl
            rw [hown]
            exact nofun
        · obtain ⟨rfl, rfl⟩ := Prod.mk.inj hstep
          obtain ⟨hres, hset⟩ := hfits.settled (validated_ne_goes _ _)
          exact hrestored.settles ⟨by rw [hres, hparty'], fun _ => by rw [hparty']; exact nofun,
            validated_fits hfits hown⟩ hset
      · obtain ⟨rfl, rfl⟩ := Prod.mk.inj hstep
        exact @Sound.loadFails _ _ _ _ _ hrestored .reading hparty' hfits
    · obtain ⟨rfl, rfl⟩ := Prod.mk.inj hstep
      exact h.loadFails hparty hfits
  | repairing header =>
    simp only [Repo.stepLoad] at hstep
    split_ifs at hstep
    · obtain ⟨rfl, rfl⟩ := Prod.mk.inj hstep
      obtain ⟨hres, hset⟩ := hfits.settled (validated_ne_goes _ _)
      apply h.repair
      case hclaim => rw [hparty]; rfl
      case hoth =>
        intro hnone
        apply htakes
        rw [LoadPhase.takes, hnone]
        rfl
      case hres => rw [hres, hparty]
      case hfits => exact fun owner hown => validated_fits hfits hown
      case hset => exact hset
    · obtain ⟨rfl, rfl⟩ := Prod.mk.inj hstep
      exact h.loadFails hparty hfits

/-! ## Making a new session -/

variable {createdAt : Int}

theorem get?_newSessionPath (h : r.hasDuplicate identity = false) :
    r.files.get? (newSessionPath isoFromMillis identity createdAt) = none := by
  rw [Dict.get?, lookup_eq_none_iff]
  intro entry hent
  rw [hasDuplicate, List.any_eq_false] at h
  rw [bne_iff_ne]
  intro hpath
  apply h entry hent
  rw [← hpath]
  exact duplicates_newSessionPath

/-- A step of making a new session. -/
theorem Sound.stepNew (h : r.Sound) {phase phase' : NewPhase}
    (hparty : r.ledger.party i = phase.party identity.sessionKey)
    (htakes : ∀ path, phase.takes isoFromMillis r identity createdAt = some path → Others r i path)
    (hstep : r.stepNew isoFromMillis i identity createdAt ans phase = some (next, phase')) :
    Leads r next i (phase'.party identity.sessionKey) := by
  have hset : ∀ claim : Claim String SessionPath, (∀ path, ¬claim.Touches path) →
      claim.Fits r.ledger.owner (some identity.sessionKey) →
      (r.ledger.party i).reserved = some identity.sessionKey →
      (r.ledger.party i).claim ≠ .done →
      Leads r r i ⟨some identity.sessionKey, claim⟩ := by
    intro claim hsettled hfits hres hent
    exact h.settles ⟨hres.symm, fun _ => hent, hfits⟩ hsettled
  cases phase with
  | reserving =>
    simp only [Repo.stepNew] at hstep
    split at hstep
    · rename_i reserved hresv
      cases hstep
      exact h.reserveId hresv
    · cases hstep
      exact h.settles ⟨by rw [hparty]; rfl, fun _ => by rw [hparty]; exact nofun, trivial⟩ fun _ => id
  | resolving =>
    simp only [Repo.stepNew] at hstep
    split_ifs at hstep with hfnd
    · cases hstep
      have hduplicate : r.hasDuplicate identity = false := Bool.not_eq_true _ ▸ hfnd.2
      apply h.moves
      refine h.ledger.comesAlone ⟨by rw [hparty]; rfl, fun _ => by rw [hparty]; exact nofun, ?_⟩
        (fun other hoth => hoth.symm) (htakes _ ?_)
      · exact owner_eq_none_iff.mpr (get?_newSessionPath hduplicate)
      · rw [NewPhase.takes, hduplicate]
        rfl
    · cases hstep
      exact hset .done (fun _ => id) trivial (by rw [hparty]; rfl) (by rw [hparty]; exact nofun)
  | publishing path =>
    cases ans with
    | proceeds =>
      cases hstep
      exact h.publish hparty
    | stopped =>
      cases hstep
      exact hset .done (fun _ => id) trivial (by rw [hparty]; rfl) (by rw [hparty]; exact nofun)
    | fails =>
      cases hstep
      have hfits := h.ledger.fits i
      rw [hparty] at hfits
      have hnone : r.ledger.owner path = none := hfits
      apply h.moves
      apply h.ledger.goesOn
      · refine ⟨by rw [hparty]; rfl, fun _ => by rw [hparty]; exact nofun, _, rfl, ?_⟩
        intro named hnamed
        rw [hnone] at hnamed
        cases hnamed
      · exact fun _ => nofun
      · rw [hparty]
        exact fun _ => id
      · rw [hparty]
        exact fun _ => id
  | registering path =>
    have hfits := h.ledger.fits i
    rw [hparty] at hfits
    obtain ⟨key, hkey, hown⟩ := hfits
    cases hkey
    simp only [Repo.stepNew] at hstep
    split_ifs at hstep
    · cases hstep
      exact h.publishOpen (by rw [hparty]; rfl) hown
    · cases hstep
      apply h.moves
      apply h.ledger.goesOn
      · refine ⟨by rw [hparty]; rfl, fun _ => by rw [hparty]; exact nofun, _, rfl, ?_⟩
        intro named hnamed
        rw [hown] at hnamed
        exact (some.inj hnamed).symm
      · exact fun _ => nofun
      · rw [hparty]
        exact fun _ => id
      · rw [hparty]
        exact fun _ => id
  | discarding path =>
    have hfits := h.ledger.fits i
    rw [hparty] at hfits
    obtain ⟨key, hkey, hown⟩ := hfits
    cases hkey
    simp only [Repo.stepNew] at hstep
    split_ifs at hstep
    · cases hstep
      apply h.removeFile (by rw [hparty]; rfl) (by rw [hparty]; exact nofun)
      intro named hnamed
      exact some.inj (hown _ hnamed)
    · cases hstep
      exact hset .done (fun _ => id) trivial (by rw [hparty]; rfl) (by rw [hparty]; exact nofun)
  | releasing =>
    cases hstep
    exact h.release (by rw [hparty]; rfl)
  | returned => cases hstep

/-! ## Opening, forking and deleting -/

/-- A step of opening a session. -/
theorem Sound.stepOpen (h : r.Sound) {phase phase' : OpenPhase}
    (hparty : r.ledger.party i = phase.party metadata.identity.sessionKey metadata.path)
    (htakes : ∀ loading path, phase = .loading loading →
      loading.takes r metadata.path = some path → Others r i path)
    (hstep : r.stepOpen i metadata ans phase = some (next, phase')) :
    Leads r next i (phase'.party metadata.identity.sessionKey metadata.path) := by
  have hidle : (r.ledger.party i).reserved = none → (r.ledger.party i).claim ≠ .done →
      Leads r r i ⟨none, .idle⟩ := by
    intro hres hent
    exact h.settles ⟨hres.symm, fun _ => hent, trivial⟩ fun _ => id
  cases phase with
  | checking =>
    simp only [Repo.stepOpen] at hstep
    split_ifs at hstep
    · cases hstep
      exact hidle (by rw [hparty]; rfl) (by rw [hparty]; exact nofun)
    · cases hstep
      exact hidle (by rw [hparty]; rfl) (by rw [hparty]; exact nofun)
  | reserving =>
    simp only [Repo.stepOpen] at hstep
    split at hstep
    · rename_i reserved hresv
      cases hstep
      exact h.reserveId hresv
    · cases hstep
      exact hidle (by rw [hparty]; rfl) (by rw [hparty]; exact nofun)
  | loading phase =>
    have htakes' := fun path => htakes phase path rfl
    simp only [Repo.stepOpen] at hstep
    split at hstep
    · rename_i after goes hload
      cases hstep
      exact h.stepLoad hparty htakes' hload rfl
    · rename_i after hload
      cases hstep
      exact h.stepLoad hparty htakes' hload (.inr ⟨rfl, rfl⟩)
    · rename_i after hload
      cases hstep
      exact h.stepLoad hparty htakes' hload (.inr rfl)
  | registering =>
    have hfits := h.ledger.fits i
    rw [hparty] at hfits
    obtain ⟨key, hkey, hown⟩ := hfits
    cases hkey
    simp only [Repo.stepOpen] at hstep
    split_ifs at hstep
    · cases hstep
      exact h.publishOpen (by rw [hparty]; rfl) hown
    · cases hstep
      exact h.settles ⟨by rw [hparty]; rfl, fun hdone => absurd rfl hdone, trivial⟩ fun _ => id
  | releasing =>
    cases hstep
    exact h.release (by rw [hparty]; rfl)
  | returned => cases hstep

/-- A step of forking a session. -/
theorem Sound.stepFork (h : r.Sound) {id : String} {phase phase' : ForkPhase}
    (hparty : r.ledger.party i =
      phase.party (Identity.sessionKey ⟨metadata.identity.cwd, id⟩) metadata.path)
    (htakes : ∀ path, Call.takes isoFromMillis r (.fork metadata id createdAt phase) = some path →
      Others r i path)
    (hstep : r.stepFork isoFromMillis i metadata id createdAt ans phase = some (next, phase')) :
    Leads r next i
      (phase'.party (Identity.sessionKey ⟨metadata.identity.cwd, id⟩) metadata.path) := by
  cases phase with
  | checking =>
    have hidle : Leads r r i ⟨none, .idle⟩ :=
      h.settles ⟨by rw [hparty]; rfl, fun _ => by rw [hparty]; exact nofun, trivial⟩ fun _ => not_false
    simp only [Repo.stepFork] at hstep
    split_ifs at hstep
    · cases hstep
      exact hidle
    · cases hstep
      exact hidle
    · cases hstep
      exact hidle
  | loading phase =>
    simp only [Repo.stepFork] at hstep
    split at hstep
    · rename_i after goes hload
      cases hstep
      exact h.stepLoad hparty htakes hload rfl
    · rename_i after hload
      cases hstep
      exact h.stepLoad hparty htakes hload (.inl rfl)
    · rename_i after hload
      cases hstep
      exact h.stepLoad hparty htakes hload (.inl rfl)
  | creating phase =>
    obtain ⟨⟨after, later⟩, hnew, hsame⟩ := map_eq_some_iff.mp hstep
    obtain ⟨rfl, rfl⟩ := Prod.mk.inj hsame
    exact h.stepNew hparty htakes hnew

/-- A step of deleting a session. -/
theorem Sound.stepDelete (h : r.Sound) {phase phase' : DeletePhase}
    (hparty : r.ledger.party i = phase.party metadata.identity.sessionKey metadata.path)
    (htakes : ∀ path, Call.takes isoFromMillis r (.delete metadata phase) = some path →
      Others r i path)
    (hstep : r.stepDelete i metadata ans phase = some (next, phase')) :
    Leads r next i (phase'.party metadata.identity.sessionKey metadata.path) := by
  have hset : ∀ claim : Claim String SessionPath, claim = .idle ∨ claim = .done →
      (r.ledger.party i).reserved = some metadata.identity.sessionKey →
      (r.ledger.party i).claim ≠ .done →
      Leads r r i ⟨some metadata.identity.sessionKey, claim⟩ := by
    rintro claim (rfl | rfl) hres hent
    · exact h.settles ⟨hres.symm, fun _ => hent, trivial⟩ fun _ => id
    · exact h.settles ⟨hres.symm, fun _ => hent, trivial⟩ fun _ => id
  cases phase with
  | checking =>
    have hidle : Leads r r i ⟨none, .idle⟩ :=
      h.settles ⟨by rw [hparty]; rfl, fun _ => by rw [hparty]; rintro ⟨⟩, trivial⟩ fun _ => id
    simp only [Repo.stepDelete] at hstep
    split_ifs at hstep
    · cases hstep
      exact hidle
    · cases hstep
      exact hidle
  | reserving =>
    simp only [Repo.stepDelete] at hstep
    split at hstep
    · rename_i reserved hresv
      cases hstep
      exact h.reserveId hresv
    · cases hstep
      exact h.settles ⟨by rw [hparty]; rfl, fun _ => by rw [hparty]; rintro ⟨⟩, trivial⟩ fun _ => id
  | restoring =>
    simp only [Repo.stepDelete] at hstep
    split_ifs at hstep
    · cases hstep
      have hrestored := h.restoreStrandedBackup metadata.path (by rw [hparty]; exact id)
        fun hrestores => htakes metadata.path (if_pos hrestores)
      apply Leads.of_restored metadata.path
      rw [← party_restoreStrandedBackup r metadata.path] at hparty
      exact hrestored.settles ⟨by rw [hparty]; rfl, fun _ => by rw [hparty]; rintro ⟨⟩, trivial⟩
        fun _ => id
    · cases hstep
      exact hset .idle (.inl rfl) (by rw [hparty]; rfl) (by rw [hparty]; rintro ⟨⟩)
  | finding =>
    simp only [Repo.stepDelete] at hstep
    split_ifs at hstep with hfnd
    · cases hstep
      have hsome : r.ledger.owner metadata.path ≠ none := by
        intro hnone
        have hfile := hfnd.2.1
        rw [Dict.contains, owner_eq_none_iff.mp hnone] at hfile
        cases hfile
      apply h.moves
      refine h.ledger.finds ⟨by rw [hparty]; rfl, fun _ => by rw [hparty]; rintro ⟨⟩, trivial⟩
        (fun _ => id) ?_
      rintro path rfl
      exact hsome
    · cases hstep
      exact hset .done (.inr rfl) (by rw [hparty]; rfl) (by rw [hparty]; rintro ⟨⟩)
  | reading =>
    have hremoving : (∀ named, r.ledger.owner metadata.path = some (some named) →
        named = metadata.identity.sessionKey) →
        Leads r r i ⟨some metadata.identity.sessionKey, .removing metadata.path⟩ := by
      intro hnamed
      apply h.moves
      apply h.ledger.goesOn
      · exact ⟨by rw [hparty]; rfl, fun _ => by rw [hparty]; rintro ⟨⟩, _, rfl, hnamed⟩
      · rintro _ ⟨⟩
      · rw [hparty]
        exact fun _ => id
      · exact fun _ hmakes => absurd hmakes id
    have hown : r.ledger.owner metadata.path =
        (r.files.get? metadata.path).map fun file => file.header.map Identity.sessionKey := rfl
    simp only [Repo.stepDelete] at hstep
    split_ifs at hstep
    · cases hhead : (r.files.get? metadata.path).bind SessionFile.header with
      | none =>
        rw [hhead] at hstep
        cases hstep
        apply hremoving
        intro named hnamed
        rw [hown] at hnamed
        obtain ⟨file, hfile, hkey⟩ := map_eq_some_iff.mp hnamed
        obtain ⟨header, hfileHeader, -⟩ := map_eq_some_iff.mp hkey
        rw [hfile, bind_some, hfileHeader] at hhead
        cases hhead
      | some header =>
        rw [hhead] at hstep
        simp only at hstep
        split_ifs at hstep with hsame
        · cases hstep
          apply hremoving
          intro named hnamed
          obtain ⟨file, hfile, hfileHeader⟩ := bind_eq_some_iff.mp hhead
          rw [hown, hfile, map_some, hfileHeader, map_some, hsame] at hnamed
          exact (some.inj (some.inj hnamed)).symm
        · cases hstep
          exact hset .done (.inr rfl) (by rw [hparty]; rfl) (by rw [hparty]; rintro ⟨⟩)
    · cases hstep
      exact hset .done (.inr rfl) (by rw [hparty]; rfl) (by rw [hparty]; rintro ⟨⟩)
  | removing =>
    have hdone : Leads r r i ⟨some metadata.identity.sessionKey, .done⟩ :=
      hset .done (.inr rfl) (by rw [hparty]; rfl) (by rw [hparty]; rintro ⟨⟩)
    cases ans with
    | proceeds =>
      cases hstep
      have hfits := h.ledger.fits i
      rw [hparty] at hfits
      obtain ⟨key, hkey, hown⟩ := hfits
      cases hkey
      -- The backup is not part of the ledger.
      have hbackup : (r.removeBackup metadata.path).Sound := ⟨h.ledger, h.replaced⟩
      have hent : (r.ledger.party i).claim ≠ .done := by
        rw [hparty]
        rintro ⟨⟩
      have hrmvd : Leads (r.removeBackup metadata.path)
          ((r.removeBackup metadata.path).removeFile metadata.path) i
          ⟨some metadata.identity.sessionKey, .done⟩ :=
        hbackup.removeFile (congrArg Party.reserved hparty) hent hown
      exact ⟨hrmvd.calls, hrmvd.replaced, hrmvd.ledger⟩
    | fails =>
      cases hstep
      exact ⟨rfl, hdone.replaced, hdone.ledger⟩
    | stopped =>
      cases hstep
      exact hdone
  | releasing =>
    cases hstep
    exact h.release (by rw [hparty]; rfl)
  | returned => cases hstep

/-- A step of a call. -/
theorem Sound.stepCall (h : r.Sound) {call' : Call} (hcall : r.calls[i]? = some call)
    (htakes : ∀ path, call.takes isoFromMillis r = some path → Others r i path)
    (hstep : r.stepCall isoFromMillis i ans call = some (next, call')) :
    (next.setCall i call').Sound := by
  have hparty : r.ledger.party i = call.party := partyAt_of_some hcall
  cases call with
  | create identity createdAt phase =>
    obtain ⟨⟨after, later⟩, hnew, hsame⟩ := map_eq_some_iff.mp hstep
    obtain ⟨rfl, rfl⟩ := Prod.mk.inj hsame
    exact (h.stepNew hparty htakes hnew).sound hcall
  | «open» metadata phase =>
    obtain ⟨⟨after, later⟩, hopen, hsame⟩ := map_eq_some_iff.mp hstep
    obtain ⟨rfl, rfl⟩ := Prod.mk.inj hsame
    refine (h.stepOpen hparty ?_ hopen).sound hcall
    rintro loading path rfl
    exact htakes path
  | fork source id createdAt phase =>
    obtain ⟨⟨after, later⟩, hfork, hsame⟩ := map_eq_some_iff.mp hstep
    obtain ⟨rfl, rfl⟩ := Prod.mk.inj hsame
    exact (h.stepFork hparty htakes hfork).sound hcall
  | delete metadata phase =>
    obtain ⟨⟨after, later⟩, hdelete, hsame⟩ := map_eq_some_iff.mp hstep
    obtain ⟨rfl, rfl⟩ := Prod.mk.inj hsame
    exact (h.stepDelete hparty htakes hdelete).sound hcall

/-! ## Runs -/

theorem Starts.sound (h : r.Starts) : r.Sound := by
  obtain ⟨files, backups, rfl⟩ := h
  refine ⟨?_, rfl⟩
  constructor
  case opened =>
    intro key path hopn
    cases hopn
  case held =>
    intro i key hres
    cases hres
  case entering =>
    intro i key hres
    cases hres
  case fits => exact fun _ => trivial
  case alone =>
    intro i j path _ hfrs
    cases hfrs
  case creators =>
    intro i j path hmakes
    cases hmakes

theorem Sound.starts (h : r.Sound) (hidle : call.party = ⟨none, .idle⟩) :
    Repo.Sound { r with calls := r.calls ++ [call] } := by
  have hledger : Repo.ledger { r with calls := r.calls ++ [call] } = r.ledger := by
    simp only [Repo.ledger, partyAt_append hidle]
  exact ⟨hledger ▸ h.ledger, h.replaced⟩

/-- Every step that meets the condition keeps the repository sound. -/
theorem Sound.step (h : r.Sound) {event : Event} (halone : TakesAlone isoFromMillis r event)
    (hnext : r.step isoFromMillis event = some r') : r'.Sound := by
  cases event with
  | callCreate | callOpen | callFork | callDelete =>
    cases hnext
    exact h.starts rfl
  | step i ans =>
    obtain ⟨call, hcall, hnext⟩ := bind_eq_some_iff.mp hnext
    obtain ⟨⟨after, call'⟩, hstep, rfl⟩ := map_eq_some_iff.mp hnext
    refine h.stepCall hcall (fun path htakes j hj => ?_) hstep
    intro htch
    cases hoth : r.calls[j]? with
    | none =>
      change (partyAt r.calls j).claim.Touches path at htch
      rw [partyAt, hoth] at htch
      exact htch
    | some other =>
      change (partyAt r.calls j).claim.Touches path at htch
      rw [partyAt_of_some hoth] at htch
      exact halone call path hcall htakes j other hj hoth htch
  | close key =>
    cases hnext
    refine ⟨?_, h.replaced⟩
    rw [ledger_eraseOpened]
    exact h.ledger.close key
  | write key loads torn =>
    obtain ⟨path, -, hnext⟩ := bind_eq_some_iff.mp hnext
    obtain ⟨file, hfile, rfl⟩ := map_eq_some_iff.mp hnext
    refine ⟨?_, h.replaced⟩
    have hown : r.ledger.owner path = some (file.header.map Identity.sessionKey) := by
      change owner r.files path = _
      rw [owner, hfile]
      rfl
    rw [ledger_insertFile, ← hown, Ledger.setOwner, update_eq_self]
    exact h.ledger

theorem Sound.run (hrun : (machine isoFromMillis).Run (TakesAlone isoFromMillis) r) : r.Sound :=
  hrun.invariant (fun _ => Starts.sound) fun _ _ _ hsnd halone hnext => hsnd.step halone hnext

/-- No two open sessions have one path, no new file took the place of another, and the file of every
open session is there, with its header. -/
structure Exclusive (r : Repo) : Prop where
  distinct : ∀ key other path, r.opened.get? key = some path → r.opened.get? other = some path →
    key = other
  kept : r.replaced = false
  present : ∀ key path, r.opened.get? key = some path →
    ∃ file header, r.files.get? path = some file ∧ file.header = some header ∧
      header.sessionKey = key

/-- As long as calls take paths alone, every open session has its file to itself. -/
theorem Run.exclusive (hrun : (machine isoFromMillis).Run (TakesAlone isoFromMillis) r) :
    r.Exclusive := by
  have hsound := Sound.run hrun
  constructor
  case distinct => exact fun key other path => hsound.ledger.opened_injective
  case kept => exact hsound.replaced
  case present =>
    intro key path hopened
    have howner := hsound.ledger.opened key path hopened
    obtain ⟨file, hfile, hkey⟩ := map_eq_some_iff.mp howner
    obtain ⟨header, hheader, hsame⟩ := map_eq_some_iff.mp hkey
    exact ⟨file, header, hfile, hheader, hsame⟩

/-! ## Two directories of one name -/

def nested : Identity := ⟨"/a/b", "x"⟩

def dashed : Identity := ⟨"/a-b", "x"⟩

/-- Two sessions are created in directories that have one name; the second looks for duplicates
once the first has put its file there, and is refused before the first is registered. -/
def inTurn : List Event :=
  [.callCreate nested 0, .callCreate dashed 0, .step 0 .proceeds, .step 1 .proceeds,
    .step 0 .proceeds, .step 0 .proceeds, .step 0 .proceeds, .step 1 .proceeds, .step 0 .proceeds]

/-- Both creations look for duplicates before either has put its file there. -/
def atOnce : List Event :=
  [.callCreate nested 0, .callCreate dashed 0, .step 0 .proceeds, .step 1 .proceeds,
    .step 0 .proceeds, .step 1 .proceeds, .step 0 .proceeds, .step 1 .proceeds,
    .step 0 .proceeds, .step 1 .proceeds]

def takesAloneCheck (isoFromMillis : Int → List Char) (r : Repo) : Event → Bool
  | .step index _ =>
    ((r.calls[index]?).bind (Call.takes isoFromMillis r)).all fun path =>
      (range r.calls.length).all fun j =>
        j == index || (r.calls[j]?).all fun other => !decide (other.party.claim.Touches path)
  | _ => true

theorem takesAlone_of_check {event : Event} (h : takesAloneCheck isoFromMillis r event = true) :
    TakesAlone isoFromMillis r event := by
  cases event with
  | step i ans =>
    intro call path hcall htakes j other hj hoth htch
    have hlt : j < r.calls.length := (List.getElem?_eq_some_iff.mp hoth).1
    have htkn : (r.calls[i]?).bind (Call.takes isoFromMillis r) = some path := by
      rw [hcall]
      exact htakes
    simp only [takesAloneCheck, htkn, all_some, List.all_eq_true, mem_range,
      Bool.or_eq_true, beq_iff_eq] at h
    rcases h j hlt with hsame | hfree
    · exact hj hsame
    · rw [hoth, all_some, Bool.not_eq_true', decide_eq_false_iff_not] at hfree
      exact hfree htch
  | _ => trivial

/-- One session of the two is open, and the other was refused. -/
theorem exclusive_in_turn : ∃ r : Repo, r.Exclusive ∧ r.opened.entries.length = 1 ∧
    r.files.entries.length = 1 := by
  have hstart : (machine epoch).Run (TakesAlone epoch) ⟨.empty, .empty, .empty, .empty, [], false⟩ :=
    .start ⟨_, _, rfl⟩
  obtain ⟨r, hrun, hr⟩ := hstart.execute (takesAloneCheck epoch) inTurn
    (fun r => r.opened.entries.length == 1 && r.files.entries.length == 1)
    (fun _ _ => takesAlone_of_check) (by decide +kernel)
  simp only [Bool.and_eq_true, beq_iff_eq] at hr
  exact ⟨r, Run.exclusive hrun, hr⟩

/-- Both sessions are open on one path, and the file of the second took the place of the other. -/
theorem two_open_on_one_path : ∃ r : Repo, (machine epoch).Run (fun _ _ => True) r ∧
    r.replaced = true ∧ ∃ path, r.opened.get? nested.sessionKey = some path ∧
      r.opened.get? dashed.sessionKey = some path := by
  have hstart : (machine epoch).Run (fun _ _ => True) ⟨.empty, .empty, .empty, .empty, [], false⟩ :=
    .start ⟨_, _, rfl⟩
  obtain ⟨r, hrun, hr⟩ := hstart.execute (fun _ _ => true) atOnce (fun r => r.replaced &&
      decide (r.opened.get? nested.sessionKey = some (newSessionPath epoch nested 0)) &&
      decide (r.opened.get? dashed.sessionKey = some (newSessionPath epoch nested 0)))
    (fun _ _ _ => trivial) (by decide +kernel)
  simp only [Bool.and_eq_true, decide_eq_true_eq] at hr
  exact ⟨r, hrun, hr.1.1, _, hr.1.2, hr.2⟩

end PiOxidized.Session.Jsonl.Repo
