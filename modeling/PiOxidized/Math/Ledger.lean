/-
# Reserved keys and claimed paths

Parties reserve keys, look at the files at some paths and act on what they saw.  A file
belongs to the key it names, if it names one.  A party that acts on a path later than it
looked at it has a claim on the path.

What the claims rely on stays true as long as no file is made to appear at a path on which
another party has a claim that is not settled by its reservation.  Then no file is put in
the place of another, an opened path keeps the file of its key, and two keys are never
opened on one path.
-/

import Mathlib.Logic.Function.Basic

namespace PiOxidized.Math

open Function

universe u v

/-- What a party relies on. -/
inductive Claim (K : Type u) (P : Type v)
  | idle
  /-- The key may have been opened. -/
  | done
  /-- There was no file at the path, and the party is about to put one there. -/
  | fresh (path : P)
  /-- The party put the file there. -/
  | written (path : P)
  /-- The party is about to take back what it put there. -/
  | discarding (path : P)
  /-- The file there is the one of the party's key. -/
  | loaded (path : P)
  /-- There was a file at the path. -/
  | inspecting (path : P)
  /-- The file there was not the one of another key. -/
  | removing (path : P)
  /-- The file there was the one of a key, and the party is about to replace it by a repaired one. -/
  | repairing (owner : K) (path : P)

/-- The key a party has reserved and what it relies on. -/
structure Party (K : Type u) (P : Type v) where
  reserved : Option K
  claim : Claim K P

/-- The files with the keys they name, the opened keys, who holds the reservations, and the
parties. -/
structure Ledger (K : Type u) (P : Type v) where
  owner : P → Option (Option K)
  opened : K → Option P
  holder : K → Option Nat
  party : Nat → Party K P

namespace Claim

variable {K : Type u} {P : Type v} {claim : Claim K P} {path : P}

/-- Whether a file that appears at the path would go unnoticed. -/
def Touches (claim : Claim K P) (path : P) : Prop := match claim with
  | .idle | .done | .loaded _ => False
  | .fresh other | .written other | .discarding other | .inspecting other | .removing other => other = path
  | .repairing _ other => other = path

instance [DecidableEq P] (claim : Claim K P) (path : P) : Decidable (claim.Touches path) :=
  match claim with
  | .idle | .done | .loaded _ => inferInstanceAs (Decidable False)
  | .fresh other | .written other | .discarding other | .inspecting other | .removing other =>
    inferInstanceAs (Decidable (other = path))
  | .repairing _ other => inferInstanceAs (Decidable (other = path))

/-- Whether the party is making a file of its own. -/
def Creates (claim : Claim K P) (path : P) : Prop := match claim with
  | .fresh other | .written other | .discarding other => other = path
  | .idle | .done | .loaded _ | .inspecting _ | .removing _ | .repairing _ _ => False

theorem Creates.touches (h : claim.Creates path) : claim.Touches path := by
  cases claim with
  | fresh | written | discarding => exact h
  | idle | done | loaded | inspecting | removing | repairing => cases h

/-- Whether what a party relies on holds of the files. -/
def Fits (owner : P → Option (Option K)) (reserved : Option K) : Claim K P → Prop
  | .idle | .done | .inspecting _ => True
  | .fresh path => owner path = none
  | .written path | .loaded path => ∃ key, reserved = some key ∧ owner path = some (some key)
  | .discarding path =>
    ∃ key, reserved = some key ∧ ∀ named, owner path = some named → named = some key
  | .removing path =>
    ∃ key, reserved = some key ∧ ∀ named, owner path = some (some named) → named = key
  | .repairing key path => ∀ named, owner path = some named → named = some key

variable [DecidableEq P] {owner : P → Option (Option K)} {reserved : Option K}

theorem update_of_owner_ne_none {named : Option K} {other : P} (hnone : owner path = none)
    (hoth : owner other ≠ none) :
    update owner path (some named) other = owner other := by
  apply update_of_ne
  rintro rfl
  exact hoth hnone

/-- A file that appears where a party has no claim changes nothing for it. -/
theorem Fits.appear (h : claim.Fits owner reserved) (named : Option K) (hnone : owner path = none)
    (huntouched : ¬claim.Touches path) :
    claim.Fits (update owner path (some named)) reserved := by
  cases claim with
  | idle | done | inspecting => trivial
  | fresh other | discarding other | removing other | repairing key other =>
    have hne : other ≠ path := huntouched
    simp only [Fits, update_of_ne hne]
    exact h
  | written other | loaded other =>
    obtain ⟨key, hkey, hown⟩ := h
    refine ⟨key, hkey, ?_⟩
    rw [update_of_owner_ne_none hnone (by rw [hown]; exact nofun)]
    exact hown

/-- When a file is removed that is not the one of a party's key, nothing changes for it. -/
theorem Fits.vanish (h : claim.Fits owner reserved)
    (hnamed : ∀ key, reserved = some key → owner path ≠ some (some key)) :
    claim.Fits (update owner path none) reserved := by
  have hgone : ∀ other named, update owner path none other = some named →
      owner other = some named := by
    intro other named hown
    by_cases hoth : other = path
    · subst hoth
      rw [update_self] at hown
      cases hown
    · rw [update_of_ne hoth] at hown
      exact hown
  cases claim with
  | idle | done | inspecting => trivial
  | fresh other =>
    have hnone : owner other = none := h
    by_contra hsome
    obtain ⟨named, hnamed⟩ := Option.ne_none_iff_exists'.mp hsome
    rw [hgone other named hnamed] at hnone
    cases hnone
  | written other | loaded other =>
    obtain ⟨key, hkey, hown⟩ := h
    refine ⟨key, hkey, ?_⟩
    have hne : other ≠ path := by
      rintro rfl
      exact hnamed key hkey hown
    rw [update_of_ne hne]
    exact hown
  | discarding other | removing other =>
    obtain ⟨key, hkey, hown⟩ := h
    exact ⟨key, hkey, fun named hoth => hown named (hgone _ _ hoth)⟩
  | repairing key other => exact fun named hoth => h named (hgone _ _ hoth)

end Claim

namespace Ledger

variable {K : Type u} {P : Type v}

/-- The reservations are held by one party each, what the parties rely on holds, and an opened path
has the file of its key. -/
structure Sound (L : Ledger K P) : Prop where
  opened : ∀ key path, L.opened key = some path → L.owner path = some (some key)
  held : ∀ i key, (L.party i).reserved = some key → L.holder key = some i
  entering : ∀ i key, (L.party i).reserved = some key → (L.party i).claim ≠ .done →
    L.opened key = none
  fits : ∀ i, (L.party i).claim.Fits L.owner (L.party i).reserved
  alone : ∀ i j path, i ≠ j → (L.party i).claim = .fresh path → ¬(L.party j).claim.Touches path
  creators : ∀ i j path, (L.party i).claim.Creates path → (L.party j).claim.Creates path → i = j

variable {L : Ledger K P} {i : Nat} {party : Party K P} {key : K} {path : P}

/-- Two keys are never opened on one path. -/
theorem Sound.opened_injective (h : L.Sound) {other : K} (hkey : L.opened key = some path)
    (hoth : L.opened other = some path) : key = other := by
  have hown := h.opened key path hkey
  rw [h.opened other path hoth] at hown
  exact (Option.some.inj (Option.some.inj hown)).symm

/-- One key is reserved by one party. -/
theorem Sound.reserved_injective (h : L.Sound) {j : Nat} (hi : (L.party i).reserved = some key)
    (hj : (L.party j).reserved = some key) : i = j := by
  have hhold := h.held i key hi
  rw [h.held j key hj] at hhold
  exact (Option.some.inj hhold).symm

/-- What a party may become. -/
structure Moves (L : Ledger K P) (i : Nat) (party : Party K P) : Prop where
  held : ∀ key, party.reserved = some key → L.holder key = some i
  entering : ∀ key, party.reserved = some key → party.claim ≠ .done → L.opened key = none
  fits : party.claim.Fits L.owner party.reserved
  fresh : ∀ path, party.claim = .fresh path → ∀ j, j ≠ i → ¬(L.party j).claim.Touches path
  touches : ∀ path, party.claim.Touches path → ∀ j, j ≠ i → (L.party j).claim ≠ .fresh path
  creates : ∀ path, party.claim.Creates path → ∀ j, j ≠ i → ¬(L.party j).claim.Creates path

def set (L : Ledger K P) (i : Nat) (party : Party K P) : Ledger K P :=
  { L with party := update L.party i party }

@[simp]
theorem set_party_self (L : Ledger K P) (i : Nat) (party : Party K P) :
    (L.set i party).party i = party :=
  update_self _ _ _

theorem set_party_of_ne (L : Ledger K P) {j : Nat} (party : Party K P) (h : j ≠ i) :
    (L.set i party).party j = L.party j :=
  update_of_ne h _ _

theorem set_set (L : Ledger K P) (i : Nat) (first second : Party K P) :
    (L.set i first).set i second = L.set i second := by
  simp only [set, update_idem]

def setHolder [DecidableEq K] (L : Ledger K P) (key : K) (holder : Option Nat) : Ledger K P :=
  { L with holder := update L.holder key holder }

def setOpened [DecidableEq K] (L : Ledger K P) (key : K) (path : Option P) : Ledger K P :=
  { L with opened := update L.opened key path }

def setOwner [DecidableEq P] (L : Ledger K P) (path : P) (owner : Option (Option K)) : Ledger K P :=
  { L with owner := update L.owner path owner }

/-- One party changes. -/
theorem Sound.set (h : L.Sound) (hmoves : L.Moves i party) : (L.set i party).Sound := by
  constructor
  case opened => exact h.opened
  case held =>
    intro j key hkey
    by_cases hj : j = i
    · subst hj
      rw [set_party_self] at hkey
      exact hmoves.held key hkey
    · rw [L.set_party_of_ne party hj] at hkey
      exact h.held j key hkey
  case entering =>
    intro j key hkey hdone
    by_cases hj : j = i
    · subst hj
      rw [set_party_self] at hkey hdone
      exact hmoves.entering key hkey hdone
    · rw [L.set_party_of_ne party hj] at hkey hdone
      exact h.entering j key hkey hdone
  case fits =>
    intro j
    by_cases hj : j = i
    · subst hj
      rw [set_party_self]
      exact hmoves.fits
    · rw [L.set_party_of_ne party hj]
      exact h.fits j
  case alone =>
    intro j j' path hne hfrs
    by_cases hj : j = i
    · subst hj
      rw [set_party_self] at hfrs
      rw [L.set_party_of_ne party hne.symm]
      exact hmoves.fresh path hfrs j' hne.symm
    · rw [L.set_party_of_ne party hj] at hfrs
      by_cases hj' : j' = i
      · subst hj'
        rw [set_party_self]
        intro htch
        exact hmoves.touches path htch j hj hfrs
      · rw [L.set_party_of_ne party hj']
        exact h.alone j j' path hne hfrs
  case creators =>
    intro j j' path hmakes hmakes'
    by_cases hj : j = i
    · by_cases hj' : j' = i
      · exact hj.trans hj'.symm
      · rw [hj, set_party_self] at hmakes
        rw [L.set_party_of_ne party hj'] at hmakes'
        exact absurd hmakes' (hmoves.creates path hmakes j' hj')
    · rw [L.set_party_of_ne party hj] at hmakes
      by_cases hj' : j' = i
      · rw [hj', set_party_self] at hmakes'
        exact absurd hmakes (hmoves.creates path hmakes' j hj)
      · rw [L.set_party_of_ne party hj'] at hmakes'
        exact h.creators j j' path hmakes hmakes'

/-! ## Moves -/

/-- A party that keeps its reservation, and does not go back to before its key was opened. -/
structure Keeps (L : Ledger K P) (i : Nat) (party : Party K P) : Prop where
  reserved : party.reserved = (L.party i).reserved
  entering : party.claim ≠ .done → (L.party i).claim ≠ .done
  fits : party.claim.Fits L.owner party.reserved

theorem Sound.held_of_keeps (h : L.Sound) (hkeeps : L.Keeps i party) (key : K)
    (hkey : party.reserved = some key) : L.holder key = some i := by
  rw [hkeeps.reserved] at hkey
  exact h.held i key hkey

theorem Sound.entering_of_keeps (h : L.Sound) (hkeeps : L.Keeps i party) (key : K)
    (hkey : party.reserved = some key) (hdone : party.claim ≠ .done) : L.opened key = none := by
  rw [hkeeps.reserved] at hkey
  exact h.entering i key hkey (hkeeps.entering hdone)

theorem Claim.Touches.of_fresh {claim : Claim K P} (h : claim = .fresh path) :
    claim.Touches path := by
  rw [h]
  exact rfl

section

variable (h : L.Sound) (hkeeps : L.Keeps i party)

include h hkeeps

/-- A party that acts on no path any more. -/
theorem Sound.settles (hset : ∀ path, ¬party.claim.Touches path) : L.Moves i party where
  held := h.held_of_keeps hkeeps
  entering := h.entering_of_keeps hkeeps
  fits := hkeeps.fits
  fresh := fun path hfrs => absurd (Claim.Touches.of_fresh hfrs) (hset path)
  touches := fun path htch => absurd htch (hset path)
  creates := fun path hmakes => absurd hmakes.touches (hset path)

/-- A party that goes on with a path it has a claim on. -/
theorem Sound.goesOn (hfrs : ∀ path, party.claim ≠ .fresh path)
    (htch : ∀ path, party.claim.Touches path → (L.party i).claim.Touches path)
    (hmakes : ∀ path, party.claim.Creates path → (L.party i).claim.Creates path) :
    L.Moves i party where
  held := h.held_of_keeps hkeeps
  entering := h.entering_of_keeps hkeeps
  fits := hkeeps.fits
  fresh := fun path hsame => absurd hsame (hfrs path)
  touches := fun path hparty j hne hoth => h.alone j i path hne hoth (htch path hparty)
  creates := fun path hparty j hne hoth =>
    hne (h.creators j i path hoth (hmakes path hparty))

/-- A party that takes a claim on a path where it found a file. -/
theorem Sound.finds (hmakes : ∀ path, ¬party.claim.Creates path)
    (hfnd : ∀ path, party.claim.Touches path → L.owner path ≠ none) : L.Moves i party where
  held := h.held_of_keeps hkeeps
  entering := h.entering_of_keeps hkeeps
  fits := hkeeps.fits
  fresh := by
    intro path hfrs
    have hmade : party.claim.Creates path := by
      rw [hfrs]
      exact rfl
    exact absurd hmade (hmakes path)
  touches := by
    intro path htch j _ hfrs
    have hfits := h.fits j
    rw [hfrs] at hfits
    exact hfnd path htch hfits
  creates := fun path hparty => absurd hparty (hmakes path)

/-- A party with a claim on a path on which no other party has one. -/
theorem Sound.comesAlone (honly : ∀ other, party.claim.Touches other → other = path)
    (hoth : ∀ j, j ≠ i → ¬(L.party j).claim.Touches path) : L.Moves i party where
  held := h.held_of_keeps hkeeps
  entering := h.entering_of_keeps hkeeps
  fits := hkeeps.fits
  fresh := by
    intro other hfrs
    obtain rfl := honly other (Claim.Touches.of_fresh hfrs)
    exact hoth
  touches := by
    intro other htch j hne hfrs
    obtain rfl := honly other htch
    exact hoth j hne (Claim.Touches.of_fresh hfrs)
  creates := by
    intro other hmakes j hne hother
    obtain rfl := honly other hmakes.touches
    exact hoth j hne hother.touches

end

/-! ## Reservations and opened keys -/

section DecidableKeys

variable [DecidableEq K]

/-- A key that is neither opened nor reserved is reserved. -/
theorem Sound.reserve (h : L.Sound) (hfree : L.holder key = none) (hopn : L.opened key = none) :
    ((L.setHolder key (some i)).set i ⟨some key, .idle⟩).Sound := by
  have hheld : (L.setHolder key (some i)).Sound := by
    refine { h with held := fun j other hoth => ?_ }
    have hhold := h.held j other hoth
    have hne : other ≠ key := by
      rintro rfl
      rw [hfree] at hhold
      cases hhold
    exact (update_of_ne hne _ _).trans hhold
  refine hheld.set ⟨?_, ?_, trivial, ?_, ?_, ?_⟩
  · rintro _ ⟨⟩
    exact update_self _ _ _
  · rintro _ ⟨⟩ _
    exact hopn
  · rintro path ⟨⟩
  · rintro path ⟨⟩
  · rintro path ⟨⟩

/-- A party that acts on no path gives up its reservation. -/
theorem Sound.release (h : L.Sound) (hres : (L.party i).reserved = some key) :
    ((L.set i ⟨none, .idle⟩).setHolder key none).Sound := by
  have hset : (L.set i ⟨none, .idle⟩).Sound := by
    refine h.set ⟨nofun, nofun, trivial, ?_, ?_, ?_⟩
    · rintro path ⟨⟩
    · rintro path ⟨⟩
    · rintro path ⟨⟩
  refine { hset with held := fun j other hoth => ?_ }
  have hne : other ≠ key := by
    rintro rfl
    by_cases hj : j = i
    · subst hj
      change ((L.set j ⟨none, .idle⟩).party j).reserved = some other at hoth
      rw [set_party_self] at hoth
      cases hoth
    · change ((L.set i ⟨none, .idle⟩).party j).reserved = some other at hoth
      rw [L.set_party_of_ne _ hj] at hoth
      exact hj (h.reserved_injective hoth hres)
  exact (update_of_ne hne _ _).trans (hset.held j other hoth)

/-- A party opens its key on the path of its file. -/
theorem Sound.open (h : L.Sound) (hres : (L.party i).reserved = some key)
    (hown : L.owner path = some (some key)) :
    ((L.set i ⟨some key, .done⟩).setOpened key (some path)).Sound := by
  have hset : (L.set i ⟨some key, .done⟩).Sound :=
    h.set (h.settles ⟨hres.symm, fun hdone => absurd rfl hdone, trivial⟩ fun _ => id)
  refine { hset with opened := ?opened, entering := ?entering }
  case opened =>
    intro other place hoth
    change update L.opened key (some path) other = some place at hoth
    by_cases hne : other = key
    · subst hne
      rw [update_self] at hoth
      cases hoth
      exact hown
    · rw [update_of_ne hne] at hoth
      exact h.opened other place hoth
  case entering =>
    intro j other hoth hdone
    have hne : other ≠ key := by
      rintro rfl
      by_cases hj : j = i
      · subst hj
        apply hdone
        change ((L.set j ⟨some other, .done⟩).party j).claim = .done
        rw [set_party_self]
      · change ((L.set i ⟨some other, .done⟩).party j).reserved = some other at hoth
        rw [L.set_party_of_ne _ hj] at hoth
        exact hj (h.reserved_injective hoth hres)
    exact (update_of_ne hne _ _).trans (hset.entering j other hoth hdone)

/-- An opened key is closed. -/
theorem Sound.close (h : L.Sound) (key : K) : (L.setOpened key none).Sound := by
  have hshut : ∀ other, update L.opened key none other = none ∨
      update L.opened key none other = L.opened other := by
    intro other
    by_cases hne : other = key
    · subst hne
      exact .inl (update_self _ _ _)
    · exact .inr (update_of_ne hne _ _)
  refine { h with
    opened := fun other path hoth => ?_
    entering := fun j other hoth hdone => ?_ }
  · rcases hshut other with hnone | hsame
    · cases hnone.symm.trans hoth
    · exact h.opened other path (hsame.symm.trans hoth)
  · rcases hshut other with hnone | hsame
    · exact hnone
    · exact hsame.trans (h.entering j other hoth hdone)

end DecidableKeys

/-! ## Files -/

section DecidablePaths

variable [DecidableEq P]

/-- A file appears at a path on which no party has a claim. -/
theorem Sound.appear (h : L.Sound) (named : Option K) (hnone : L.owner path = none)
    (huntouched : ∀ j, ¬(L.party j).claim.Touches path) :
    (L.setOwner path (some named)).Sound := by
  refine { h with
    opened := fun key other hoth => ?_
    fits := fun j => (h.fits j).appear named hnone (huntouched j) }
  have hown := h.opened key other hoth
  exact (Claim.update_of_owner_ne_none hnone (by rw [hown]; exact nofun)).trans hown

/-- A party puts a file at a path on which no other party has a claim. -/
theorem Sound.puts (h : L.Sound) (named : Option K) (hnone : L.owner path = none)
    (hoth : ∀ j, j ≠ i → ¬(L.party j).claim.Touches path)
    (hres : party.reserved = (L.party i).reserved) (hent : (L.party i).claim ≠ .done)
    (hfits : party.claim.Fits (update L.owner path (some named)) party.reserved)
    (honly : ∀ other, party.claim.Touches other → other = path) :
    ((L.setOwner path (some named)).set i party).Sound := by
  have hidle : (L.set i ⟨(L.party i).reserved, .idle⟩).Sound :=
    h.set (h.settles ⟨rfl, fun _ => hent, trivial⟩ fun _ => id)
  have hoth' : ∀ j, j ≠ i →
      ¬((L.set i ⟨(L.party i).reserved, .idle⟩).party j).claim.Touches path := by
    intro j hj
    rw [L.set_party_of_ne _ hj]
    exact hoth j hj
  have happeared := hidle.appear named hnone (by
    intro j
    by_cases hj : j = i
    · subst hj
      rw [set_party_self]
      exact id
    · exact hoth' j hj)
  have hkeeps : Keeps ((L.set i ⟨(L.party i).reserved, .idle⟩).setOwner path (some named)) i
      party := by
    constructor
    case reserved =>
      change _ = ((L.set i ⟨(L.party i).reserved, .idle⟩).party i).reserved
      rw [set_party_self]
      exact hres
    case entering =>
      intro _
      change ((L.set i ⟨(L.party i).reserved, .idle⟩).party i).claim ≠ .done
      rw [set_party_self]
      exact nofun
    case fits => exact hfits
  have hset := happeared.set (happeared.comesAlone hkeeps honly hoth')
  rw [show ((L.set i ⟨(L.party i).reserved, .idle⟩).setOwner path (some named)).set i party =
    (L.setOwner path (some named)).set i party from
      (L.setOwner path (some named)).set_set i _ _] at hset
  exact hset

/-- The file of a party's key, or one that names no key, is removed. -/
theorem Sound.vanish (h : L.Sound) (hres : (L.party i).reserved = some key)
    (hent : (L.party i).claim ≠ .done)
    (hnamed : ∀ named, L.owner path = some (some named) → named = key) :
    ((L.set i ⟨some key, .done⟩).setOwner path none).Sound := by
  have hset : (L.set i ⟨some key, .done⟩).Sound :=
    h.set (h.settles ⟨hres.symm, fun hdone => absurd rfl hdone, trivial⟩ fun _ => id)
  refine { hset with opened := fun other place hoth => ?_, fits := fun j => ?_ }
  · have hown := h.opened other place hoth
    have hne : place ≠ path := by
      rintro rfl
      have hopn := h.entering i key hres hent
      rw [hnamed other hown] at hoth
      cases hopn.symm.trans hoth
    exact (update_of_ne hne _ _).trans hown
  · by_cases hj : j = i
    · subst hj
      change Claim.Fits _ _ ((L.set j ⟨some key, .done⟩).party j).claim
      rw [set_party_self]
      trivial
    · apply (hset.fits j).vanish
      intro other hoth hown
      rw [L.set_party_of_ne _ hj, hnamed other hown] at hoth
      exact hj (h.reserved_injective hoth hres)

end DecidablePaths

end Ledger

end PiOxidized.Math
