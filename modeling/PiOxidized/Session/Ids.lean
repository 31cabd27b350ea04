/-
# Generated identifiers

Every identifier carries the next number of one counter, and one made without a timestamp carries
the latest time seen so far.  So identifiers differ, and those made without a timestamp increase.
-/

import PiOxidized.Math.Fallible
import PiOxidized.Math.Hyphenated
import PiOxidized.Session.Entry

namespace PiOxidized.Session

open Math

/-- What is used of the library that lays out and prints the identifiers. -/
structure UuidLibrary where
  /-- Seconds, nanoseconds, a counter, its bits and what is drawn at random. -/
  newV7 : Nat → Nat → Nat → Nat → Nat → Nat
  hyphenated : Nat → List Char

/-- Milliseconds in 48 bits, the version in four, twelve bits of the counter, the variant in two,
and the other 29 bits of the counter before what is random. -/
def layoutV7 (millis counter random : Nat) : Nat :=
  millis * 2 ^ 80 + 7 * 2 ^ 76 + counter / 2 ^ 29 * 2 ^ 64 + 2 * 2 ^ 62 +
    counter % 2 ^ 29 * 2 ^ 33 + random

/-- The 36 characters of an identifier. -/
def canonicalText (n : Nat) : List Char := hyphenated [24, 20, 16, 12] 32 n

/-- The documented behaviour of the library. -/
structure UuidLibrary.Documented (uuid : UuidLibrary) : Prop where
  newV7 : ∀ seconds nanos counter drawn, seconds * 1000 + nanos / 1000000 < 2 ^ 48 →
    counter < 2 ^ 41 → ∃ random < 2 ^ 33, uuid.newV7 seconds nanos counter 41 drawn =
      layoutV7 (seconds * 1000 + nanos / 1000000) counter random
  hyphenated : ∀ n < 2 ^ 128, uuid.hyphenated n = canonicalText n

def maxUuidV7Timestamp : Nat := 0x0000ffffffffffff

def maxSequence : Nat := 2 ^ 41 - 1

structure GeneratorState where
  lastOrdinaryTimestamp : Option Nat
  sequence : Option Nat
  deriving DecidableEq

/-- A call with its timestamp, what the clock shows, and what is drawn at random. -/
structure IdCall where
  timestampMs : Option Int
  currentMillis : Except SessionError Nat
  randomSequence : Nat
  drawn : Nat

namespace GeneratorState

def new : GeneratorState := ⟨none, none⟩

def suppliedTimestamp (requested : Nat) : Nat := requested

def ordinaryTimestamp (state : GeneratorState) (requested : Nat) : Nat × GeneratorState :=
  let effective := state.lastOrdinaryTimestamp.elim requested (max · requested)
  (effective, { state with lastOrdinaryTimestamp := some effective })

def nextSequence (state : GeneratorState) (randomSequence : Nat) :
    Except SessionError Nat × GeneratorState :=
  match state.sequence with
  | none =>
    let sequence := randomSequence % 2 ^ 40
    (.ok sequence, { state with sequence := some sequence })
  | some sequence =>
    if sequence = maxSequence then
      (.error (.invariant "UUIDv7 generator sequence exhausted"), state)
    else (.ok (sequence + 1), { state with sequence := some (sequence + 1) })

end GeneratorState

def invalidTimestamp (timestamp : Int) : SessionError :=
  .invariant ("UUIDv7 timestamp must be an integer between 0 and " ++
    toString maxUuidV7Timestamp ++ ", got " ++ toString timestamp)

def validateTimestamp (timestamp : Nat) : Except SessionError Unit :=
  if timestamp > maxUuidV7Timestamp then .error (invalidTimestamp timestamp) else .ok ()

/-- The timestamp a call asks for. -/
def requestedTimestamp (call : IdCall) : Except SessionError Nat := match call.timestampMs with
  | some value => if value < 0 then .error (invalidTimestamp value) else .ok value.toNat
  | none => call.currentMillis

/-- The timestamp and sequence of an identifier, taken under the lock. -/
def takeStamp (state : GeneratorState) (call : IdCall) :
    Except SessionError (Nat × Nat) × GeneratorState :=
  match requestedTimestamp call >>= fun requested => do
    validateTimestamp requested
    .ok requested with
  | .error error => (.error error, state)
  | .ok requested =>
    let (timestamp, state) := match call.timestampMs with
      | some _ => (GeneratorState.suppliedTimestamp requested, state)
      | none => state.ordinaryTimestamp requested
    let (sequence, state) := state.nextSequence call.randomSequence
    (sequence.map (timestamp, ·), state)

/-- The text of an identifier. -/
def stampText (uuid : UuidLibrary) (call : IdCall) (stamp : Nat × Nat) : List Char :=
  uuid.hyphenated (uuid.newV7 (stamp.1 / 1000) (stamp.1 % 1000 * 1000000) stamp.2 41 call.drawn)

def nextString (uuid : UuidLibrary) (state : GeneratorState) (call : IdCall) :
    Except SessionError (List Char) × GeneratorState :=
  let (stamp, state) := takeStamp state call
  (stamp.map (stampText uuid call), state)

/-- The identifiers returned by calls one after another, each with its call. -/
def returnedIds (uuid : UuidLibrary) (state : GeneratorState) :
    List IdCall → List (IdCall × List Char)
  | [] => []
  | call :: calls =>
    let (result, state) := nextString uuid state call
    match result with
    | .error _ => returnedIds uuid state calls
    | .ok id => (call, id) :: returnedIds uuid state calls

/-! ## Texts -/

variable {uuid : UuidLibrary} {state state' : GeneratorState} {call call' : IdCall} {stamp : Nat × Nat}

theorem layoutV7_lt {millis millis' counter counter' random random' : Nat}
    (hmillis : millis ≤ millis') (hcounter : counter < counter') (hrand : random < 2 ^ 33) :
    layoutV7 millis counter random < layoutV7 millis' counter' random' := by
  rw [layoutV7, layoutV7]
  omega

theorem layoutV7_ne {millis millis' counter counter' random random' : Nat}
    (hcounter : counter < counter') (hbound : counter' ≤ maxSequence) (hrand : random < 2 ^ 33)
    (hrand' : random' < 2 ^ 33) :
    layoutV7 millis counter random ≠ layoutV7 millis' counter' random' := by
  rw [maxSequence] at hbound
  rw [layoutV7, layoutV7]
  omega

theorem layoutV7_bound {millis counter random : Nat} (hmillis : millis ≤ maxUuidV7Timestamp)
    (hcounter : counter ≤ maxSequence) (hrand : random < 2 ^ 33) :
    layoutV7 millis counter random < 2 ^ 128 := by
  rw [maxUuidV7Timestamp] at hmillis
  rw [maxSequence] at hcounter
  rw [layoutV7]
  omega

theorem canonicalText_lt {n m : Nat} (hlt : n < m) (hm : m < 2 ^ 128) :
    canonicalText n < canonicalText m := by
  rw [show 128 = 4 * 32 from rfl, Nat.pow_mul] at hm
  exact hyphenated_lt _ hlt hm

/-- A timestamp and sequence that fit into an identifier. -/
def InRange (stamp : Nat × Nat) : Prop := stamp.1 ≤ maxUuidV7Timestamp ∧ stamp.2 ≤ maxSequence

/-- The text of a stamp is that of a number laid out for it. -/
theorem UuidLibrary.Documented.text (h : uuid.Documented) (call : IdCall) (hrng : InRange stamp) :
    ∃ random < 2 ^ 33, stampText uuid call stamp =
      canonicalText (layoutV7 stamp.1 stamp.2 random) := by
  obtain ⟨htime, hseq⟩ := hrng
  have hmillis : stamp.1 / 1000 * 1000 + stamp.1 % 1000 * 1000000 / 1000000 = stamp.1 := by omega
  have hfits : stamp.1 < 2 ^ 48 := by
    rw [maxUuidV7Timestamp] at htime
    omega
  obtain ⟨random, hrand, hnew⟩ := h.newV7 (stamp.1 / 1000) (stamp.1 % 1000 * 1000000) stamp.2
    call.drawn (Nat.lt_of_le_of_lt (Nat.le_of_eq hmillis) hfits) (by
      rw [maxSequence] at hseq
      omega)
  rw [hmillis] at hnew
  refine ⟨random, hrand, ?_⟩
  rw [stampText, hnew, h.hyphenated _ (layoutV7_bound htime hseq hrand)]

/-- A higher sequence at the same time or a later one makes a later text. -/
theorem UuidLibrary.Documented.text_lt (h : uuid.Documented) {stamp' : Nat × Nat}
    (hrng : InRange stamp) (hrng' : InRange stamp') (htime : stamp.1 ≤ stamp'.1)
    (hseq : stamp.2 < stamp'.2) :
    stampText uuid call stamp < stampText uuid call' stamp' := by
  obtain ⟨random, hrand, htext⟩ := h.text call hrng
  obtain ⟨random', hrand', htext'⟩ := h.text call' hrng'
  rw [htext, htext']
  exact canonicalText_lt (layoutV7_lt htime hseq hrand) (layoutV7_bound hrng'.1 hrng'.2 hrand')

theorem UuidLibrary.Documented.text_ne (h : uuid.Documented) {stamp' : Nat × Nat}
    (hrng : InRange stamp) (hrng' : InRange stamp') (hseq : stamp.2 < stamp'.2) :
    stampText uuid call stamp ≠ stampText uuid call' stamp' := by
  obtain ⟨random, hrand, htext⟩ := h.text call hrng
  obtain ⟨random', hrand', htext'⟩ := h.text call' hrng'
  rw [htext, htext']
  intro heq
  rcases Nat.lt_or_gt_of_ne (layoutV7_ne hseq hrng'.2 hrand hrand') with hlt | hlt
  · have hless := canonicalText_lt hlt (layoutV7_bound hrng'.1 hrng'.2 hrand')
    rw [heq] at hless
    exact List.lt_irrefl _ hless
  · have hless := canonicalText_lt hlt (layoutV7_bound hrng.1 hrng.2 hrand)
    rw [heq] at hless
    exact List.lt_irrefl _ hless

/-! ## Stamps -/

/-- What a state remembers fits into an identifier. -/
def GeneratorState.Fits (state : GeneratorState) : Prop :=
  (∀ last ∈ state.lastOrdinaryTimestamp, last ≤ maxUuidV7Timestamp) ∧
    ∀ last ∈ state.sequence, last ≤ maxSequence

/-- A stamp has a sequence above that of a state, and if its time was not supplied it is not
earlier than the last one. -/
structure Above (state : GeneratorState) (call : IdCall) (stamp : Nat × Nat) : Prop where
  inRange : InRange stamp
  timestamp : call.timestampMs = none → ∀ last ∈ state.lastOrdinaryTimestamp, last ≤ stamp.1
  sequence : ∀ last ∈ state.sequence, last < stamp.2

theorem nextSequence_spec (h : state.Fits) (random : Nat) :
    (∃ error, state.nextSequence random = (.error error, state)) ∨
    ∃ seq ≤ maxSequence, state.nextSequence random =
      (.ok seq, { state with sequence := some seq }) ∧ ∀ last ∈ state.sequence, last < seq := by
  rw [GeneratorState.nextSequence]
  cases hseq : state.sequence with
  | none =>
    refine .inr ⟨random % 2 ^ 40, ?_, rfl, nofun⟩
    rw [maxSequence]
    omega
  | some seq =>
    dsimp only
    have hle := h.2 seq hseq
    split_ifs with hmax
    · exact .inl ⟨_, rfl⟩
    · refine .inr ⟨seq + 1, Nat.lt_of_le_of_ne hle hmax, rfl, ?_⟩
      rintro _ ⟨⟩
      exact Nat.lt_succ_self seq

/-- What a result promises of the state after it: what is above that is above the state before,
and above the stamp taken. -/
structure Stamped (state : GeneratorState) (call : IdCall)
    (taken : Except SessionError (Nat × Nat) × GeneratorState) : Prop where
  fits : taken.2.Fits
  above : ∀ other later, Above taken.2 other later → Above state other later
  stamp : ∀ stamp, taken.1 = .ok stamp → Above state call stamp
  later : ∀ stamp, taken.1 = .ok stamp → ∀ other later, Above taken.2 other later →
    stamp.2 < later.2 ∧ (call.timestampMs = none → other.timestampMs = none → stamp.1 ≤ later.1)

/-- The next sequence makes a stamp of a time. -/
theorem stamped_nextSequence {mid : GeneratorState} {time : Nat} (h : mid.Fits)
    (htime : time ≤ maxUuidV7Timestamp)
    (habove : ∀ other later, Above mid other later → Above state other later)
    (hlast : call.timestampMs = none → mid.lastOrdinaryTimestamp = some time) :
    Stamped state call ((mid.nextSequence call.randomSequence).1.map (time, ·),
      (mid.nextSequence call.randomSequence).2) := by
  rcases nextSequence_spec h call.randomSequence with
    ⟨error, heq⟩ | ⟨seq, hseq, heq, hnew⟩
  · rw [heq]
    exact ⟨h, habove, nofun, nofun⟩
  · rw [heq]
    refine ⟨⟨h.1, ?_⟩, fun other later hlater => habove other later ?_, ?_, ?_⟩
    · rintro _ ⟨⟩
      exact hseq
    · refine { hlater with sequence := fun last hmem => ?_ }
      exact Nat.lt_trans (hnew last hmem) (hlater.sequence seq rfl)
    · rintro _ ⟨⟩
      refine habove _ _ ⟨⟨htime, hseq⟩, fun hordinary last hmem => ?_, hnew⟩
      obtain rfl := Option.some.inj ((hlast hordinary).symm.trans hmem)
      exact Nat.le_refl _
    · rintro _ ⟨⟩ other later hlater
      exact ⟨hlater.sequence seq rfl, fun hordinary hoth =>
        hlater.timestamp hoth time (hlast hordinary)⟩

theorem stamped_takeStamp (h : state.Fits) (call : IdCall) :
    Stamped state call (takeStamp state call) := by
  rw [takeStamp]
  split
  · exact ⟨h, fun _ _ hlater => hlater, nofun, nofun⟩
  · rename_i requested hrequested
    obtain ⟨asked, -, hvalidated⟩ := bind_ok_iff.mp hrequested
    obtain ⟨⟨⟩, hval, heq⟩ := bind_ok_iff.mp hvalidated
    cases heq
    have hle : requested ≤ maxUuidV7Timestamp := by
      rw [validateTimestamp] at hval
      split_ifs at hval with hbound
      exact Nat.le_of_not_lt hbound
    cases htimestamp : call.timestampMs with
    | some value =>
      exact stamped_nextSequence h hle (fun _ _ hlater => hlater) (by rw [htimestamp]; nofun)
    | none =>
      -- The time taken is the later one of what the clock shows and the last one.
      have htkn : ∀ last ∈ state.lastOrdinaryTimestamp,
          last ≤ (state.ordinaryTimestamp requested).1 := by
        intro last hlast
        rw [GeneratorState.ordinaryTimestamp, hlast]
        exact Nat.le_max_left last requested
      have hfits : (state.ordinaryTimestamp requested).1 ≤ maxUuidV7Timestamp := by
        rw [GeneratorState.ordinaryTimestamp]
        cases hlast : state.lastOrdinaryTimestamp with
        | none => exact hle
        | some last => exact Nat.max_le.mpr ⟨h.1 last hlast, hle⟩
      refine stamped_nextSequence ⟨?_, h.2⟩ hfits (fun other later hlater => ?_) fun _ => rfl
      · rintro _ ⟨⟩
        exact hfits
      · exact { hlater with
          timestamp := fun hordinary last hlast =>
            Nat.le_trans (htkn last hlast) (hlater.timestamp hordinary _ rfl) }

/-! ## Runs -/

theorem returnedIds_above (h : state.Fits) (calls : List IdCall) :
    ∀ pair ∈ returnedIds uuid state calls, ∃ stamp, Above state pair.1 stamp ∧
      pair.2 = stampText uuid pair.1 stamp := by
  induction calls generalizing state with
  | nil => simp [returnedIds]
  | cons call calls ih =>
    have hstamped := stamped_takeStamp h call
    rw [returnedIds, nextString]
    generalize takeStamp state call = taken at hstamped ⊢
    obtain ⟨result, next⟩ := taken
    have hlater : ∀ pair ∈ returnedIds uuid next calls, ∃ stamp, Above state pair.1 stamp ∧
        pair.2 = stampText uuid pair.1 stamp := by
      intro pair hmem
      obtain ⟨stamp, habove, htext⟩ := ih hstamped.fits pair hmem
      exact ⟨stamp, hstamped.above _ _ habove, htext⟩
    cases result with
    | error error => exact hlater
    | ok stamp => exact List.forall_mem_cons.mpr ⟨⟨stamp, hstamped.stamp stamp rfl, rfl⟩, hlater⟩

theorem returnedIds_pairwise (huuid : uuid.Documented) (h : state.Fits) (calls : List IdCall) :
    (returnedIds uuid state calls).Pairwise fun first second => first.2 ≠ second.2 ∧
      (first.1.timestampMs = none → second.1.timestampMs = none → first.2 < second.2) := by
  induction calls generalizing state with
  | nil => exact .nil
  | cons call calls ih =>
    have hstamp := stamped_takeStamp h call
    rw [returnedIds, nextString]
    generalize takeStamp state call = taken at hstamp ⊢
    obtain ⟨result, next⟩ := taken
    cases result with
    | error error => exact ih hstamp.fits
    | ok stamp =>
      refine List.pairwise_cons.mpr ⟨fun pair hmem => ?_, ih hstamp.fits⟩
      obtain ⟨later, habove, htext⟩ := returnedIds_above hstamp.fits calls pair hmem
      obtain ⟨hseq, htime⟩ := hstamp.later stamp rfl pair.1 later habove
      have hrng := (hstamp.stamp stamp rfl).inRange
      rw [htext]
      exact ⟨huuid.text_ne hrng habove.inRange hseq, fun hfst hsnd =>
        huuid.text_lt hrng habove.inRange (htime hfst hsnd) hseq⟩

/-- All identifiers returned differ, and those made without a timestamp increase as texts, whatever
the clock shows. -/
theorem ids_distinct_and_ordered (h : uuid.Documented) (calls : List IdCall) :
    ((returnedIds uuid .new calls).map Prod.snd).Nodup ∧
      (((returnedIds uuid .new calls).filter (·.1.timestampMs = none)).map Prod.snd).Pairwise
        (· < ·) := by
  have hnew : GeneratorState.new.Fits := ⟨nofun, nofun⟩
  have hpairs := returnedIds_pairwise h hnew calls
  refine ⟨List.pairwise_map.mpr (hpairs.imp And.left), List.pairwise_map.mpr ?_⟩
  refine List.pairwise_filter.mpr (hpairs.imp ?_)
  intro first second hpair hfirst hsecond
  exact hpair.2 (of_decide_eq_true hfirst) (of_decide_eq_true hsecond)

/-- A library that draws what it is given. -/
def plainLibrary : UuidLibrary where
  newV7 seconds nanos counter _ drawn :=
    layoutV7 (seconds * 1000 + nanos / 1000000) counter (drawn % 2 ^ 33)
  hyphenated := canonicalText

/-- A clock that goes back between two calls, with a supplied timestamp between them. -/
theorem ids_distinct_and_ordered_backwards :
    ((returnedIds plainLibrary .new [⟨none, .ok 5, 7, 0⟩, ⟨some 3, .ok 9, 0, 1⟩,
      ⟨none, .ok 4, 0, 2⟩]).map Prod.snd).Nodup :=
  (ids_distinct_and_ordered ⟨fun _ _ _ drawn _ _ => ⟨drawn % 2 ^ 33,
    Nat.mod_lt drawn (by decide), rfl⟩, fun _ _ => rfl⟩ _).1

end PiOxidized.Session
