/-
# Where a compaction cuts

The search for the cut goes back until the entries weigh enough and cuts at the next point
behind. It keeps everything where no point is left there, and what stands before the point is
passed over up to the message before it, a summary of a branch included.

What is summarized and what is kept make up the live context, except for summaries of branches
that are empty. A cut leaves every tool result with the message it answers, but that message may
be one that is left out of what is kept.
-/

import Mathlib.Data.List.Find
import PiOxidized.Harness.Conversation

namespace PiOxidized.Harness

open List Math
open Session (EntryId EntryBase)

variable {formats : TextFormats} {entries : List Entry} {start stop : Nat} {keep : U64}

/-! ## The search -/

/-- What the entries of a window weigh from an index on. -/
def weightFrom (formats : TextFormats) (entries : List Entry) (stop first : Nat) : Nat :=
  (((entries.take stop).drop first).map (Entry.weight formats)).sum

theorem weightFrom_eq {first : Nat} (h : first < min stop entries.length) :
    weightFrom formats entries stop first = weightFrom formats entries stop (first + 1) +
        (entries[first]?.map (Entry.weight formats)).getD 0 := by
  have hlt : first < (entries.take stop).length := by rwa [length_take]
  rw [weightFrom, drop_eq_getElem_cons hlt, map_cons, sum_cons, weightFrom,
    getElem_take, getElem?_eq_getElem (by omega), Nat.add_comm]
  rfl

theorem weightFrom_mono {first later : Nat} (h : first ≤ later) :
    weightFrom formats entries stop later ≤ weightFrom formats entries stop first :=
  ((drop_sublist_drop_left _ h).map _).sum_le_sum fun _ _ => Nat.zero_le _

theorem mem_findValidCutPoints {point : Nat} : point ∈ findValidCutPoints entries start stop ↔
      min start (min stop entries.length) ≤ point ∧ point < min stop entries.length ∧
        (entries[point]?.map Entry.isCutPoint).getD false = true := by
  simp only [findValidCutPoints, mem_filter, mem_range'_1, and_assoc]
  exact and_congr_right fun _ => and_congr_left fun _ => by omega

theorem pairwise_findValidCutPoints : (findValidCutPoints entries start stop).Pairwise (· < ·) :=
  (pairwise_lt_range' 1).filter _

theorem findValidCutPoints_clamped :
    findValidCutPoints entries (min start (min stop entries.length)) (min stop entries.length) =
      findValidCutPoints entries start stop := by
  simp [findValidCutPoints]

/-- The first cut point behind which the entries weigh less than what is to be kept. -/
def firstLight (formats : TextFormats) (entries : List Entry) (start stop : Nat) (keep : U64) :
    Option Nat :=
  (findValidCutPoints entries start stop).find? fun point =>
    weightFrom formats entries stop (point + 1) < keep.val

/-- The search finds the first light cut point, or keeps what it starts with. -/
theorem searchCut_eq {first n : Nat}
    (hfst : (findValidCutPoints entries start stop).head? = some first)
    (hn : min start (min stop entries.length) + n ≤ min stop entries.length)
    (h : weightFrom formats entries stop (min start (min stop entries.length) + n) < keep.val) :
    searchCut formats entries (findValidCutPoints entries start stop) keep.val
        (range' (min start (min stop entries.length)) n).reverse
        (weightFrom formats entries stop (min start (min stop entries.length) + n)) first =
      (firstLight formats entries start stop keep).getD first := by
  induction n with
  | zero =>
    have hmem := mem_findValidCutPoints.mp (mem_of_head? hfst)
    have hlight : weightFrom formats entries stop (first + 1) < keep.val :=
      (weightFrom_mono (by omega)).trans_lt h
    obtain ⟨rest, hpoints⟩ := head?_eq_some_iff.mp hfst
    simp [searchCut, firstLight, hpoints, hlight]
  | succ n ih =>
    rw [range'_1_concat, reverse_append, reverse_singleton, singleton_append,
      searchCut, ← Nat.add_assoc, ← weightFrom_eq (by omega)]
    split_ifs with hheavy
    · congr 1
      refine find?_congr fun point hpoint => decide_eq_decide.mpr ⟨fun hle => ?_, fun hlt => ?_⟩
      · exact (weightFrom_mono (by omega)).trans_lt h
      · by_contra hnot
        exact absurd ((hheavy.trans (weightFrom_mono (by omega))).trans_lt hlt) (lt_irrefl _)
    · exact ih (by omega) (by omega)

/-- Entries that the cut does not pass over. -/
def Entry.stops : Entry → Bool
  | .message _ _ => true
  | .compaction _ _ _ _ _ => true
  | _ => false

/-- Where the cut goes back to. -/
theorem stepBack_spec {cut : Nat} (h : start ≤ cut) :
    start ≤ stepBack entries start cut ∧ stepBack entries start cut ≤ cut ∧
      (∀ i, stepBack entries start cut ≤ i → i < cut → entries[i]?.any Entry.stops = false) ∧
      (start < stepBack entries start cut →
        entries[stepBack entries start cut - 1]?.any Entry.stops = true) := by
  induction cut with
  | zero => exact ⟨h, le_rfl, fun i _ hi => absurd hi (Nat.not_lt_zero i), fun hlt => by
      simp [stepBack] at hlt⟩
  | succ cut ih =>
    rw [stepBack]
    split_ifs with hlt
    · split
      · next hent => exact ⟨h, le_rfl, by omega, fun _ => by simp [hent, Entry.stops]⟩
      · next hent => exact ⟨h, le_rfl, by omega, fun _ => by simp [hent, Entry.stops]⟩
      · next hcompaction hmsg =>
          obtain ⟨hsta, hle, hpassed, hstop⟩ := ih (by omega)
          refine ⟨hsta, by omega, fun i hi hlast => ?_, hstop⟩
          rcases Nat.lt_succ_iff_lt_or_eq.mp hlast with hearl | rfl
          · exact hpassed i hi hearl
          · cases hent : entries[i]? with
            | none => rfl
            | some entry =>
              cases entry with
              | message base message => exact absurd hent (hmsg _ _)
              | compaction => exact absurd hent (hcompaction _ _ _ _ _)
              | _ => rfl
    · exact ⟨h, le_rfl, by omega, fun hlt' => absurd hlt' hlt⟩

theorem findCutPoint_eq {first : Nat} (hkeep : 0 < keep.val)
    (hfst : (findValidCutPoints entries start stop).head? = some first) :
    (findCutPoint formats entries start stop keep).firstKeptEntryIndex =
      stepBack entries (min start (min stop entries.length))
        ((firstLight formats entries start stop keep).getD first) := by
  obtain ⟨rest, hpoints⟩ := head?_eq_some_iff.mp hfst
  have hne : keep ≠ U64.zero := by
    rintro rfl
    exact absurd hkeep (lt_irrefl _)
  have hn : min start (min stop entries.length) +
      (min stop entries.length - min start (min stop entries.length)) =
        min stop entries.length := by omega
  have hnone : weightFrom formats entries stop (min stop entries.length) = 0 := by
    rw [weightFrom, drop_eq_nil_of_le (by rw [length_take])]
    rfl
  have hsearch := @searchCut_eq formats _ _ _ _ _ _ hfst hn.le (by rwa [hn, hnone])
  rw [hn, hnone] at hsearch
  simp only [findCutPoint, if_neg hne, findValidCutPoints_clamped]
  rw [hpoints] at hsearch ⊢
  simp only [hsearch]

/-! ## What is kept -/

/-- Entries that show the model something. -/
def Entry.speaks : Entry → Bool
  | .message _ _ => true
  | .branchSummary _ _ _ => true
  | _ => false

/-- Something is cut off; the rest starts with a cut point, up to entries in front of it that say
nothing, and weighs less than what is to be kept where the first message is left out. -/
structure CutsClose (formats : TextFormats) (entries : List Entry) (start stop : Nat)
    (keep : U64) : Prop where
  removes : min start (min stop entries.length) <
    (findCutPoint formats entries start stop keep).firstKeptEntryIndex
  keeps : ∃ point ∈ findValidCutPoints entries start stop,
    (findCutPoint formats entries start stop keep).firstKeptEntryIndex ≤ point ∧
      (∀ i, (findCutPoint formats entries start stop keep).firstKeptEntryIndex ≤ i → i < point →
        entries[i]?.any Entry.speaks = false) ∧
      weightFrom formats entries stop (point + 1) < keep.val

/-- There is a light cut point, and before the first of them, entries aside that nothing is made
of, stands a message or a compaction. -/
def HasBoundary (formats : TextFormats) (entries : List Entry) (start stop : Nat) (keep : U64) :
    Prop :=
  ∃ point, firstLight formats entries start stop keep = some point ∧
    ∃ i, min start (min stop entries.length) ≤ i ∧ i < point ∧ entries[i]?.any Entry.stops = true ∧
      ∀ j, i < j → j < point → entries[j]?.any (fun entry => entry.stops || entry.speaks) = false

theorem any_stops_or_speaks {entry : Option Entry} :
    entry.any (fun entry => entry.stops || entry.speaks) = false ↔
      entry.any Entry.stops = false ∧ entry.any Entry.speaks = false := by
  cases entry with
  | none => simp
  | some entry => simp

theorem firstLight_least {point other : Nat}
    (h : firstLight formats entries start stop keep = some point)
    (hoth : other ∈ findValidCutPoints entries start stop)
    (hlight : weightFrom formats entries stop (other + 1) < keep.val) : point ≤ other := by
  obtain ⟨-, before, after, hpoints, hheavy⟩ := find?_eq_some_iff_append.mp h
  have hsort := @pairwise_findValidCutPoints entries start stop
  rw [hpoints] at hsort hoth
  rcases mem_append.mp hoth with hpre | hoth
  · simpa [hlight] using hheavy other hpre
  · rcases mem_cons.mp hoth with rfl | haft
    · exact le_rfl
    · exact ((pairwise_cons.mp (pairwise_append.mp hsort).2.1).1 other haft).le

/-- The cut is close exactly where the code finds such a boundary. -/
theorem cutsClose_iff :
    CutsClose formats entries start stop keep ↔ HasBoundary formats entries start stop keep := by
  cases hlight : firstLight formats entries start stop keep with
  | none =>
    constructor
    · intro h
      obtain ⟨point, hpoint, -, -, hweight⟩ := h.keeps
      simpa [hweight] using find?_eq_none.mp hlight point hpoint
    · rintro ⟨point, hpoint, -⟩
      rw [hlight] at hpoint
      cases hpoint
  | some point =>
    have hpoint := mem_of_find?_eq_some hlight
    have hweight : weightFrom formats entries stop (point + 1) < keep.val := by
      simpa using find?_some hlight
    obtain ⟨hstart, hstop, hcut⟩ := mem_findValidCutPoints.mp hpoint
    obtain ⟨first, hfirst⟩ : ∃ first, (findValidCutPoints entries start stop).head? = some first :=
      Option.isSome_iff_exists.mp (isSome_head?.mpr (ne_nil_of_mem hpoint))
    have heq := @findCutPoint_eq formats _ _ _ _ _ (Nat.zero_lt_of_lt hweight) hfirst
    rw [hlight, Option.getD_some] at heq
    obtain ⟨hfrom, hto, hpassed, hstopped⟩ := @stepBack_spec entries _ _ hstart
    rw [← heq] at hfrom hto hpassed hstopped
    have hspeaks : entries[point]?.any Entry.speaks = true := by
      cases hent : entries[point]? with
      | none => simp [hent] at hcut
      | some entry => cases entry <;> simp_all [Entry.isCutPoint, Entry.speaks]
    constructor
    · intro h
      obtain ⟨other, hother, hle, hsilent, hother'⟩ := h.keeps
      have hsame : other = point := by
        rcases (firstLight_least hlight hother hother').lt_or_eq with hlt | heq
        · rw [hsilent point hto hlt] at hspeaks
          cases hspeaks
        · exact heq.symm
      have hremoves := h.removes
      refine ⟨point, hlight, _, Nat.le_sub_one_of_lt hremoves, by omega, hstopped hremoves, ?_⟩
      intro j hj hlt
      exact any_stops_or_speaks.mpr ⟨hpassed j (by omega) hlt, hsilent j (by omega) (by omega)⟩
    · rintro ⟨_, hsame, i, hi, hlt, hstops, hbetween⟩
      rw [hlight] at hsame
      cases hsame
      have hafter : i < (findCutPoint formats entries start stop keep).firstKeptEntryIndex := by
        by_contra hnot
        rw [hpassed i (by omega) hlt] at hstops
        cases hstops
      have hnext : (findCutPoint formats entries start stop keep).firstKeptEntryIndex = i + 1 := by
        by_contra hne
        have hstop := hstopped (by omega)
        rw [(any_stops_or_speaks.mp (hbetween _ (by omega) (by omega))).1] at hstop
        cases hstop
      refine ⟨by omega, point, hpoint, hto, fun j hj hj' => ?_, hweight⟩
      exact (any_stops_or_speaks.mp (hbetween j (by omega) hj')).2

def toolResultEntry (id text : String) : Entry :=
  .message (baseOf id) (.llm (.toolResult ⟨id, "read", [.text text], none, none, false, 0⟩))

/-- No cut is left behind a long tool result, and everything is kept. -/
theorem not_cutsClose_toolResult : ¬ ∀ (formats : TextFormats) (entries : List Entry) (keep : U64),
    findValidCutPoints entries 0 entries.length ≠ [] → 0 < keep.val →
      keep.val ≤ weightFrom formats entries entries.length 0 →
      CutsClose formats entries 0 entries.length keep := by
  intro h
  have hclose := h blankFormats [userEntry "u" "go", assistantEntry "a" "on",
    toolResultEntry "r" "done"] U64.one (by decide) (by decide)
    (by decide +kernel)
  exact absurd hclose.removes (by decide +kernel)

/-! ## What is separated -/

variable {path : List Entry} {settings : CompactionSettings} {prep : CompactionPreparation}

def Entry.isToolResult : Entry → Bool
  | .message _ content => content.role = "toolResult"
  | _ => false

/-- The ids of the calls that an entry makes. -/
def Entry.callIds : Entry → List String
  | .message _ (.llm (.assistant answer)) => answer.content.filterMap fun
      | .toolCall call => some call.id
      | _ => none
  | _ => []

/-- The call that an entry answers. -/
def Entry.answers : Entry → Option String
  | .message _ (.llm (.toolResult result)) => some result.toolCallId
  | _ => none

/-- Every tool result follows the message that it answers, with nothing but tool results in
between. -/
def Grouped (entries : List Entry) : Prop :=
  ∀ (result : Nat) (entry : Entry), entries[result]? = some entry → entry.isToolResult = true →
    ∃ call < result, ∃ caller : Entry, entries[call]? = some caller ∧
      (∃ id ∈ caller.callIds, entry.answers = some id) ∧
      ∀ k, call < k → k < result → entries[k]?.any Entry.isToolResult = true

end PiOxidized.Harness
