/-
# Reading a branch

A branch is a name under which the session keeps a tip.  Its entries are found by a scan from
the tip towards the root, which the backend bounds by its read limit whether or not the caller
asked for one.
-/

import PiOxidized.Session.Appends

namespace PiOxidized.Session

open List Option Bool Math

variable {R : Type}

/-- A scan of a branch; every field that is unset leaves the choice to the session. -/
structure BranchScan where
  start : Option EntryId := none
  stopAtType : Option EntryType := none
  stopAtId : Option EntryId := none
  entryType : Option EntryType := none
  customType : Option String := none
  order : Option ScanOrder := none
  limit : Option Nat := none
  cursor : Option EntryCursor := none
  deriving DecidableEq

namespace InMemoryStorageState

/-- The tip of a branch. -/
def getTipId (codec : ValueCodec R) (state : InMemoryStorageState R) (branch : String) :
    Except SessionError (Option EntryId) :=
  match state.values.get? (tipSlot branch) with
  | none => .error (.invariant ("unknown branch: " ++ branch))
  | some stored =>
    match codec.readTip stored.value with
    | none => .error corruptValue
    | some tip => .ok tip

/-- The start of a scan, by default the tip. -/
def scanStart (codec : ValueCodec R) (state : InMemoryStorageState R) (branch : String)
    (query : BranchScan) : Except SessionError (Option EntryId) :=
  match query.start with
  | some start => .ok (some start)
  | none => state.getTipId codec branch

/-- Scan a branch, newest entries first unless asked otherwise. -/
def findEntries (codec : ValueCodec R) (state : InMemoryStorageState R) (branch : String)
    (query : Option BranchScan) : Except SessionError (List (Entry R)) := do
  let query := query.getD {}
  match ← state.scanStart codec branch query with
  | none => .ok []
  | some start =>
    state.scanBranch
      { start := start
        stopAtType := query.stopAtType
        stopAtId := query.stopAtId
        entryType := query.entryType
        customType := query.customType
        order := some (query.order.getD .desc)
        limit := query.limit
        cursor := query.cursor }

variable {state : InMemoryStorageState R} {codec : ValueCodec R} {branch : String}

variable {path : List (Entry R)} {tip : Option EntryId} {id : EntryId}

/-- Reading a branch without a query gives its newest entries, newest first, up to the default
limit of a read. -/
theorem Ancestry.findEntries_eq (htip : state.storedTip codec branch = some tip)
    (h : Ancestry state tip path) :
    state.findEntries codec branch none = .ok (path.reverse.take listReadDefaultLimit) := by
  have hget : state.getTipId codec branch = .ok tip := by
    obtain ⟨stored, hstored, hread⟩ := bind_eq_some_iff.mp htip
    rw [getTipId, hstored]
    simp only [hread]
  rw [findEntries]
  simp only [getD_none, scanStart, hget, bind, Except.bind]
  cases tip with
  | none =>
    cases h
    rfl
  | some id =>
    have hscan := @Ancestry.scanBranch_eq _ _ _ { start := id, order := some .desc }
      (fun _ _ _ => rfl) h
    have hall : found { start := id, order := some .desc } path = path.reverse :=
      (filter_true _).trans (upTo_of_none (fun _ => rfl) _)
    rwa [hall] at hscan

/-! ## Ancestries of a coherent state -/

section

variable (hcoherent : Coherent state)

include hcoherent

/-- Sequences increase along an ancestry. -/
theorem Ancestry.increasing (h : Ancestry state tip path) :
    path.Pairwise (·.seq < ·.seq) ∧ ∀ id entry, tip = some id →
      state.entries.get? id = some entry → ∀ other ∈ path, other.seq ≤ entry.seq := by
  induction h with
  | root => exact ⟨.nil, fun _ _ htip => absurd htip (some_ne_none _).symm⟩
  | @child id entry above hget habove ih =>
    obtain ⟨hincr, hle⟩ := ih
    have hlt : ∀ other ∈ above, other.seq < entry.seq := by
      intro other hoth
      cases hpar : entry.parentId with
      | none =>
        rw [hpar] at habove
        cases habove
        cases hoth
      | some parent =>
        obtain ⟨stored, hstored, hlt⟩ := hcoherent.parents id entry parent hget hpar
        exact lt_of_le_of_lt (hle parent stored hpar hstored other hoth) hlt
    refine ⟨pairwise_append.mpr ⟨hincr, pairwise_singleton _ _,
      fun other hoth last hlast => mem_singleton.mp hlast ▸ hlt other hoth⟩, ?_⟩
    intro other found hoth hfnd last hlast
    obtain rfl := some.inj hoth
    obtain rfl := some.inj (hget.symm.trans hfnd)
    rcases mem_append.mp hlast with hmem | hmem
    · exact (hlt last hmem).le
    · exact (mem_singleton.mp hmem ▸ le_rfl)

end

/-! ## Branches of any length -/

/-- What is stored above an entry stays its ancestry when another entry is stored. -/
theorem Ancestry.insert {next : InMemoryStorageState R} {entry : Entry R}
    (hid : state.entries.get? id = none) (hents : next.entries = state.entries.insert id entry)
    (h : Ancestry state tip path) :
    Ancestry next tip path := by
  induction h with
  | root => exact .root
  | @child other stored above hget _ ih =>
    refine .child ?_ ih
    rw [hents, OrderedMap.get?_insert, if_neg, hget]
    rintro rfl
    rw [hid] at hget
    cases hget

/-- A stored parent is not missing. -/
theorem filter_missingParent {parent : Option EntryId}
    (hpar : ∀ p, parent = some p → state.entries.contains p = true) :
    parent.filter (missingParent state.idView []) = none := by
  cases parent with
  | none => rfl
  | some p =>
    have hhas : state.idView.containsEntryId p = true := hpar p rfl
    rw [filter_some, if_neg]
    rw [missingParent, hhas]
    exact false_ne_true

/-- An append of a fresh entry below a stored parent is accepted while sequences remain. -/
theorem apply_append_of_room (codec : ValueCodec R) (branch : String) {parent : Option EntryId}
    (body : NewEntryBody R) (timestamp : Int) (hid : state.containsId id = false)
    (hpar : ∀ p, parent = some p → state.entries.contains p = true)
    (hbody : (NewEntry.mk id parent body).isPending = false)
    (hroom : state.nextSeq.val + 2 < 2 ^ 64) :
    ∃ result first second, second.val = state.nextSeq.val + 1 ∧
      state.apply (appendWrites codec branch id parent body) timestamp = (.ok result,
          (state.applyOne (.entry ((NewEntry.mk id parent body).materialize first timestamp))).applyOne
            (.value (.set second "pi.branch.tip" branch (codec.tip (some id))))) := by
  have hfst := U64.checkedAdd_of_lt (a := state.nextSeq) (n := 0) (by omega)
  have hsnd := U64.checkedAdd_of_lt (a := state.nextSeq) (n := 1) (by omega)
  have hfilter := filter_missingParent hpar
  have hnew : state.idView.containsId id = false := hid
  have hval : validateCommittedWrites (appendWrites codec branch id parent body) state.nextSeq
      state.idView = .ok () := by
    rw [validateCommittedWrites, if_neg (fun hne => hne rfl)]
    simp only [appendWrites, setTip, validateCommittedFrom, hfst, hsnd, hnew, hfilter, hbody,
      contains_nil, Bool.or_self, false_eq_true, if_false, Nat.zero_add]
  rw [apply, hval]
  simp only [appendWrites, setTip, commitWrites, commitWritesFrom, hfst, hsnd, Nat.zero_add,
    bind, Except.bind]
  exact ⟨_, _, _, rfl, rfl⟩

/-- An id with a letter for each entry of its branch. -/
def noteId (n : Nat) : EntryId := String.ofList (List.replicate n 'n')

theorem length_noteId (n : Nat) : (noteId n).length = n := by
  rw [noteId, String.length_ofList, length_replicate]

/-- A branch of notes with short ids, with room for more. -/
structure Notes (codec : ValueCodec R) (n : Nat) (state : InMemoryStorageState R) : Prop where
  run : ∃ history, Run Below state history
  next : state.nextSeq.val = 2 * n + 2
  short : ∀ id, state.containsId id = true → id.length ≤ n
  tip : ∃ tip path, state.storedTip codec "main" = some tip ∧ Ancestry state tip path ∧
    path.length = n

theorem exists_notes (codec : ValueCodec R) (n : Nat) (h : 2 * n + 2 < 2 ^ 64) :
    ∃ state : InMemoryStorageState R, Notes codec n state := by
  induction n with
  | zero =>
    refine ⟨_, ⟨_, .step (.apply [setTip codec "main" none] 0) .new fun _ => ?_⟩, rfl, ?_, ?_⟩
    · exact (by decide : 2 < 2 ^ 64)
    · intro id hid
      cases hid
    · refine ⟨none, [], ?_, .root, rfl⟩
      exact codec.readTip_tip none
  | succ n ih =>
    obtain ⟨state, ⟨history, hrun⟩, hnext, hshort, tip, path, htip, hpath, hlen⟩ := ih (by omega)
    have hfrs : state.containsId (noteId (n + 1)) = false := by
      by_contra hhas
      have hle := hshort _ (eq_true_of_not_eq_false hhas)
      rw [length_noteId] at hle
      omega
    have hpar : ∀ p, tip = some p → state.entries.contains p = true := by
      rintro p rfl
      cases hpath with
      | child hget _ => exact Option.isSome_iff_exists.mpr ⟨_, hget⟩
    obtain ⟨result, first, second, hsnd, happly⟩ :=
      apply_append_of_room codec "main" (.custom "note" none) 0 hfrs hpar rfl (by omega)
    have hstored := OrderedMap.get?_insert state.entries (noteId (n + 1)) (noteId (n + 1))
      (.custom ⟨noteId (n + 1), tip, first, 0, none⟩ "note" none)
    rw [if_pos rfl] at hstored
    refine ⟨_, ⟨_, .step (.apply (appendWrites codec "main" (noteId (n + 1)) tip
      (.custom "note" none)) 0) hrun fun _ => ?_⟩, ?_, ?_, ?_⟩
    · show state.nextSeq.val + 2 < 2 ^ 64
      omega
    all_goals rw [perform, happly]
    · show (second.saturatingAdd U64.one).val = 2 * (n + 1) + 2
      rw [U64.val_saturatingAdd, U64.val_one]
      omega
    · intro id hid
      by_cases hsame : id = noteId (n + 1)
      · rw [hsame, length_noteId]
      · refine Nat.le_succ_of_le (hshort id ?_)
        have hget := OrderedMap.get?_insert state.entries (noteId (n + 1)) id
          (.custom ⟨noteId (n + 1), tip, first, 0, none⟩ "note" none)
        rw [if_neg hsame] at hget
        rw [containsId, OrderedMap.contains, ← hget]
        exact hid
    · refine ⟨some (noteId (n + 1)), _, ?_,
        .child hstored (hpath.insert (containsId_eq_false hfrs).1 rfl), ?_⟩
      · have hvalue := OrderedMap.get?_insert state.values (tipSlot "main") (tipSlot "main")
          ⟨"pi.branch.tip", "main", .value, codec.tip (some (noteId (n + 1))), second⟩
        rw [if_pos rfl] at hvalue
        show Option.bind _ _ = _
        exact (congrArg (Option.bind · _) hvalue).trans (codec.readTip_tip _)
      · rw [length_append, hlen, length_singleton]

end InMemoryStorageState

end PiOxidized.Session
