/-
# The conversation a model sees

A generation, the compaction threshold and a manual compaction all read the branch of their
lane and project the part of it that is live: the latest compaction and what came after it.
They read the branch without a limit of their own, so the default limit of a read applies.
-/

import PiOxidized.Harness.CompactionKept
import PiOxidized.Session.Branch

namespace PiOxidized.Harness

open List Math
open Agent (ToolResultMessage)
open Session (EntryId SessionError ValueCodec InMemoryStorageState)
open Session.InMemoryStorageState (Ancestry)
open Session.Jsonl (Json)

variable {R : Type}

/-- The typed readings of the contents that storage leaves alone. -/
structure Contents (R : Type) where
  system : R → SystemMessage
  user : R → UserMessage
  assistant : R → AssistantMessage
  toolResult : R → ToolResultMessage Json
  payload : R → JsonMap
  details : R → Json

namespace Contents

variable (contents : Contents R)

def message : Session.AgentMessage R → AgentMessage
  | .llm (.system content) => .llm (.system (contents.system content))
  | .llm (.user content) => .llm (.user (contents.user content))
  | .llm (.assistant stopReason content) =>
    .llm (.assistant { contents.assistant content with stopReason := stopReason })
  | .llm (.toolResult content) => .llm (.toolResult (contents.toolResult content))
  | .custom role payload => .custom ⟨role, contents.payload payload⟩

/-- A stored entry as compaction looks at it. -/
def entry : Session.Entry R → Entry
  | .message base message _ => .message base (contents.message message)
  | .compaction base summary retainedTail tokensBefore details _ _ =>
    .compaction base summary (retainedTail.map contents.message) tokensBefore
      (details.map contents.details)
  | .branchSummary base fromId summary _ _ _ => .branchSummary base fromId summary
  | .custom base _ _ => .custom base

end Contents

/-- An application's projection of its own entries into the context. -/
abbrev EntryProjector (R : Type) :=
  Session.Entry R → Except SessionError (Option (List AgentMessage))

/-- What a read of the context depends on beside the branch. -/
structure ContextReader (R : Type) where
  codec : ValueCodec R
  contents : Contents R
  /-- The registered projectors, by custom type. -/
  entryProjectors : String → Option (EntryProjector R)
  formats : TextFormats

def isCompaction : Session.Entry R → Bool
  | .compaction _ _ _ _ _ _ _ => true
  | _ => false

/-- The entries of a path from the latest compaction on, or all. -/
def contextEntries (path : List (Session.Entry R)) : List (Session.Entry R) :=
  match path.reverse.findIdx? isCompaction with
  | some behind => path.drop (path.length - behind - 1)
  | none => path

/-- The first index whose group reaches beyond an offset. -/
def groupOf (index offset : Nat) : List Nat → Option Nat
  | [] => none
  | count :: counts =>
    if index < offset + count then some 0
    else (groupOf index (offset + count) counts).map (· + 1)

/-- The index of the newest message that says what a context cost. -/
def lastUsageIndex (messages : List AgentMessage) : Option Nat :=
  (messages.reverse.findIdx? fun message => (getAssistantUsage message).isSome).map fun behind =>
    messages.length - behind - 1

/-- Whether a context of some size has to be compacted. -/
def shouldCompact (contextTokens contextWindow : U64) (settings : CompactionSettings) : Bool :=
  settings.enabled && decide (contextWindow.val - settings.reserveTokens.val < contextTokens.val)

/-- The window that is assumed of a model that names none. -/
def defaultContextWindow : U64 := ⟨128000, by decide⟩

namespace ContextReader

variable (reader : ContextReader R)

/-- The entries of a branch, oldest first. -/
def branchEntries (state : InMemoryStorageState R) (branch : String) :
    Except SessionError (List (Session.Entry R)) := do
  let entries ← state.findEntries reader.codec branch none
  .ok entries.reverse

/-- The messages one entry contributes to the context. -/
def projectEntry (entry : Session.Entry R) : Except SessionError (List AgentMessage) :=
  match entry with
  | .custom _ customType _ =>
    match reader.entryProjectors customType with
    | some projector => do
      let messages ← projector entry
      .ok (messages.getD [])
    | none => .ok []
  | _ => .ok (sessionEntryToContextMessages (reader.contents.entry entry))

/-- The messages of the live part of a path. -/
def contextMessages (entries : List (Session.Entry R)) :
    Except SessionError (List AgentMessage) := do
  let groups ← (contextEntries entries).mapM reader.projectEntry
  .ok groups.flatten

/-- The tokens of the live part.  What a provider counted is good only if it was counted after
the latest compaction. -/
def projectedContextTokens (entries : List (Session.Entry R)) : Except SessionError U64 := do
  let projected := contextEntries entries
  let groups ← projected.mapM reader.projectEntry
  let messages := groups.flatten
  let estimate := estimateContextTokens reader.formats messages
  match lastUsageIndex messages with
  | none => .ok estimate
  | some anchorIndex =>
    match projected.reverse.findIdx? isCompaction with
    | none => .ok estimate
    | some behind =>
      let compactionPosition := projected.length - behind - 1
      let anchorEntry := groupOf anchorIndex 0 (groups.map List.length)
      if anchorEntry.any fun position => decide (compactionPosition < position) then
        .ok estimate
      else .ok (saturate (messages.map (estimateTokens reader.formats)).sum)

/-- Whether the live part crosses the threshold of the configuration. -/
def compactionThresholdMet (contextWindow : U64) (settings : CompactionSettings)
    (entries : List (Session.Entry R)) : Except SessionError Bool := do
  let contextTokens ← reader.projectedContextTokens entries
  let contextWindow := if contextWindow = U64.zero then defaultContextWindow else contextWindow
  .ok (shouldCompact contextTokens contextWindow settings)

/-- The messages a generation is started with. -/
def generationMessages (state : InMemoryStorageState R) (branch : String) :
    Except SessionError (List AgentMessage) := do
  let entries ← reader.branchEntries state branch
  reader.contextMessages entries

/-- The decision of a checkpoint whether to compact the branch. -/
def branchThresholdMet (state : InMemoryStorageState R) (branch : String) (contextWindow : U64)
    (settings : CompactionSettings) : Except SessionError Bool := do
  let entries ← reader.branchEntries state branch
  reader.compactionThresholdMet contextWindow settings entries

/-- What a compaction of the branch starts from. -/
def branchPreparation (state : InMemoryStorageState R) (branch : String)
    (settings : CompactionSettings) : Except SessionError (Option CompactionPreparation) := do
  let entries ← reader.branchEntries state branch
  .ok (prepareCompaction reader.formats (entries.map reader.contents.entry) settings)

end ContextReader

/-! ## The live part -/

/-- The live part of a path: the latest compaction and what came after it, or everything. -/
inductive Live : List (Session.Entry R) → List (Session.Entry R) → Prop
  | whole {path : List (Session.Entry R)} : (∀ entry ∈ path, isCompaction entry = false) →
      Live path path
  | since {compaction : Session.Entry R} (before : List (Session.Entry R))
      {after : List (Session.Entry R)} : isCompaction compaction = true →
      (∀ entry ∈ after, isCompaction entry = false) →
      Live (before ++ compaction :: after) (compaction :: after)

/-- Looking back from the end, an element is found behind those that came after it. -/
theorem findIdx?_reverse_append {X : Type} {p : X → Bool} (pre : List X) {a : X}
    {after : List X} (ha : p a = true) (haft : ∀ b ∈ after, p b = false) :
    (pre ++ a :: after).reverse.findIdx? p = some after.length := by
  have hnone : after.reverse.findIdx? p = none := by
    rw [findIdx?_eq_none_iff]
    intro b hb
    exact haft b (mem_reverse.mp hb)
  rw [reverse_append, reverse_cons, append_assoc, findIdx?_append, hnone,
    singleton_append, findIdx?_cons, if_pos ha]
  simp

theorem length_sub_append {X : Type} (pre : List X) (a : X) (after : List X) :
    (pre ++ a :: after).length - after.length - 1 = pre.length := by
  rw [length_append, length_cons]
  omega

variable {path live : List (Session.Entry R)}

variable {compaction : Entry}

/-- The context of a path is its live part. -/
theorem Live.contextEntries_eq (h : Live path live) : contextEntries path = live := by
  cases h with
  | whole hnone =>
    have hfind : path.reverse.findIdx? isCompaction = none := by
      rw [findIdx?_eq_none_iff]
      intro entry hmem
      exact hnone entry (mem_reverse.mp hmem)
    rw [contextEntries, hfind]
  | since pre hcompaction haft =>
    rw [contextEntries, findIdx?_reverse_append pre hcompaction haft]
    simp only [length_sub_append]
    rw [drop_left]

/-- The live part is its own live part. -/
theorem Live.self (h : Live path live) : Live live live := by
  cases h with
  | whole hnone => exact .whole hnone
  | since pre hcompaction haft => exact .since [] hcompaction haft

/-- A path that goes back to a compaction has a previous compaction. -/
theorem exists_previousCompaction (after : List Entry) (h : compaction.isCompaction = true) :
    ∃ found, previousCompaction (compaction :: after) = some found := by
  cases compaction with
  | compaction base summary retainedTail tokensBefore details =>
    rw [previousCompaction.eq_def]
    simp only
    cases previousCompaction after with
    | some later => exact ⟨later, rfl⟩
    | none => exact ⟨_, rfl⟩
  | message | branchSummary | custom => cases h

/-- Behind a compaction an earlier part of the path is not looked at. -/
theorem previousCompaction_append (pre : List Entry) {path : List Entry}
    {found : PreviousCompaction} (h : previousCompaction path = some found) :
    previousCompaction (pre ++ path) = some found := by
  induction pre with
  | nil => exact h
  | cons entry pre ih =>
    rw [cons_append, previousCompaction.eq_def]
    simp only [ih]

theorem isCompaction_entry (contents : Contents R) (entry : Session.Entry R) :
    (contents.entry entry).isCompaction = isCompaction entry := by
  cases entry <;> rfl

/-- The context of a path goes back to its latest compaction. -/
theorem buildContextEntries_append (pre : List Entry) {after : List Entry}
    (h : compaction.isCompaction = true) (haft : ∀ entry ∈ after, entry.isCompaction = false) :
    buildContextEntries (pre ++ compaction :: after) = compaction :: after := by
  have hbuild (path : List Entry) : buildContextEntries path =
      match path.reverse.findIdx? Entry.isCompaction with
      | some behind => path.drop (path.length - behind - 1)
      | none => path := rfl
  rw [hbuild, findIdx?_reverse_append pre h haft]
  simp only [length_sub_append]
  rw [drop_left]

/-- A compaction prepared from a path is one prepared from its live part. -/
theorem Live.prepareCompaction_eq (h : Live path live) (contents : Contents R)
    (formats : TextFormats) (settings : CompactionSettings) :
    prepareCompaction formats (path.map contents.entry) settings =
      prepareCompaction formats (live.map contents.entry) settings := by
  cases h with
  | whole _ => rfl
  | @since compaction pre after hcompaction haft =>
    have hent : (contents.entry compaction).isCompaction = true := by
      rw [isCompaction_entry, hcompaction]
    have hnone : ∀ entry ∈ after.map contents.entry, entry.isCompaction = false := by
      intro entry hmem
      obtain ⟨stored, hstored, rfl⟩ := mem_map.mp hmem
      rw [isCompaction_entry, haft stored hstored]
    rw [map_append, map_cons]
    generalize pre.map contents.entry = pre
    generalize after.map contents.entry = after at hnone
    generalize contents.entry compaction = compaction at hent
    obtain ⟨found, hfnd⟩ := exists_previousCompaction after hent
    have hprev := previousCompaction_append pre hfnd
    have hlast : (pre ++ compaction :: after).getLast? = (compaction :: after).getLast? := by
      rw [getLast?_append, getLast?_cons, Option.some_or]
    have hcompactable : compactableEntries (pre ++ compaction :: after) =
        compactableEntries (compaction :: after) := by
      rw [compactableEntries, compactableEntries, hprev, hfnd]
    have hcut : pathCut formats (pre ++ compaction :: after) settings =
        pathCut formats (compaction :: after) settings := by
      rw [pathCut, pathCut, hcompactable]
    have hctx : buildContextEntries (pre ++ compaction :: after) =
        buildContextEntries (compaction :: after) := by
      rw [buildContextEntries_append pre hent hnone]
      exact (buildContextEntries_append [] hent hnone).symm
    rw [prepareCompaction, prepareCompaction, hlast, hcompactable, hcut, hctx, hprev, hfnd]
    simp only [append_eq_nil_iff, cons_ne_nil, and_false]

/-! ## Whole branches -/

variable {state : InMemoryStorageState R} {branch : String}

/-- Every reader of a branch sees the path to its tip. -/
structure SeesConversation (reader : ContextReader R) (state : InMemoryStorageState R)
    (branch : String) (path : List (Session.Entry R)) : Prop where
  entries : reader.branchEntries state branch = .ok path
  generation : ∀ live, Live path live → reader.generationMessages state branch =
    (live.mapM reader.projectEntry).map List.flatten
  threshold : ∀ live contextWindow settings, Live path live →
    reader.branchThresholdMet state branch contextWindow settings =
      reader.compactionThresholdMet contextWindow settings live
  preparation : ∀ live settings, Live path live → reader.branchPreparation state branch settings =
      .ok (prepareCompaction reader.formats (live.map reader.contents.entry) settings)

/-- A reader gets the newest entries of a branch, up to the default limit of a read. -/
theorem branchEntries_eq (reader : ContextReader R) {tip : Option EntryId}
    (htip : state.storedTip reader.codec branch = some tip) (h : Ancestry state tip path) :
    reader.branchEntries state branch =
      .ok (path.drop (path.length - Session.listReadDefaultLimit)) := by
  rw [ContextReader.branchEntries, h.findEntries_eq htip]
  show Except.ok _ = _
  rw [reverse_take, reverse_reverse, length_reverse]

/-- The whole branch is seen exactly if it is no longer than the default limit of a read. -/
theorem seesConversation_iff (reader : ContextReader R) {tip : Option EntryId}
    (htip : state.storedTip reader.codec branch = some tip) (h : Ancestry state tip path) :
    SeesConversation reader state branch path ↔ path.length ≤ Session.listReadDefaultLimit := by
  have hread := branchEntries_eq reader htip h
  constructor
  · intro hsees
    have hsame := congrArg List.length (Except.ok.inj (hread.symm.trans hsees.entries))
    rw [length_drop] at hsame
    by_contra hlong
    have hpositive : 0 < Session.listReadDefaultLimit := Nat.succ_pos 999
    omega
  · intro hshort
    rw [Nat.sub_eq_zero_of_le hshort, drop_zero] at hread
    constructor
    case entries => exact hread
    case generation =>
      intro live hlive
      rw [ContextReader.generationMessages, hread]
      show reader.contextMessages path = _
      rw [ContextReader.contextMessages, hlive.contextEntries_eq]
      cases live.mapM reader.projectEntry with
      | error | ok => rfl
    case threshold =>
      intro live contextWindow settings hlive
      rw [ContextReader.branchThresholdMet, hread]
      show reader.compactionThresholdMet contextWindow settings path = _
      rw [ContextReader.compactionThresholdMet, ContextReader.compactionThresholdMet,
        ContextReader.projectedContextTokens, ContextReader.projectedContextTokens,
        hlive.contextEntries_eq, hlive.self.contextEntries_eq]
    case preparation =>
      intro live settings hlive
      rw [ContextReader.branchPreparation, hread, ← hlive.prepareCompaction_eq]
      rfl

/-- A reader without projectors, of contents that say little. -/
def plainReader : ContextReader (Option EntryId ⊕ Unit) where
  codec := Session.tipOrOther
  contents :=
    { system := fun _ => ⟨.text "", none, 0⟩
      user := fun _ => ⟨.text "hi", 0⟩
      assistant := fun _ => ⟨[], {}, .stop, none, 0⟩
      toolResult := fun _ => ⟨"", "", [], none, none, false, 0⟩
      payload := fun _ => []
      details := fun _ => .null }
  entryProjectors := fun _ => none
  formats := blankFormats

/-- A branch of a message and a note. -/
def greeted : InMemoryStorageState (Option EntryId ⊕ Unit) :=
  (InMemoryStorageState.new.apply [.entry ⟨"a", none, .message (.llm (.user (.inr ()))) false⟩,
    .entry ⟨"b", some "a", .custom "note" none⟩,
    .value (.set "pi.branch.tip" "main" (.inl (some "b")))] 0).2

/-- Both entries of the branch are seen. -/
theorem seesConversation_greeted : ∃ path : List (Session.Entry (Option EntryId ⊕ Unit)),
    path.map Session.Entry.entryType = [.message, .custom] ∧
      SeesConversation plainReader greeted "main" path := by
  have hpath : Ancestry greeted (some "b")
      ([] ++ [.message ⟨"a", none, ⟨1, by decide⟩, 0, none⟩ (.llm (.user (.inr ()))) false] ++
        [.custom ⟨"b", some "a", ⟨2, by decide⟩, 0, none⟩ "note" none]) :=
    .child (by decide +kernel) (.child (by decide +kernel) .root)
  exact ⟨_, rfl, (seesConversation_iff plainReader (by decide +kernel) hpath).mpr (by decide)⟩

/-- The first of a thousand and one notes is not seen. -/
theorem long_branch_not_seen : ¬ ∀ (reader : ContextReader (Option EntryId ⊕ Unit))
    (state : InMemoryStorageState (Option EntryId ⊕ Unit)) (history : List U64) (branch : String)
    (tip : Option EntryId) (path : List (Session.Entry (Option EntryId ⊕ Unit))),
    InMemoryStorageState.Run InMemoryStorageState.Below state history →
      state.storedTip reader.codec branch = some tip → Ancestry state tip path →
        SeesConversation reader state branch path := by
  intro hall
  obtain ⟨state, hnotes⟩ := InMemoryStorageState.exists_notes Session.tipOrOther 1001 (by decide)
  obtain ⟨history, hrun⟩ := hnotes.run
  obtain ⟨tip, path, htip, hpath, hlength⟩ := hnotes.tip
  have hentries := (hall plainReader state history "main" tip path hrun htip hpath).entries
  rw [branchEntries_eq plainReader htip hpath] at hentries
  have hsame := congrArg List.length (Except.ok.inj hentries)
  rw [length_drop, hlength] at hsame
  exact absurd hsame (by decide)

end PiOxidized.Harness
