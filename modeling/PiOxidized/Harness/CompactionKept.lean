/-
# The summary of an earlier compaction

A compaction that asks for the history hands the earlier summary over with it.  One that
splits the first turn behind the earlier compaction has no history to ask for, and what is
sent and written then knows nothing of the earlier summary.
-/

import PiOxidized.Harness.Compaction
import PiOxidized.Math.Infix

namespace PiOxidized.Harness

open List Math
open Session (EntryBase StopReason Usage)
open Session.Jsonl (Json)

/-- A text stands in another. -/
def Occurs (text whole : String) : Prop := text.toList <:+: whole.toList

instance (text whole : String) : Decidable (Occurs text whole) :=
  inferInstanceAs (Decidable (text.toList <:+: whole.toList))

variable {text : String}

variable {whole : String}

theorem Occurs.append_right (h : Occurs text whole) (more : String) :
    Occurs text (whole ++ more) := by
  rw [Occurs, String.toList_append]
  exact infix_append_of_infix h [] more.toList

theorem Occurs.append_left (h : Occurs text whole) (before : String) :
    Occurs text (before ++ whole) := by
  rw [Occurs, String.toList_append, ← append_nil whole.toList]
  exact infix_append_of_infix h before.toList []

theorem occurs_self (text : String) : Occurs text text := infix_refl text.toList

/-- A single letter stands where it is a letter of the text. -/
theorem mem_of_occurs {c : Char} (h : Occurs text whole) (htext : text.toList = [c]) :
    c ∈ whole.toList := by
  rw [Occurs, htext] at h
  exact h.subset (mem_singleton_self c)

/-- Between two texts there may always be a third that adds no occurrence. -/
theorem exists_filler {left right : String} (hleft : ¬ Occurs text left)
    (hright : ¬ Occurs text right) :
    ∃ filler : String, ¬ Occurs text (left ++ filler ++ right) := by
  have hletter : ∃ c : Char, text.toList.head? ≠ some c ∧ text.toList.getLast? ≠ some c := by
    by_cases ha : text.toList.head? ≠ some 'a' ∧ text.toList.getLast? ≠ some 'a'
    · exact ⟨'a', ha⟩
    · by_cases hb : text.toList.head? ≠ some 'b' ∧ text.toList.getLast? ≠ some 'b'
      · exact ⟨'b', hb⟩
      · refine ⟨'c', ?_⟩
        grind
  obtain ⟨c, hfst, hlast⟩ := hletter
  refine ⟨String.ofList (replicate (text.toList.length + 1) c), ?_⟩
  rw [Occurs, String.toList_append, String.toList_append, String.toList_ofList, append_assoc]
  exact not_infix_of_filler hleft hright hfst hlast (Nat.lt_succ_self _)

/-! ## Requests that a computation makes -/

section

variable {X B : Type} {provider : Provider}

/-- What a computation comes to, and what was asked until then. -/
def Requesting.outcome (computation : Requesting X) (asked : List SummaryRequest) :
    Except CompactionError X × List SummaryRequest :=
  Id.run (computation.run.run asked)

theorem outcome_bind (first : Requesting X) (next : X → Requesting B)
    (asked : List SummaryRequest) :
    Requesting.outcome (first >>= next) asked = match Requesting.outcome first asked with
      | (.ok value, asked) => Requesting.outcome (next value) asked
      | (.error failure, asked) => (.error failure, asked) := by
  simp only [Requesting.outcome, ExceptT.run_bind, StateT.run_bind]
  generalize StateT.run first.run asked = came
  rcases came with ⟨failure | value, later⟩
  · rfl
  · rfl

theorem outcome_requestSummary (label : String) (request : SummaryRequest)
    (asked : List SummaryRequest) :
    Requesting.outcome (requestSummary provider label request) asked =
      (classifySummaryResponse label (provider asked request), asked ++ [request]) :=
  rfl

end

/-! ## Runs of a compaction -/

section

variable {formats : TextFormats} {provider : Provider} {prep : CompactionPreparation}
  {opts : CompactGenerationOptions}

/-- Every run that succeeds handed the text to a request, or has it in its result. -/
def KeepsSummary (formats : TextFormats) (preparation : CompactionPreparation)
    (options : CompactGenerationOptions) (text : String) : Prop :=
  ∀ (provider : Provider) (result : CompactResult) (requests : List SummaryRequest),
    runCompaction formats provider preparation options = (.ok result, requests) →
      (∃ request ∈ requests, Occurs text request.prompt) ∨ Occurs text result.summary

/-- The history of a preparation is asked for, unless only the first part of a split turn is. -/
def AsksHistory (preparation : CompactionPreparation) : Prop :=
  preparation.isSplitTurn = true → preparation.turnPrefixMessages ≠ [] →
    preparation.messagesToSummarize ≠ []

/-- What is sent and written without the history has the text anyway. -/
def OccursAnyway (formats : TextFormats) (preparation : CompactionPreparation)
    (options : CompactGenerationOptions) (text : String) : Prop :=
  Occurs text (prefixRequest formats preparation options).prompt ∨
    Occurs text (noPriorHistory ++ turnContextHeader) ∨
      Occurs text (formatFileOperations (computeFileLists preparation.fileOps))

variable {text : String}

/-- The request for the history has the earlier summary in it. -/
theorem occurs_historyRequest (h : prep.previousSummary = some text) :
    Occurs text (historyRequest formats prep opts).prompt := by
  have hblock : Occurs text (previousSummaryBlock prep.previousSummary) := by
    rw [h]
    exact ((occurs_self text).append_left _).append_right _
  exact (hblock.append_right _).append_left _

/-- What a compaction makes of the texts of its summaries. -/
def finishCompaction (preparation : CompactionPreparation) (generated : GeneratedSummary) :
    CompactResult where
  summary := generated.text ++ formatFileOperations (computeFileLists preparation.fileOps)
  tokensBefore := preparation.tokensBefore
  usage := generated.usage
  retainedTail := preparation.retainedTail
  details := computeFileLists preparation.fileOps

theorem runCompaction_eq : runCompaction formats provider prep opts =
    match (generateSummaries formats provider prep opts).outcome [] with
    | (.ok generated, asked) => (.ok (finishCompaction prep generated), asked)
    | (.error failure, asked) => (.error failure, asked) := by
  change Requesting.outcome (generateSummaries formats provider prep opts >>=
    fun generated => pure (finishCompaction prep generated)) [] = _
  rw [outcome_bind]
  rcases (generateSummaries formats provider prep opts).outcome [] with
    ⟨failure | generated, asked⟩
  · rfl
  · rfl

/-- A compaction that asks for the history asks for it first. -/
theorem mem_requests_of_asksHistory (h : AsksHistory prep) {res : CompactResult}
    {requests : List SummaryRequest}
    (hrun : runCompaction formats provider prep opts = (.ok res, requests)) :
    historyRequest formats prep opts ∈ requests := by
  have hall : historyRequest formats prep opts ∈
      ((generateSummaries formats provider prep opts).outcome []).2 := by
    rw [generateSummaries]
    split_ifs with hsplit hemp
    · have hfst : prep.turnPrefixMessages ≠ [] := by
        intro hnil
        rw [hnil] at hsplit
        exact Bool.false_ne_true hsplit.2
      exact absurd (isEmpty_iff.mp hemp) (h hsplit.1 hfst)
    · rw [outcome_bind, outcome_requestSummary]
      cases classifySummaryResponse "Summarization"
        (provider [] (historyRequest formats prep opts)) with
      | error failure => exact mem_singleton_self _
      | ok history =>
        dsimp only
        rw [outcome_bind, outcome_requestSummary]
        cases classifySummaryResponse "Turn prefix summarization" (provider _ _) with
        | error | ok => exact mem_cons_self
    · exact mem_singleton_self _
  rw [runCompaction_eq] at hrun
  cases houtcome : (generateSummaries formats provider prep opts).outcome [] with
  | mk came asked =>
    rw [houtcome] at hrun hall
    cases came with
    | error failure => cases hrun
    | ok generated =>
      cases hrun
      exact hall

/-- Only the first part of a split turn is asked for. -/
structure SkipsHistory (preparation : CompactionPreparation) : Prop where
  split : preparation.isSplitTurn = true
  turnPrefix : preparation.turnPrefixMessages ≠ []
  empty : preparation.messagesToSummarize = []

theorem skipsHistory_of_not_asksHistory (h : ¬ AsksHistory prep) : SkipsHistory prep := by
  rw [AsksHistory, not_forall] at h
  obtain ⟨hsplit, h⟩ := h
  rw [not_forall] at h
  obtain ⟨hfst, hemp⟩ := h
  exact ⟨hsplit, hfst, not_not.mp hemp⟩

/-- Without a history to ask for, the result is the fixed text, the answer and the files. -/
theorem runCompaction_of_skipsHistory (h : SkipsHistory preparation) :
    runCompaction formats provider preparation opts =
      match classifySummaryResponse "Turn prefix summarization"
        (provider [] (prefixRequest formats preparation opts)) with
      | .ok answer =>
        (.ok (finishCompaction preparation
          ⟨noPriorHistory ++ turnContextHeader ++ answer.text, answer.usage⟩),
          [prefixRequest formats preparation opts])
      | .error failure => (.error failure, [prefixRequest formats preparation opts]) := by
  have hbranch : preparation.isSplitTurn = true ∧ (!preparation.turnPrefixMessages.isEmpty) = true := by
    refine ⟨h.split, ?_⟩
    rw [Bool.not_eq_true', isEmpty_eq_false_iff]
    exact h.turnPrefix
  rw [runCompaction_eq, generateSummaries, if_pos hbranch,
    if_pos (isEmpty_iff.mpr h.empty), outcome_bind, outcome_requestSummary]
  cases classifySummaryResponse "Turn prefix summarization"
    (provider [] (prefixRequest formats preparation opts)) with
  | error failure => rfl
  | ok answer => rfl

/-- A provider that always answers with a text. -/
def answering (text : String) : Provider := fun _ _ =>
  .ok ⟨[.text text], {}, .stop, none, 0⟩

variable (formats opts) in
/-- Some answer makes a result without the text. -/
theorem exists_run_without (h : SkipsHistory prep)
    (hhead : ¬ Occurs text (noPriorHistory ++ turnContextHeader))
    (hfiles : ¬ Occurs text (formatFileOperations (computeFileLists prep.fileOps))) :
    ∃ (provider : Provider) (res : CompactResult), runCompaction formats provider prep opts =
          (.ok res, [prefixRequest formats prep opts]) ∧
        ¬ Occurs text res.summary := by
  obtain ⟨filler, hfiller⟩ := exists_filler hhead hfiles
  refine ⟨answering filler, finishCompaction prep
    ⟨noPriorHistory ++ turnContextHeader ++ filler, {}⟩, ?_, hfiller⟩
  rw [runCompaction_of_skipsHistory h]
  rfl

/-- What is sent and written anyway is sent and written in every run without the history. -/
theorem keepsSummary_of_occursAnyway (h : SkipsHistory prep)
    (hocc : OccursAnyway formats prep opts text) :
    KeepsSummary formats prep opts text := by
  intro provider res requests hrun
  rw [runCompaction_of_skipsHistory h] at hrun
  cases hans : classifySummaryResponse "Turn prefix summarization"
    (provider [] (prefixRequest formats prep opts)) with
  | error failure =>
    rw [hans] at hrun
    cases hrun
  | ok answer =>
    rw [hans] at hrun
    cases hrun
    rcases hocc with hprompt | hhead | hfiles
    · exact .inl ⟨_, mem_singleton_self _, hprompt⟩
    · exact .inr ((hhead.append_right _).append_right _)
    · exact .inr (hfiles.append_left _)

/-- A run keeps an earlier summary exactly if it asks for the history, or the summary stands in
what is sent and written anyway. -/
theorem keepsSummary_iff_asksHistory (hprev : prep.previousSummary = some text) :
    KeepsSummary formats prep opts text ↔
      AsksHistory prep ∨ OccursAnyway formats prep opts text := by
  by_cases hasks : AsksHistory prep
  · refine iff_of_true ?_ (.inl hasks)
    intro provider res requests hrun
    exact .inl ⟨_, mem_requests_of_asksHistory hasks hrun, occurs_historyRequest hprev⟩
  · have hskips := skipsHistory_of_not_asksHistory hasks
    refine ⟨fun hkps => .inr ?_, fun hor => ?_⟩
    · by_contra hnone
      rw [OccursAnyway, not_or, not_or] at hnone
      obtain ⟨provider, res, hrun, hwithout⟩ :=
        exists_run_without formats opts hskips hnone.2.1 hnone.2.2
      rcases hkps provider res _ hrun with ⟨request, hreq, hocc⟩ | hocc
      · rw [mem_singleton.mp hreq] at hocc
        exact hnone.1 hocc
      · exact hwithout hocc
    · exact keepsSummary_of_occursAnyway hskips (hor.resolve_left hasks)

end

/-! ## Compactions of a path -/

section

variable {formats : TextFormats} {path : List Entry} {settings : CompactionSettings}
  {prep : CompactionPreparation} {opts : CompactGenerationOptions}

/-- The cut splits a turn that has messages before the cut and none before itself. -/
structure SplitsFirstTurn (formats : TextFormats) (path : List Entry)
    (settings : CompactionSettings) : Prop where
  split : (pathCut formats path settings).isSplitTurn = true
  turnPrefix : turnPrefixMessages (compactableEntries path) (pathCut formats path settings) ≠ []
  empty : historyMessages (compactableEntries path) (pathCut formats path settings) = []

theorem skipsHistory_iff (h : prepareCompaction formats path settings = some prep) :
    SkipsHistory prep ↔ SplitsFirstTurn formats path settings := by
  rw [prepareCompaction] at h
  split_ifs at h
  cases h
  exact ⟨fun h => ⟨h.split, h.turnPrefix, h.empty⟩, fun h => ⟨h.split, h.turnPrefix, h.empty⟩⟩

theorem not_asksHistory_iff (prep : CompactionPreparation) :
    ¬ AsksHistory prep ↔ SkipsHistory prep :=
  ⟨skipsHistory_of_not_asksHistory, fun h hasks => hasks h.split h.turnPrefix h.empty⟩

/-- Every run of a compaction keeps the earlier summary, exactly unless the cut splits the first
turn and the summary does not happen to stand in what is sent and written anyway. -/
theorem keepsSummary_iff {text : String} (h : prepareCompaction formats path settings = some prep)
    (hprevious : prep.previousSummary = some text) :
    KeepsSummary formats prep opts text ↔ (SplitsFirstTurn formats path settings →
        OccursAnyway formats prep opts text) := by
  rw [keepsSummary_iff_asksHistory hprevious, ← skipsHistory_iff h, ← not_asksHistory_iff,
    or_iff_not_imp_left]

/-- A format that spells nothing. -/
def blankFormats : TextFormats := ⟨fun _ => "", fun _ => "", fun _ => none⟩

def baseOf (id : String) : EntryBase := ⟨id, none, U64.zero, 0, none⟩

def userEntry (id text : String) : Entry := .message (baseOf id) (.llm (.user ⟨.text text, 0⟩))

def assistantEntry (id text : String) : Entry :=
  .message (baseOf id) (.llm (.assistant ⟨[.text text], {}, .stop, none, 0⟩))

/-- A turn that went on after a compaction which kept nothing. -/
def longTurn : List Entry := [.compaction (baseOf "c") "§" [] U64.zero none, userEntry "u" "go",
    assistantEntry "a" "first", assistantEntry "b" "second"]

def plainOptions : CompactGenerationOptions := ⟨⟨U64.zero, false⟩, none, none⟩

/-- A cut that keeps nothing of the path splits no turn. -/
theorem keepsSummary_longTurn : ∃ prep : CompactionPreparation,
    prepareCompaction blankFormats longTurn ⟨true, U64.zero, U64.zero⟩ = some prep ∧
      KeepsSummary blankFormats prep plainOptions "§" := by
  have hprepared : prepareCompaction blankFormats longTurn ⟨true, U64.zero, U64.zero⟩ = some _ := rfl
  refine ⟨_, hprepared, (keepsSummary_iff hprepared rfl).mpr ?_⟩
  intro hsplits
  exact absurd hsplits.split (by decide +kernel)

theorem notMem_turnPrefixSummarizationPrompt : '§' ∉ turnPrefixSummarizationPrompt.toList := by
  delta turnPrefixSummarizationPrompt
  simp only [String.toList_append, mem_append, not_or]
  refine ⟨⟨⟨⟨⟨?_, ?_⟩, ?_⟩, ?_⟩, ?_⟩, ?_⟩
  all_goals
    rw [String.toList_ofList]
    decide +kernel

/-- A cut inside the first turn behind a compaction forgets what was summarized. -/
theorem split_forgets_summary : ¬ ∀ (formats : TextFormats) (path : List Entry)
    (settings : CompactionSettings) (prep : CompactionPreparation)
    (opts : CompactGenerationOptions) (text : String),
    prepareCompaction formats path settings = some prep →
      prep.previousSummary = some text → KeepsSummary formats prep opts text := by
  intro hall
  have hkeeps := hall blankFormats longTurn ⟨true, U64.zero, U64.one⟩ _ plainOptions "§" rfl rfl
  have hconversation : conversationBlock blankFormats (turnPrefixMessages (compactableEntries longTurn)
      (pathCut blankFormats longTurn ⟨true, U64.zero, U64.one⟩)) =
      "<conversation>\n[User]: go\n\n[Assistant]: first\n</conversation>\n\n" := by
    decide +kernel
  rcases hkeeps (answering "done") _ _ rfl with ⟨request, hrequest, hoccurs⟩ | hoccurs
  · rw [List.mem_singleton.mp hrequest] at hoccurs
    have hmem := mem_of_occurs hoccurs rfl
    change _ ∈ String.toList (conversationBlock _ _ ++ turnPrefixSummarizationPrompt) at hmem
    rw [String.toList_append, mem_append] at hmem
    rcases hmem with hmem | hmem
    · rw [hconversation, String.toList_ofList] at hmem
      revert hmem
      decide +kernel
    · exact notMem_turnPrefixSummarizationPrompt hmem
  · revert hoccurs
    decide +kernel

end

end PiOxidized.Harness
