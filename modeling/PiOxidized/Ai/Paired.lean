/-
# Tool calls and their results

The history for a model answers every tool call once, right behind the message that has it, unless
a call of the input has two results or a message that is dropped has one: results are never
dropped with their message.
-/

import PiOxidized.Ai.Transform
import Mathlib.Data.List.Nodup

namespace PiOxidized.Ai

open List Math

/-! ## Pairs of calls and results -/

def AssistantMessage.callIds (assistant : AssistantMessage) : List String :=
  assistant.toolCalls.map ToolCall.id

/-- Every tool call is answered by exactly one result, with only results between the message and
it, and every result answers a call of the closest message in front; some calls are waiting. -/
def Paired (waiting : List String) : List Message → Prop
  | [] => waiting = []
  | .system _ :: messages => waiting = [] ∧ Paired [] messages
  | .user _ :: messages => waiting = [] ∧ Paired [] messages
  | .assistant assistant :: messages => waiting = [] ∧ Paired assistant.callIds messages
  | .toolResult result :: messages =>
    result.toolCallId ∈ waiting ∧ Paired (waiting.erase result.toolCallId) messages

/-- Every result names a call of the closest assistant message in front, with no user message in
between; `calls` are those of the message in front. -/
def Named (calls : List String) : List Message → Prop
  | [] => True
  | .system _ :: messages => Named calls messages
  | .user _ :: messages => Named [] messages
  | .assistant assistant :: messages => Named assistant.callIds messages
  | .toolResult result :: messages => result.toolCallId ∈ calls ∧ Named calls messages

/-- The ids of the tool calls of a history. -/
def callIds : List Message → List String
  | [] => []
  | .assistant assistant :: messages => assistant.callIds ++ callIds messages
  | _ :: messages => callIds messages

/-- The ids that the results of a history name. -/
def resultIds : List Message → List String
  | [] => []
  | .toolResult result :: messages => result.toolCallId :: resultIds messages
  | _ :: messages => resultIds messages

def users (messages : List Message) : List UserMessage := messages.filterMap fun
    | .user user => some user
    | _ => none

def systems (messages : List Message) : List SystemMessage := messages.filterMap fun
    | .system system => some system
    | _ => none

/-- The messages of the model, without those that failed. -/
def answers (messages : List Message) : List AssistantMessage := messages.filterMap fun
    | .assistant assistant => if assistant.failed then none else some assistant
    | _ => none

/-- The id that a call of a message has for the model. -/
def renamed (model : Model) (normalize : NormalizeToolCallId) (assistant : AssistantMessage)
    (id : String) : String :=
  if sameModel model assistant then id else normalize id model assistant

/-- What the history for a model is to be: calls and results are paired, the calls are those of
the messages that did not fail, under their new ids, and the other messages are kept. -/
def Normalized (model : Model) (normalize : NormalizeToolCallId) (messages output : List Message) :
    Prop :=
  Paired [] output ∧
    (answers output).map AssistantMessage.callIds =
      (answers messages).map (fun assistant =>
        assistant.callIds.map (renamed model normalize assistant)) ∧
    users output = (users messages).map (transformUser model) ∧ systems output = systems messages

/-- No call has two results, and no message that failed has one. -/
def AnsweredOnce (messages : List Message) : Prop := (resultIds messages).Nodup ∧
    ∀ assistant, .assistant assistant ∈ messages → assistant.failed = true →
      ∀ id ∈ resultIds messages, id ∉ assistant.callIds

/-- Every result is the first one of a call that waits. -/
def FirstAnswers (waiting : List String) : List Message → Prop
  | [] => True
  | .system _ :: messages => FirstAnswers waiting messages
  | .user _ :: messages => FirstAnswers [] messages
  | .assistant assistant :: messages =>
    FirstAnswers (if assistant.failed then [] else assistant.callIds) messages
  | .toolResult result :: messages =>
    result.toolCallId ∈ waiting ∧ FirstAnswers (waiting.erase result.toolCallId) messages

variable {msgs : List Message} {calls : List String}

variable {asst : AssistantMessage}

theorem resultIds_subset (h : Named calls msgs) :
    ∀ id ∈ resultIds msgs, id ∈ calls ++ callIds msgs := by
  induction msgs generalizing calls with
  | nil =>
    intro id hid
    cases hid
  | cons msg msgs ih =>
    intro id hid
    cases msg with
    | system system => exact ih h id hid
    | user | assistant => exact mem_append_right calls (ih h id hid)
    | toolResult res =>
      rcases mem_cons.mp hid with rfl | hid
      · exact mem_append_left _ h.1
      · exact ih h.2 id hid

/-- Behind the next message no result names one of the calls in front of it. -/
theorem not_mem_calls (others : List String) (hnamed : Named others msgs)
    (hnodup : (calls ++ (others ++ callIds msgs)).Nodup) :
    ∀ id ∈ resultIds msgs, id ∉ calls := by
  intro id hid hcall
  exact (nodup_append.mp hnodup).2.2 id hcall id (resultIds_subset hnamed id hid) rfl

theorem answeredOnce_assistant : AnsweredOnce (.assistant asst :: msgs) ↔
      (asst.failed = true → ∀ id ∈ resultIds msgs, id ∉ asst.callIds) ∧ AnsweredOnce msgs := by
  simp only [AnsweredOnce, resultIds, mem_cons, Message.assistant.injEq, forall_eq_or_imp]
  exact and_left_comm

theorem answeredOnce_toolResult {res : ToolResultMessage} :
    AnsweredOnce (.toolResult res :: msgs) ↔ res.toolCallId ∉ resultIds msgs ∧
        (∀ asst, .assistant asst ∈ msgs → asst.failed = true →
          res.toolCallId ∉ asst.callIds) ∧ AnsweredOnce msgs := by
  simp only [AnsweredOnce, resultIds, mem_cons, reduceCtorEq, false_or, nodup_cons,
    forall_eq_or_imp]
  constructor
  · rintro ⟨⟨hnew, hnodup⟩, hfail⟩
    exact ⟨hnew, fun asst hmem h => (hfail asst hmem h).1, hnodup,
      fun asst hmem h => (hfail asst hmem h).2⟩
  · rintro ⟨hnew, hself, hnodup, hfail⟩
    exact ⟨⟨hnew, hnodup⟩, fun asst hmem h => ⟨hself asst hmem h, hfail asst hmem h⟩⟩

theorem callIds_of_mem (h : .assistant assistant ∈ msgs) :
    ∀ id ∈ assistant.callIds, id ∈ callIds msgs := by
  induction msgs with
  | nil => cases h
  | cons msg msgs ih =>
    intro id hid
    rcases mem_cons.mp h with rfl | h
    · exact mem_append_left _ hid
    · have hrest := ih h id hid
      cases msg with
      | assistant other => exact mem_append_right _ hrest
      | system | user | toolResult => exact hrest

/-- Where every result names a call, results are first answers when no call has two of them and no
message that failed has one. -/
theorem firstAnswers_iff {waiting : List String} (hnamed : Named calls msgs)
    (hnodup : (calls ++ callIds msgs).Nodup) (hwait : waiting.Nodup) :
    FirstAnswers waiting msgs ↔
      (∀ id ∈ resultIds msgs, id ∈ calls → id ∈ waiting) ∧ AnsweredOnce msgs := by
  induction msgs generalizing calls waiting with
  | nil => exact iff_of_true trivial ⟨by simp [resultIds], nodup_nil, by simp⟩
  | cons msg msgs ih =>
    cases msg with
    | system system =>
      refine (ih hnamed hnodup hwait).trans ?_
      simp [AnsweredOnce, resultIds]
    | user user =>
      have hrest : ([] ++ callIds msgs).Nodup := (nodup_append.mp hnodup).2.1
      have hcalls := not_mem_calls [] hnamed hnodup
      have hemp : ∀ id ∈ resultIds msgs, id ∈ calls → id ∈ waiting := by
        intro id hid hcall
        exact absurd hcall (hcalls id hid)
      refine (ih hnamed hrest nodup_nil).trans ?_
      simpa [AnsweredOnce, resultIds] using fun _ _ => hemp
    | assistant assistant =>
      have hrest : (assistant.callIds ++ callIds msgs).Nodup := (nodup_append.mp hnodup).2.1
      have hcalls := not_mem_calls assistant.callIds hnamed hnodup
      have hself : assistant.callIds.Nodup := (nodup_append.mp hrest).1
      have hemp : ∀ id ∈ resultIds msgs, id ∈ calls → id ∈ waiting := by
        intro id hid hcall
        exact absurd hcall (hcalls id hid)
      rw [FirstAnswers, answeredOnce_assistant]
      by_cases hfail : assistant.failed = true
      · rw [if_pos hfail, ih hnamed hrest nodup_nil]
        simp only [not_mem_nil, imp_false, hfail, true_imp_iff]
        exact (and_iff_right hemp).symm
      · rw [if_neg hfail, ih hnamed hrest hself]
        constructor
        · rintro ⟨-, honce⟩
          exact ⟨hemp, fun h => absurd h hfail, honce⟩
        · rintro ⟨-, -, honce⟩
          exact ⟨fun _ _ hid => hid, honce⟩
    | toolResult res =>
      obtain ⟨hcall, hnamed⟩ := hnamed
      rw [FirstAnswers, answeredOnce_toolResult, ih hnamed hnodup (hwait.erase _)]
      have hself : ∀ assistant, .assistant assistant ∈ msgs → assistant.failed = true →
          res.toolCallId ∉ assistant.callIds := by
        intro assistant hmem _ hid
        exact (nodup_append.mp hnodup).2.2 _ hcall _ (callIds_of_mem hmem _ hid) rfl
      constructor
      · rintro ⟨hfst, hlater, honce⟩
        refine ⟨?_, ?_, hself, honce⟩
        · intro id hid hidCall
          rcases mem_cons.mp hid with rfl | hid
          · exact hfst
          · exact mem_of_mem_erase (hlater id hid hidCall)
        · intro hagain
          exact hwait.not_mem_erase (hlater _ hagain hcall)
      · rintro ⟨hall, hnew, -, honce⟩
        refine ⟨hall _ mem_cons_self hcall, ?_, honce⟩
        intro id hid hidCall
        have hne : id ≠ res.toolCallId := fun heq => hnew (heq ▸ hid)
        exact (mem_erase_of_ne hne).mpr (hall id (mem_cons_of_mem _ hid) hidCall)

/-! ## The second pass -/

/-- What the second pass still writes. -/
def repairRest (clock : ToolCall → Int) (pending : List ToolCall) (ids : List String)
    (held : List SystemMessage) : List Message → List Message
  | [] => missingToolResults clock pending ids ++ held.map .system
  | .assistant assistant :: messages =>
    missingToolResults clock pending ids ++ (held.map .system ++
      if assistant.failed then repairRest clock [] [] [] messages
      else .assistant assistant :: repairRest clock assistant.toolCalls [] [] messages)
  | .toolResult result :: messages =>
    .toolResult result :: repairRest clock pending (result.toolCallId :: ids) held messages
  | .user user :: messages =>
    missingToolResults clock pending ids ++
      (held.map .system ++ .user user :: repairRest clock [] [] [] messages)
  | .system system :: messages =>
    if pending.isEmpty then .system system :: repairRest clock pending ids held messages
    else repairRest clock pending ids (held ++ [system]) messages

variable {clock : ToolCall → Int}

theorem foldl_flush (state : RepairState) (messages : List Message) :
    (messages.foldl (RepairState.step clock) state).flush clock =
      state.result ++ repairRest clock state.pending state.resultIds state.heldSystemMessages
        messages := by
  induction messages generalizing state with
  | nil => exact append_assoc _ _ _
  | cons msg messages ih =>
    rw [foldl_cons, ih]
    cases msg with
    | system system =>
      rw [RepairState.step, repairRest]
      split_ifs
      · exact append_assoc _ _ _
      · rfl
    | user user => simp [RepairState.step, RepairState.flush, repairRest]
    | assistant assistant =>
      rw [RepairState.step, repairRest]
      split_ifs
      · simp [RepairState.flush]
      · simp [RepairState.flush]
    | toolResult res => exact append_assoc _ _ _

theorem repairToolResultSequence_eq (msgs : List Message) :
    repairToolResultSequence clock msgs = repairRest clock [] [] [] msgs :=
  foldl_flush _ msgs

/-- The ids of the calls without a result. -/
def waitingIds (pending : List ToolCall) (ids : List String) : List String :=
  (pending.filter fun toolCall => !ids.contains toolCall.id).map ToolCall.id

theorem paired_results (missing : List ToolCall) (rest : List Message) :
    Paired (missing.map ToolCall.id) (missing.map (missingToolResult clock) ++ rest) ↔
      Paired [] rest := by
  induction missing with
  | nil => rfl
  | cons toolCall missing ih =>
    rw [map_cons, map_cons, cons_append, missingToolResult, Paired]
    dsimp only [ToolResultMessage.new]
    rw [erase_cons_head, ih]
    exact and_iff_right mem_cons_self

/-- The missing results answer all calls that wait. -/
theorem paired_missing (pend : List ToolCall) (ids : List String) (rest : List Message) :
    Paired (waitingIds pend ids) (missingToolResults clock pend ids ++ rest) ↔
      Paired [] rest := paired_results _ rest

theorem paired_systems (held : List SystemMessage) (rest : List Message) :
    Paired [] (held.map .system ++ rest) ↔ Paired [] rest := by
  induction held with
  | nil => rfl
  | cons sys held ih =>
    rw [map_cons, cons_append, Paired, ih]
    exact and_iff_right rfl

theorem waitingIds_nil (ids : List String) : waitingIds [] ids = [] := rfl

theorem waitingIds_fresh (pend : List ToolCall) : waitingIds pend [] = pend.map ToolCall.id := by
  simp [waitingIds]

/-- A result takes its id from those that wait. -/
theorem waitingIds_cons {pend : List ToolCall} (hnodup : (pend.map ToolCall.id).Nodup)
    (id : String) (ids : List String) :
    waitingIds pend (id :: ids) = (waitingIds pend ids).erase id := by
  have hwait : (waitingIds pend ids).Nodup := hnodup.sublist (filter_sublist.map ToolCall.id)
  rw [hwait.erase_eq_filter, waitingIds, waitingIds, filter_map, filter_filter]
  congr 1
  apply filter_congr
  intro toolCall _
  rw [Bool.eq_iff_iff]
  simp

/-- The second pass pairs calls and results when the results are first answers. -/
theorem paired_repairRest (pend : List ToolCall) (ids : List String) (held : List SystemMessage)
    (hnodup : (pend.map ToolCall.id).Nodup)
    (hcalls : ∀ assistant, .assistant assistant ∈ msgs → assistant.callIds.Nodup) :
    Paired (waitingIds pend ids) (repairRest clock pend ids held msgs) ↔
      FirstAnswers (waitingIds pend ids) msgs := by
  induction msgs generalizing pend ids held with
  | nil =>
    rw [repairRest, paired_missing, ← append_nil (held.map _), paired_systems]
    exact iff_of_true rfl trivial
  | cons msg msgs ih =>
    have hrest : ∀ assistant, .assistant assistant ∈ msgs → assistant.callIds.Nodup :=
      fun assistant hmem => hcalls assistant (mem_cons_of_mem _ hmem)
    cases msg with
    | system system =>
      rw [repairRest, FirstAnswers]
      split_ifs with hpend
      · rw [isEmpty_iff.mp hpend, waitingIds_nil, Paired]
        refine (and_iff_right rfl).trans ?_
        exact ih [] ids held nodup_nil hrest
      · exact ih pend ids (held ++ [system]) hnodup hrest
    | user user =>
      rw [repairRest, paired_missing, paired_systems, Paired, FirstAnswers]
      refine (and_iff_right rfl).trans ?_
      exact ih [] [] [] nodup_nil hrest
    | assistant assistant =>
      rw [repairRest, paired_missing, paired_systems, FirstAnswers]
      split_ifs with hfail
      · exact ih [] [] [] nodup_nil hrest
      · rw [Paired]
        refine (and_iff_right rfl).trans ?_
        have hself := ih assistant.toolCalls [] [] (hcalls assistant mem_cons_self) hrest
        rwa [waitingIds_fresh] at hself
    | toolResult res =>
      rw [repairRest, Paired, FirstAnswers, ← waitingIds_cons hnodup, ih pend _ held hnodup hrest]

theorem systems_append (first second : List Message) :
    systems (first ++ second) = systems first ++ systems second := filterMap_append

theorem filterMap_missing {X : Type} {f : Message → Option X}
    (hresult : ∀ result, f (.toolResult result) = none) (pend : List ToolCall)
    (ids : List String) : (missingToolResults clock pend ids).filterMap f = [] := by
  rw [filterMap_eq_nil_iff]
  intro msg hmem
  obtain ⟨toolCall, -, rfl⟩ := mem_map.mp hmem
  exact hresult _

theorem systems_missing (pend : List ToolCall) (ids : List String) :
    systems (missingToolResults clock pend ids) = [] := filterMap_missing (fun _ => rfl) pend ids

theorem systems_held (held : List SystemMessage) : systems (held.map .system) = held := by
  induction held with
  | nil => rfl
  | cons sys held ih => exact congrArg (sys :: ·) ih

/-- The second pass moves nothing but results and system messages, and drops nothing but messages
that failed. -/
theorem filterMap_repairRest {X : Type} {f : Message → Option X}
    (hresult : ∀ result, f (.toolResult result) = none)
    (hsystem : ∀ system, f (.system system) = none)
    (hfailed : ∀ assistant, assistant.failed = true → f (.assistant assistant) = none)
    (pend : List ToolCall) (ids : List String) (held : List SystemMessage) (msgs : List Message) :
    (repairRest clock pend ids held msgs).filterMap f = msgs.filterMap f := by
  have hflush : ∀ pend ids (held : List SystemMessage) rest,
      (missingToolResults clock pend ids ++ (held.map Message.system ++ rest)).filterMap f =
        rest.filterMap f := by
    intro pend ids held rest
    have hheld : (held.map Message.system).filterMap f = [] := by simp [hsystem]
    rw [filterMap_append, filterMap_append, filterMap_missing hresult, hheld, nil_append,
      nil_append]
  induction msgs generalizing pend ids held with
  | nil =>
    have hlast := hflush pend ids held []
    rwa [append_nil] at hlast
  | cons msg msgs ih =>
    cases msg with
    | system system =>
      rw [repairRest, filterMap_cons_none (hsystem system)]
      split_ifs
      · rw [filterMap_cons_none (hsystem system), ih]
      · rw [ih]
    | user user => rw [repairRest, hflush, filterMap_cons, filterMap_cons, ih]
    | assistant assistant =>
      rw [repairRest, hflush]
      split_ifs with hfail
      · rw [ih, filterMap_cons_none (hfailed assistant hfail)]
      · rw [filterMap_cons, filterMap_cons, ih]
    | toolResult res =>
      rw [repairRest, filterMap_cons_none (hresult res), filterMap_cons_none (hresult res), ih]

/-- Messages are held back only while calls wait, so their order stays. -/
theorem systems_repairRest (pend : List ToolCall) (ids : List String)
    (held : List SystemMessage) (msgs : List Message) (h : pend = [] → held = []) :
    systems (repairRest clock pend ids held msgs) = held ++ systems msgs := by
  induction msgs generalizing pend ids held with
  | nil => rw [repairRest, systems_append, systems_missing, systems_held]; simp [systems]
  | cons msg msgs ih =>
    cases msg with
    | system system =>
      rw [repairRest]
      split_ifs with hpend
      · have hheld := h (isEmpty_iff.mp hpend)
        rw [hheld]
        exact congrArg (system :: ·) (ih pend ids [] fun _ => rfl)
      · have hne : pend = [] → held ++ [system] = [] := by
          intro hnil
          exact absurd (isEmpty_iff.mpr hnil) hpend
        rw [ih pend ids (held ++ [system]) hne, append_assoc]
        rfl
    | user user =>
      rw [repairRest, systems_append, systems_append, systems_missing, systems_held]
      exact congrArg (held ++ ·) (ih [] [] [] fun _ => rfl)
    | assistant assistant =>
      rw [repairRest, systems_append, systems_append, systems_missing, systems_held]
      split_ifs
      · exact congrArg (held ++ ·) (ih [] [] [] fun _ => rfl)
      · exact congrArg (held ++ ·) (ih assistant.toolCalls [] [] fun _ => rfl)
    | toolResult res => exact ih pend (res.toolCallId :: ids) held h

/-! ## The first pass -/

variable {model : Model} {normalize : NormalizeToolCallId}

theorem renamed_injective
    (hinjective : ∀ asst, Function.Injective fun id => normalize id model asst)
    (asst : AssistantMessage) : Function.Injective (renamed model normalize asst) := by
  intro first second h
  rw [renamed, renamed] at h
  split_ifs at h
  · exact h
  · exact hinjective asst h

/-- The calls of some blocks. -/
def blockCallIds (blocks : List AssistantContent) : List String := (blocks.filterMap fun
    | .toolCall toolCall => some toolCall
    | .text _ => none
    | .thinking _ => none).map ToolCall.id

theorem blockCallIds_append (first second : List AssistantContent) :
    blockCallIds (first ++ second) = blockCallIds first ++ blockCallIds second := by
  rw [blockCallIds, filterMap_append, map_append]
  rfl

/-- What the map says about an id. -/
def mapped (idMap : Dict String String) (id : String) : String := (idMap.get? id).getD id

/-- The map after a block differs at the id of its call. -/
theorem transformBlock_spec (model : Model) (normalize : NormalizeToolCallId)
    (asst : AssistantMessage) (idMap : Dict String String)
    (block : AssistantContent) :
    blockCallIds (transformBlock model normalize asst idMap block).1 =
        (blockCallIds [block]).map (renamed model normalize asst) ∧
      (∀ id, id ∉ blockCallIds [block] →
        (transformBlock model normalize asst idMap block).2.get? id = idMap.get? id) ∧
      ∀ id ∈ blockCallIds [block], idMap.get? id = none →
        mapped (transformBlock model normalize asst idMap block).2 id =
          renamed model normalize asst id := by
  cases block with
  | text text =>
    rw [transformBlock]
    split_ifs
    · exact ⟨rfl, fun _ _ => rfl, fun _ h => nomatch h⟩
    · exact ⟨rfl, fun _ _ => rfl, fun _ h => nomatch h⟩
  | thinking thinking =>
    rw [transformBlock]
    split_ifs
    · exact ⟨rfl, fun _ _ => rfl, fun _ h => nomatch h⟩
    · exact ⟨rfl, fun _ _ => rfl, fun _ h => nomatch h⟩
    · exact ⟨rfl, fun _ _ => rfl, fun _ h => nomatch h⟩
    · exact ⟨rfl, fun _ _ => rfl, fun _ h => nomatch h⟩
    · exact ⟨rfl, fun _ _ => rfl, fun _ h => nomatch h⟩
    · exact ⟨rfl, fun _ _ => rfl, fun _ h => nomatch h⟩
  | toolCall toolCall =>
    have hids : blockCallIds [.toolCall toolCall] = [toolCall.id] := rfl
    rw [transformBlock, hids]
    simp only [map_singleton, mem_singleton, forall_eq, renamed, mapped]
    split_ifs with hsame hchanged
    · refine ⟨rfl, fun _ _ => rfl, ?_⟩
      intro hnone
      rw [hnone]
      rfl
    · refine ⟨rfl, ?_, ?_⟩
      · intro id hne
        rw [Dict.get?_insert, if_neg (by simpa using hne)]
      · intro _
        rw [Dict.get?_insert, if_pos BEq.rfl]
        rfl
    · rw [not_not] at hchanged
      refine ⟨by rw [hchanged]; rfl, fun _ _ => rfl, ?_⟩
      intro hnone
      rw [hnone, hchanged]
      rfl

theorem transformBlocks_spec (model : Model) (normalize : NormalizeToolCallId)
    (asst : AssistantMessage) (idMap : Dict String String) (blocks : List AssistantContent)
    (hnodup : (blockCallIds blocks).Nodup) :
    blockCallIds (transformBlocks model normalize asst idMap blocks).1 =
        (blockCallIds blocks).map (renamed model normalize asst) ∧
      (∀ id, id ∉ blockCallIds blocks →
        (transformBlocks model normalize asst idMap blocks).2.get? id = idMap.get? id) ∧
      ∀ id ∈ blockCallIds blocks, idMap.get? id = none →
        mapped (transformBlocks model normalize asst idMap blocks).2 id =
          renamed model normalize asst id := by
  induction blocks generalizing idMap with
  | nil => exact ⟨rfl, fun _ _ => rfl, fun _ h => nomatch h⟩
  | cons block blocks ih =>
    have hsplit : blockCallIds (block :: blocks) = blockCallIds [block] ++ blockCallIds blocks :=
      blockCallIds_append [block] blocks
    rw [hsplit] at hnodup ⊢
    obtain ⟨-, hrest, hapart⟩ := nodup_append.mp hnodup
    obtain ⟨hids, hsame, hmap⟩ := transformBlock_spec model normalize asst idMap block
    obtain ⟨hids', hsame', hmap'⟩ := ih (transformBlock model normalize asst idMap block).2 hrest
    rw [transformBlocks]
    refine ⟨?_, ?_, ?_⟩
    · dsimp only
      rw [blockCallIds_append, hids, hids', map_append]
    · intro id hid
      rw [mem_append, not_or] at hid
      exact (hsame' id hid.2).trans (hsame id hid.1)
    · intro id hid hnone
      dsimp only
      rcases mem_append.mp hid with hid | hid
      · have hlater : id ∉ blockCallIds blocks := fun h => hapart id hid id h rfl
        rw [mapped, hsame' id hlater]
        exact hmap id hid hnone
      · have hearl : id ∉ blockCallIds [block] := fun h => hapart id h id hid rfl
        exact hmap' id hid ((hsame id hearl).trans hnone)

theorem callIds_eq (asst : AssistantMessage) : asst.callIds = blockCallIds asst.content := rfl

theorem failed_transformAssistant (asst : AssistantMessage) (idMap : Dict String String) :
    (transformAssistant model normalize asst idMap).1.failed = asst.failed := rfl

/-- The first pass renames the calls of a message and their results alike. -/
theorem firstAnswers_transformAll
    (hinjective : ∀ assistant, Function.Injective fun id => normalize id model assistant)
    {rename : String → String} (hrename : Function.Injective rename) (waiting : List String)
    {idMap : Dict String String} (hnamed : Named calls msgs) (hnodup : (callIds msgs).Nodup)
    (hnew : ∀ id ∈ callIds msgs, idMap.get? id = none)
    (hcalls : ∀ id ∈ calls, mapped idMap id = rename id) :
    FirstAnswers (waiting.map rename) (transformAll model normalize idMap msgs) ↔
      FirstAnswers waiting msgs := by
  induction msgs generalizing rename calls waiting idMap with
  | nil => rfl
  | cons msg msgs ih =>
    cases msg with
    | system system => exact ih hrename waiting hnamed hnodup hnew hcalls
    | user user =>
      exact ih hrename [] hnamed hnodup hnew (fun _ h => nomatch h)
    | toolResult res =>
      obtain ⟨hcall, hnamed⟩ := hnamed
      have hid : (transformToolResult model idMap res).toolCallId =
          rename res.toolCallId := hcalls _ hcall
      rw [transformAll, FirstAnswers, FirstAnswers, hid, mem_map_of_injective hrename,
        ← map_erase hrename, ih hrename _ hnamed hnodup hnew hcalls]
    | assistant assistant =>
      obtain ⟨hself, hrest, hapart⟩ := nodup_append.mp hnodup
      obtain ⟨hids, hsame, hmap⟩ := transformBlocks_spec model normalize assistant
        idMap assistant.content hself
      have hnew' : ∀ id ∈ callIds msgs,
          (transformAssistant model normalize assistant idMap).2.get? id = none := by
        intro id hid
        have hoth : id ∉ blockCallIds assistant.content := fun h => hapart id h id hid rfl
        exact (hsame id hoth).trans (hnew id (mem_append_right _ hid))
      have hcalls' : ∀ id ∈ assistant.callIds,
          mapped (transformAssistant model normalize assistant idMap).2 id =
            renamed model normalize assistant id := by
        intro id hid
        exact hmap id hid (hnew id (mem_append_left _ hid))
      rw [transformAll, FirstAnswers, FirstAnswers, failed_transformAssistant]
      have hpass := fun waiting => ih (renamed_injective hinjective assistant) waiting hnamed
        hrest hnew' hcalls'
      split_ifs
      · exact hpass []
      · rw [← hpass assistant.callIds]
        exact iff_of_eq (congrArg (FirstAnswers · _) hids)

theorem nodup_transformAll
    (hinjective : ∀ assistant, Function.Injective fun id => normalize id model assistant)
    (idMap : Dict String String) (hnodup : (callIds msgs).Nodup) :
    ∀ assistant, .assistant assistant ∈ transformAll model normalize idMap msgs →
      assistant.callIds.Nodup := by
  induction msgs generalizing idMap with
  | nil =>
    intro assistant hmem
    cases hmem
  | cons msg msgs ih =>
    intro assistant hmem
    cases msg with
    | system | user | toolResult =>
      simp only [transformAll, mem_cons, reduceCtorEq, false_or] at hmem
      exact ih idMap hnodup assistant hmem
    | assistant first =>
      obtain ⟨hself, hrest, -⟩ := nodup_append.mp hnodup
      rcases mem_cons.mp hmem with heq | hmem
      · obtain ⟨hids, -, -⟩ := transformBlocks_spec model normalize first idMap first.content hself
        rw [Message.assistant.inj heq, callIds_eq]
        exact hids ▸ hself.map (renamed_injective hinjective first)
      · exact ih _ hrest assistant hmem

theorem answers_assistant :
    answers (.assistant asst :: msgs) =
      if asst.failed then answers msgs else asst :: answers msgs := by
  split_ifs with hfailed
  · exact filterMap_cons_none (if_pos hfailed)
  · exact filterMap_cons_some (if_neg hfailed)

/-- The first pass gives the calls their new ids. -/
theorem answers_transformAll (idMap : Dict String String) (hnodup : (callIds msgs).Nodup) :
    (answers (transformAll model normalize idMap msgs)).map AssistantMessage.callIds =
      (answers msgs).map fun assistant =>
        assistant.callIds.map (renamed model normalize assistant) := by
  induction msgs generalizing idMap with
  | nil => rfl
  | cons msg msgs ih =>
    cases msg with
    | system | user | toolResult => exact ih idMap hnodup
    | assistant first =>
      obtain ⟨hself, hrest, -⟩ := nodup_append.mp hnodup
      obtain ⟨hids, -, -⟩ := transformBlocks_spec model normalize first idMap first.content hself
      rw [transformAll, answers_assistant, answers_assistant, failed_transformAssistant]
      split_ifs
      · exact ih _ hrest
      · exact congrArg₂ cons hids (ih _ hrest)

theorem users_transformAll (idMap : Dict String String) (msgs : List Message) :
    users (transformAll model normalize idMap msgs) = (users msgs).map (transformUser model) := by
  induction msgs generalizing idMap with
  | nil => rfl
  | cons msg msgs ih =>
    cases msg with
    | system | toolResult => exact ih idMap
    | user user => exact congrArg (transformUser model user :: ·) (ih idMap)
    | assistant assistant => exact ih _

theorem systems_transformAll (idMap : Dict String String) (msgs : List Message) :
    systems (transformAll model normalize idMap msgs) = systems msgs := by
  induction msgs generalizing idMap with
  | nil => rfl
  | cons msg msgs ih =>
    cases msg with
    | system system => exact congrArg (system :: ·) (ih idMap)
    | user | toolResult => exact ih idMap
    | assistant assistant => exact ih _

/-! ## The history -/

/-- The history for a model is as it is to be when no call has two results and no message that
failed has one. -/
theorem transformMessages_normalized (model : Model) (normalize : NormalizeToolCallId)
    (clock : ToolCall → Int) (msgs : List Message)
    (hinjective : ∀ asst, Function.Injective fun id => normalize id model asst)
    (hnodup : (callIds msgs).Nodup) (hnamed : Named [] msgs) :
    Normalized model normalize msgs (transformMessages model normalize clock msgs) ↔
      AnsweredOnce msgs := by
  have hpaired : Paired [] (transformMessages model normalize clock msgs) ↔ AnsweredOnce msgs := by
    rw [transformMessages, repairToolResultSequence_eq]
    refine (paired_repairRest [] [] [] nodup_nil
      (nodup_transformAll hinjective .empty hnodup)).trans ?_
    refine (firstAnswers_transformAll hinjective Function.injective_id [] hnamed hnodup
      (fun _ _ => rfl) fun _ h => nomatch h).trans ?_
    rw [firstAnswers_iff hnamed hnodup nodup_nil]
    exact and_iff_right fun _ _ h => h
  have hcalls : (answers (transformMessages model normalize clock msgs)).map
      AssistantMessage.callIds = (answers msgs).map fun assistant =>
        assistant.callIds.map (renamed model normalize assistant) := by
    rw [← answers_transformAll .empty hnodup, transformMessages, repairToolResultSequence_eq,
      answers, filterMap_repairRest (fun _ => rfl) (fun _ => rfl) fun _ h => if_pos h]
    rfl
  have husers : users (transformMessages model normalize clock msgs) =
      (users msgs).map (transformUser model) := by
    rw [← users_transformAll .empty, transformMessages, repairToolResultSequence_eq, users,
      filterMap_repairRest (fun _ => rfl) (fun _ => rfl) fun _ _ => rfl]
    rfl
  have hsystems : systems (transformMessages model normalize clock msgs) = systems msgs := by
    rw [transformMessages, repairToolResultSequence_eq,
      systems_repairRest [] [] [] _ fun _ => rfl, systems_transformAll]
    rfl
  rw [Normalized, hpaired]
  exact and_iff_left ⟨hcalls, husers, hsystems⟩

/-- A model and a message of another one with a call. -/
def targetModel : Model := ⟨"model", "api", "provider", [.text]⟩

def calling (stopReason : Session.StopReason) : AssistantMessage :=
  { AssistantMessage.new "source-api" "source-provider" "source" 1 with
    content := [.toolCall ⟨"raw|id", "read", [], none, none⟩]
    stopReason := stopReason }

def answering : ToolResultMessage := .new "raw|id" "read" [.text (.new "ok")] false 2

/-- Ids with a mark in front. -/
def marked : NormalizeToolCallId := fun id _ _ => "x" ++ id

theorem marked_injective (asst : AssistantMessage) :
    Function.Injective fun id => marked id targetModel asst := by
  intro first second h
  exact String.append_right_inj "x" |>.mp h

/-- A call with its result is paired behind a normalized id. -/
theorem answered_call_normalized :
    Normalized targetModel marked [.assistant (calling .toolUse), .toolResult answering]
      (transformMessages targetModel marked (fun _ => 0)
        [.assistant (calling .toolUse), .toolResult answering]) := by
  have hnamed : Named [] [.assistant (calling .toolUse), .toolResult answering] :=
    ⟨mem_cons_self, trivial⟩
  have hnodup : (callIds [.assistant (calling .toolUse), .toolResult answering]).Nodup :=
    nodup_singleton "raw|id"
  apply (transformMessages_normalized targetModel marked (fun _ => 0) _ marked_injective hnodup
    hnamed).mpr
  refine ⟨nodup_singleton _, ?_⟩
  intro asst hmem hfailed
  have heq : asst = calling .toolUse := by simpa using hmem
  rw [heq] at hfailed
  cases hfailed

/-- The result of a message that failed stays when the message is dropped. -/
theorem failed_call_not_normalized :
    ¬ ∀ (model : Model) (normalize : NormalizeToolCallId) (clock : ToolCall → Int)
      (msgs : List Message),
      (∀ asst, Function.Injective fun id => normalize id model asst) →
      (callIds msgs).Nodup → Named [] msgs →
      Normalized model normalize msgs (transformMessages model normalize clock msgs) := by
  intro h
  have hpaired := (h targetModel marked (fun _ => 0)
    [.assistant (calling .error), .toolResult answering] marked_injective
    (nodup_singleton _) ⟨mem_cons_self, trivial⟩).1
  exact absurd hpaired.1 not_mem_nil

end PiOxidized.Ai
