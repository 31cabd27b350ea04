/-
# What is left of an interrupted response

The frames of a response are stored one by one and read back through the window of a list. The
recovery of the response and the snapshot of its lane both read with the default window, so they
see the first thousand frames only.
-/

import PiOxidized.Ai.Reduced
import PiOxidized.Session.Memory

namespace PiOxidized.Harness

open List Math
open Ai
open Session (RawListElement ScanOrder SessionError listReadDefaultLimit
  listReadMaxLimit)

/-! ## Lists -/

/-- A window of a list; what is not set is the default. -/
structure ListReadOptions where
  cursor : Option U64 := none
  order : Option ScanOrder := none
  limit : Option Nat := none

structure ResolvedListReadOptions where
  cursor : Option U64
  order : ScanOrder
  limit : Nat

/-- The window after defaults and clamping; a limit of zero is refused. -/
def resolveListReadOptions (options : Option ListReadOptions) : Option ResolvedListReadOptions :=
  let options := options.getD {}
  let limit := options.limit.getD listReadDefaultLimit
  if limit = 0 then none
  else some ⟨options.cursor, options.order.getD .asc, min limit listReadMaxLimit⟩

def readList {X : Type} (values : List (RawListElement X)) (options : Option ListReadOptions) :
    Except SessionError (List (RawListElement X)) :=
  match resolveListReadOptions options with
  | none => .error (.invariant "list limit must be positive")
  | some options =>
    let values := match options.cursor with
      | some cursor =>
        values.filter fun item : RawListElement X =>
          if options.order = ScanOrder.asc then cursor < item.seq else item.seq < cursor
      | none => values
    let values := if options.order = .desc then values.reverse else values
    .ok (values.take options.limit)

theorem readList_none {X : Type} (values : List (RawListElement X)) :
    readList values none = .ok (values.take listReadDefaultLimit) := rfl

/-! ## Recovery and snapshot -/

def reducePersistedFrames (library : JsonLibrary) (frames : List AssistantMessageFrame) :
    Except SessionError Ai.AssistantMessage :=
  match reduceAssistantMessageFrames library frames with
  | .error error => .error (.invariant error.message)
  | .ok none => .error (.invariant "assistant message frames contain no start frame")
  | .ok (some message) => .ok message

/-- The model of a generation, and what is known of its API: the configured one, or the one the
model has where it is still available. -/
structure ConfiguredModel where
  provider : String
  modelId : String
  api : Option String
  available : Option String

def synthesizeInterruptedAssistant (model : ConfiguredModel) (now : Int) :
    Option Ai.AssistantMessage :=
  (model.api.or model.available).map fun api =>
    { Ai.AssistantMessage.new api model.provider model.modelId now with
      stopReason := .aborted
      errorMessage := some "assistant response interrupted before completion" }

/-- The message that `recover_assistant_effect` commits; without one the operation fails. -/
def recoverAssistantMessage (library : JsonLibrary) (model : ConfiguredModel)
    (stored : List (RawListElement AssistantMessageFrame)) (now : Int) :
    Except SessionError (Option Ai.AssistantMessage) := do
  let frames ← readList stored none
  if frames.isEmpty then .ok (synthesizeInterruptedAssistant model now)
  else
    let message ← reducePersistedFrames library (frames.map (·.value))
    .ok (some { message with
        stopReason := .aborted
        errorMessage := some "assistant response interrupted during recovery"
        timestamp := now })

/-- The message that a snapshot of the lane shows as streaming. -/
def streamingMessage (library : JsonLibrary)
    (stored : List (RawListElement AssistantMessageFrame)) :
    Except SessionError (Option Ai.AssistantMessage) := do
  let frames ← readList stored none
  if frames.isEmpty then .ok none
  else
    let message ← reducePersistedFrames library (frames.map (·.value))
    .ok (some message)

/-! ## What is kept -/

variable {lib : JsonLibrary} {model : ConfiguredModel} {events : List AssistantMessageEvent}
  {stored : List (RawListElement AssistantMessageFrame)}

/-- The content that frames make up. -/
def streamedContent (library : JsonLibrary) (frames : List AssistantMessageFrame) :
    Except FrameError (List AssistantContent) :=
  (reduceAssistantMessageFrames library frames).map fun message =>
    (message.map Ai.AssistantMessage.content).getD []

/-- The content that the first commits make up. -/
def contentAfter (library : JsonLibrary) (stored : List (RawListElement AssistantMessageFrame))
    (n : Nat) : Except FrameError (List AssistantContent) :=
  streamedContent library ((stored.take n).map (·.value))

/-- Where the process stops behind some of the commits, the entry that is committed and the
snapshot in front of it have the content of all frames that are stored by then. -/
def KeepsAt (library : JsonLibrary) (model : ConfiguredModel)
    (stored : List (RawListElement AssistantMessageFrame)) (n : Nat) (now : Int) : Prop :=
  ∃ message shown, recoverAssistantMessage library model (stored.take n) now = .ok (some message) ∧
    streamingMessage library (stored.take n) = .ok shown ∧
    contentAfter library stored n = .ok message.content ∧
    (shown.map Ai.AssistantMessage.content).getD [] = message.content

/-- A response is kept wherever the process stops. -/
def KeepsStreamed (library : JsonLibrary) (model : ConfiguredModel)
    (stored : List (RawListElement AssistantMessageFrame)) : Prop :=
  ∀ n now, KeepsAt library model stored n now

/-- The first frame of a response is its start. -/
theorem head_run {enc : AssistantMessageFrameEncoder} (h : enc.started = false) :
    (enc.run lib events).2 = [] ∨ ∃ msg rest, (enc.run lib events).2 = .start msg :: rest := by
  induction events generalizing enc with
  | nil => exact .inl rfl
  | cons event events ih =>
    rcases AssistantMessageFrameEncoder.run_cons lib enc event with
      ⟨enc', frame, hstep, hrun⟩ | ⟨enc', hencoder, hrun⟩
    · rw [(hrun events).1]
      cases hstep with
      | start msg _ => exact .inr ⟨_, _, rfl⟩
      | opens hbegun | touches hbegun | goesOn hbegun | closes hbegun =>
        rw [h] at hbegun
        cases hbegun
    · rw [(hrun events).1]
      apply ih
      rcases hencoder with rfl | hstep
      · exact h
      · cases hstep with
        | ends | passes => exact h
        | waits hbegun =>
          rw [h] at hbegun
          cases hbegun

/-- Frames of a response make up a message as soon as there are any. -/
theorem exists_message {frames : List AssistantMessageFrame} (hne : frames ≠ [])
    (h : frames <+: (AssistantMessageFrameEncoder.new.run lib events).2) :
    ∃ msg, reduceAssistantMessageFrames lib frames = .ok (some msg) := by
  obtain ⟨result, hret, hsome, -⟩ := exists_reduced lib h
  obtain ⟨first, rest, rfl⟩ := exists_cons_of_ne_nil hne
  rcases @head_run lib events .new rfl with hnone | ⟨msg, others, hrun⟩
  · rw [hnone] at h
    cases prefix_nil.mp h
  · rw [hrun] at h
    obtain ⟨rfl, -⟩ := cons_prefix_cons.mp h
    obtain ⟨msg, rfl⟩ := Option.isSome_iff_exists.mp (hsome.mpr ⟨_, mem_cons_self⟩)
    exact ⟨msg, hret⟩

variable {window : List (RawListElement AssistantMessageFrame)} {now : Int}

/-- What is read is what is recovered and what is shown. -/
theorem recover_eq (hread : stored.take listReadDefaultLimit = window) (hne : window ≠ [])
    {read : Ai.AssistantMessage}
    (h : reduceAssistantMessageFrames lib (window.map (·.value)) = .ok (some read)) :
    (∃ msg, recoverAssistantMessage lib model stored now = .ok (some msg) ∧
        msg.content = read.content) ∧
      streamingMessage lib stored = .ok (some read) := by
  have hemp : ¬ window.isEmpty = true := by simpa using hne
  constructor
  · simp [recoverAssistantMessage, readList_none, hread, hemp, reducePersistedFrames, h, bind,
      Except.bind]
  · simp [streamingMessage, readList_none, hread, hemp, reducePersistedFrames, h, bind, Except.bind]

/-- What is kept where the process stops behind some of the commits. -/
theorem keepsAt_iff
    (hstored : stored.map (·.value) = (AssistantMessageFrameEncoder.new.run lib events).2)
    (n : Nat) :
    KeepsAt lib model stored n now ↔
      (stored.take n = [] → (model.api.or model.available).isSome = true) ∧
        contentAfter lib stored n = contentAfter lib stored (min listReadDefaultLimit n) := by
  rw [KeepsAt, contentAfter, contentAfter]
  have hread : (stored.take n).take listReadDefaultLimit =
      stored.take (min listReadDefaultLimit n) := take_take
  by_cases hemp : stored.take n = []
  · rw [hemp, take_nil] at hread
    rw [hemp, ← hread]
    cases hapi : model.api.or model.available with
    | none =>
      simp [recoverAssistantMessage, readList_none, synthesizeInterruptedAssistant, hapi, bind,
        Except.bind]
    | some api =>
      obtain ⟨msg, hmsg, hcont⟩ : ∃ msg : Ai.AssistantMessage,
          synthesizeInterruptedAssistant model now = some msg ∧ msg.content = [] := by
        simp [synthesizeInterruptedAssistant, hapi, Ai.AssistantMessage.new]
      simp only [Option.isSome_some, implies_true, and_true, iff_true]
      exact ⟨msg, none, congrArg Except.ok hmsg, rfl, by rw [hcont]; rfl, by rw [hcont]; rfl⟩
  · have hfr {k : Nat} : (stored.take k).map (·.value) <+:
        (AssistantMessageFrameEncoder.new.run lib events).2 := by
      rw [← hstored]
      exact ( take_prefix k stored).map _
    have hwindow : stored.take (min listReadDefaultLimit n) ≠ [] := by
      simp only [ne_eq, take_eq_nil_iff, not_or] at hemp ⊢
      exact ⟨by rw [listReadDefaultLimit]; omega, hemp.2⟩
    obtain ⟨whole, hwhole⟩ := exists_message (by simpa using hemp) (@hfr n)
    obtain ⟨read, hred⟩ := exists_message (by simpa using hwindow)
      (@hfr (min listReadDefaultLimit n))
    obtain ⟨⟨msg, hrecovered, hcont⟩, hshown⟩ :=
      @recover_eq lib model (stored.take n) _ now hread hwindow read hred
    have hstreamed : streamedContent lib ((stored.take n).map (·.value)) =
        .ok whole.content := by rw [streamedContent, hwhole]; rfl
    have hkept : streamedContent lib
        ((stored.take (min listReadDefaultLimit n)).map (·.value)) = .ok read.content := by
      rw [streamedContent, hred]; rfl
    rw [hstreamed, hkept, and_iff_right fun h => absurd h hemp]
    constructor
    · rintro ⟨other, shown, hoth, -, hsame, -⟩
      rw [hrecovered] at hoth
      cases hoth
      rw [hsame, hcont]
    · intro hsame
      exact ⟨msg, some read, hrecovered, hshown, by rw [hcont, hsame], hcont.symm⟩

/-- A response is kept exactly where no frame behind the window changes the content. -/
theorem keepsStreamed_iff
    (hstored : stored.map (·.value) = (AssistantMessageFrameEncoder.new.run lib events).2) :
    KeepsStreamed lib model stored ↔ (model.api.or model.available).isSome = true ∧
      ∀ n, listReadDefaultLimit ≤ n → n < stored.length →
        contentAfter lib stored (n + 1) = contentAfter lib stored n := by
  constructor
  · intro h
    have hsame (n : Nat) := ((keepsAt_iff hstored n).mp (h n 0)).2
    refine ⟨((keepsAt_iff hstored 0).mp (h 0 0)).1 rfl, fun n hle _ => ?_⟩
    rw [hsame, hsame n, min_eq_left hle, min_eq_left (by omega)]
  · rintro ⟨hapi, hsame⟩ n now
    refine (keepsAt_iff hstored n).mpr ⟨fun _ => hapi, ?_⟩
    induction n with
    | zero => rfl
    | succ n ih =>
      rcases Nat.lt_or_ge n listReadDefaultLimit with hlt | hle
      · rw [min_eq_right hlt]
      · rw [min_eq_left (by omega)]
        rw [min_eq_left hle] at ih
        rcases Nat.lt_or_ge n stored.length with hin | hout
        · rw [hsame n hle hin, ih]
        · rw [contentAfter, take_of_length_le (by omega)]
          rwa [contentAfter, take_of_length_le hout] at ih

/-- A short response is kept. -/
theorem keepsStreamed_twoPieces : KeepsStreamed unreadable ⟨"provider", "model", some "api", none⟩
    ((AssistantMessageFrameEncoder.new.run unreadable twoPieces).2.map (⟨U64.zero, ·⟩)) := by
  refine (keepsStreamed_iff (by rw [List.map_map]; exact List.map_id _)).mpr
    ⟨rfl, fun n hle hlt => ?_⟩
  have hlength : (AssistantMessageFrameEncoder.new.run unreadable twoPieces).2.length = 4 := rfl
  rw [length_map, hlength] at hlt
  rw [listReadDefaultLimit] at hle
  omega

/-- An event that is answered with a frame and changes nothing may come many times. -/
theorem run_replicate {enc : AssistantMessageFrameEncoder} {event : AssistantMessageEvent}
    {frame : AssistantMessageFrame} (h : enc.encode lib event = (enc, .ok (some frame)))
    (hopens : event.opens = none) (times : Nat) :
    (enc.run lib (replicate times event ++ events)).2 =
        replicate times frame ++ (enc.run lib events).2 ∧
      enc.opened lib (replicate times event ++ events) = enc.opened lib events := by
  induction times with
  | zero => exact ⟨rfl, rfl⟩
  | succ times ih =>
    rw [replicate_succ, cons_append, replicate_succ, cons_append,
      AssistantMessageFrameEncoder.run, AssistantMessageFrameEncoder.opened, h, hopens]
    exact ⟨congrArg (frame :: ·) ih.1, ih.2⟩

/-- The content so far: two blocks of text. -/
def twoBlocks : Ai.AssistantMessage := { Ai.AssistantMessage.new "api" "provider" "model" 1 with
    content := [.text (.new ""), .text (.new "")] }

/-- The encoder in the middle of a first block of text. -/
def inText : AssistantMessageFrameEncoder := ⟨true, false, ⟨[(0, .text)]⟩, 1⟩

/-- A block of text in many pieces, and what follows it. -/
def longResponse (events : List AssistantMessageEvent) : List AssistantMessageEvent :=
  .start twoBlocks :: .textStart 0 twoBlocks :: (List.replicate 998 (.textDelta 0 "x") ++ events)

/-- The thousand frames of the block, and those behind it. -/
theorem run_longResponse (lib : JsonLibrary) (events : List AssistantMessageEvent) :
    (AssistantMessageFrameEncoder.new.run lib (longResponse events)).2 =
        (AssistantMessageFrameEncoder.new.run lib (longResponse [])).2 ++
          (inText.run lib events).2 ∧
      AssistantMessageFrameEncoder.new.opened lib (longResponse events) =
        .text :: inText.opened lib events ∧
      (AssistantMessageFrameEncoder.new.run lib (longResponse [])).2.length = 1000 := by
  have hrun (rest : List AssistantMessageEvent) : (AssistantMessageFrameEncoder.new.run lib
        (.start twoBlocks :: .textStart 0 twoBlocks :: rest)).2 =
          .start (cloneStartMessage twoBlocks) :: .textStart 0 (.new "") ::
            (inText.run lib rest).2 := rfl
  have hopn (rest : List AssistantMessageEvent) : AssistantMessageFrameEncoder.new.opened lib
        (.start twoBlocks :: .textStart 0 twoBlocks :: rest) =
          .text :: inText.opened lib rest := rfl
  have hmany (rest : List AssistantMessageEvent) := @run_replicate lib rest inText
    (.textDelta 0 "x") (.textDelta 0 "x") rfl rfl 998
  rw [longResponse, longResponse, hrun, hrun, hopn, (hmany events).1, (hmany events).2,
    (hmany []).1, AssistantMessageFrameEncoder.run, append_nil]
  refine ⟨rfl, rfl, ?_⟩
  rw [length_cons, length_cons, length_replicate]

/-- The blocks of the content are those that the encoder has opened. -/
theorem kinds_streamedContent (hne : (AssistantMessageFrameEncoder.new.run lib events).2 ≠ []) :
    ∃ content, streamedContent lib (AssistantMessageFrameEncoder.new.run lib events).2 =
      .ok content ∧
        content.map contentKind = AssistantMessageFrameEncoder.new.opened lib events := by
  obtain ⟨result, hret, -, hkinds⟩ := exists_reduced lib (prefix_refl _)
  obtain ⟨msg, hmsg⟩ := exists_message hne (prefix_refl _)
  rw [hret] at hmsg
  cases hmsg
  refine ⟨msg.content, ?_, hkinds msg events rfl (prefix_refl _) rfl⟩
  rw [streamedContent, hret]
  rfl

/-- The block that starts with the frame behind the window is lost. -/
theorem not_keepsStreamed_longResponse : ¬ ∀ (lib : JsonLibrary) (model : ConfiguredModel)
    (events : List AssistantMessageEvent) (stored : List (RawListElement AssistantMessageFrame)),
    stored.map (·.value) = (AssistantMessageFrameEncoder.new.run lib events).2 →
      (model.api.or model.available).isSome = true → KeepsStreamed lib model stored := by
  intro h
  obtain ⟨hframes, hopened, hlength⟩ := run_longResponse unreadable [.textStart 1 twoBlocks]
  generalize hall : (AssistantMessageFrameEncoder.new.run unreadable
    (longResponse [.textStart 1 twoBlocks])).2 = frames at hframes
  have hstored : (frames.map fun frame => (⟨U64.zero, frame⟩ : RawListElement _)).map (·.value) =
      frames := by simp [Function.comp_def]
  have hkeeps := ((keepsAt_iff (hstored.trans hall.symm) 1001).mp
    (h unreadable ⟨"provider", "model", some "api", none⟩ _ _ (hstored.trans hall.symm) rfl
      1001 0)).2
  have hthousand : frames.length = 1001 := by rw [hframes, length_append, hlength]; rfl
  rw [contentAfter, contentAfter, map_take, map_take, hstored,
    take_of_length_le hthousand.le, hframes, min_eq_left (by decide), listReadDefaultLimit,
    take_left' hlength, ← hframes, ← hall] at hkeeps
  have hne : (AssistantMessageFrameEncoder.new.run unreadable (longResponse [])).2 ≠ [] := by
    intro hnil
    rw [hnil] at hlength
    cases hlength
  obtain ⟨content, hcontent, hkinds⟩ := kinds_streamedContent hne
  obtain ⟨content', hcontent', hkinds'⟩ := @kinds_streamedContent unreadable
    (longResponse [.textStart 1 twoBlocks])
    (by rw [hall, hframes]; exact append_ne_nil_of_left_ne_nil hne _)
  rw [hcontent, hcontent'] at hkeeps
  cases hkeeps
  rw [hkinds, (run_longResponse unreadable []).2.1, hopened] at hkinds'
  cases hkinds'

end PiOxidized.Harness
