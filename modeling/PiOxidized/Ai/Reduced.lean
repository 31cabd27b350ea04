/-
# Encoded frames can be reduced

An event that the encoder accepts opens a block, touches an open one or ends it, and what the
frame says is what the reducer expects: the reducer has the blocks that were opened, and those
that are open for the encoder have not ended for the reducer.
-/

import PiOxidized.Ai.Frame
import PiOxidized.Math.Fallible

namespace PiOxidized.Ai

open List Option Math

variable {lib : JsonLibrary} {enc enc' : AssistantMessageFrameEncoder}
  {event : AssistantMessageEvent} {frame : AssistantMessageFrame}

/-! ## What events and frames are about -/

/-- The kind of the block that an event opens. -/
def AssistantMessageEvent.opens : AssistantMessageEvent → Option BlockKind
  | .textStart _ _ => some .text
  | .thinkingStart _ _ => some .thinking
  | .toolCallStart _ _ => some .toolCall
  | _ => none

/-- The block that a frame opens, with its index and its state. -/
def AssistantMessageFrame.opens :
    AssistantMessageFrame → Option (Nat × AssistantContent × ReducerBlockState)
  | .textStart contentIndex content => some (contentIndex, .text content, .text false)
  | .thinkingStart contentIndex content => some (contentIndex, .thinking content, .thinking false)
  | .toolCallStart contentIndex toolCall =>
    some (contentIndex, .toolCall toolCall, .toolCall false "")
  | _ => none

/-- The index and the kind of the block that a frame goes on with, and whether it ends it. -/
def AssistantMessageFrame.touches : AssistantMessageFrame → Option (Nat × BlockKind × Bool)
  | .textDelta contentIndex _ => some (contentIndex, .text, false)
  | .textEnd contentIndex _ _ => some (contentIndex, .text, true)
  | .thinkingDelta contentIndex _ => some (contentIndex, .thinking, false)
  | .thinkingEnd contentIndex _ _ _ => some (contentIndex, .thinking, true)
  | .toolCallCheckpoint contentIndex _ => some (contentIndex, .toolCall, false)
  | .toolCallDelta contentIndex _ => some (contentIndex, .toolCall, false)
  | .toolCallEnd contentIndex _ _ _ _ _ => some (contentIndex, .toolCall, true)
  | _ => none

variable {slot : Nat}

theorem checkedIndex_eq_ok (h : checkedIndex slot = .ok ()) : slot ≤ maxSafeInteger := by
  rw [checkedIndex] at h
  split_ifs at h with hlt
  exact Nat.le_of_not_lt hlt

theorem checkedIndex_of_le (h : slot ≤ maxSafeInteger) :
    checkedIndex slot = .ok () := if_neg (Nat.not_lt.mpr h)

namespace AssistantMessageFrameEncoder

/-- The kinds of the blocks that an encoder opens over some events. -/
def opened (library : JsonLibrary) (encoder : AssistantMessageFrameEncoder) :
    List AssistantMessageEvent → List BlockKind
  | [] => []
  | event :: events =>
    match encoder.encode library event with
    | (encoder', .ok _) => event.opens.toList ++ encoder'.opened library events
    | (encoder', .error _) => encoder'.opened library events

/-! ## What an encoder does with an event -/

/-- What becomes of an encoder that accepts an event, and what it emits. -/
inductive Step (encoder : AssistantMessageFrameEncoder) :
    AssistantMessageEvent → Option AssistantMessageFrame → AssistantMessageFrameEncoder → Prop
  | start (partialMessage : AssistantMessage) (hstarted : encoder.started = false) :
      Step encoder (.start partialMessage) (some (.start (cloneStartMessage partialMessage)))
        { encoder with started := true }
  | ends (event : AssistantMessageEvent) (hopens : event.opens = none) :
      Step encoder event none { encoder with terminal := true }
  | opens {event : AssistantMessageEvent} {frame : AssistantMessageFrame}
      {block : AssistantContent} {fresh : ReducerBlockState} {state : EncoderBlockState}
      (hstarted : encoder.started = true) (hindex : encoder.nextContentIndex ≤ maxSafeInteger)
      (hevent : event.opens = some state.encoderKind)
      (hframe : frame.opens = some (encoder.nextContentIndex, block, fresh))
      (hblock : contentKind block = state.encoderKind) (hkind : fresh.kind = state.encoderKind)
      (hended : fresh.ended = false) :
      Step encoder event (some frame) { encoder with
          blocks := encoder.blocks.insert encoder.nextContentIndex state
          nextContentIndex := encoder.nextContentIndex + 1 }
  | waits {event : AssistantMessageEvent} {contentIndex : Nat} {state state' : EncoderBlockState}
      (hstarted : encoder.started = true) (hevent : event.opens = none)
      (hstate : encoder.blocks.get? contentIndex = some state)
      (hkind : state'.encoderKind = state.encoderKind) :
      Step encoder event none { encoder with blocks := encoder.blocks.insert contentIndex state' }
  | passes {event : AssistantMessageEvent} (hevent : event.opens = none) :
      Step encoder event none encoder
  | touches {event : AssistantMessageEvent} {frame : AssistantMessageFrame} {contentIndex : Nat}
      {state state' : EncoderBlockState} (hstarted : encoder.started = true)
      (hindex : contentIndex ≤ maxSafeInteger) (hevent : event.opens = none)
      (hstate : encoder.blocks.get? contentIndex = some state)
      (hframe : frame.touches = some (contentIndex, state.encoderKind, false))
      (hkind : state'.encoderKind = state.encoderKind) :
      Step encoder event (some frame)
        { encoder with blocks := encoder.blocks.insert contentIndex state' }
  | goesOn {event : AssistantMessageEvent} {frame : AssistantMessageFrame} {contentIndex : Nat}
      {state : EncoderBlockState} (hstarted : encoder.started = true)
      (hindex : contentIndex ≤ maxSafeInteger) (hevent : event.opens = none)
      (hstate : encoder.blocks.get? contentIndex = some state)
      (hframe : frame.touches = some (contentIndex, state.encoderKind, false)) :
      Step encoder event (some frame) encoder
  | closes {event : AssistantMessageEvent} {frame : AssistantMessageFrame} {contentIndex : Nat}
      {state : EncoderBlockState} (hstarted : encoder.started = true)
      (hindex : contentIndex ≤ maxSafeInteger) (hevent : event.opens = none)
      (hstate : encoder.blocks.get? contentIndex = some state)
      (hframe : frame.touches = some (contentIndex, state.encoderKind, true)) :
      Step encoder event (some frame) { encoder with blocks := encoder.blocks.erase contentIndex }

variable {kind : BlockKind}

variable {state : EncoderBlockState} {error : FrameError}

theorem startBlock_eq_ok (h : enc.startBlock slot state = .ok enc') :
    slot = enc.nextContentIndex ∧ slot ≤ maxSafeInteger ∧ enc' = { enc with
          blocks := enc.blocks.insert enc.nextContentIndex state
          nextContentIndex := enc.nextContentIndex + 1 } := by
  obtain ⟨⟨⟩, hidx, h⟩ := bind_ok h
  split_ifs at h with _ hnext
  rw [← Except.ok.inj h, ← not_not.mp hnext]
  exact ⟨rfl, checkedIndex_eq_ok hidx, rfl⟩

theorem block_eq_ok (h : enc.block slot kind = .ok state) :
    slot ≤ maxSafeInteger ∧ enc.blocks.get? slot = some state ∧ state.encoderKind = kind := by
  obtain ⟨⟨⟩, hidx, h⟩ := bind_ok h
  cases hstate : enc.blocks.get? slot with
  | none =>
    rw [hstate] at h
    cases h
  | some found =>
    rw [hstate] at h
    dsimp only at h
    split_ifs at h with hkind
    rw [← Except.ok.inj h]
    exact ⟨checkedIndex_eq_ok hidx, rfl, not_not.mp hkind⟩

theorem endBlock_eq_ok (h : enc.endBlock slot kind = .ok enc') :
    ∃ state, slot ≤ maxSafeInteger ∧ enc.blocks.get? slot = some state ∧ state.encoderKind = kind ∧
      enc' = { enc with blocks := enc.blocks.erase slot } := by
  obtain ⟨state, hstate, h⟩ := bind_ok h
  obtain ⟨hidx, hget, hkind⟩ := block_eq_ok hstate
  exact ⟨state, hidx, hget, hkind, (Except.ok.inj h).symm⟩

theorem settle_eq_ok {X : Type} {ans : X}
    {res : Except FrameError (AssistantMessageFrameEncoder × X)}
    (h : enc.settle res = (enc', .ok ans)) : res = .ok (enc', ans) := by
  cases res with
  | error error => cases (Prod.mk.inj h).2
  | ok res =>
    obtain ⟨hencoder, hans⟩ := Prod.mk.inj h
    rw [← hencoder, ← Except.ok.inj hans]

theorem settle_eq_error {X : Type} {res : Except FrameError (AssistantMessageFrameEncoder × X)}
    (h : enc.settle res = (enc', .error error)) : enc' = enc := by
  cases res with
  | error error => exact (Prod.mk.inj h).1.symm
  | ok res => cases (Prod.mk.inj h).2

variable {slot : Nat} {partialMessage : AssistantMessage} {ans : Option AssistantMessageFrame}

variable {content : String}

section

variable (hstarted : enc.started = true)

include hstarted

theorem step_of_textStart (h : enc.encodeTextStart slot partialMessage = .ok (enc', ans)) :
    Step enc (.textStart slot partialMessage) ans enc' := by
  obtain ⟨block, -, h⟩ := bind_ok h
  cases block with
  | text content =>
    obtain ⟨next, hnext, h⟩ := bind_ok h
    obtain ⟨hidx, hle, hnext⟩ := startBlock_eq_ok hnext
    cases h
    rw [hnext, hidx]
    rw [hidx] at hle
    exact .opens hstarted hle rfl rfl rfl rfl rfl
  | thinking | toolCall => cases h

theorem step_of_thinkingStart (h : enc.encodeThinkingStart slot partialMessage = .ok (enc', ans)) :
    Step enc (.thinkingStart slot partialMessage) ans enc' := by
  obtain ⟨block, -, h⟩ := bind_ok h
  cases block with
  | thinking content =>
    obtain ⟨next, hnext, h⟩ := bind_ok h
    obtain ⟨hidx, hle, hnext⟩ := startBlock_eq_ok hnext
    cases h
    rw [hnext, hidx]
    rw [hidx] at hle
    exact .opens hstarted hle rfl rfl rfl rfl rfl
  | text | toolCall => cases h

theorem step_of_toolCallStart
    (h : enc.encodeToolCallStart lib slot partialMessage = .ok (enc', ans)) :
    Step enc (.toolCallStart slot partialMessage) ans enc' := by
  obtain ⟨block, -, h⟩ := bind_ok h
  cases block with
  | toolCall call =>
    obtain ⟨snapshot, -, h⟩ := bind_ok h
    obtain ⟨empty, -, h⟩ := bind_ok h
    obtain ⟨next, hnext, h⟩ := bind_ok h
    obtain ⟨hidx, hle, hnext⟩ := startBlock_eq_ok hnext
    cases h
    rw [hnext, hidx]
    rw [hidx] at hle
    exact .opens hstarted hle rfl rfl rfl rfl rfl
  | text | thinking => cases h

theorem step_of_textEnd (h : enc.encodeTextEnd slot content partialMessage = .ok (enc', ans)) :
    Step enc (.textEnd slot content partialMessage) ans enc' := by
  obtain ⟨block, -, h⟩ := bind_ok h
  cases block with
  | text text =>
    obtain ⟨next, hnext, h⟩ := bind_ok h
    obtain ⟨state, hle, hstate, hkind, hnext⟩ := endBlock_eq_ok hnext
    cases h
    rw [hnext]
    exact .closes hstarted hle rfl hstate (by rw [hkind]; rfl)
  | thinking | toolCall => cases h

theorem step_of_thinkingEnd
    (h : enc.encodeThinkingEnd slot content partialMessage = .ok (enc', ans)) :
    Step enc (.thinkingEnd slot content partialMessage) ans enc' := by
  obtain ⟨block, -, h⟩ := bind_ok h
  cases block with
  | thinking thinking =>
    obtain ⟨next, hnext, h⟩ := bind_ok h
    obtain ⟨state, hle, hstate, hkind, hnext⟩ := endBlock_eq_ok hnext
    cases h
    rw [hnext]
    exact .closes hstarted hle rfl hstate (by rw [hkind]; rfl)
  | text | toolCall => cases h

theorem step_of_toolCallEnd {toolCall : ToolCall}
    (h : enc.encodeToolCallEnd slot toolCall partialMessage = .ok (enc', ans)) :
    Step enc (.toolCallEnd slot toolCall partialMessage) ans enc' := by
  obtain ⟨block, -, h⟩ := bind_ok h
  cases block with
  | toolCall call =>
    obtain ⟨next, hnext, h⟩ := bind_ok h
    obtain ⟨state, hle, hstate, hkind, hnext⟩ := endBlock_eq_ok hnext
    cases h
    rw [hnext]
    exact .closes hstarted hle rfl hstate (by rw [hkind]; rfl)
  | text | thinking => cases h

/-- A delta is about an open block of its kind. -/
theorem step_of_textDelta {delta : String} {write : Nat → String → AssistantMessageFrame}
    (hevent : event.opens = none)
    (hwrt : (write slot delta).touches = some (slot, kind, false))
    (h : enc.encodeTextDelta slot delta kind write = .ok (enc', ans)) :
    Step enc event ans enc' := by
  obtain ⟨state, hstate, h⟩ := bind_ok h
  obtain ⟨hle, hget, hkind⟩ := block_eq_ok hstate
  rw [← hkind] at hwrt
  obtain ⟨hencoder, hans⟩ := Prod.mk.inj (Except.ok.inj h)
  rw [← hencoder, ← hans]
  by_cases hdelta : delta.isEmpty = true
  · rw [if_pos hdelta]
    exact .passes hevent
  · rw [if_neg hdelta]
    exact .goesOn hstarted hle hevent hget hwrt

theorem step_of_toolCallDelta {delta : String}
    (h : enc.encodeToolCallDelta lib slot delta = (enc', .ok ans)) :
    Step enc (.toolCallDelta slot delta) ans enc' := by
  rw [encodeToolCallDelta] at h
  cases hblock : enc.block slot .toolCall with
  | error error =>
    rw [hblock] at h
    cases (Prod.mk.inj h).2
  | ok state =>
    rw [hblock] at h
    obtain ⟨hle, hget, hkind⟩ := block_eq_ok hblock
    have hevent : (AssistantMessageEvent.toolCallDelta slot delta).opens = none := rfl
    cases state with
    | text => cases hkind
    | thinking => cases hkind
    | toolCall caughtUp catchupJson snapshotArguments =>
      cases caughtUp with
      | true =>
        obtain ⟨hencoder, hans⟩ := Prod.mk.inj h
        rw [← hencoder, ← Except.ok.inj hans]
        by_cases hdelta : delta.isEmpty = true
        · rw [if_pos hdelta]
          exact .passes hevent
        · rw [if_neg hdelta]
          exact .goesOn hstarted hle hevent hget rfl
      | false =>
        -- caught up or not, the block stays the one of a call
        dsimp only at h
        cases hserialized : serializedArguments lib
            (parseStreamingJson lib (catchupJson ++ delta).toList) with
        | error error =>
          rw [hserialized] at h
          cases (Prod.mk.inj h).2
        | ok serialized =>
          rw [hserialized] at h
          dsimp only at h
          split_ifs at h with hcaught hjson
          · cases h
            exact .waits hstarted hevent hget rfl
          · cases h
            exact .touches hstarted hle hevent hget rfl rfl
          · cases h
            exact .waits hstarted hevent hget rfl

end

/-- An event that is accepted is a step. -/
theorem step_of_encode (h : enc.encode lib event = (enc', .ok ans)) : Step enc event ans enc' := by
  unfold encode at h
  split_ifs at h with hterm hear
  · cases (Prod.mk.inj h).2
  · cases (Prod.mk.inj h).2
  · have hstarted : event.mayComeFirst = false → enc.started = true := by
      intro hlate
      rw [hlate] at hear
      simpa using hear
    cases event with
    | start partialMessage =>
      have h := settle_eq_ok h
      rw [encodeStart] at h
      split_ifs at h with hagain
      cases h
      exact .start partialMessage (Bool.not_eq_true _ ▸ hagain)
    | done =>
      have h := settle_eq_ok h
      rw [encodeDone] at h
      split_ifs at h
      cases h
      exact .ends _ rfl
    | error =>
      cases h
      exact .ends _ rfl
    | textStart slot partialMessage =>
      exact step_of_textStart (hstarted rfl) (settle_eq_ok h)
    | textDelta | thinkingDelta =>
      exact step_of_textDelta (hstarted rfl) rfl rfl (settle_eq_ok h)
    | textEnd slot content partialMessage =>
      exact step_of_textEnd (hstarted rfl) (settle_eq_ok h)
    | thinkingStart slot partialMessage =>
      exact step_of_thinkingStart (hstarted rfl) (settle_eq_ok h)
    | thinkingEnd slot content partialMessage =>
      exact step_of_thinkingEnd (hstarted rfl) (settle_eq_ok h)
    | toolCallStart slot partialMessage =>
      exact step_of_toolCallStart (hstarted rfl) (settle_eq_ok h)
    | toolCallDelta slot delta => exact step_of_toolCallDelta (hstarted rfl) h
    | toolCallEnd slot toolCall partialMessage =>
      exact step_of_toolCallEnd (hstarted rfl) (settle_eq_ok h)

/-- An event that is rejected leaves the encoder as it was. -/
theorem encode_eq_error (h : enc.encode lib event = (enc', .error error)) : enc' = enc := by
  unfold encode at h
  split_ifs at h with hterm hear
  · exact (Prod.mk.inj h).1.symm
  · exact (Prod.mk.inj h).1.symm
  · cases event with
    | error => cases (Prod.mk.inj h).2
    | toolCallDelta slot delta =>
      -- the text that would be left behind has arguments with a text
      dsimp only at h
      rw [encodeToolCallDelta] at h
      split at h
      · exact (Prod.mk.inj h).1.symm
      · cases (Prod.mk.inj h).2
      · rename_i catchupJson snapshotArguments _
        obtain ⟨text, htext⟩ := serializedArguments_ok lib
          (parseStreamingJson lib (catchupJson ++ delta).toList)
        dsimp only at h
        rw [htext] at h
        dsimp only at h
        split_ifs at h <;> cases (Prod.mk.inj h).2
      · exact (Prod.mk.inj h).1.symm
    | start | done | textStart | textDelta | textEnd | thinkingStart | thinkingDelta
    | thinkingEnd | toolCallStart | toolCallEnd => exact settle_eq_error h

end AssistantMessageFrameEncoder

/-! ## What the reducer does with a frame -/

/-- The kinds of the blocks of a message. -/
def AssistantMessage.kinds (message : AssistantMessage) : List BlockKind :=
  message.content.map contentKind

/-- A block that is replaced by one of its kind changes no kind. -/
theorem AssistantMessage.kinds_set {msg : AssistantMessage} {block : AssistantContent}
    (h : msg.kinds[slot]? = some (contentKind block)) :
    ({ msg with content := msg.content.set slot block } : AssistantMessage).kinds = msg.kinds := by
  obtain ⟨hlt, hget⟩ := List.getElem?_eq_some_iff.mp h
  rw [kinds, map_set, ← kinds, ← hget]
  exact set_getElem_self hlt

namespace Reduction

variable {cur : Reduction} {slot : Nat} {kind : BlockKind}

variable {state : ReducerBlockState} {block : AssistantContent}

theorem activeBlock_eq_ok (hidx : slot ≤ maxSafeInteger)
    (hstate : cur.states.get? slot = some state)
    (hblock : cur.message.content[slot]? = some block) (hkind : state.kind = kind)
    (hcont : contentKind block = kind) (hended : state.ended = false) (type : String) :
    cur.activeBlock slot kind type = .ok (block, state) := by
  refine bind_ok_iff.mpr ⟨(), checkedIndex_of_le hidx, ?_⟩
  rw [hstate, hblock]
  dsimp only
  rw [if_neg (by simp [hkind, hcont]), hended]
  rfl

/-- A frame about a block that has started and not ended is taken. -/
theorem reduceFrame_touches (lib : JsonLibrary) {ended : Bool}
    (hfrm : frame.touches = some (slot, kind, ended))
    (hidx : slot ≤ maxSafeInteger)
    (hstate : cur.states.get? slot = some state)
    (hblock : cur.message.content[slot]? = some block) (hkind : state.kind = kind)
    (hcont : contentKind block = kind) (hended : state.ended = false) :
    ∃ block' state', cur.reduceFrame lib frame = .ok (cur.store slot block' state') ∧
      contentKind block' = kind ∧ state'.kind = kind ∧ state'.ended = ended := by
  have hact := activeBlock_eq_ok hidx hstate hblock hkind hcont hended
  cases frame with
  | start | textStart | thinkingStart | toolCallStart => cases hfrm
  | textDelta _ _ =>
    cases hfrm
    cases block with
    | text _ =>
      exact ⟨_, state, bind_ok_iff.mpr ⟨_, hact _, rfl⟩, rfl, hkind, hended⟩
    | thinking | toolCall => cases hcont
  | textEnd _ _ _ =>
    cases hfrm
    cases block with
    | text _ =>
      cases state with
      | text _ => exact ⟨_, _, bind_ok_iff.mpr ⟨_, hact _, rfl⟩, rfl, rfl, rfl⟩
      | thinking | toolCall => cases hkind
    | thinking | toolCall => cases hcont
  | thinkingDelta _ _ =>
    cases hfrm
    cases block with
    | thinking _ =>
      exact ⟨_, state, bind_ok_iff.mpr ⟨_, hact _, rfl⟩, rfl, hkind, hended⟩
    | text | toolCall => cases hcont
  | thinkingEnd _ _ _ _ =>
    cases hfrm
    cases block with
    | thinking _ =>
      cases state with
      | thinking _ => exact ⟨_, _, bind_ok_iff.mpr ⟨_, hact _, rfl⟩, rfl, rfl, rfl⟩
      | text | toolCall => cases hkind
    | text | toolCall => cases hcont
  | toolCallCheckpoint _ _ =>
    cases hfrm
    cases block with
    | toolCall _ =>
      cases state with
      | toolCall _ _ =>
        exact ⟨_, _, bind_ok_iff.mpr ⟨_, hact _, rfl⟩, rfl, rfl, hended⟩
      | text | thinking => cases hkind
    | text | thinking => cases hcont
  | toolCallDelta _ _ =>
    cases hfrm
    cases state with
    | toolCall _ _ =>
      exact ⟨block, _, bind_ok_iff.mpr ⟨_, hact _, rfl⟩, hcont, rfl, hended⟩
    | text | thinking => cases hkind
  | toolCallEnd _ _ _ _ _ _ =>
    cases hfrm
    cases block with
    | toolCall _ =>
      cases state with
      | toolCall _ _ =>
        exact ⟨_, _, bind_ok_iff.mpr ⟨_, hact _, rfl⟩, rfl, rfl, rfl⟩
      | text | thinking => cases hkind
    | text | thinking => cases hcont

/-- A frame that opens the next block is taken. -/
theorem reduceFrame_opens {fresh : ReducerBlockState}
    (hfrm : frame.opens = some (cur.message.content.length, block, fresh))
    (hidx : cur.message.content.length ≤ maxSafeInteger) :
    cur.reduceFrame lib frame = .ok
        { message := { cur.message with content := cur.message.content ++ [block] }
          states := cur.states.insert cur.message.content.length fresh } := by
  have happ : cur.appendBlock cur.message.content.length block fresh = .ok
        { message := { cur.message with content := cur.message.content ++ [block] }
          states := cur.states.insert cur.message.content.length fresh } :=
    bind_ok_iff.mpr ⟨(), checkedIndex_of_le hidx, if_neg (not_not.mpr rfl)⟩
  rw [← happ]
  cases frame with
  | textStart | thinkingStart | toolCallStart =>
    cases hfrm
    rfl
  | start | textDelta | textEnd | thinkingDelta | thinkingEnd | toolCallCheckpoint
  | toolCallDelta | toolCallEnd => cases hfrm

/-- The states are those of blocks of the same kind. -/
def Consistent (current : Reduction) : Prop := ∀ entry ∈ current.states.entries,
    entry.1 ≤ maxSafeInteger ∧ current.message.kinds[entry.1]? = some entry.2.kind

/-- Calls that are not finished stay calls. -/
theorem finishCalls_kinds (lib : JsonLibrary) {msg : AssistantMessage}
    {entries : List (Nat × ReducerBlockState)}
    (h : ∀ entry ∈ entries, entry.1 ≤ maxSafeInteger ∧ msg.kinds[entry.1]? = some entry.2.kind) :
    ∃ msg', finishCalls lib msg entries = .ok msg' ∧ msg'.kinds = msg.kinds := by
  induction entries generalizing msg with
  | nil => exact ⟨msg, rfl, rfl⟩
  | cons entry entries ih =>
    obtain ⟨slot, state⟩ := entry
    obtain ⟨⟨hidx, hkind⟩, hrest⟩ := forall_mem_cons.mp h
    rw [finishCalls]
    cases hunfinished : unfinished state with
    | none => exact ih hrest
    | some json =>
      have hcall : state.kind = .toolCall := by
        cases state with
        | text | thinking => cases hunfinished
        | toolCall _ _ => rfl
      dsimp only at hkind
      rw [hcall] at hkind
      have hblock := hkind
      rw [AssistantMessage.kinds, getElem?_map, map_eq_some_iff] at hblock
      obtain ⟨block, hblock, hcont⟩ := hblock
      cases block with
      | text | thinking => cases hcont
      | toolCall call =>
        let read := AssistantContent.toolCall
          { call with arguments := parseStreamingJson lib json.toList }
        have hset : ({ msg with content := msg.content.set slot read } :
            AssistantMessage).kinds = msg.kinds := AssistantMessage.kinds_set hkind
        rw [← hset] at hrest
        obtain ⟨msg', hfinish, hkinds⟩ := ih hrest
        refine ⟨msg', ?_, hkinds.trans hset⟩
        refine bind_ok_iff.mpr ⟨(), checkedIndex_of_le hidx, ?_⟩
        rw [hblock]
        exact hfinish

theorem mem_entries_insert {states : Dict Nat ReducerBlockState} {entry : Nat × ReducerBlockState}
    (h : entry ∈ (states.insert slot state).entries) :
    entry = (slot, state) ∨ entry ∈ states.entries := by
  rcases mem_cons.mp h with h | h
  · exact .inl h
  · exact .inr (mem_of_mem_filter h)

theorem Consistent.store (h : cur.Consistent) (hidx : slot ≤ maxSafeInteger)
    (hblock : cur.message.kinds[slot]? = some (contentKind block))
    (hkind : state.kind = contentKind block) :
    (cur.store slot block state).Consistent := by
  have hkinds : (cur.store slot block state).message.kinds = cur.message.kinds :=
    AssistantMessage.kinds_set hblock
  intro entry hmem
  rw [hkinds]
  rcases mem_entries_insert hmem with rfl | hmem
  · exact ⟨hidx, hblock.trans (congrArg some hkind.symm)⟩
  · exact h entry hmem

end Reduction

/-! ## The encoder and the reducer agree -/

/-- The reducer has the blocks that were opened, and the open ones have not ended. -/
structure Simulates (encoder : AssistantMessageFrameEncoder) (current : Reduction) : Prop where
  started : encoder.started = true
  next : encoder.nextContentIndex = current.message.content.length
  consistent : current.Consistent
  isOpen : ∀ contentIndex state, encoder.blocks.get? contentIndex = some state →
    ∃ rebuilt, current.states.get? contentIndex = some rebuilt ∧
      rebuilt.kind = state.encoderKind ∧ rebuilt.ended = false

namespace Simulates

variable {cur : Reduction} {slot : Nat} {state : EncoderBlockState}

/-- The block of the message at the index of an open block. -/
theorem exists_block (h : Simulates enc cur) (hstate : enc.blocks.get? slot = some state) :
    ∃ block, cur.message.content[slot]? = some block ∧ contentKind block = state.encoderKind := by
  obtain ⟨rebuilt, hrebuilt, hkind, -⟩ := h.isOpen slot state hstate
  obtain ⟨-, hblock⟩ := h.consistent _ (Dict.mem_entries_of_get? hrebuilt)
  rw [AssistantMessage.kinds, getElem?_map, map_eq_some_iff] at hblock
  obtain ⟨block, hblock, hcont⟩ := hblock
  exact ⟨block, hblock, hcont.trans hkind⟩

/-- A frame about an open block is taken, and the block stays open unless the frame ends it. -/
theorem touch (lib : JsonLibrary) (h : Simulates enc cur)
    (enc' : AssistantMessageFrameEncoder) (hidx : slot ≤ maxSafeInteger)
    (hstate : enc.blocks.get? slot = some state) {ended : Bool}
    (hfrm : frame.touches = some (slot, state.encoderKind, ended))
    (hstarted : enc'.started = true)
    (hnext : enc'.nextContentIndex = enc.nextContentIndex)
    (hsame : ∀ other state', other ≠ slot → enc'.blocks.get? other = some state' →
      enc.blocks.get? other = some state')
    (hself : ∀ state', enc'.blocks.get? slot = some state' →
      state'.encoderKind = state.encoderKind ∧ ended = false) :
    ∃ cur', cur.reduceFrame lib frame = .ok cur' ∧ Simulates enc' cur' ∧
      cur'.message.kinds = cur.message.kinds := by
  obtain ⟨rebuilt, hrebuilt, hkind, hopen⟩ := h.isOpen slot state hstate
  obtain ⟨block, hblock, hcont⟩ := h.exists_block hstate
  obtain ⟨block', rebuilt', hreduce, hcont', hkind', hended⟩ :=
    Reduction.reduceFrame_touches lib hfrm hidx hrebuilt hblock hkind hcont hopen
  have hkinds : cur.message.kinds[slot]? = some (contentKind block') := by
    rw [AssistantMessage.kinds, getElem?_map, hblock, map_some, hcont, hcont']
  refine ⟨_, hreduce, ⟨hstarted, ?_, ?_, ?_⟩, AssistantMessage.kinds_set hkinds⟩
  · rw [hnext, h.next, Reduction.store, length_set]
  · exact h.consistent.store hidx hkinds (hkind'.trans hcont'.symm)
  · intro other state' hoth
    rw [Reduction.store, Dict.get?_insert]
    by_cases heq : other = slot
    · rw [heq] at hoth ⊢
      obtain ⟨hsameKind, hnotEnded⟩ := hself state' hoth
      rw [if_pos BEq.rfl]
      exact ⟨rebuilt', rfl, hkind'.trans hsameKind.symm, hended.trans hnotEnded⟩
    · rw [if_neg (by simpa using heq)]
      exact h.isOpen other state' (hsame other state' heq hoth)

/-- A frame that opens the next block is taken. -/
theorem append (lib : JsonLibrary) (h : Simulates enc cur)
    (hidx : enc.nextContentIndex ≤ maxSafeInteger) {block : AssistantContent}
    {fresh : ReducerBlockState}
    (hfrm : frame.opens = some (enc.nextContentIndex, block, fresh))
    (hblock : contentKind block = state.encoderKind) (hkind : fresh.kind = state.encoderKind)
    (hended : fresh.ended = false) :
    ∃ cur', cur.reduceFrame lib frame = .ok cur' ∧ Simulates { enc with
          blocks := enc.blocks.insert enc.nextContentIndex state
          nextContentIndex := enc.nextContentIndex + 1 } cur' ∧
      cur'.message.kinds = cur.message.kinds ++ [state.encoderKind] := by
  rw [h.next] at hfrm hidx ⊢
  have hkinds : (cur.message.content ++ [block]).map contentKind =
      cur.message.kinds ++ [state.encoderKind] := by
    rw [map_append, map_singleton, hblock]
    rfl
  have hlen : cur.message.kinds.length = cur.message.content.length := length_map _
  refine ⟨_, Reduction.reduceFrame_opens hfrm hidx, ⟨h.started, ?_, ?_, ?_⟩, hkinds⟩
  · rw [length_append, length_singleton]
  · intro entry hmem
    rw [AssistantMessage.kinds, hkinds]
    rcases Reduction.mem_entries_insert hmem with rfl | hmem
    · refine ⟨hidx, ?_⟩
      rw [← hlen, getElem?_concat_length, hkind]
    · obtain ⟨hle, hget⟩ := h.consistent entry hmem
      obtain ⟨hlt, -⟩ := List.getElem?_eq_some_iff.mp hget
      exact ⟨hle, by rw [getElem?_append_left hlt, hget]⟩
  · intro other state' hoth
    rw [Dict.get?_insert] at hoth ⊢
    by_cases heq : other = cur.message.content.length
    · rw [heq, if_pos BEq.rfl] at hoth
      rw [heq, if_pos BEq.rfl, ← some.inj hoth]
      exact ⟨fresh, rfl, hkind, hended⟩
    · rw [if_neg (by simpa using heq)] at hoth ⊢
      exact h.isOpen other state' hoth

end Simulates

/-- The encoder and the reducer behind the same frames, which opened blocks of some kinds. -/
def Agrees (encoder : AssistantMessageFrameEncoder) (kinds : List BlockKind) : Reducing → Prop
  | .waiting none =>
    encoder.started = false ∧ encoder.blocks = .empty ∧ encoder.nextContentIndex = 0 ∧ kinds = []
  | .waiting (some _) => False
  | .reducing current => Simulates encoder current ∧ current.message.kinds = kinds

namespace Agrees

variable {kinds : List BlockKind} {reducing : Reducing}

/-- An encoder that has started is ahead of a reduction. -/
theorem exists_current (h : Agrees enc kinds reducing) (hstarted : enc.started = true) :
    ∃ cur, reducing = .reducing cur ∧ Simulates enc cur ∧ cur.message.kinds = kinds := by
  match reducing, h with
  | .waiting none, h =>
    rw [h.1] at hstarted
    cases hstarted
  | .reducing cur, h => exact ⟨cur, rfl, h.1, h.2⟩

/-- What an event changes at the encoder without a frame does not matter to the reducer. -/
theorem of_same (h : Agrees enc kinds reducing) (hstarted : enc'.started = enc.started)
    (hnext : enc'.nextContentIndex = enc.nextContentIndex)
    (hemp : enc.blocks = .empty → enc'.blocks = .empty)
    (hkinds : ∀ other state', enc'.blocks.get? other = some state' →
      ∃ state, enc.blocks.get? other = some state ∧ state'.encoderKind = state.encoderKind) :
    Agrees enc' kinds reducing := by
  match reducing, h with
  | .waiting none, h =>
    exact ⟨hstarted.trans h.1, hemp h.2.1, hnext.trans h.2.2.1, h.2.2.2⟩
  | .reducing cur, h =>
    refine ⟨⟨hstarted.trans h.1.started, hnext.trans h.1.next, h.1.consistent, ?_⟩, h.2⟩
    intro other state' hoth
    obtain ⟨state, hstate, hkind⟩ := hkinds other state' hoth
    obtain ⟨rebuilt, hrebuilt, hsame, hended⟩ := h.1.isOpen other state hstate
    exact ⟨rebuilt, hrebuilt, hsame.trans hkind.symm, hended⟩

theorem step_none (h : Agrees enc kinds reducing) (hstep : enc.Step event none enc') :
    Agrees enc' kinds reducing ∧ event.opens = none := by
  cases hstep with
  | ends _ hopens =>
    exact ⟨h.of_same rfl rfl id fun _ state hstate => ⟨state, hstate, rfl⟩, hopens⟩
  | passes hevent => exact ⟨h, hevent⟩
  | @waits _ slot state state' hstarted hevent hstate hkind =>
    refine ⟨h.of_same rfl rfl ?_ ?_, hevent⟩
    · intro hemp
      rw [hemp] at hstate
      cases hstate
    · intro other found hfnd
      rw [Dict.get?_insert] at hfnd
      by_cases heq : other = slot
      · rw [heq, if_pos BEq.rfl] at hfnd
        rw [heq, ← some.inj hfnd]
        exact ⟨state, hstate, hkind⟩
      · rw [if_neg (by simpa using heq)] at hfnd
        exact ⟨found, hfnd, rfl⟩

/-- A frame that is emitted is taken, and the reducer goes on with the encoder. -/
theorem step_some (lib : JsonLibrary) (h : Agrees enc kinds reducing)
    (hstep : enc.Step event (some frame) enc') :
    ∃ cur, reducing.step lib frame = .ok (.reducing cur) ∧
      Agrees enc' (kinds ++ event.opens.toList) (.reducing cur) ∧
      ((∃ cur, reducing = .reducing cur) ∨ ∃ partialMessage, frame = .start partialMessage) := by
  -- behind the start every frame goes to the reduction
  have hreduce : ∀ {cur cur' : Reduction} {kinds' : List BlockKind},
      reducing = .reducing cur → cur.reduceFrame lib frame = .ok cur' →
      Simulates enc' cur' → cur'.message.kinds = kinds' →
      kinds' = kinds ++ event.opens.toList →
      ∃ cur, reducing.step lib frame = .ok (.reducing cur) ∧
        Agrees enc' (kinds ++ event.opens.toList) (.reducing cur) ∧
        ((∃ cur, reducing = .reducing cur) ∨ ∃ partialMessage, frame = .start partialMessage) := by
    intro cur cur' kinds' heq hfrm hsim hkinds hopens
    rw [heq, ← hopens]
    exact ⟨cur', bind_ok_iff.mpr ⟨cur', hfrm, rfl⟩, ⟨hsim, hkinds⟩, .inl ⟨cur, rfl⟩⟩
  cases hstep with
  | start partialMessage hstarted =>
    match reducing, h with
    | .waiting none, h =>
      obtain ⟨-, hblocks, hnext, hkinds⟩ := h
      refine ⟨⟨cloneStartMessage partialMessage, .empty⟩, rfl, ⟨⟨rfl, hnext, ?_, ?_⟩, ?_⟩,
        .inr ⟨_, rfl⟩⟩
      · intro entry hmem
        cases hmem
      · intro slot state hstate
        rw [hblocks] at hstate
        cases hstate
      · rw [hkinds]
        rfl
    | .reducing cur, h =>
      rw [h.1.started] at hstarted
      cases hstarted
  | opens hstarted hidx hevent hfrm hblock hkind hended =>
    obtain ⟨cur, heq, hsim, hkinds⟩ := h.exists_current hstarted
    obtain ⟨cur', hred, hsim', hkinds'⟩ := hsim.append lib hidx hfrm hblock hkind hended
    exact hreduce heq hred hsim' hkinds' (by rw [hkinds, hevent]; rfl)
  | @touches _ _ slot state state' hstarted hidx hevent hstate hfrm hkind =>
    obtain ⟨cur, heq, hsim, hkinds⟩ := h.exists_current hstarted
    obtain ⟨cur', hred, hsim', hkinds'⟩ := hsim.touch lib { enc with
        blocks := enc.blocks.insert slot state' } hidx hstate hfrm hstarted rfl
        (by
          intro other found hne hfnd
          rwa [Dict.get?_insert, if_neg (by simpa using hne)] at hfnd)
        (by
          intro found hfnd
          rw [Dict.get?_insert, if_pos BEq.rfl] at hfnd
          rw [← some.inj hfnd]
          exact ⟨hkind, rfl⟩)
    exact hreduce heq hred hsim' hkinds' (by rw [hkinds, hevent]; simp)
  | goesOn hstarted hidx hevent hstate hfrm =>
    obtain ⟨cur, heq, hsim, hkinds⟩ := h.exists_current hstarted
    obtain ⟨cur', hred, hsim', hkinds'⟩ :=
      hsim.touch lib enc hidx hstate hfrm hstarted rfl (fun _ _ _ hfnd => hfnd) (by
          intro found hfnd
          rw [hstate] at hfnd
          rw [← some.inj hfnd]
          exact ⟨rfl, rfl⟩)
    exact hreduce heq hred hsim' hkinds' (by rw [hkinds, hevent]; simp)
  | @closes _ _ slot state hstarted hidx hevent hstate hfrm =>
    obtain ⟨cur, heq, hsim, hkinds⟩ := h.exists_current hstarted
    obtain ⟨cur', hred, hsim', hkinds'⟩ := hsim.touch lib { enc with
        blocks := enc.blocks.erase slot } hidx hstate hfrm hstarted rfl
        (by
          intro other found hne hfnd
          rwa [Dict.get?_erase, if_neg (by simpa using hne)] at hfnd)
        (by
          intro found hfnd
          rw [Dict.get?_erase, if_pos BEq.rfl] at hfnd
          cases hfnd)
    exact hreduce heq hred hsim' hkinds' (by rw [hkinds, hevent]; simp)

/-- Behind any of the frames the message can be finished, with the kinds that were opened. -/
theorem finish (lib : JsonLibrary) (h : Agrees enc kinds reducing) :
    ∃ res, reducing.finish lib = .ok res ∧ (res.isSome = true ↔ ∃ cur, reducing = .reducing cur) ∧
      ∀ msg, res = some msg → msg.kinds = kinds := by
  match reducing, h with
  | .waiting none, _ => exact ⟨none, rfl, by simp, fun _ h => nomatch h⟩
  | .reducing cur, h =>
    obtain ⟨msg, hfinish, hkinds⟩ := Reduction.finishCalls_kinds lib h.1.consistent
    refine ⟨some msg, bind_ok_iff.mpr ⟨msg, hfinish, rfl⟩, by simp, ?_⟩
    intro msg' heq
    rw [← some.inj heq, hkinds, h.2]

end Agrees

/-! ## Every prefix of the frames -/

namespace AssistantMessageFrameEncoder

variable {events : List AssistantMessageEvent} {frames : List AssistantMessageFrame}

/-- What an event emits and what it opens. -/
theorem run_cons (lib : JsonLibrary) (enc : AssistantMessageFrameEncoder)
    (event : AssistantMessageEvent) :
    (∃ enc' frame, enc.Step event (some frame) enc' ∧ ∀ events,
      (enc.run lib (event :: events)).2 = frame :: (enc'.run lib events).2 ∧
        enc.opened lib (event :: events) = event.opens.toList ++ enc'.opened lib events) ∨
    ∃ enc', (enc' = enc ∨ enc.Step event none enc') ∧ ∀ events,
      (enc.run lib (event :: events)).2 = (enc'.run lib events).2 ∧
        enc.opened lib (event :: events) = enc'.opened lib events := by
  simp only [run, opened]
  rcases henc : enc.encode lib event with ⟨enc', error | _ | frame⟩
  · exact .inr ⟨enc', .inl (encode_eq_error henc), fun _ => ⟨rfl, rfl⟩⟩
  · have hstep := step_of_encode henc
    have hopens : event.opens = none := by
      cases hstep with
      | ends _ hopens => exact hopens
      | waits _ hevent | passes hevent => exact hevent
    exact .inr ⟨enc', .inr hstep, fun _ => ⟨rfl, by rw [hopens]; rfl⟩⟩
  · exact .inl ⟨enc', frame, step_of_encode henc, fun _ => ⟨rfl, rfl⟩⟩

/-- The first of the frames are those of the first events. -/
theorem exists_taken (h : frames <+: (enc.run lib events).2) :
    ∃ taken, taken <+: events ∧ (enc.run lib taken).2 = frames := by
  induction events generalizing enc frames with
  | nil => exact ⟨[], nil_prefix, (prefix_nil.mp h).symm⟩
  | cons event events ih =>
    rcases run_cons lib enc event with
      ⟨enc', frame, -, hrun⟩ | ⟨enc', -, hrun⟩
    · cases frames with
      | nil => exact ⟨[], nil_prefix, rfl⟩
      | cons first frames =>
        rw [(hrun events).1] at h
        obtain ⟨hfst, hfr⟩ := cons_prefix_cons.mp h
        obtain ⟨taken, hpref, htkn⟩ := ih hfr
        refine ⟨event :: taken, (prefix_cons_inj event).mpr hpref, ?_⟩
        rw [(hrun taken).1, hfst, htkn]
    · rw [(hrun events).1] at h
      obtain ⟨taken, hpref, htkn⟩ := ih h
      refine ⟨event :: taken, (prefix_cons_inj event).mpr hpref, ?_⟩
      rw [(hrun taken).1, htkn]

/-- The first of the frames can be replayed, and what has been opened by then is there. -/
theorem exists_reducing {kinds : List BlockKind} {reducing : Reducing}
    (h : Agrees enc kinds reducing) (hfr : frames <+: (enc.run lib events).2) :
    ∃ reducing' kinds' enc', frames.foldlM (Reducing.step lib) reducing = .ok reducing' ∧
      Agrees enc' kinds' reducing' ∧
      ((∃ cur, reducing' = .reducing cur) ↔ (∃ cur, reducing = .reducing cur) ∨
          ∃ partialMessage, .start partialMessage ∈ frames) ∧
      ∀ taken, taken <+: events → (enc.run lib taken).2 = frames →
        kinds' = kinds ++ enc.opened lib taken := by
  induction events generalizing enc kinds reducing frames with
  | nil =>
    rw [prefix_nil.mp hfr]
    refine ⟨reducing, kinds, enc, rfl, h, by simp, ?_⟩
    intro taken hpref _
    rw [prefix_nil.mp hpref]
    exact (append_nil kinds).symm
  | cons event events ih =>
    rcases run_cons lib enc event with
      ⟨enc', frame, hstep, hrun⟩ | ⟨enc', hstep, hrun⟩
    · rw [(hrun events).1] at hfr
      cases frames with
      | nil =>
        -- nothing has been replayed, so nothing has been opened
        refine ⟨reducing, kinds, enc, rfl, h, by simp, ?_⟩
        intro taken hpref htkn
        cases taken with
        | nil => exact (append_nil kinds).symm
        | cons first taken =>
          obtain ⟨rfl, -⟩ := cons_prefix_cons.mp hpref
          rw [(hrun taken).1] at htkn
          cases htkn
      | cons first frames =>
        obtain ⟨rfl, hrest⟩ := cons_prefix_cons.mp hfr
        obtain ⟨cur, hreduce, hagr, hsta⟩ := h.step_some lib hstep
        obtain ⟨reducing', kinds', last, hfold, hlast, hiff, hopn⟩ := ih hagr hrest
        refine ⟨reducing', kinds', last, ?_, hlast, ?_, ?_⟩
        · rw [foldlM_cons]
          exact bind_ok_iff.mpr ⟨_, hreduce, hfold⟩
        · refine iff_of_true (hiff.mpr (.inl ⟨cur, rfl⟩)) (hsta.imp_right ?_)
          rintro ⟨partialMessage, rfl⟩
          exact ⟨partialMessage, mem_cons_self⟩
        · intro taken hpref htkn
          cases taken with
          | nil => cases htkn
          | cons second taken =>
            obtain ⟨rfl, hpre⟩ := cons_prefix_cons.mp hpref
            rw [(hrun taken).1] at htkn
            rw [(hrun taken).2, ← append_assoc]
            exact hopn taken hpre (cons.inj htkn).2
    · have hagr : Agrees enc' kinds reducing := by
        rcases hstep with rfl | hstep
        · exact h
        · exact (h.step_none hstep).1
      rw [(hrun events).1] at hfr
      obtain ⟨reducing', kinds', last, hfold, hlast, hiff, hopn⟩ := ih hagr hfr
      refine ⟨reducing', kinds', last, hfold, hlast, hiff, ?_⟩
      intro taken hpref htkn
      cases taken with
      | nil => exact hopn [] nil_prefix htkn
      | cons first taken =>
        obtain ⟨rfl, hpre⟩ := cons_prefix_cons.mp hpref
        rw [(hrun taken).1] at htkn
        rw [(hrun taken).2]
        exact hopn taken hpre htkn

end AssistantMessageFrameEncoder

/-- The frames that a fresh encoder emits can be reduced behind each of them. -/
theorem exists_reduced (lib : JsonLibrary) {events : List AssistantMessageEvent}
    {frames : List AssistantMessageFrame}
    (hfr : frames <+: (AssistantMessageFrameEncoder.new.run lib events).2) :
    ∃ res, reduceAssistantMessageFrames lib frames = .ok res ∧
      (res.isSome = true ↔ ∃ partialMessage, .start partialMessage ∈ frames) ∧
      ∀ msg taken, res = some msg → taken <+: events →
        (AssistantMessageFrameEncoder.new.run lib taken).2 = frames →
        msg.content.map contentKind = AssistantMessageFrameEncoder.new.opened lib taken := by
  have hfrs : Agrees .new [] (.waiting none) := ⟨rfl, rfl, rfl, rfl⟩
  obtain ⟨reducing, kinds, enc, hfold, hagr, hiff, hopn⟩ :=
    AssistantMessageFrameEncoder.exists_reducing hfrs hfr
  obtain ⟨res, hfinish, hsome, hkinds⟩ := hagr.finish lib
  refine ⟨res, bind_ok_iff.mpr ⟨reducing, hfold, hfinish⟩, ?_, ?_⟩
  · rw [hsome, hiff]
    exact or_iff_right fun ⟨_, h⟩ => nomatch h
  · intro msg taken hmsg hpref htkn
    exact (hkinds msg hmsg).trans (hopn taken hpref htkn)

/-- An event that is rejected leaves the encoder as it was.  The frames that a fresh encoder emits
can be reduced behind each of them: there is a message from the start frame on, and it has the
blocks that the encoder has opened by then. -/
theorem encoded_frames_reduce (lib : JsonLibrary) :
    (∀ (enc : AssistantMessageFrameEncoder) (event : AssistantMessageEvent)
      (error : FrameError), (enc.encode lib event).2 = .error error →
      (enc.encode lib event).1 = enc) ∧
    ∀ events frames, frames <+: (AssistantMessageFrameEncoder.new.run lib events).2 →
      (∃ taken, taken <+: events ∧ (AssistantMessageFrameEncoder.new.run lib taken).2 = frames) ∧
      ∃ res, reduceAssistantMessageFrames lib frames = .ok res ∧
        (res.isSome = true ↔ ∃ partialMessage, .start partialMessage ∈ frames) ∧
        ∀ msg taken, res = some msg → taken <+: events →
          (AssistantMessageFrameEncoder.new.run lib taken).2 = frames →
          msg.content.map contentKind = AssistantMessageFrameEncoder.new.opened lib taken := by
  constructor
  · intro enc event error h
    exact AssistantMessageFrameEncoder.encode_eq_error (Prod.ext rfl h)
  · intro events frames hframes
    exact ⟨AssistantMessageFrameEncoder.exists_taken hframes, exists_reduced lib hframes⟩

/-- A response with one block of text that is written in two pieces. -/
def twoPieces : List AssistantMessageEvent :=
  let empty := AssistantMessage.new "api" "provider" "model" 1
  let begun := { empty with content := [.text (.new "a")] }
  [.start empty, .textStart 0 begun, .textDelta 0 "b", .textStart 0 begun, .textDelta 0 "c"]

/-- A library that reads no text. -/
def unreadable : JsonLibrary := ⟨fun _ => none, fun _ => "", fun text => text⟩

/-- The second start of the block is rejected, and all the frames give one block of text. -/
theorem twoPieces_frames_reduce : ∃ msg, reduceAssistantMessageFrames unreadable
        (AssistantMessageFrameEncoder.new.run unreadable twoPieces).2 = .ok (some msg) ∧
      msg.content.map contentKind = [.text] := by
  obtain ⟨-, res, hreduce, hsome, hkinds⟩ :=
    (encoded_frames_reduce unreadable).2 twoPieces _ (prefix_refl _)
  obtain ⟨msg, hmessage⟩ := Option.isSome_iff_exists.mp (hsome.mpr ⟨_, mem_cons_self⟩)
  rw [hmessage] at hreduce
  exact ⟨msg, hreduce, hkinds msg twoPieces hmessage (prefix_refl _) rfl⟩

end PiOxidized.Ai
