/-
# Incremental message decoders

A message decoder splits chunks into payloads and decodes each of them.  The messages of one chunk
are returned together, so those in front of a malformed frame are lost with it when the frame is
completed by the same chunk, and only then.
-/

import PiOxidized.Remote.Framed
import PiOxidized.Remote.Reframed

namespace PiOxidized.Remote

open List Option Math

/-! ## Bytes that are taken -/

namespace FrameDecoder

/-- The bytes of the frame that is not complete yet. -/
def pending (decoder : FrameDecoder) : Nat := match decoder.expectedPayloadLen with
  | none => decoder.header.length
  | some _ => frameHeaderLength + decoder.payload.length

/-- The bytes of the frames of some payloads. -/
def framed (payloads : List (List UInt8)) : Nat :=
  (payloads.map fun payload => frameHeaderLength + payload.length).sum

/-- A decoder that is in a payload has used the header up. -/
def Settled (decoder : FrameDecoder) : Prop :=
  decoder.expectedPayloadLen ≠ none → decoder.header = []

variable {dec dec' : FrameDecoder} {chunk rest : List UInt8}
  {frames frames' : List (List UInt8)} {frame : Option (List UInt8)}

theorem framed_append (first snd : List (List UInt8)) :
    framed (first ++ snd) = framed first + framed snd := by
  rw [framed, framed, framed, map_append, sum_append]

theorem fill_conserves {read : List UInt8} {expected : Nat} {hread : read.length < expected}
    (h : dec.fill read expected chunk hread = .goesOn dec' frame rest)
    (hhead : dec.header = []) :
    frameHeaderLength + read.length + chunk.length =
      dec'.pending + framed frame.toList + rest.length ∧ dec'.header = [] := by
  rw [fill] at h
  split_ifs at h with hfull
  · cases h
    simp only [length_append, length_take] at hfull
    simp only [pending, framed, hhead, toList_some, map_cons, map_nil,
      sum_cons, sum_nil, length_append, length_take, length_drop,
      length_nil]
    exact ⟨by omega, trivial⟩
  · cases h
    simp only [pending, framed, toList_none, map_nil, sum_nil, length_append,
      length_take, length_drop]
    exact ⟨by omega, hhead⟩

/-- A turn takes the bytes of what it completes or keeps. -/
theorem turn_conserves (hset : dec.Settled) (h : dec.turn chunk = .goesOn dec' frame rest) :
    dec.pending + chunk.length = dec'.pending + framed frame.toList + rest.length ∧
      dec'.Settled := by
  cases hexp : dec.expectedPayloadLen with
  | some expected =>
    rw [turn_of_some hexp] at h
    have hhead := hset (by rw [hexp]; exact some_ne_none expected)
    obtain ⟨hbytes, hhead'⟩ := fill_conserves h hhead
    rw [pending, hexp]
    exact ⟨hbytes, fun _ => hhead'⟩
  | none =>
    have hlt := dec.header_lt
    rw [turn_of_none hexp, readHeader, startPayload] at h
    rw [pending, hexp]
    dsimp only
    split_ifs at h with hshort _ hzero
    · cases h
      simp only [pending, hexp, framed, toList_none, map_nil, sum_nil,
        length_append, length_take, length_drop]
      exact ⟨by omega, fun hsome => absurd rfl hsome⟩
    · cases h
      simp only [length_append, length_take, Nat.not_lt] at hshort
      simp only [pending, hexp, framed, toList_some, map_cons, map_nil,
        sum_cons, sum_nil, length_nil, length_drop]
      exact ⟨by omega, fun hsome => absurd rfl hsome⟩
    · simp only [length_append, length_take, Nat.not_lt] at hshort
      obtain ⟨hbytes, hhead⟩ := fill_conserves h rfl
      rw [length_drop, length_nil] at hbytes
      exact ⟨by omega, fun _ => hhead⟩

/-- The loop takes all the bytes of a chunk. -/
theorem pushLoop_conserves {dec dec' : FrameDecoder} {chunk : List UInt8}
    {frames frames' : List (List UInt8)} (hset : dec.Settled)
    (h : dec.pushLoop frames chunk = .ok (dec', frames')) :
    dec.pending + framed frames + chunk.length = dec'.pending + framed frames' := by
  by_cases hchunk : chunk = []
  · rw [hchunk, pushLoop_nil] at h
    cases h
    rw [hchunk]
    rfl
  · cases hturn : dec.turn chunk with
    | oversized declared rest =>
      rw [pushLoop_oversized hchunk hturn] at h
      cases h
    | goesOn next frame rest =>
      have hlt : rest.length < chunk.length := by
        have hshrinks := dec.turn_shrinks hchunk
        rwa [hturn] at hshrinks
      rw [pushLoop_goesOn hchunk hturn] at h
      obtain ⟨hbytes, hnext⟩ := turn_conserves hset hturn
      have hrest := pushLoop_conserves hnext h
      rw [framed_append] at hrest
      omega
termination_by chunk.length

variable {payloads : List (List UInt8)}

theorem pending_of_clear (h : dec.Clear) : dec.pending = 0 := by
  rw [pending, h.2.2, h.1]
  rfl

theorem settled_of_clear (h : dec.Clear) : dec.Settled := fun _ => h.1

theorem framed_eq (payloads : List (List UInt8)) :
    framed payloads = (payloads.flatMap encodeFrame).length := by
  induction payloads with
  | nil => rfl
  | cons payload payloads ih =>
    rw [flatMap_cons, length_append, Codec.length_encodeFrame, ← ih]
    rfl

/-- The loop over two chunks succeeds when it does over the first and then over the second. -/
theorem pushLoop_append_eq_ok {more : List UInt8} :
    dec.pushLoop [] (chunk ++ more) = .ok (dec', payloads) ↔
      ∃ next first snd, dec.pushLoop [] chunk = .ok (next, first) ∧
        next.pushLoop [] more = .ok (dec', snd) ∧ payloads = first ++ snd := by
  have hfr := fun (next : FrameDecoder) first => next.pushLoop_frames first [] more
  simp only [append_nil] at hfr
  rw [pushLoop_append]
  constructor
  · intro h
    cases hchunk : dec.pushLoop [] chunk with
    | error refusal =>
      rw [hchunk] at h
      cases h
    | ok pushed =>
      rw [hchunk, andThen, hfr] at h
      cases hmore : pushed.1.pushLoop [] more with
      | error refusal =>
        rw [hmore] at h
        cases h
      | ok rest =>
        rw [hmore] at h
        obtain ⟨hlast, hpays⟩ := Prod.mk.inj (Except.ok.inj h)
        exact ⟨pushed.1, pushed.2, rest.2, rfl, by rw [hmore, ← hlast], hpays.symm⟩
  · rintro ⟨next, first, snd, hchunk, hmore, rfl⟩
    rw [hchunk, andThen, hfr, hmore]
    rfl

/-- Fewer bytes than those of some frames complete only some of their payloads. -/
theorem pushLoop_of_shorter (hclear : dec.Clear) (hmax : dec.maxFrameLength ≤ maxUint32)
    {pre tail : List UInt8}
    (hpays : ∀ payload ∈ payloads, payload.length ≤ dec.maxFrameLength)
    (hbytes : payloads.flatMap encodeFrame = pre ++ tail) (htail : tail ≠ []) :
    ∃ dec' first snd, dec.pushLoop [] pre = .ok (dec', first) ∧
      dec'.pushLoop [] tail = .ok (dec, snd) ∧ payloads = first ++ snd ∧
      snd ≠ [] := by
  have hall := pushLoop_frames_of_encoded hclear hmax hpays []
  rw [hbytes, nil_append] at hall
  obtain ⟨dec', first, snd, hpre, haft, heq⟩ := pushLoop_append_eq_ok.mp hall
  refine ⟨dec', first, snd, hpre, haft, heq, ?_⟩
  -- a frame that is complete would have taken the bytes of the tail
  rintro rfl
  have hconserves := pushLoop_conserves (settled_of_clear hclear) hpre
  have hlen := congrArg length hbytes
  have hpos := length_pos_iff.mpr htail
  rw [append_nil] at heq
  rw [pending_of_clear hclear, ← heq, framed_eq payloads, hlen, length_append] at hconserves
  simp only [framed, map_nil, sum_nil] at hconserves
  omega

end FrameDecoder

namespace Codec

variable {M : Type} {side : Side M} {opts : Option FrameDecoderOptions}

/-! ## The decoder -/

/-- A decoder of the messages of one side. -/
structure MessageDecoder where
  frames : FrameDecoder
  options : Option FrameDecoderOptions
  failed : Bool

/-- Why a chunk is refused. -/
inductive PushError
  | failed
  | codec (error : CodecError)
  deriving DecidableEq

/-- The messages of some payloads. -/
def Side.decodePayloads (side : Side M) (options : CborOptions) :
    List (List UInt8) → Except CodecError (List M)
  | [] => .ok []
  | payload :: payloads => do
    let message ← side.decodePayload payload options
    let messages ← side.decodePayloads options payloads
    .ok (message :: messages)

namespace MessageDecoder

def new (options : Option FrameDecoderOptions) : Except FrameError MessageDecoder := do
  let frames ← FrameDecoder.new options
  .ok { frames := frames, options := options, failed := false }

def pushInner (side : Side M) (decoder : MessageDecoder) (chunk : List UInt8) :
    MessageDecoder × Except CodecError (List M) :=
  match decoder.frames.push chunk with
  | (frames, .error refusal) =>
    ({ decoder with frames := frames }, .error (.frame refusal.error))
  | (frames, .ok payloads) =>
    ({ decoder with frames := frames },
      side.decodePayloads (CborOptions.fromFrame decoder.options) payloads)

/-- Feed a chunk; any error is final. -/
def push (side : Side M) (decoder : MessageDecoder) (chunk : List UInt8) :
    MessageDecoder × Except PushError (List M) :=
  if decoder.failed then (decoder, .error .failed)
  else
    match decoder.pushInner side chunk with
    | (decoder', .ok messages) => (decoder', .ok messages)
    | (decoder', .error error) => ({ decoder' with failed := true }, .error (.codec error))

/-- No more chunks: nothing may be buffered. -/
def finish (decoder : MessageDecoder) : MessageDecoder × Except PushError Unit :=
  if decoder.failed then (decoder, .error .failed)
  else
    match decoder.frames.finish with
    | (frames, .ok ()) => ({ decoder with frames := frames }, .ok ())
    | (frames, .error error) =>
      ({ decoder with frames := frames, failed := true }, .error (.codec (.frame error)))

/-- The messages that are returned before the first failure. -/
def returned (side : Side M) (decoder : MessageDecoder) : List (List UInt8) → List M
  | [] => []
  | chunk :: chunks =>
    match decoder.push side chunk with
    | (_, .error _) => []
    | (decoder', .ok messages) => messages ++ decoder'.returned side chunks

end MessageDecoder

/-- No malformed frame is completed by some bytes, the first of which begin a frame. -/
def Side.Wellformed (side : Side M) (options : Option FrameDecoderOptions)
    (bytes : List UInt8) : Prop :=
  ∃ decoder last payloads messages, FrameDecoder.new options = .ok decoder ∧
    decoder.pushLoop [] bytes = .ok (last, payloads) ∧
    side.decodePayloads (CborOptions.fromFrame options) payloads = .ok messages

/-- The chunk that holds the last of some bytes completes no malformed frame behind them. -/
def Side.Separated (side : Side M) (options : Option FrameDecoderOptions) (size : Nat)
    (chunks : List (List UInt8)) : Prop :=
  ∀ before chunk after, chunks = before ++ chunk :: after → before.flatten.length < size →
    size ≤ (before.flatten ++ chunk).length →
      side.Wellformed options ((before.flatten ++ chunk).drop size)

/-- Valid messages in front of arbitrary bytes are returned if and only if the chunk with the last
of their bytes completes no malformed frame. -/
def Side.KeepsMessages (side : Side M) (options : Option FrameDecoderOptions) : Prop :=
  ∀ (decoder : MessageDecoder) (frames : List (List UInt8)) (messages : List M) (rest : List UInt8)
    (chunks : List (List UInt8)), MessageDecoder.new options = .ok decoder →
    List.Forall₂ (fun frame message => side.decode frame options = .ok message) frames messages →
    chunks.flatten = frames.flatten ++ rest →
    (messages <+: decoder.returned side chunks ↔
      side.Separated options frames.flatten.length chunks)

/-- Messages that are encoded one after the other arrive as they were sent, however their bytes
are cut. -/
def Side.Carries (side : Side M) (options : Option FrameDecoderOptions) : Prop :=
  ∀ (decoder : MessageDecoder) (frames : List (List UInt8)) (messages : List M)
    (chunks : List (List UInt8)), MessageDecoder.new options = .ok decoder →
    List.Forall₂ (fun frame message => side.encode message options = .ok frame) frames messages →
    chunks.flatten = frames.flatten → decoder.returned side chunks = messages

/-! ## Chunks that are taken -/

variable {dec : MessageDecoder} {msgs : List M} {payloads : List (List UInt8)}

variable {frames : FrameDecoder}

/-- What a push does to an open decoder. -/
theorem push_of_open (side : Side M) (hfail : dec.failed = false)
    (hopen : dec.frames.state = .open) (chunk : List UInt8) :
    (∃ frames payloads msgs, dec.frames.pushLoop [] chunk = .ok (frames, payloads) ∧
      side.decodePayloads (CborOptions.fromFrame dec.options) payloads = .ok msgs ∧
      dec.push side chunk = ({ dec with frames := frames }, .ok msgs)) ∨
    ∃ dec' error, dec.push side chunk = (dec', .error error) ∧
      ∀ frames payloads, dec.frames.pushLoop [] chunk = .ok (frames, payloads) →
        ∀ msgs, side.decodePayloads (CborOptions.fromFrame dec.options) payloads ≠ .ok msgs := by
  rw [MessageDecoder.push, if_neg (by rw [hfail]; exact Bool.false_ne_true)]
  rw [MessageDecoder.pushInner, FrameDecoder.push, hopen]
  dsimp only
  cases hloop : dec.frames.pushLoop [] chunk with
  | error refusal => exact .inr ⟨_, _, rfl, by rintro _ _ ⟨⟩⟩
  | ok pushed =>
    obtain ⟨frames, payloads⟩ := pushed
    dsimp only
    cases hdec : side.decodePayloads (CborOptions.fromFrame dec.options) payloads with
    | error error =>
      refine .inr ⟨_, _, rfl, ?_⟩
      intro frames' payloads' h msgs
      obtain ⟨-, rfl⟩ := Prod.mk.inj (Except.ok.inj h)
      rw [hdec]
      rintro ⟨⟩
    | ok msgs => exact .inl ⟨frames, payloads, msgs, rfl, hdec, rfl⟩

theorem decodePayloads_append {opts : CborOptions} {first snd : List (List UInt8)} :
    side.decodePayloads opts (first ++ snd) = .ok msgs ↔
      ∃ pre after, side.decodePayloads opts first = .ok pre ∧
        side.decodePayloads opts snd = .ok after ∧ msgs = pre ++ after := by
  induction first generalizing msgs with
  | nil =>
    constructor
    · intro h
      exact ⟨[], msgs, rfl, h, rfl⟩
    · rintro ⟨pre, after, hpre, haft, rfl⟩
      rw [← Except.ok.inj hpre]
      exact haft
  | cons payload first ih =>
    rw [cons_append, Side.decodePayloads, Side.decodePayloads]
    constructor
    · intro h
      obtain ⟨msg, hmsg, h⟩ := bind_ok h
      obtain ⟨others, hoth, h⟩ := bind_ok h
      obtain ⟨pre, after, hpre, haft, rfl⟩ := ih.mp hoth
      refine ⟨msg :: pre, after, ?_, haft, (Except.ok.inj h).symm⟩
      exact bind_ok_iff.mpr ⟨msg, hmsg, bind_ok_iff.mpr ⟨pre, hpre, rfl⟩⟩
    · rintro ⟨found, after, hfnd, haft, rfl⟩
      obtain ⟨msg, hmsg, hfnd⟩ := bind_ok hfnd
      obtain ⟨pre, hpre, hfnd⟩ := bind_ok hfnd
      rw [← Except.ok.inj hfnd]
      have hoth := ih.mpr ⟨pre, after, hpre, haft, rfl⟩
      exact bind_ok_iff.mpr ⟨msg, hmsg, bind_ok_iff.mpr ⟨pre ++ after, hoth, rfl⟩⟩

theorem length_decodePayloads {opts : CborOptions}
    (h : side.decodePayloads opts payloads = .ok msgs) :
    msgs.length = payloads.length := by
  induction payloads generalizing msgs with
  | nil => rw [← Except.ok.inj h]; rfl
  | cons payload payloads ih =>
    obtain ⟨msg, -, h⟩ := bind_ok h
    obtain ⟨others, hoth, h⟩ := bind_ok h
    rw [← Except.ok.inj h, length_cons, length_cons, ih hoth]

/-- Chunks that complete well-formed frames only are all taken. -/
theorem returned_append (hfail : dec.failed = false) (hopen : dec.frames.state = .open)
    {pre : List (List UInt8)}
    (hloop : dec.frames.pushLoop [] pre.flatten = .ok (frames, payloads))
    (hdec : side.decodePayloads (CborOptions.fromFrame dec.options) payloads = .ok msgs)
    (after : List (List UInt8)) :
    dec.returned side (pre ++ after) =
      msgs ++ { dec with frames := frames }.returned side after := by
  induction pre generalizing dec payloads msgs with
  | nil =>
    rw [flatten_nil, FrameDecoder.pushLoop_nil] at hloop
    cases hloop
    rw [← Except.ok.inj hdec]
    rfl
  | cons chunk pre ih =>
    rw [flatten_cons] at hloop
    obtain ⟨next, first, snd, hchunk, hrest, rfl⟩ := FrameDecoder.pushLoop_append_eq_ok.mp hloop
    obtain ⟨early, late, hear, hlate, rfl⟩ := decodePayloads_append.mp hdec
    have hnext : next.state = .open := (FrameDecoder.pushLoop_keeps hchunk).1.trans hopen
    rw [cons_append, MessageDecoder.returned]
    rcases push_of_open side hfail hopen chunk with
      ⟨_, _, taken, hpushed, htkn, hpush⟩ | ⟨_, _, -, hnone⟩
    · rw [hchunk] at hpushed
      cases hpushed
      rw [hear] at htkn
      rw [hpush, append_assoc, ← Except.ok.inj htkn]
      have hloop' : ({ dec with frames := next } : MessageDecoder).frames.pushLoop []
          pre.flatten = .ok (frames, snd) := hrest
      exact congrArg (early ++ ·) (ih hfail hnext hloop' hlate)
    · exact absurd hear (hnone next first hchunk early)

/-! ## Valid frames -/

variable {bytes : List UInt8}

theorem toBeBytes_fromBeBytes (h : bytes.length = frameHeaderLength) :
    toBeBytes (fromBeBytes bytes) = bytes := by
  match bytes, h with
  | [first, snd, third, fourth], _ =>
    have h1 := first.toNat_lt
    have h2 := snd.toNat_lt
    have h3 := third.toNat_lt
    have h4 := fourth.toNat_lt
    simp only [fromBeBytes, toBeBytes, foldl_cons, foldl_nil, cons.injEq,
      ← UInt8.toNat_inj, UInt8.toNat_ofNat', and_true]
    omega

/-- A frame that is decoded is the frame of a payload within the limit. -/
theorem exists_payload {msg : M} {frame : List UInt8} (h : side.decode frame opts = .ok msg) :
    ∃ payload, frame = encodeFrame payload ∧ payload.length ≤ limit opts ∧
      side.decodePayload payload (CborOptions.fromFrame opts) = .ok msg := by
  obtain ⟨⟨⟩, hcomp, hdec⟩ := bind_ok h
  have hcomp := mapError_eq_ok hcomp
  obtain ⟨hmax, hlim, hlen⟩ := assertCompleteFrame_eq_ok hcomp
  refine ⟨frame.drop frameHeaderLength, ?_, hlim, hdec⟩
  have htake : (frame.take frameHeaderLength).length = frameHeaderLength := by
    rw [length_take]
    omega
  have hnumber : fromBeBytes (frame.take frameHeaderLength) =
      (frame.drop frameHeaderLength).length := by
    rw [assertCompleteFrame] at hcomp
    split_ifs at hcomp
    dsimp only at hcomp
    split at hcomp
    · cases hcomp
    · split_ifs at hcomp with _ hsame
      omega
  rw [encodeFrame, if_pos (hlim.trans hmax), ← hnumber, toBeBytes_fromBeBytes htake,
    take_append_drop]

/-- Valid frames are the frames of payloads that are decoded. -/
theorem exists_payloads {frames : List (List UInt8)}
    (h : List.Forall₂ (fun frame msg => side.decode frame opts = .ok msg) frames msgs) :
    ∃ payloads : List (List UInt8), frames.flatten = payloads.flatMap encodeFrame ∧
      (∀ payload ∈ payloads, payload.length ≤ limit opts) ∧
      side.decodePayloads (CborOptions.fromFrame opts) payloads = .ok msgs := by
  induction h with
  | nil => exact ⟨[], rfl, fun _ hmem => absurd hmem not_mem_nil, rfl⟩
  | @cons frame msg frames msgs hhead _ ih =>
    obtain ⟨payload, rfl, hlim, hdec⟩ := exists_payload hhead
    obtain ⟨payloads, hflatten, hlimits, hall⟩ := ih
    refine ⟨payload :: payloads, ?_, forall_mem_cons.mpr ⟨hlim, hlimits⟩, ?_⟩
    · rw [flatten_cons, flatMap_cons, hflatten]
    · exact bind_ok_iff.mpr ⟨msg, hdec, bind_ok_iff.mpr ⟨msgs, hall, rfl⟩⟩

/-- A fresh decoder of messages holds a fresh decoder of frames. -/
theorem new_eq_ok (h : MessageDecoder.new opts = .ok dec) :
    FrameDecoder.new opts = .ok dec.frames ∧ dec.options = opts ∧ dec.failed = false := by
  obtain ⟨frames, hfr, h⟩ := bind_ok h
  rw [← Except.ok.inj h]
  exact ⟨hfr, rfl, rfl⟩

/-- A fresh decoder of frames is open between two frames, and its limit is that of the options. -/
theorem new_frames (h : FrameDecoder.new opts = .ok frames) :
    frames.Clear ∧ frames.state = .open ∧ frames.maxFrameLength = limit opts ∧
      limit opts ≤ maxUint32 := by
  rw [FrameDecoder.new] at h
  cases hmax : resolveMax opts with
  | error error =>
    rw [hmax] at h
    cases h
  | ok max =>
    rw [hmax] at h
    obtain ⟨hlim, hle⟩ := resolveMax_eq_ok_iff.mp hmax
    rw [← Except.ok.inj h]
    exact ⟨⟨rfl, rfl, rfl⟩, rfl, hlim, hle⟩

theorem wellformed_iff (h : FrameDecoder.new opts = .ok frames) : side.Wellformed opts bytes ↔
      ∃ last payloads msgs, frames.pushLoop [] bytes = .ok (last, payloads) ∧
        side.decodePayloads (CborOptions.fromFrame opts) payloads = .ok msgs := by
  constructor
  · rintro ⟨dec, last, payloads, msgs, hnew, hloop, hdec⟩
    rw [h] at hnew
    rw [← Except.ok.inj hnew] at hloop
    exact ⟨last, payloads, msgs, hloop, hdec⟩
  · rintro ⟨last, payloads, msgs, hloop, hdec⟩
    exact ⟨frames, last, payloads, msgs, h, hloop, hdec⟩

/-! ## The chunk with the last byte -/

/-- Some chunk holds a byte that is there. -/
theorem exists_chunk {size : Nat} (hpos : 0 < size) {chunks : List (List UInt8)}
    (h : size ≤ chunks.flatten.length) :
    ∃ pre chunk after, chunks = pre ++ chunk :: after ∧ pre.flatten.length < size ∧
      size ≤ (pre.flatten ++ chunk).length := by
  induction chunks generalizing size with
  | nil =>
    rw [flatten_nil, length_nil] at h
    omega
  | cons first chunks ih =>
    by_cases hfst : size ≤ first.length
    · exact ⟨[], first, chunks, rfl, hpos, hfst⟩
    · rw [flatten_cons, length_append] at h
      obtain ⟨pre, chunk, after, rfl, hpre, hchunk⟩ :=
        ih (show 0 < size - first.length by omega) (by omega)
      refine ⟨first :: pre, chunk, after, rfl, ?_, ?_⟩
      · rw [flatten_cons, length_append]
        omega
      · rw [flatten_cons, append_assoc, length_append]
        omega

/-- All messages of some payloads are returned exactly when the chunk with the last byte completes
well-formed frames only. -/
theorem prefix_returned_iff (hnew : MessageDecoder.new opts = .ok dec)
    (hpays : ∀ payload ∈ payloads, payload.length ≤ limit opts)
    (hdec : side.decodePayloads (CborOptions.fromFrame opts) payloads = .ok msgs)
    {pre after : List (List UInt8)} {chunk rest : List UInt8}
    (hbytes : (pre ++ chunk :: after).flatten = payloads.flatMap encodeFrame ++ rest)
    (hpre : pre.flatten.length < (payloads.flatMap encodeFrame).length)
    (hchunk : (payloads.flatMap encodeFrame).length ≤ (pre.flatten ++ chunk).length) :
    msgs <+: dec.returned side (pre ++ chunk :: after) ↔ side.Wellformed opts
        ((pre.flatten ++ chunk).drop (payloads.flatMap encodeFrame).length) := by
  obtain ⟨hfr, hopts, hfail⟩ := new_eq_ok hnew
  obtain ⟨hclear, hopen, hlim, hmax⟩ := new_frames hfr
  rw [flatten_append, flatten_cons, ← append_assoc] at hbytes
  -- the bytes of the frames end in the chunk
  obtain ⟨extra, hextra⟩ := prefix_of_prefix_length_le
    (prefix_append (payloads.flatMap encodeFrame) rest)
    (hbytes ▸ prefix_append (pre.flatten ++ chunk) after.flatten) hchunk
  obtain ⟨tail, htail⟩ := prefix_of_prefix_length_le (prefix_append pre.flatten chunk)
    (hextra ▸ prefix_append (payloads.flatMap encodeFrame) extra) hpre.le
  have hne : tail ≠ [] := by
    rintro rfl
    rw [append_nil] at htail
    exact absurd (congrArg length htail) hpre.ne
  have hsplit : chunk = tail ++ extra := by
    rw [← htail, append_assoc] at hextra
    exact (append_cancel_left hextra).symm
  rw [← hextra, drop_left, wellformed_iff hfr]
  rw [← hlim] at hpays hmax
  obtain ⟨next, first, snd, hfst, hsnd, rfl, hpend⟩ :=
    FrameDecoder.pushLoop_of_shorter hclear hmax hpays htail.symm hne
  obtain ⟨early, late, hear, hlate, rfl⟩ := decodePayloads_append.mp hdec
  have hlatePos : late ≠ [] := by
    rintro rfl
    exact hpend (length_eq_zero_iff.mp (length_decodePayloads hlate).symm)
  have hnextOpen : next.state = .open := (FrameDecoder.pushLoop_keeps hfst).1.trans hopen
  rw [← hopts] at hear hlate ⊢
  rw [returned_append hfail hopen hfst hear (chunk :: after), prefix_append_right_inj,
    MessageDecoder.returned]
  have hfail' : ({ dec with frames := next } : MessageDecoder).failed = false := hfail
  rcases push_of_open side hfail' hnextOpen chunk with
    ⟨_, _, taken, hpushed, htkn, hpush⟩ | ⟨_, _, hpush, hnone⟩
  · rw [hpush]
    rw [hsplit] at hpushed
    obtain ⟨middle, third, fourth, hthird, hfourth, rfl⟩ :=
      FrameDecoder.pushLoop_append_eq_ok.mp hpushed
    dsimp only at hthird
    rw [hsnd] at hthird
    cases hthird
    obtain ⟨_, more, hsame, hmore, rfl⟩ := decodePayloads_append.mp htkn
    dsimp only at hsame
    rw [hlate] at hsame
    rw [← Except.ok.inj hsame]
    refine iff_of_true ?_ ⟨_, _, more, hfourth, hmore⟩
    dsimp only
    rw [append_assoc]
    exact prefix_append _ _
  · rw [hpush]
    apply iff_of_false
    · intro hpref
      exact hlatePos (prefix_nil.mp hpref)
    · rintro ⟨last, third, more, hthird, hmore⟩
      have hall : next.pushLoop [] chunk = .ok (last, snd ++ third) := by
        rw [hsplit]
        exact FrameDecoder.pushLoop_append_eq_ok.mpr ⟨_, snd, third, hsnd, hthird, rfl⟩
      exact hnone last _ hall _ (decodePayloads_append.mpr ⟨late, more, hlate, hmore, rfl⟩)

theorem keepsMessages (side : Side M) (opts : Option FrameDecoderOptions) :
    side.KeepsMessages opts := by
  intro dec frames msgs rest chunks hnew hfr hbytes
  obtain ⟨payloads, hflatten, hpays, hdec⟩ := exists_payloads hfr
  rw [hflatten] at hbytes ⊢
  constructor
  · intro hpref pre chunk after hchunks hpre hchunk
    rw [hchunks] at hbytes hpref
    exact (prefix_returned_iff hnew hpays hdec hbytes hpre hchunk).mp hpref
  · intro hseparated
    by_cases hemp : payloads = []
    · rw [hemp] at hdec
      rw [← Except.ok.inj hdec]
      exact nil_prefix
    · have hpos : 0 < (payloads.flatMap encodeFrame).length := by
        obtain ⟨payload, payloads, rfl⟩ := exists_cons_of_ne_nil hemp
        rw [flatMap_cons, length_append, length_encodeFrame, frameHeaderLength]
        omega
      have hle : (payloads.flatMap encodeFrame).length ≤ chunks.flatten.length := by
        rw [hbytes, length_append]
        exact Nat.le_add_right _ _
      obtain ⟨pre, chunk, after, rfl, hpre, hchunk⟩ := exists_chunk hpos hle
      exact (prefix_returned_iff hnew hpays hdec hbytes hpre hchunk).mpr
        (hseparated pre chunk after rfl hpre hchunk)

theorem carries_of_readsBack (hside : side.ReadsBack)
    (opts : Option FrameDecoderOptions) : side.Carries opts := by
  intro dec frames msgs chunks hnew hsent hbytes
  obtain ⟨payloads, hflatten, hpays, hdec⟩ :=
    exists_payloads (hsent.imp fun _ _ h => hside.decode_encode h)
  obtain ⟨hfr, hopts, hfail⟩ := new_eq_ok hnew
  obtain ⟨hclear, hopen, hlim, hmax⟩ := new_frames hfr
  rw [← hlim] at hpays hmax
  have hloop := FrameDecoder.pushLoop_frames_of_encoded hclear hmax hpays []
  rw [nil_append, ← hflatten, ← hbytes] at hloop
  have htkn := returned_append hfail hopen hloop (by rw [hopts]; exact hdec) []
  rw [append_nil, MessageDecoder.returned, append_nil] at htkn
  exact htkn

/-- The messages of both sides arrive as they were sent. -/
theorem messages_carried (opts : Option FrameDecoderOptions) :
    clientSide.Carries opts ∧ serverSide.Carries opts :=
  ⟨carries_of_readsBack clientSide_readsBack opts, carries_of_readsBack serverSide_readsBack opts⟩

/-- The decoders of both sides return valid messages in front of arbitrary bytes exactly when the
chunk with the last of their bytes completes no malformed frame. -/
theorem decoders_keep_messages (opts : Option FrameDecoderOptions) :
    clientSide.KeepsMessages opts ∧ serverSide.KeepsMessages opts :=
  ⟨keepsMessages clientSide opts, keepsMessages serverSide opts⟩

theorem header_lt_nil : ([] : List UInt8).length < 4 := by decide

theorem payload_lt_none (n : Nat) (h : none = some n) : ([] : List UInt8).length < n := by cases h

/-- A fresh decoder under the default limit. -/
def freshDecoder : MessageDecoder where
  frames :=
    { header := [], maxFrameLength := defaultMaxFrameLength, payload := [],
      expectedPayloadLen := none, state := .open, header_lt := header_lt_nil,
      payload_lt := payload_lt_none }
  options := none
  failed := false

/-- A request and a cancellation arrive in two chunks that are cut inside the request. -/
theorem messages_carried_cut : freshDecoder.returned clientSide
    [(callFrame ++ cancellationFrame).take 50, (callFrame ++ cancellationFrame).drop 50] =
      [callRequest, cancellation] :=
  (messages_carried none).1 freshDecoder [callFrame, cancellationFrame] _ _ rfl
    (.cons (by decide +kernel) (.cons (by decide +kernel) .nil)) (by simp)

theorem decode_cancellationFrame : clientSide.decode cancellationFrame none = .ok cancellation := by
  apply clientSide_readsBack.decode_encode
  decide +kernel

/-- A cancellation whose frame is a chunk of its own is returned when an empty frame follows. -/
theorem decoders_keep_cancellation :
    [cancellation] <+: freshDecoder.returned clientSide [cancellationFrame, encodeFrame []] ↔
      clientSide.Separated none cancellationFrame.length [cancellationFrame, encodeFrame []] := by
  have h := (decoders_keep_messages none).1 freshDecoder [cancellationFrame] [cancellation]
    (encodeFrame []) [cancellationFrame, encodeFrame []] rfl
    (List.forall₂_cons.mpr ⟨decode_cancellationFrame, .nil⟩) (by simp)
  rwa [flatten_singleton] at h

/-- A cancellation in one chunk with an empty frame behind it is lost. -/
theorem decoder_loses_message :
    ¬ ∀ (frames : List (List UInt8)) (msgs : List (ClientMessage OpaqueJson))
      (rest : List UInt8) (chunks : List (List UInt8)),
      List.Forall₂ (fun frame msg => clientSide.decode frame none = .ok msg) frames
        msgs → chunks.flatten = frames.flatten ++ rest →
      msgs <+: freshDecoder.returned clientSide chunks := by
  intro h
  have hprefix := h [cancellationFrame] [cancellation] (encodeFrame [])
    [cancellationFrame ++ encodeFrame []]
    (List.forall₂_cons.mpr ⟨decode_cancellationFrame, .nil⟩) (by simp)
  have hlost : freshDecoder.returned clientSide [cancellationFrame ++ encodeFrame []] = [] := by
    decide +kernel
  rw [hlost] at hprefix
  exact cons_ne_nil _ _ (List.prefix_nil.mp hprefix)

end Codec

end PiOxidized.Remote
