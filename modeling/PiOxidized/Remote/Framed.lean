/-
# Framing does not depend on the chunks

Cutting a byte string elsewhere changes neither the payloads that come out of it, nor how the
stream ends, nor the header it fails at; and what was framed comes out again.
-/

import PiOxidized.Remote.Framing

namespace PiOxidized.Remote

open List Option

/-- The same turn with more bytes behind it. -/
def Turn.append (more : List UInt8) : Turn → Turn
  | goesOn decoder frame rest => goesOn decoder frame (rest ++ more)
  | oversized declared rest => oversized declared (rest ++ more)

namespace FrameDecoder

variable {dec dec' : FrameDecoder} {frames : List (List UInt8)} {chunk more : List UInt8}

/-! ## A chunk in two parts -/

variable {frame : Option (List UInt8)} {rest : List UInt8}

variable {read : List UInt8}

/-- Filling the payload from two chunks is filling it from both at once. -/
theorem fill_append {expected : Nat} (hread : read.length < expected) (chunk : List UInt8) :
    (∀ more, dec.fill read expected (chunk ++ more) hread =
      (dec.fill read expected chunk hread).append more) ∨
    ∃ dec', dec.fill read expected chunk hread = .goesOn dec' none [] ∧
      ∀ more, dec'.turn more = dec.fill read expected (chunk ++ more) hread := by
  by_cases hlen : expected - read.length ≤ chunk.length
  · left
    intro more
    rw [fill, fill]
    simp only [take_append_of_le_length hlen, drop_append_of_le_length hlen]
    split_ifs <;> rfl
  · right
    have hlt : chunk.length < expected - read.length := Nat.lt_of_not_le hlen
    have htake : chunk.take (expected - read.length) = chunk := take_of_length_le (Nat.le_of_lt hlt)
    have hdrop : chunk.drop (expected - read.length) = [] := drop_of_length_le (Nat.le_of_lt hlt)
    have hpartial : (read ++ chunk).length ≠ expected := by
      rw [length_append]
      omega
    refine ⟨{ dec with
      payload := read ++ chunk, expectedPayloadLen := some expected
      payload_lt := by
        simp only [mem_def, some.injEq, forall_eq', length_append]
        omega }, ?_, ?_⟩
    · rw [fill, dif_neg]
      · simp only [htake, hdrop]
      · rw [htake]
        exact hpartial
    · intro more
      rw [turn_of_some rfl, fill, fill]
      have hneeded : expected - (read ++ chunk).length = expected - read.length - chunk.length := by
        rw [length_append]
        omega
      simp only [hneeded, take_append, drop_append, htake, hdrop, append_assoc, nil_append]

/-- A complete header is looked at in the same way whatever is behind it. -/
theorem startPayload_append (frameLength : Nat) (chunk : List UInt8) :
    (∀ more, dec.startPayload frameLength (chunk ++ more) =
      (dec.startPayload frameLength chunk).append more) ∨
    ∃ dec', dec.startPayload frameLength chunk = .goesOn dec' none [] ∧
      ∀ more, dec'.turn more = dec.startPayload frameLength (chunk ++ more) := by
  simp only [startPayload]
  split_ifs with hlim hzero
  · exact .inl fun _ => rfl
  · exact .inl fun _ => rfl
  · exact fill_append (Nat.pos_of_ne_zero hzero) chunk

/-- A turn over two chunks is a turn over the first, or a turn over the second after it. -/
theorem turn_append (dec : FrameDecoder) (chunk : List UInt8) :
    (∀ more, dec.turn (chunk ++ more) = (dec.turn chunk).append more) ∨
    ∃ dec', dec.turn chunk = .goesOn dec' none [] ∧
      ∀ more, dec'.turn more = dec.turn (chunk ++ more) := by
  cases hexp : dec.expectedPayloadLen with
  | some expected =>
    simp only [turn_of_some hexp]
    exact fill_append (dec.payload_lt expected hexp) chunk
  | none =>
    simp only [turn_of_none hexp]
    by_cases hlen : frameHeaderLength - dec.header.length ≤ chunk.length
    · have hcomp : ¬ (dec.header ++
          chunk.take (frameHeaderLength - dec.header.length)).length < frameHeaderLength := by
        rw [length_append, length_take, Nat.min_eq_left hlen]
        omega
      simp only [readHeader, take_append_of_le_length hlen,
        drop_append_of_le_length hlen, hcomp, dif_neg, not_false_eq_true]
      exact startPayload_append _ _
    · have hlt : chunk.length < frameHeaderLength - dec.header.length := Nat.lt_of_not_le hlen
      have htake : chunk.take (frameHeaderLength - dec.header.length) = chunk :=
        take_of_length_le (Nat.le_of_lt hlt)
      have hdrop : chunk.drop (frameHeaderLength - dec.header.length) = [] :=
        drop_of_length_le (Nat.le_of_lt hlt)
      have hpartial : (dec.header ++ chunk).length < frameHeaderLength := by
        rw [length_append]
        omega
      right
      refine ⟨{ dec with header := dec.header ++ chunk, header_lt := hpartial }, ?_, ?_⟩
      · rw [readHeader, dif_pos]
        · simp only [htake, hdrop]
        · rw [htake]
          exact hpartial
      · intro more
        refine Eq.trans (turn_of_none ?_ more) ?_
        · exact hexp
        rw [readHeader, readHeader]
        have hneeded : frameHeaderLength - (dec.header ++ chunk).length =
            frameHeaderLength - dec.header.length - chunk.length := by
          rw [length_append]
          omega
        simp only [hneeded, take_append, drop_append, htake, hdrop, append_assoc, nil_append]
        rfl

theorem pushLoop_nil (dec : FrameDecoder) (frames : List (List UInt8)) :
    dec.pushLoop frames [] = .ok (dec, frames) := by
  rw [pushLoop, dif_pos rfl]

theorem pushLoop_goesOn (h : chunk ≠ []) (hturn : dec.turn chunk = .goesOn dec' frame rest)
    (frames : List (List UInt8)) :
    dec.pushLoop frames chunk = dec'.pushLoop (frames ++ frame.toList) rest := by
  rw [pushLoop, dif_neg h]
  split
  · rename_i hfnd
    rw [hturn] at hfnd
    cases hfnd
  · rename_i hfnd
    rw [hturn] at hfnd
    cases hfnd
    rfl

theorem pushLoop_oversized {declared : Nat} (h : chunk ≠ [])
    (hturn : dec.turn chunk = .oversized declared rest) (frames : List (List UInt8)) :
    dec.pushLoop frames chunk = .error (declared, rest) := by
  rw [pushLoop, dif_neg h]
  split
  · rename_i hfnd
    rw [hturn] at hfnd
    cases hfnd
    rfl
  · rename_i hfnd
    rw [hturn] at hfnd
    cases hfnd

/-- What the loop does with more bytes behind the chunk. -/
def andThen (more : List UInt8) : Except (Nat × List UInt8) (FrameDecoder × List (List UInt8)) →
      Except (Nat × List UInt8) (FrameDecoder × List (List UInt8))
  | .ok (decoder, frames) => decoder.pushLoop frames more
  | .error (declared, rest) => .error (declared, rest ++ more)

/-- The loop over two chunks is the loop over the first and then over the second. -/
theorem pushLoop_append (dec : FrameDecoder) (frames : List (List UInt8))
    (chunk more : List UInt8) :
    dec.pushLoop frames (chunk ++ more) = andThen more (dec.pushLoop frames chunk) := by
  by_cases h : chunk = []
  · rw [h, nil_append, pushLoop_nil]
    rfl
  have happ : chunk ++ more ≠ [] := by simp [h]
  cases turn_append dec chunk with
  | inl hsame =>
    cases hturn : dec.turn chunk with
    | oversized declared rest =>
      have hboth := hsame more
      rw [hturn] at hboth
      rw [pushLoop_oversized h hturn, pushLoop_oversized happ hboth]
      rfl
    | goesOn dec' frame rest =>
      have hboth := hsame more
      rw [hturn] at hboth
      have hlt : rest.length < chunk.length := by
        have hshrinks := dec.turn_shrinks h
        rwa [hturn] at hshrinks
      rw [pushLoop_goesOn h hturn, pushLoop_goesOn happ hboth]
      exact pushLoop_append dec' _ rest more
  | inr hpartial =>
    obtain ⟨dec', hturn, hnext⟩ := hpartial
    rw [pushLoop_goesOn h hturn, pushLoop_nil, toList_none, append_nil]
    by_cases hmore : more = []
    · rw [hmore, append_nil, pushLoop_goesOn h hturn, pushLoop_nil, toList_none,
        append_nil, andThen, pushLoop_nil]
    · rw [andThen]
      cases hboth : dec.turn (chunk ++ more) with
      | oversized declared rest =>
        rw [pushLoop_oversized happ hboth, pushLoop_oversized hmore ((hnext more).trans hboth)]
      | goesOn dec'' frame rest =>
        rw [pushLoop_goesOn happ hboth, pushLoop_goesOn hmore ((hnext more).trans hboth)]
termination_by chunk.length

/-! ## A stream of chunks -/

theorem fill_keeps {expected : Nat} {hread : read.length < expected}
    (h : dec.fill read expected chunk hread = .goesOn dec' frame rest) :
    dec'.state = dec.state ∧ dec'.maxFrameLength = dec.maxFrameLength := by
  rw [fill] at h
  split_ifs at h <;> cases h <;> exact ⟨rfl, rfl⟩

/-- The state and the limit of a decoder go through a turn unchanged. -/
theorem turn_keeps (h : dec.turn chunk = .goesOn dec' frame rest) :
    dec'.state = dec.state ∧ dec'.maxFrameLength = dec.maxFrameLength := by
  cases hexp : dec.expectedPayloadLen with
  | some expected =>
    rw [turn_of_some hexp] at h
    exact fill_keeps h
  | none =>
    rw [turn_of_none hexp, readHeader, startPayload] at h
    split_ifs at h
    · cases h
      exact ⟨rfl, rfl⟩
    · cases h
      exact ⟨rfl, rfl⟩
    · have hkept := fill_keeps h
      exact hkept

theorem pushLoop_keeps {dec dec' : FrameDecoder} {frames frames' : List (List UInt8)}
    {chunk : List UInt8} (h : dec.pushLoop frames chunk = .ok (dec', frames')) :
    dec'.state = dec.state ∧ dec'.maxFrameLength = dec.maxFrameLength := by
  by_cases hchunk : chunk = []
  · rw [hchunk, pushLoop_nil] at h
    cases h
    exact ⟨rfl, rfl⟩
  · cases hturn : dec.turn chunk with
    | oversized declared rest =>
      rw [pushLoop_oversized hchunk hturn] at h
      cases h
    | goesOn next frame rest =>
      have hlt : rest.length < chunk.length := by
        have hshrinks := dec.turn_shrinks hchunk
        rwa [hturn] at hshrinks
      rw [pushLoop_goesOn hchunk hturn] at h
      have hrest := pushLoop_keeps h
      have hnext := turn_keeps hturn
      exact ⟨hrest.1.trans hnext.1, hrest.2.trans hnext.2⟩
termination_by chunk.length

/-- Payloads completed before stay in front. -/
theorem pushLoop_frames (dec : FrameDecoder) (before frames : List (List UInt8))
    (chunk : List UInt8) :
    dec.pushLoop (before ++ frames) chunk =
      (dec.pushLoop frames chunk).map fun (dec', frames') => (dec', before ++ frames') := by
  by_cases hchunk : chunk = []
  · rw [hchunk, pushLoop_nil, pushLoop_nil]
    rfl
  · cases hturn : dec.turn chunk with
    | oversized declared rest =>
      rw [pushLoop_oversized hchunk hturn, pushLoop_oversized hchunk hturn]
      rfl
    | goesOn next frame rest =>
      have hlt : rest.length < chunk.length := by
        have hshrinks := dec.turn_shrinks hchunk
        rwa [hturn] at hshrinks
      rw [pushLoop_goesOn hchunk hturn, pushLoop_goesOn hchunk hturn, append_assoc]
      exact pushLoop_frames next before _ rest
termination_by chunk.length

/-- How a stream of chunks ends: the payloads delivered, or the refusal of a chunk with all the
bytes behind the place it was refused at. -/
inductive Stream
  | delivered (decoder : FrameDecoder) (payloads : List (List UInt8))
  | refused (decoder : FrameDecoder) (error : FrameError) (unread : List UInt8)

/-- Push chunks until one is refused. -/
def stream (decoder : FrameDecoder) : List (List UInt8) → Stream
  | [] => .delivered decoder []
  | chunk :: chunks =>
    match decoder.push chunk with
    | (decoder', .error refusal) =>
      .refused decoder' refusal.error (refusal.unread ++ chunks.flatten)
    | (decoder', .ok frames) =>
      match decoder'.stream chunks with
      | .delivered last payloads => .delivered last (frames ++ payloads)
      | .refused last error unread => .refused last error unread

/-- A stream ends as the loop over all its bytes does. -/
theorem stream_eq (hopen : dec.state = .open) (chunks : List (List UInt8)) :
    ∃ refuser : FrameDecoder, refuser.state = .failed ∧ dec.stream chunks =
        match dec.pushLoop [] chunks.flatten with
        | .ok (last, pays) => .delivered last pays
        | .error (declared, unread) =>
          .refused refuser (.oversized declared dec.maxFrameLength) unread := by
  induction chunks generalizing dec with
  | nil =>
    refine ⟨dec.fail, rfl, ?_⟩
    rw [stream, flatten_nil, pushLoop_nil]
  | cons chunk chunks ih =>
    rw [stream, flatten_cons, pushLoop_append]
    cases hloop : dec.pushLoop [] chunk with
    | error refusal =>
      refine ⟨dec.fail, rfl, ?_⟩
      simp only [push, hopen, hloop, andThen]
    | ok pushed =>
      obtain ⟨hstate, hmax⟩ := pushLoop_keeps hloop
      obtain ⟨refuser, hrefuser, hrest⟩ := ih (hstate.trans hopen)
      refine ⟨refuser, hrefuser, ?_⟩
      have hfr := pushLoop_frames pushed.1 pushed.2 [] chunks.flatten
      rw [append_nil] at hfr
      simp only [push, hopen, hloop, andThen]
      rw [hrest, hfr, hmax]
      cases pushed.1.pushLoop [] chunks.flatten with
      | error | ok => rfl

/-! ## Frames -/

/-- A decoder between two frames. -/
def Clear (decoder : FrameDecoder) : Prop :=
  decoder.header = [] ∧ decoder.payload = [] ∧ decoder.expectedPayloadLen = none

/-- Between two frames, the bytes of a frame give its payload and leave the decoder as it was. -/
theorem pushLoop_encodeFrame (hclear : dec.Clear) (hmax : dec.maxFrameLength ≤ maxUint32)
    {payload : List UInt8} (hpay : payload.length ≤ dec.maxFrameLength)
    (frames : List (List UInt8)) (more : List UInt8) :
    dec.pushLoop frames (encodeFrame payload ++ more) =
      dec.pushLoop (frames ++ [payload]) more := by
  obtain ⟨header, max, buffer, expected, state, hhead, hbuffer⟩ := dec
  obtain ⟨rfl, rfl, rfl⟩ := hclear
  have hlen : payload.length ≤ maxUint32 := Nat.le_trans hpay hmax
  have hne : encodeFrame payload ++ more ≠ [] := by simp [encodeFrame, toBeBytes]
  have hturn : ∀ dec : FrameDecoder, dec = ⟨[], max, [], none, state, hhead, hbuffer⟩ →
      dec.turn (encodeFrame payload ++ more) = .goesOn dec (some payload) more := by
    intro dec hdecoder
    have hnone : dec.expectedPayloadLen = none := by rw [hdecoder]
    have htake : (encodeFrame payload ++ more).take frameHeaderLength = toBeBytes payload.length := by
      rw [encodeFrame, if_pos hlen, append_assoc]
      rfl
    have hdrop : (encodeFrame payload ++ more).drop frameHeaderLength = payload ++ more := by
      rw [encodeFrame, if_pos hlen, append_assoc]
      rfl
    rw [turn_of_none hnone, readHeader, hdecoder]
    simp only [nil_append, length_nil, Nat.sub_zero, htake, hdrop, length_toBeBytes,
      Nat.lt_irrefl, dif_neg, not_false_eq_true, fromBeBytes_toBeBytes hlen, startPayload]
    rw [if_neg (Nat.not_lt.mpr hpay)]
    split_ifs with hzero
    · rw [length_eq_zero_iff.mp hzero]
      rfl
    · rw [fill, dif_pos (by simp)]
      simp
  rw [pushLoop_goesOn hne (hturn _ rfl)]
  rfl

theorem pushLoop_frames_of_encoded (hclear : dec.Clear)
    (hmax : dec.maxFrameLength ≤ maxUint32) {pays : List (List UInt8)}
    (hpays : ∀ payload ∈ pays, payload.length ≤ dec.maxFrameLength)
    (frames : List (List UInt8)) :
    dec.pushLoop frames (pays.flatMap encodeFrame) = .ok (dec, frames ++ pays) := by
  induction pays generalizing frames with
  | nil => rw [flatMap_nil, pushLoop_nil, append_nil]
  | cons payload pays ih =>
    rw [flatMap_cons, pushLoop_encodeFrame hclear hmax (hpays payload mem_cons_self),
      ih (fun other hoth => hpays other (mem_cons_of_mem _ hoth)), append_assoc,
      singleton_append]

/-! ## What comes out of a stream -/

/-- Two streams end in the same way: with the same payloads and the same end, or at the same
header, which declared too much. -/
def Stream.Agree (limit : Nat) : Stream → Stream → Prop
  | .delivered last payloads, .delivered last' payloads' =>
    payloads = payloads' ∧ last.finish.2 = last'.finish.2
  | .refused _ error unread, .refused _ error' unread' =>
    error = error' ∧ unread = unread' ∧ ∃ declared, error = .oversized declared limit
  | _, _ => False

/-- The decoder a stream leaves once it is ended, or was refused. -/
def Stream.closed : Stream → FrameDecoder
  | .delivered last _ => last.finish.1
  | .refused last _ _ => last

/-- A decoder that takes nothing any more and is not changed by what it is given. -/
def Refuses (decoder : FrameDecoder) : Prop := ∃ error, (error = .ended ∨ error = .failed) ∧
    (∀ chunk, decoder.push chunk = (decoder, .error { error := error, unread := chunk })) ∧
      decoder.finish = (decoder, .error error)

theorem refuses_of_not_open (h : dec.state ≠ .open) : dec.Refuses := by
  cases hstate : dec.state with
  | «open» => exact absurd hstate h
  | ended =>
    refine ⟨.ended, .inl rfl, ?_, ?_⟩
    · intro chunk
      simp only [push, hstate]
    · simp only [finish, hstate]
  | failed =>
    refine ⟨.failed, .inr rfl, ?_, ?_⟩
    · intro chunk
      simp only [push, hstate]
    · simp only [finish, hstate]

theorem finish_not_open (dec : FrameDecoder) : dec.finish.1.state ≠ .open := by
  rw [finish]
  cases hstate : dec.state with
  | «open» =>
    dsimp only
    split_ifs
    · simp [fail]
    · simp
  | ended => simp [hstate]
  | failed => simp [hstate]

theorem new_eq_ok {options : Option FrameDecoderOptions} (h : new options = .ok dec) :
    dec.Clear ∧ dec.state = .open ∧ dec.maxFrameLength ≤ maxUint32 := by
  rw [new, resolveMax] at h
  split_ifs at h with hmax
  · cases h
    exact ⟨⟨rfl, rfl, rfl⟩, rfl, hmax⟩

/-- Framing does not depend on the chunks. -/
theorem framing_of_new {options : Option FrameDecoderOptions} (h : new options = .ok dec) :
    (∀ payloads chunks, (∀ payload ∈ payloads, payload.length ≤ dec.maxFrameLength) →
      chunks.flatten = payloads.flatMap encodeFrame →
        ∃ last, dec.stream chunks = .delivered last payloads ∧ last.finish.2 = .ok ()) ∧
    (∀ chunks chunks', chunks.flatten = chunks'.flatten →
      (dec.stream chunks).Agree dec.maxFrameLength (dec.stream chunks')) ∧
    ∀ chunks, (dec.stream chunks).closed.Refuses := by
  obtain ⟨hclear, hopen, hmax⟩ := new_eq_ok h
  refine ⟨?_, ?_, ?_⟩
  · intro payloads chunks hpayloads hchunks
    obtain ⟨_, _, hstream⟩ := stream_eq hopen chunks
    rw [hchunks, pushLoop_frames_of_encoded hclear hmax hpayloads, nil_append] at hstream
    refine ⟨dec, hstream, ?_⟩
    simp [finish, hopen, hclear.1, hclear.2.2]
  · intro chunks chunks' hsame
    obtain ⟨_, _, hstream⟩ := stream_eq hopen chunks
    obtain ⟨_, _, hstream'⟩ := stream_eq hopen chunks'
    rw [hstream, hstream', hsame]
    cases dec.pushLoop [] chunks'.flatten with
    | ok pushed => exact ⟨rfl, rfl⟩
    | error refusal => exact ⟨rfl, rfl, refusal.1, rfl⟩
  · intro chunks
    obtain ⟨refuser, hrefuser, hstream⟩ := stream_eq hopen chunks
    rw [hstream]
    cases dec.pushLoop [] chunks.flatten with
    | ok pushed => exact refuses_of_not_open (finish_not_open _)
    | error refusal =>
      refine refuses_of_not_open ?_
      simp [Stream.closed, hrefuser]

/-- The default limit, and two frames cut in the middle of a header and of a payload. -/
theorem framing_default : ∃ dec last, new none = .ok dec ∧
    dec.stream [[0, 0], [0, 2, 7], [], [8, 0, 0, 0, 0]] = .delivered last [[7, 8], []] ∧
      last.finish.2 = .ok () := by
  have hnew : new none = .ok
      { header := [], maxFrameLength := defaultMaxFrameLength, payload := []
        expectedPayloadLen := none, state := .open, header_lt := by decide
        payload_lt := by simp } := rfl
  obtain ⟨last, hstream, hfinish⟩ := (framing_of_new hnew).1 [[7, 8], []]
    [[0, 0], [0, 2, 7], [], [8, 0, 0, 0, 0]] (by decide) (by decide)
  exact ⟨_, last, hnew, hstream, hfinish⟩

end FrameDecoder

end PiOxidized.Remote
