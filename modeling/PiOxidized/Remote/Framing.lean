/-
# Length-prefix framing

A frame is the length of its payload in four bytes, the most significant first, and the payload.
The decoder takes chunks of any size: it collects the bytes of a header, then those of the
payload, and keeps what is not complete yet for the next chunk.
-/

import Mathlib.Algebra.Order.Ring.Nat

namespace PiOxidized.Remote

open List

def frameHeaderLength : Nat := 4

def defaultMaxFrameLength : Nat := 16 * 1024 * 1024

def maxUint32 : Nat := 0xffffffff

inductive FrameError
  | incompleteHeader
  | oversized (declared limit : Nat)
  | notOneCompletePayload
  | ended
  | failed
  | truncated
  | invalidLimit (limit : Nat)
  deriving DecidableEq

structure FrameDecoderOptions where
  maxFrameLength : Nat := defaultMaxFrameLength
  deriving DecidableEq

/-- The limit of some options, which has to be a word of 32 bits. -/
def resolveMax (options : Option FrameDecoderOptions) : Except FrameError Nat :=
  let max := options.elim defaultMaxFrameLength FrameDecoderOptions.maxFrameLength
  if max ≤ maxUint32 then .ok max else .error (.invalidLimit max)

/-! ## Numbers in four bytes -/

/-- The four bytes of a number, the most significant first. -/
def toBeBytes (n : Nat) : List UInt8 :=
  [UInt8.ofNat (n / 2 ^ 24), UInt8.ofNat (n / 2 ^ 16), UInt8.ofNat (n / 2 ^ 8), UInt8.ofNat n]

/-- The number some bytes stand for. -/
def fromBeBytes (bytes : List UInt8) : Nat := bytes.foldl (fun n b => n * 2 ^ 8 + b.toNat) 0

theorem length_toBeBytes (n : Nat) : (toBeBytes n).length = frameHeaderLength := rfl

theorem fromBeBytes_toBeBytes {n : Nat} (h : n ≤ maxUint32) : fromBeBytes (toBeBytes n) = n := by
  simp only [fromBeBytes, toBeBytes, foldl_cons, foldl_nil, UInt8.toNat_ofNat', maxUint32] at h ⊢
  omega

/-! ## Frames -/

/-- Prefix a payload with its length. -/
def encodeFrame (payload : List UInt8) : List UInt8 :=
  toBeBytes (if payload.length ≤ maxUint32 then payload.length else maxUint32) ++ payload

/-- Whether some bytes are exactly one frame within the limit. -/
def assertCompleteFrame (frame : List UInt8) (options : Option FrameDecoderOptions) :
    Except FrameError Unit :=
  if frame.length < frameHeaderLength then .error .incompleteHeader
  else
    let length := fromBeBytes (frame.take frameHeaderLength)
    match resolveMax options with
    | .error error => .error error
    | .ok max =>
      if max < length then .error (.oversized length max)
      else if frame.length ≠ frameHeaderLength + length then .error .notOneCompletePayload
      else .ok ()

inductive DecoderState
  | open
  | ended
  | failed
  deriving DecidableEq

/-- What has been read of the frame that is not complete yet. -/
structure FrameDecoder where
  /-- The bytes of the header read so far. -/
  header : List UInt8
  maxFrameLength : Nat
  payload : List UInt8
  expectedPayloadLen : Option Nat
  state : DecoderState
  header_lt : header.length < frameHeaderLength
  payload_lt : ∀ expected ∈ expectedPayloadLen, payload.length < expected

/-- What a refused call says, and the bytes of its chunk that were not looked at. -/
structure Refusal where
  error : FrameError
  unread : List UInt8
  deriving DecidableEq

/-- One turn of the loop over a chunk: a decoder, the payload it completed and the bytes left,
or a header that declares too much. -/
inductive Turn
  | goesOn (decoder : FrameDecoder) (frame : Option (List UInt8)) (rest : List UInt8)
  | oversized (declared : Nat) (rest : List UInt8)

/-- The bytes a turn leaves. -/
def Turn.left : Turn → List UInt8
  | goesOn _ _ rest => rest
  | oversized _ rest => rest

namespace FrameDecoder

/-- A decoder with the given options. -/
def new (options : Option FrameDecoderOptions) : Except FrameError FrameDecoder :=
  match resolveMax options with
  | .error error => .error error
  | .ok max =>
    .ok
      { header := [], maxFrameLength := max, payload := [], expectedPayloadLen := none,
        state := .open, header_lt := by decide, payload_lt := by simp }

/-- Add bytes to the payload; it is complete when it has the expected length. -/
def fill (decoder : FrameDecoder) (read : List UInt8) (expected : Nat) (chunk : List UInt8)
    (hread : read.length < expected) : Turn :=
  if h : (read ++ chunk.take (expected - read.length)).length = expected then
    .goesOn { decoder with
        payload := [], expectedPayloadLen := none, payload_lt := by simp }
      (some (read ++ chunk.take (expected - read.length)))
      (chunk.drop (expected - read.length))
  else
    .goesOn { decoder with
        payload := read ++ chunk.take (expected - read.length)
        expectedPayloadLen := some expected
        payload_lt := by
          simp only [Option.mem_def, Option.some.injEq, forall_eq']
          simp only [length_append, length_take] at h ⊢
          omega }
      none (chunk.drop (expected - read.length))

/-- A header is complete: its length is refused, or the payload begins. -/
def startPayload (decoder : FrameDecoder) (frameLength : Nat) (rest : List UInt8) : Turn :=
  if decoder.maxFrameLength < frameLength then .oversized frameLength rest
  else if hzero : frameLength = 0 then
    .goesOn { decoder with header := [], header_lt := by decide } (some []) rest
  else
    { decoder with header := [], header_lt := by decide }.fill [] frameLength rest
      (Nat.pos_of_ne_zero hzero)

/-- Add bytes to the header; the payload begins when there are enough. -/
def readHeader (decoder : FrameDecoder) (chunk : List UInt8) : Turn :=
  if h : (decoder.header ++ chunk.take (frameHeaderLength - decoder.header.length)).length <
      frameHeaderLength then
    .goesOn { decoder with
        header := decoder.header ++ chunk.take (frameHeaderLength - decoder.header.length)
        header_lt := h }
      none (chunk.drop (frameHeaderLength - decoder.header.length))
  else
    decoder.startPayload
      (fromBeBytes (decoder.header ++ chunk.take (frameHeaderLength - decoder.header.length)))
      (chunk.drop (frameHeaderLength - decoder.header.length))

/-- One turn of the loop. -/
def turn (decoder : FrameDecoder) (chunk : List UInt8) : Turn :=
  match hexpected : decoder.expectedPayloadLen with
  | some expected =>
    decoder.fill decoder.payload expected chunk (decoder.payload_lt expected hexpected)
  | none => decoder.readHeader chunk

variable {dec : FrameDecoder}

theorem turn_of_some {expected : Nat} (h : dec.expectedPayloadLen = some expected)
    (chunk : List UInt8) :
    dec.turn chunk = dec.fill dec.payload expected chunk (dec.payload_lt expected h) := by
  rw [turn]
  split
  · rename_i found hfnd
    obtain rfl : found = expected := Option.some.inj (hfnd.symm.trans h)
    rfl
  · rename_i hnone
    rw [h] at hnone
    cases hnone

theorem turn_of_none (h : dec.expectedPayloadLen = none) (chunk : List UInt8) :
    dec.turn chunk = dec.readHeader chunk := by
  rw [turn]
  split
  · rename_i hsome
    rw [h] at hsome
    cases hsome
  · rfl

theorem fill_shrinks (dec : FrameDecoder) {read : List UInt8} {expected : Nat}
    (hread : read.length < expected) (chunk : List UInt8) :
    (dec.fill read expected chunk hread).left.length ≤ chunk.length - 1 := by
  have hdrop : (chunk.drop (expected - read.length)).length ≤ chunk.length - 1 := by
    rw [length_drop]
    omega
  rw [fill]
  split_ifs <;> exact hdrop

/-- A turn takes at least one byte. -/
theorem turn_shrinks (dec : FrameDecoder) {chunk : List UInt8} (h : chunk ≠ []) :
    (dec.turn chunk).left.length < chunk.length := by
  have hpos := length_pos_iff.mpr h
  have hhead := dec.header_lt
  have hdrop : (chunk.drop (frameHeaderLength - dec.header.length)).length < chunk.length := by
    rw [length_drop]
    omega
  cases hexp : dec.expectedPayloadLen with
  | some expected =>
    rw [turn_of_some hexp]
    have hfill := dec.fill_shrinks (dec.payload_lt _ hexp) chunk
    omega
  | none =>
    rw [turn_of_none hexp, readHeader, startPayload]
    split_ifs
    · exact hdrop
    · exact hdrop
    · exact hdrop
    · refine Nat.lt_of_le_of_lt (fill_shrinks _ _ _) ?_
      omega

/-- The loop over a chunk: the decoder left and the payloads completed, or the length a header
declared and the bytes behind it. -/
def pushLoop (decoder : FrameDecoder) (frames : List (List UInt8)) (chunk : List UInt8) :
    Except (Nat × List UInt8) (FrameDecoder × List (List UInt8)) :=
  if h : chunk = [] then .ok (decoder, frames)
  else
    match hturn : decoder.turn chunk with
    | .oversized declared rest => .error (declared, rest)
    | .goesOn decoder' frame rest =>
      have : rest.length < chunk.length := by
        have hshrinks := decoder.turn_shrinks h
        rwa [hturn] at hshrinks
      decoder'.pushLoop (frames ++ frame.toList) rest
termination_by chunk.length

/-- A failed decoder has nothing buffered. -/
def fail (decoder : FrameDecoder) : FrameDecoder := { decoder with
    header := [], payload := [], expectedPayloadLen := none, state := .failed
    header_lt := by decide, payload_lt := by simp }

/-- Feed a chunk; the payloads it completes. -/
def push (decoder : FrameDecoder) (chunk : List UInt8) :
    FrameDecoder × Except Refusal (List (List UInt8)) :=
  match decoder.state with
  | .ended => (decoder, .error { error := .ended, unread := chunk })
  | .failed => (decoder, .error { error := .failed, unread := chunk })
  | .open =>
    match decoder.pushLoop [] chunk with
    | .ok (decoder', frames) => (decoder', .ok frames)
    | .error (declared, unread) =>
      (decoder.fail,
        .error { error := .oversized declared decoder.maxFrameLength, unread := unread })

/-- No more chunks: nothing may be buffered. -/
def finish (decoder : FrameDecoder) : FrameDecoder × Except FrameError Unit :=
  match decoder.state with
  | .ended => (decoder, .error .ended)
  | .failed => (decoder, .error .failed)
  | .open =>
    if decoder.header ≠ [] ∨ decoder.expectedPayloadLen.isSome then
      (decoder.fail, .error .truncated)
    else ({ decoder with state := .ended }, .ok ())

end FrameDecoder

end PiOxidized.Remote
