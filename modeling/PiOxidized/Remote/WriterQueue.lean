/-
# The queue of the transport writer

A frame reserves its bytes before it is queued, and the writer releases them after it has taken the
frame.  The bytes counted are those of the frames queued, of the reservations not queued yet, and of
what the writer has just taken.  The encoder bounds a payload and the queue the whole frame by the
same number; for frames that fit, only other frames ever stand in the way.
-/

import PiOxidized.Math.Slots
import PiOxidized.Math.Transition
import PiOxidized.Remote.Codec

namespace PiOxidized.Remote

open List Math

def maxQueuedWriterFrames : Nat := 256

/-- A rejected admission: the frame did not fit, or the writer is gone. -/
inductive WriterQueue.Admission
  | full
  | closed (error : ClientError)
  deriving DecidableEq

/-- How far a call of `admit` has got. -/
inductive AdmitPhase
  | entered
  /-- Found room beside the bytes counted; they are still to be exchanged. -/
  | loaded (current : Nat)
  | reserved
  /-- The frame was not taken; its reservation is still to be released. -/
  | rejected
  | released
  | returned (result : Except WriterQueue.Admission Unit)
  deriving DecidableEq

structure AdmitCall where
  frame : List UInt8
  phase : AdmitPhase
  deriving DecidableEq

/-- How far the writer task has got. -/
inductive WriterPhase
  | writing
  | draining
  /-- Found nothing left to drain; the receiver is still to be dropped. -/
  | drained
  | gone
  deriving DecidableEq

structure WriterQueue where
  queued : Nat := 0
  channel : List (List UInt8) := []
  calls : List AdmitCall := []
  /-- The frame the writer has taken and whose bytes it has not released. -/
  taken : Option (List UInt8) := none
  writer : WriterPhase := .writing
  deriving DecidableEq

inductive WriterEvent
  | send (message : ClientMessage OpaqueJson)
  /-- Reads the bytes counted, at first or after a failed exchange. -/
  | load (i : Nat)
  | exchange (i : Nat)
  | trySend (i : Nat)
  | release (i : Nat)
  | report (i : Nat)
  | receive
  | free
  /-- A shutdown, a failed connection or a failed write ends the loop. -/
  | stop
  | drain
  | drop

/-- What a call has reserved outside the channel. -/
def AdmitCall.reserves (call : AdmitCall) : Nat := match call.phase with
  | .reserved | .rejected => call.frame.length
  | _ => 0

namespace WriterQueue

def setCall (s : WriterQueue) (i : Nat) (frame : List UInt8) (phase : AdmitPhase) : WriterQueue :=
  { s with calls := s.calls.set i ⟨frame, phase⟩ }

def load (max : Nat) (s : WriterQueue) (frame : List UInt8) : AdmitPhase :=
  if frame.length > max ∨ s.queued + frame.length > max then .returned (.error .full)
  else .loaded s.queued

def step (max : Nat) (s : WriterQueue) : WriterEvent → Option WriterQueue
  | .send message =>
    match Codec.encodeClientMessage message (some ⟨max⟩) with
    | .error _ => some s
    | .ok frame => some { s with calls := s.calls ++ [⟨frame, .entered⟩] }
  | .load i =>
    match s.calls[i]? with
    | some ⟨frame, .entered⟩ | some ⟨frame, .loaded _⟩ =>
      some (s.setCall i frame (s.load max frame))
    | _ => none
  | .exchange i =>
    match s.calls[i]? with
    | some ⟨frame, .loaded current⟩ =>
      if s.queued = current then
        some { s.setCall i frame .reserved with queued := current + frame.length }
      else none
    | _ => none
  | .trySend i =>
    match s.calls[i]? with
    | some ⟨frame, .reserved⟩ =>
      if s.writer = .gone ∨ s.channel.length ≥ maxQueuedWriterFrames then
        some (s.setCall i frame .rejected)
      else some { s.setCall i frame (.returned (.ok ())) with channel := s.channel ++ [frame] }
    | _ => none
  | .release i =>
    match s.calls[i]? with
    | some ⟨frame, .rejected⟩ =>
      some { s.setCall i frame .released with queued := s.queued - frame.length }
    | _ => none
  | .report i =>
    match s.calls[i]? with
    | some ⟨frame, .released⟩ =>
      let admission : Admission :=
        if s.writer = .gone then .closed (.disconnected "Transport writer closed") else .full
      some (s.setCall i frame (.returned (.error admission)))
    | _ => none
  | .receive =>
    match s.channel, s.taken with
    | frame :: rest, none =>
      if s.writer = .writing ∨ s.writer = .draining then
        some { s with channel := rest, taken := some frame }
      else none
    | _, _ => none
  | .free => s.taken.map fun frame => { s with queued := s.queued - frame.length, taken := none }
  | .stop =>
    if s.writer = .writing ∧ s.taken = none then some { s with writer := .draining } else none
  | .drain =>
    if s.writer = .draining ∧ s.taken = none ∧ s.channel = [] then
      some { s with writer := .drained }
    else none
  | .drop => if s.writer = .drained then some { s with writer := .gone } else none

def machine (max : Nat) : Machine WriterQueue WriterEvent where
  start s := s = {}
  step := step max

/-- Every frame sent fits into an empty queue. -/
def Fits (max : Nat) : WriterQueue → WriterEvent → Prop
  | _, .send message => ∀ frame, Codec.encodeClientMessage message (some ⟨max⟩) = .ok frame →
      frame.length ≤ max
  | _, _ => True

/-- The bytes of the frames queued, reserved and just taken. -/
def held (s : WriterQueue) : Nat :=
  weigh List.length s.channel + weigh AdmitCall.reserves s.calls + s.taken.elim 0 List.length

/-- Another frame is queued, on its way into the queue, or just taken out of it. -/
def Busy (s : WriterQueue) : Prop :=
  s.channel ≠ [] ∨ s.taken ≠ none ∨ ∃ call ∈ s.calls, 0 < call.reserves

structure Sound (max : Nat) (s : WriterQueue) : Prop where
  counted : s.queued = s.held
  bounded : s.queued ≤ max
  fits : ∀ call ∈ s.calls, call.frame.length ≤ max
  loaded : ∀ call ∈ s.calls, ∀ current, call.phase = .loaded current →
    current + call.frame.length ≤ max

variable {max : Nat} {s s' : WriterQueue} {event : WriterEvent} {i : Nat} {frame : List UInt8}
  {phase next : AdmitPhase}

/-- A call goes on, and its reservation moves to where the frame goes. -/
theorem Sound.advance (h : Sound max s) (hcall : s.calls[i]? = some ⟨frame, phase⟩)
    (hcalls : s'.calls = s.calls.set i ⟨frame, next⟩) (htkn : s'.taken = s.taken)
    (hcnt : s'.queued + (⟨frame, phase⟩ : AdmitCall).reserves + weigh length s.channel =
      s.queued + (⟨frame, next⟩ : AdmitCall).reserves + weigh length s'.channel)
    (hbounded : s'.queued ≤ max)
    (hloaded : ∀ current, next = .loaded current → current + frame.length ≤ max) :
    Sound max s' := by
  have hmem := mem_of_getElem? hcall
  have hweigh := weigh_set AdmitCall.reserves hcall ⟨frame, next⟩
  have hheld := h.counted
  refine ⟨?_, hbounded, ?_, ?_⟩
  · rw [held] at hheld ⊢
    rw [hcalls, htkn]
    omega
  · rw [hcalls]
    intro call hin
    rcases mem_or_eq_of_mem_set hin with hold | rfl
    · exact h.fits call hold
    · exact (h.fits _ hmem :)
  · rw [hcalls]
    intro call hin
    rcases mem_or_eq_of_mem_set hin with hold | rfl
    · exact h.loaded call hold
    · exact hloaded

/-- What a call has reserved is counted. -/
theorem Sound.reserves_le (h : Sound max s) (hcall : s.calls[i]? = some ⟨frame, phase⟩) :
    (⟨frame, phase⟩ : AdmitCall).reserves ≤ s.queued := by
  have hle := le_weigh_of_getElem? AdmitCall.reserves hcall
  rw [h.counted, held]
  omega

theorem load_cases (max : Nat) (s : WriterQueue) (frame : List UInt8) :
    (s.load max frame = .returned (.error .full) ∧
      (max < frame.length ∨ max < s.queued + frame.length)) ∨
    (s.load max frame = .loaded s.queued ∧ s.queued + frame.length ≤ max) := by
  rw [load]
  split_ifs <;> simp <;> omega

/-- A call that has reserved nothing reads the bytes counted. -/
theorem Sound.advance_load (h : Sound max s) (hcall : s.calls[i]? = some ⟨frame, phase⟩)
    (hzero : (⟨frame, phase⟩ : AdmitCall).reserves = 0) :
    Sound max (s.setCall i frame (s.load max frame)) := by
  obtain ⟨hload, -⟩ | ⟨hload, hroom⟩ := load_cases max s frame
  all_goals
    rw [hload]
    refine h.advance hcall rfl rfl ?_ h.bounded ?_
  · rw [hzero]
    rfl
  · exact nofun
  · rw [hzero]
    rfl
  · rintro _ ⟨⟩
    exact hroom

theorem Sound.preserved (h : Sound max s) (hfits : Fits max s event)
    (hstep : WriterQueue.step max s event = some s') : Sound max s' := by
  have hcnt := h.counted
  have hbounded := h.bounded
  cases event <;> simp only [WriterQueue.step] at hstep
  case send message =>
    split at hstep <;> cases hstep
    · exact h
    · rename_i frame hfrm
      refine ⟨?_, hbounded, forall_mem_concat h.fits (hfits _ hfrm),
        forall_mem_concat h.loaded nofun⟩
      rw [hcnt, held, held, weigh_append_singleton]
      rfl
  case load i =>
    split at hstep <;> cases hstep
    all_goals exact h.advance_load ‹_› rfl
  case exchange i =>
    split at hstep
    · rename_i frame current hcall
      have hroom := h.loaded _ (mem_of_getElem? hcall) current rfl
      split_ifs at hstep with heq
      cases hstep
      exact h.advance hcall rfl rfl (by simp [AdmitCall.reserves, WriterQueue.setCall, heq])
        hroom nofun
    · cases hstep
  case trySend i =>
    split at hstep
    · rename_i frame hcall
      split_ifs at hstep <;> cases hstep
      · exact h.advance hcall rfl rfl rfl hbounded nofun
      · refine h.advance hcall rfl rfl ?_ hbounded nofun
        simp [AdmitCall.reserves, WriterQueue.setCall, weigh_append_singleton]
        omega
    · cases hstep
  case release i =>
    split at hstep <;> cases hstep
    rename_i frame hcall
    have hle : frame.length ≤ s.queued := h.reserves_le hcall
    refine h.advance hcall rfl rfl ?_ (by simp; omega) nofun
    simp [AdmitCall.reserves, WriterQueue.setCall]
    omega
  case report i =>
    split at hstep <;> cases hstep
    rename_i hcall
    exact h.advance hcall rfl rfl rfl hbounded nofun
  case receive =>
    split at hstep
    · rename_i frame rest hchan htkn
      split_ifs at hstep
      cases hstep
      refine ⟨?_, hbounded, h.fits, h.loaded⟩
      simp only [held, hchan, htkn, weigh, map_cons, sum_cons, Option.elim] at hcnt ⊢
      omega
    · cases hstep
  case free =>
    obtain ⟨frame, htkn, rfl⟩ := Option.map_eq_some_iff.mp hstep
    refine ⟨?_, by simp; omega, h.fits, h.loaded⟩
    simp only [held, htkn, Option.elim] at hcnt ⊢
    omega
  case stop | drain | drop =>
    split_ifs at hstep
    cases hstep
    exact ⟨hcnt, hbounded, h.fits, h.loaded⟩

/-- What is promised of the queue in every state. -/
structure Exact (max : Nat) (s : WriterQueue) : Prop where
  counted : s.queued = s.held
  bounded : s.queued ≤ max
  releases : ∀ (i : Nat) frame, s.calls[i]? = some ⟨frame, .rejected⟩ ∨ s.taken = some frame →
    frame.length ≤ s.queued
  /-- A frame is refused as full only beside others. -/
  full : ∀ (i : Nat) s' frame, step max s (.load i) = some s' →
    s'.calls[i]? = some ⟨frame, .returned (.error .full)⟩ → s.Busy
  rejects : ∀ (i : Nat) s' frame, step max s (.trySend i) = some s' →
    s'.calls[i]? = some ⟨frame, .rejected⟩ → s.writer = .gone ∨ s.channel ≠ []
  closed : ∀ (i : Nat) s' frame, step max s (.report i) = some s' →
    s'.calls[i]? = some ⟨frame, .returned (.error .full)⟩ → s.writer ≠ .gone
  /-- Into an idle queue every frame is admitted. -/
  admits : ∀ (i : Nat) frame, s.calls[i]? = some ⟨frame, .entered⟩ → ¬ s.Busy → s.writer ≠ .gone →
    ∃ s', (machine max).execute (fun _ _ => true) s [.load i, .exchange i, .trySend i] = some s' ∧
      s'.calls[i]? = some ⟨frame, .returned (.ok ())⟩

/-- Where no other frame is on its way nothing is counted. -/
theorem Sound.queued_eq_zero (h : Sound max s) (hidle : ¬ s.Busy) : s.queued = 0 := by
  rw [Busy, not_or, not_or, not_not, not_not] at hidle
  obtain ⟨hchan, htkn, hcalls⟩ := hidle
  have hweigh : ¬ 0 < weigh AdmitCall.reserves s.calls := by
    rw [weigh_pos_iff]
    exact hcalls
  rw [h.counted, held, hchan, htkn]
  simpa [weigh] using hweigh

/-- A frame finds room in an idle queue. -/
theorem Sound.load_idle (h : Sound max s) (hcall : s.calls[i]? = some ⟨frame, phase⟩)
    (hidle : ¬ s.Busy) : s.load max frame = .loaded 0 := by
  have hfit : frame.length ≤ max := h.fits _ (mem_of_getElem? hcall)
  rw [load, h.queued_eq_zero hidle, if_neg (by omega)]

theorem Sound.admitted (h : Sound max s) (hcall : s.calls[i]? = some ⟨frame, .entered⟩)
    (hidle : ¬ s.Busy) (hwriter : s.writer ≠ .gone) :
    ∃ s', (machine max).execute (fun _ _ => true) s [.load i, .exchange i, .trySend i] = some s' ∧
      s'.calls[i]? = some ⟨frame, .returned (.ok ())⟩ := by
  have hzero := h.queued_eq_zero hidle
  have hchan : s.channel = [] := by_contra fun hne => hidle (.inl hne)
  have hload := h.load_idle hcall hidle
  obtain ⟨hi, hat⟩ := List.getElem?_eq_some_iff.mp hcall
  simp [Machine.execute, machine, step, hat, hload, setCall, hi, hzero, hchan, hwriter,
    maxQueuedWriterFrames]

theorem Sound.exact (h : Sound max s) : Exact max s where
  counted := h.counted
  bounded := h.bounded
  releases i frame hheld := by
    obtain hcall | htkn := hheld
    · exact h.reserves_le hcall
    · rw [h.counted, held, htkn]
      exact Nat.le_add_left ..
  full i s' frame hstep hfull := by
    by_contra hidle
    simp only [step] at hstep
    split at hstep <;> cases hstep
    all_goals
      rename_i hcall
      rw [setCall, getElem?_set_of_some hcall, h.load_idle hcall hidle] at hfull
      cases hfull
  rejects i s' frame hstep hrejected := by
    simp only [step] at hstep
    split at hstep
    · rename_i hcall
      split_ifs at hstep with hfull
      · refine hfull.imp_right fun hlong hemp => ?_
        rw [hemp] at hlong
        cases hlong
      · cases hstep
        rw [setCall, getElem?_set_of_some hcall] at hrejected
        cases hrejected
    · cases hstep
  closed i s' frame hstep hfull hgone := by
    simp only [step] at hstep
    split at hstep <;> cases hstep
    rename_i hcall
    rw [setCall, getElem?_set_of_some hcall, if_pos hgone] at hfull
    cases hfull
  admits _ _ hcall hidle hwriter := h.admitted hcall hidle hwriter

/-- Frames that fit are counted exactly, and only other frames ever stand in the way of one. -/
theorem writer_queue_exact (h : (machine max).Run (Fits max) s) : Exact max s :=
  (h.invariant (P := Sound max) (by rintro _ rfl; exact ⟨rfl, Nat.zero_le _, nofun, nofun⟩)
    fun _ _ _ hs hfits hstep => hs.preserved hfits hstep).exact

/-- A hello of twenty-five bytes goes through a queue of twenty-five. -/
theorem writer_queue_exact_hello : ∃ s : WriterQueue,
    s.calls.map AdmitCall.phase = [.returned (.ok ())] ∧ s.queued = 25 ∧ Exact 25 s := by
  have hstart : (machine 25).Run (Fits 25) {} := .start rfl
  obtain ⟨s, hrun, hs⟩ := hstart.execute (fun _ event =>
      match event with
      | .send message =>
        (Codec.encodeClientMessage message (some ⟨25⟩)).toOption.all fun frame => frame.length ≤ 25
      | _ => true)
    [.send (.hello U64.one), .load 0, .exchange 0, .trySend 0]
    (fun s => s.calls.map AdmitCall.phase = [.returned (.ok ())] ∧ s.queued = 25)
    (fun _ event hcheck => by
      cases event
      case send message =>
        intro frame hframe
        simpa [hframe, Except.toOption] using hcheck
      all_goals trivial)
    (by decide +kernel)
  obtain ⟨hcalls, hqueued⟩ := of_decide_eq_true hs
  exact ⟨s, hcalls, hqueued, writer_queue_exact hrun⟩

/-- A frame that the encoder accepts and an empty queue does not is refused as full. -/
theorem full_idle {message} (h : Codec.encodeClientMessage message (some ⟨max⟩) = .ok frame)
    (hlong : max < frame.length) : ∃ s, (machine max).Run (fun _ _ => True) s ∧ ¬ Exact max s := by
  let s : WriterQueue := { calls := [⟨frame, .entered⟩] }
  have hsend : step max {} (.send message) = some s := by
    simp only [step, h]
    rfl
  refine ⟨s, .step (.send message) (.start rfl) trivial hsend, fun hexact => ?_⟩
  have hidle : ¬ s.Busy := by simp [s, Busy, AdmitCall.reserves]
  refine hidle (hexact.full 0 (s.setCall 0 frame (.returned (.error .full))) frame ?_ rfl)
  simp [step, s, load, hlong]

/-- The hello of twenty-one bytes is a frame of twenty-five. -/
theorem hello_refused :
    ¬ ∀ max (s : WriterQueue), (machine max).Run (fun _ _ => True) s → Exact max s := by
  intro h
  have hlong : (Codec.encodeClientMessage (.hello U64.one) (some ⟨21⟩)).toOption.any
      (fun frame => 21 < frame.length) = true := by decide +kernel
  cases hframe : Codec.encodeClientMessage (.hello U64.one) (some ⟨21⟩) with
  | error => simp [hframe, Except.toOption] at hlong
  | ok frame =>
    obtain ⟨s, hrun, hinexact⟩ := full_idle hframe (by
      simpa [hframe, Except.toOption] using hlong)
    exact hinexact (h 21 s hrun)

end WriterQueue

end PiOxidized.Remote
