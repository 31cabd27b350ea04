/-
# A subscription without gaps

As long as no publication finds the buffer full between the look at it and its activation, and
nothing that was published after a lost update is sent before the connection is closed for it, the
listener gets a prefix of what was published, and everything that was published while the
subscription is live is received or on its way.
-/

import Mathlib.Data.List.Infix
import PiOxidized.Remote.Stream

namespace PiOxidized.Remote

open List Math
open Option hiding or_assoc

namespace Stream

variable {s s' : Stream}

/-! ## What is on its way -/

def StreamFrame.update? : StreamFrame → Option Nat
  | .update update => some update
  | _ => none

def wireUpdates (s : Stream) : List Nat := s.wire.filterMap StreamFrame.update?

/-- What the client has, delivered or not. -/
def client (s : Stream) : List Nat :=
  s.received ++ s.direct.toList ++ s.starter.getD [] ++ s.state.queued ++ s.state.queuedWire

/-- What the server has not sent yet. -/
def unsent (s : Stream) : List Nat := s.worker.getD [] ++ s.pending.queue

/-- Everything from the listener back to the provider. -/
def underway (s : Stream) : List Nat := s.client ++ s.wireUpdates ++ s.unsent

/-- Whether the subscription was refused or disposed, or its connection failed. -/
def Ended (s : Stream) : Prop :=
  s.phase = .refused ∨ s.disposed = true ∨ s.terminal = true ∨ s.closing = true ∨ s.failed = true

/-- Whether the subscription is neither ended nor about to be. -/
structure Live (s : Stream) : Prop where
  not_ended : ¬ s.Ended
  accepted : s.phase ≠ .refusing
  closers : s.closers = 0
  /-- A buffer that has overflowed before it was looked at refuses the subscription. -/
  gated : s.phase = .invoking ∨ s.phase = .installed → s.pending.overflowed = false

/-- Whether nothing is on its way. -/
structure Idle (s : Stream) : Prop where
  direct : s.direct = none
  starter : s.starter.getD [] = []
  queued : s.state.queued = []
  queuedWire : s.state.queuedWire = []
  wire : s.wire = []
  worker : s.worker.getD [] = []
  queue : s.pending.queue = []
  closers : s.closers = 0
  phase : s.phase ≠ .refusing

/-- What a subscription promises. -/
structure Gapless (s : Stream) : Prop where
  ordered : s.received <+: List.range s.published
  ended : s.Idle → s.received.length < s.published → s.Ended
  kept : s.Live → s.underway = List.range s.published

/-- The buffer has room until it is activated, and an update sent before the close of the
connection was published before anything was lost. -/
def Careful (s : Stream) : StreamEvent → Prop
  | .publish => s.pending.active = false → s.phase.gated = true →
      s.pending.queue.length < maxQueuedSubscriptionUpdates
  | .send => ∀ update batch lost, s.worker = some (update :: batch) → s.lost = some lost →
      update < lost ∨ s.closing = true ∨ s.terminal = true
  | _ => True

/-! ## What every step keeps -/

/-- How the client's queue is drained. -/
structure Fits (state : ActiveServiceState) (starter : Option (List Nat)) (direct : Option Nat) :
    Prop where
  unhydrated : state.hydrated = false → state.queued = [] ∧ state.ready = false
  hydrated : state.hydrated = true → state.queuedWire = []
  unready : state.ready = false → starter = none ∧ direct = none
  resting : state.delivering = false → starter = none ∧ (state.ready = true → state.queued = [])
  direct : direct.isSome = true → state.delivering = false

/-- How far the server is. -/
structure Serves (s : Stream) : Prop where
  waiting : s.phase ≠ .activated → s.pending.active = false ∧ s.worker = none ∧ s.wireUpdates = [] ∧
    s.lost = none
  activated : s.phase = .activated → s.pending.active = true
  draining : s.pending.active = true → s.pending.draining = s.worker.isSome
  overflowed : s.pending.overflowed = true →
    maxQueuedSubscriptionUpdates ≤ s.pending.queue.length ∧ s.phase.gated = false ∧
      s.phase ≠ .activated
  lost : ∀ lost, s.lost = some lost → lost < s.published ∧ (0 < s.closers ∨ s.closing = true)
  unsent : s.phase = .unsent → s.terminal = true ∨ s.closing = true
  refused : s.reply = some false ∨ .responseError ∈ s.wire → s.phase = .refused
  registered : s.registered = false → s.disposed = true ∨ s.failed = true ∨ s.phase = .refused

/-- What is on its way, up to what was lost. -/
def Whole (s : Stream) : Prop :=
  ∃ rest, s.underway = List.range (s.lost.getD s.published) ++ rest ∧ (s.lost = none → rest = []) ∧
    ∀ lost update, s.lost = some lost → update ∈ rest → lost < update

structure Sound (s : Stream) : Prop where
  fits : Fits s.state s.starter s.direct
  serves : s.Serves
  received : s.received <+: List.range s.published
  client : s.registered = true → s.client <+: List.range s.published
  wire : s.registered = true → s.failed = false →
    s.client ++ s.wireUpdates <+: List.range s.published
  whole : s.registered = true → s.failed = false → s.terminal = false → s.closing = false →
    s.pending.overflowed = false → s.Whole

/-- A subscription that is live has what was published, all of it. -/
theorem Sound.kept (h : s.Sound) (hlive : s.Live) : s.underway = range s.published := by
  have hnot := hlive.not_ended
  simp only [Ended, not_or, Bool.not_eq_true] at hnot
  obtain ⟨hph, hdisp, hterm, hcls, hfail⟩ := hnot
  have hreg : s.registered = true := by
    by_contra hreg
    rw [Bool.not_eq_true] at hreg
    rcases h.serves.registered hreg with heq | heq | heq
    · rw [hdisp] at heq
      cases heq
    · rw [hfail] at heq
      cases heq
    · exact hph heq
  have hover : s.pending.overflowed = false := by
    by_contra hover
    rw [Bool.not_eq_false] at hover
    obtain ⟨-, hgated, hactivated⟩ := h.serves.overflowed hover
    have hwait : s.phase = .invoking ∨ s.phase = .installed := by
      cases hcase : s.phase with
      | invoking => exact .inl rfl
      | installed => exact .inr rfl
      | accepted | responded =>
        rw [hcase] at hgated
        cases hgated
      | activated => exact absurd hcase hactivated
      | refusing => exact absurd hcase hlive.accepted
      | refused => exact absurd hcase hph
      | unsent =>
        rcases h.serves.unsent hcase with heq | heq
        · rw [hterm] at heq
          cases heq
        · rw [hcls] at heq
          cases heq
    rw [hlive.gated hwait] at hover
    cases hover
  obtain ⟨rest, hunder, hrest, -⟩ := h.whole hreg hfail hterm hcls hover
  have hlost : s.lost = none := by
    by_contra hlost
    obtain ⟨lost, hlost⟩ := ne_none_iff_exists'.mp hlost
    rcases (h.serves.lost lost hlost).2 with hpos | heq
    · rw [hlive.closers] at hpos
      exact absurd hpos (Nat.lt_irrefl 0)
    · rw [hcls] at heq
      cases heq
  rw [hunder, hrest hlost, hlost, getD_none, append_nil]

theorem Sound.gapless (h : s.Sound) : s.Gapless where
  ordered := h.received
  ended hidle hlt := by
    by_contra hnot
    have hlive : s.Live := by
      refine ⟨hnot, hidle.phase, hidle.closers, fun _ => ?_⟩
      by_contra hover
      rw [Bool.not_eq_false] at hover
      have hfull := (h.serves.overflowed hover).1
      rw [hidle.queue] at hfull
      exact absurd hfull (by decide)
    have hkept := congrArg length (h.kept hlive)
    rw [underway, Stream.client, wireUpdates, unsent, hidle.direct, hidle.starter, hidle.queued,
      hidle.queuedWire, hidle.wire, hidle.worker, hidle.queue] at hkept
    simp only [toList_none, append_nil, filterMap_nil, length_range] at hkept
    omega
  kept := h.kept

/-! ## The server's side -/

variable {upd : Nat} {updates : List Nat}

variable {frame : StreamFrame} {batch : List Nat}

theorem range_isPrefix {m n : Nat} (h : m ≤ n) : range m <+: range n := by
  obtain ⟨k, rfl⟩ := Nat.exists_eq_add_of_le h
  rw [range_add]
  exact prefix_append _ _

theorem prefix_range_succ {n : Nat} (h : updates <+: range n) : updates <+: range (n + 1) :=
  h.trans (range_isPrefix (Nat.le_succ n))

/-- The same is on its way. -/
theorem Whole.congr (h : s.Whole) (hunder : s'.underway = s.underway) (hlost : s'.lost = s.lost)
    (hpubd : s'.published = s.published) : s'.Whole := by
  unfold Whole
  rw [hunder, hlost, hpubd]
  exact h

/-- One more update at the end. -/
theorem Whole.append (h : s.Whole) (hlost : ∀ lost, s.lost = some lost → lost < s.published)
    (hunder : s'.underway = s.underway ++ [s.published]) (hsame : s'.lost = s.lost)
    (hpubd : s'.published = s.published + 1) : s'.Whole := by
  obtain ⟨rest, heq, hrest, hlater⟩ := h
  cases hcase : s.lost with
  | none =>
    refine ⟨[], ?_, fun _ => rfl, ?_⟩
    · rw [hunder, heq, hsame, hcase, hrest hcase, hpubd, getD_none, getD_none,
        append_nil, append_nil, range_succ]
    · rw [hsame, hcase]
      exact fun _ _ => nofun
  | some lost =>
    refine ⟨rest ++ [s.published], ?_, ?_, ?_⟩
    · rw [hunder, heq, hsame, hcase, getD_some, getD_some, append_assoc]
    · rw [hsame, hcase]
      exact nofun
    · intro other upd hoth hmem
      rw [hsame, hcase] at hoth
      rcases mem_append.mp hmem with hmem | hmem
      · exact hlater other upd (hcase.trans hoth) hmem
      · rw [mem_singleton.mp hmem]
        exact hlost other (hcase.trans hoth)

/-- One more update is published, with what the server still has to send of it. -/
theorem Sound.published {pending : PendingUpdates} {worker : Option (List Nat)} {closers : Nat}
    {lost : Option Nat} (h : s.Sound)
    (hsrv : Serves { s with
      published := s.published + 1, pending, worker, closers, lost })
    (hwhole : s.registered = true → s.failed = false → s.terminal = false → s.closing = false →
      pending.overflowed = false → Whole { s with
        published := s.published + 1, pending, worker, closers, lost }) :
    Sound { s with published := s.published + 1, pending, worker, closers, lost } :=
  { h with
    serves := hsrv
    received := prefix_range_succ h.received
    client := fun hreg => prefix_range_succ (h.client hreg)
    wire := fun hreg hfail => prefix_range_succ (h.wire hreg hfail)
    whole := hwhole }

theorem Sound.publish (h : s.Sound) (hcare : s.Careful .publish) : s.publish.Sound := by
  have hsrv := h.serves
  have hlost : ∀ lost, s.lost = some lost →
      lost < s.published + 1 ∧ (0 < s.closers ∨ s.closing = true) :=
    fun lost heq => ⟨Nat.lt_succ_of_lt (hsrv.lost lost heq).1, (hsrv.lost lost heq).2⟩
  unfold Stream.publish PendingUpdates.enqueue
  by_cases hact : s.pending.active = false
  · rw [if_pos hact]
    have hph : s.phase ≠ .activated := by
      intro hph
      rw [hsrv.activated hph] at hact
      cases hact
    by_cases hfull : maxQueuedSubscriptionUpdates ≤ s.pending.queue.length
    · rw [if_pos hfull]
      refine h.published { hsrv with overflowed := ?_, lost := hlost } ?_
      · intro _
        refine ⟨hfull, ?_, hph⟩
        by_contra hgated
        exact absurd (hcare hact (Bool.not_eq_false _ ▸ hgated)) (Nat.not_lt.mpr hfull)
      · intro _ _ _ _ hover
        cases hover
    · rw [if_neg hfull]
      refine h.published { hsrv with overflowed := ?_, lost := hlost } ?_
      · intro hover
        exact absurd (hsrv.overflowed hover).1 hfull
      · intro hreg hfail hterm hcls hover
        refine (h.whole hreg hfail hterm hcls hover).append
          (fun lost heq => (hsrv.lost lost heq).1) ?_ rfl rfl
        simp only [underway, Stream.client, wireUpdates, unsent, append_assoc]
  · rw [if_neg hact]
    rw [Bool.not_eq_false] at hact
    have hover : s.pending.overflowed = false := by
      by_contra hover
      rw [Bool.not_eq_false] at hover
      have hph := (hsrv.overflowed hover).2.2
      rw [(hsrv.waiting hph).1] at hact
      cases hact
    by_cases hfull : maxQueuedSubscriptionUpdates ≤ s.pending.queue.length
    · rw [if_pos hfull]
      refine h.published { hsrv with waiting := ?_, lost := ?_ } ?_
      · intro hph
        rw [(hsrv.waiting hph).1] at hact
        cases hact
      · intro lost heq
        refine ⟨?_, .inl (Nat.succ_pos _)⟩
        show lost < s.published + 1
        have heq : (s.lost <|> some s.published) = some lost := heq
        cases hcase : s.lost with
        | none =>
          rw [hcase] at heq
          rw [← some.inj heq]
          exact Nat.lt_succ_self _
        | some before =>
          rw [hcase] at heq
          rw [← some.inj heq]
          exact (hlost before hcase).1
      · intro hreg hfail hterm hcls _
        obtain ⟨rest, heq, hrest, hlater⟩ := h.whole hreg hfail hterm hcls hover
        -- What was lost first stays so; without a loss so far it is this update.
        obtain ⟨lost, hfst, hunder, hbeh⟩ : ∃ lost, (s.lost <|> some s.published) = some lost ∧
            s.underway = range lost ++ rest ∧ ∀ upd ∈ rest, lost < upd := by
          cases hcase : s.lost with
          | none =>
            refine ⟨s.published, rfl, ?_, ?_⟩
            · rw [heq, hcase]
              rfl
            · rw [hrest hcase]
              exact fun _ hmem => absurd hmem not_mem_nil
          | some lost =>
            refine ⟨lost, rfl, ?_, fun upd hmem => hlater lost upd hcase hmem⟩
            rw [heq, hcase]
            rfl
        refine ⟨rest, ?_, ?_, ?_⟩
        · show s.underway = range ((s.lost <|> some s.published).getD (s.published + 1)) ++ rest
          rw [hfst]
          exact hunder
        · intro hnone
          have hnone : (s.lost <|> some s.published) = none := hnone
          rw [hfst] at hnone
          cases hnone
        · intro other upd hoth hmem
          have hoth : (s.lost <|> some s.published) = some other := hoth
          rw [hfst] at hoth
          rw [← some.inj hoth]
          exact hbeh upd hmem
    · rw [if_neg hfull]
      by_cases hdrn : s.pending.draining = true
      · rw [if_pos hdrn]
        refine h.published { hsrv with overflowed := ?_, lost := hlost } ?_
        · intro htrue
          rw [hover] at htrue
          cases htrue
        · intro hreg hfail hterm hcls _
          refine (h.whole hreg hfail hterm hcls hover).append
            (fun lost heq => (hsrv.lost lost heq).1) ?_ rfl rfl
          simp only [underway, Stream.client, wireUpdates, unsent, append_assoc]
      · rw [if_neg hdrn]
        have hwork : s.worker = none := by
          rw [hsrv.draining hact] at hdrn
          exact not_isSome_iff_eq_none.mp hdrn
        refine h.published { hsrv with
          waiting := ?_, draining := fun _ => rfl, overflowed := ?_, lost := hlost } ?_
        · intro hph
          rw [(hsrv.waiting hph).1] at hact
          cases hact
        · intro htrue
          rw [hover] at htrue
          cases htrue
        · intro hreg hfail hterm hcls _
          refine (h.whole hreg hfail hterm hcls hover).append
            (fun lost heq => (hsrv.lost lost heq).1) ?_ rfl rfl
          simp only [underway, Stream.client, wireUpdates, unsent, hwork, getD_none,
            getD_some, nil_append, append_nil, append_assoc]

/-- What is next to be sent continues what was sent before, unless something was lost first. -/
theorem Whole.next_in_order {rest : List Nat} (h : s.Whole) (huns : s.unsent = upd :: rest)
    (hlost : ∀ lost, s.lost = some lost → lost < s.published ∧ upd < lost) :
    s.client ++ (s.wireUpdates ++ [upd]) <+: range s.published := by
  obtain ⟨behind, heq, hbeh, hlater⟩ := h
  have hle : s.lost.getD s.published ≤ s.published := by
    cases hcase : s.lost with
    | none => exact Nat.le_refl _
    | some lost => exact Nat.le_of_lt (hlost lost hcase).1
  have hsplit : s.client ++ (s.wireUpdates ++ [upd]) ++ rest =
      range (s.lost.getD s.published) ++ behind := by
    rw [← heq, underway, huns]
    simp only [append_assoc, singleton_append]
  -- The update is not behind what was lost.
  have hlen : (s.client ++ (s.wireUpdates ++ [upd])).length ≤ s.lost.getD s.published := by
    by_contra hlonger
    rw [Nat.not_le] at hlonger
    have hmem : upd ∈ behind := by
      have hlast : (s.client ++ (s.wireUpdates ++ [upd]) ++ rest)[(s.client ++ s.wireUpdates).length]? =
          some upd := by simp
      rw [hsplit, getElem?_append_right] at hlast
      · exact mem_of_getElem? hlast
      · simp only [length_append, length_singleton, length_range] at hlonger ⊢
        omega
    cases hcase : s.lost with
    | none =>
      rw [hbeh hcase] at hmem
      cases hmem
    | some lost =>
      exact absurd (hlater lost upd hcase hmem) (Nat.lt_asymm (hlost lost hcase).2)
  have hpref : s.client ++ (s.wireUpdates ++ [upd]) <+: range (s.lost.getD s.published) := by
    refine prefix_of_prefix_length_le (prefix_append _ rest) ?_ ?_
    · rw [hsplit]
      exact prefix_append _ _
    · rw [length_range]
      exact hlen
  exact hpref.trans (range_isPrefix hle)

theorem Serves.overflowed_eq_false (h : s.Serves)
    (hph : s.phase = .activated ∨ s.phase.gated = true) : s.pending.overflowed = false := by
  by_contra hover
  rw [Bool.not_eq_false] at hover
  obtain ⟨-, hgated, hactivated⟩ := h.overflowed hover
  rcases hph with hph | hph
  · exact hactivated hph
  · rw [hgated] at hph
    cases hph

/-- The worker hands its next update to the connection. -/
theorem Sound.send (h : s.Sound) (hcare : s.Careful .send)
    (hwork : s.worker = some (upd :: batch)) :
    { s.hand (.update upd) with worker := some batch }.Sound := by
  have hsrv := h.serves
  have hph : s.phase = .activated := by
    by_contra hph
    rw [(hsrv.waiting hph).2.1] at hwork
    cases hwork
  have hoverflowed := hsrv.overflowed_eq_false (.inl hph)
  have huns : s.unsent = upd :: (batch ++ s.pending.queue) := by
    rw [unsent, hwork, getD_some, cons_append]
  have hdrn : s.pending.active = true → s.pending.draining = true := by
    intro hact
    rw [hsrv.draining hact, hwork]
    rfl
  unfold hand
  by_cases hover : (s.terminal || s.closing) = true
  · rw [if_pos hover]
    refine { h with
      serves := { hsrv with
        waiting := fun hne => absurd hph hne
        draining := hdrn }
      whole := ?_ }
    intro _ _ hterm hcls
    have hterm : s.terminal = false := hterm
    have hcls : s.closing = false := hcls
    rw [hterm, hcls] at hover
    cases hover
  · rw [if_neg hover]
    rw [Bool.not_eq_true, Bool.or_eq_false_iff] at hover
    have hsame : ({ s with wire := s.wire ++ [.update upd], worker := some batch } : Stream).underway =
        s.underway := by
      simp only [underway, Stream.client, wireUpdates, unsent, hwork, getD_some,
        filterMap_append, filterMap_cons, filterMap_nil, StreamFrame.update?,
        append_assoc, cons_append, nil_append]
    have hupds : ({ s with wire := s.wire ++ [.update upd], worker := some batch } : Stream).wireUpdates =
        s.wireUpdates ++ [upd] := by
      simp only [wireUpdates, filterMap_append, filterMap_cons, filterMap_nil, StreamFrame.update?]
    refine { h with
      serves := { hsrv with
        waiting := fun hne => absurd hph hne
        draining := hdrn
        refused := ?_ }
      wire := ?_
      whole := ?_ }
    · rintro (hreply | hmem)
      · exact hsrv.refused (.inl hreply)
      · rcases mem_append.mp hmem with hmem | hmem
        · exact hsrv.refused (.inr hmem)
        · cases mem_singleton.mp hmem
    · intro hreg hfail
      rw [hupds]
      refine (h.whole hreg hfail hover.1 hover.2 hoverflowed).next_in_order huns ?_
      intro lost hlost
      refine ⟨(hsrv.lost lost hlost).1, ?_⟩
      rcases hcare upd batch lost hwork hlost with hlt | heq | heq
      · exact hlt
      · rw [hover.2] at heq
        cases heq
      · rw [hover.1] at heq
        cases heq
    · intro hreg hfail _ _ _
      obtain ⟨rest, heq, hrest⟩ := h.whole hreg hfail hover.1 hover.2 hoverflowed
      exact ⟨rest, hsame.trans heq, hrest⟩

theorem Sound.nextBatch (h : s.Sound) (hwork : s.worker = some []) : s.nextBatch.Sound := by
  have hsrv := h.serves
  have hph : s.phase = .activated := by
    by_contra hph
    rw [(hsrv.waiting hph).2.1] at hwork
    cases hwork
  unfold Stream.nextBatch PendingUpdates.nextBatch
  by_cases hemp : s.pending.queue = []
  · rw [if_pos hemp]
    refine { h with
      serves := { hsrv with
        waiting := fun hne => absurd hph hne
        draining := fun _ => rfl
        overflowed := hsrv.overflowed }
      whole := ?_ }
    intro hreg hfail hterm hcls hover
    refine (h.whole hreg hfail hterm hcls hover).congr ?_ rfl rfl
    simp only [underway, unsent, hwork]
    rfl
  · rw [if_neg hemp]
    refine { h with
      serves := { hsrv with
        waiting := fun hne => absurd hph hne
        draining := ?_
        overflowed := ?_ }
      whole := ?_ }
    · intro hact
      show s.pending.draining = true
      rw [hsrv.draining hact, hwork]
      rfl
    · intro hover
      have hover : s.pending.overflowed = true := hover
      rw [hsrv.overflowed_eq_false (.inl hph)] at hover
      cases hover
    · intro hreg hfail hterm hcls hover
      refine (h.whole hreg hfail hterm hcls hover).congr ?_ rfl rfl
      simp only [underway, unsent, hwork, getD_some, append_nil]
      rfl

/-- The request goes on, without an effect on the queue. -/
theorem Sound.setPhase (h : s.Sound) {phase : SubscribePhase} (hph : s.phase ≠ .activated)
    (hopen : s.phase ≠ .refused) (hnext : phase ≠ .activated)
    (hgated : s.pending.overflowed = true → phase.gated = false)
    (huns : phase = .unsent → s.terminal = true ∨ s.closing = true) :
    { s with phase := phase }.Sound := by
  have hsrv := h.serves
  refine { h with serves := { hsrv with
    waiting := fun _ => hsrv.waiting hph
    activated := fun heq => absurd heq hnext
    overflowed := fun heq => ⟨(hsrv.overflowed heq).1, hgated heq, hnext⟩
    unsent := huns
    refused := fun hreply => absurd (hsrv.refused hreply) hopen
    registered := ?_ } }
  intro hreg
  exact (hsrv.registered hreg).imp_right fun hrest => hrest.imp_right fun heq =>
    absurd heq hopen

/-- A frame other than an update is handed over. -/
theorem Sound.hand (h : s.Sound) (hfrm : StreamFrame.update? frame = none)
    (href : frame = .responseError → s.phase = .refused) : (s.hand frame).Sound := by
  unfold Stream.hand
  split_ifs
  · exact h
  · have hupds : ({ s with wire := s.wire ++ [frame] } : Stream).wireUpdates = s.wireUpdates := by
      simp only [wireUpdates, filterMap_append, filterMap_cons, filterMap_nil, hfrm, append_nil]
    refine { h with
      serves := { h.serves with
        waiting := ?_
        refused := ?_ }
      wire := ?_
      whole := ?_ }
    · intro hph
      rw [hupds]
      exact h.serves.waiting hph
    · rintro (hreply | hmem)
      · exact h.serves.refused (.inl hreply)
      · rcases mem_append.mp hmem with hmem | hmem
        · exact h.serves.refused (.inr hmem)
        · exact href (mem_singleton.mp hmem).symm
    · intro hreg hfail
      rw [hupds]
      exact h.wire hreg hfail
    · intro hreg hfail hterm hcls hover
      refine (h.whole hreg hfail hterm hcls hover).congr ?_ rfl rfl
      rw [underway, hupds]
      rfl

theorem hand_setPhase (s : Stream) (frame : StreamFrame) (phase : SubscribePhase) :
    { s.hand frame with phase := phase } = { s with phase := phase }.hand frame := by
  unfold Stream.hand
  split_ifs <;> rfl

/-- The queue is opened, and the request drains what is in it. -/
theorem Sound.activate (h : s.Sound) (hph : s.phase = .responded) : { s with
      phase := .activated
      pending := { s.pending with active := true, draining := true, queue := [] }
      worker := some s.pending.queue }.Sound := by
  have hsrv := h.serves
  have hne : s.phase ≠ .activated := by
    rw [hph]
    exact nofun
  have hwork := (hsrv.waiting hne).2.1
  have hover := hsrv.overflowed_eq_false (.inr (by rw [hph]; rfl))
  refine { h with
    serves := { hsrv with
      waiting := fun heq => absurd rfl heq
      activated := fun _ => rfl
      draining := fun _ => rfl
      overflowed := ?_
      unsent := nofun
      refused := ?_
      registered := ?_ }
    whole := ?_ }
  · intro htrue
    have htrue : s.pending.overflowed = true := htrue
    rw [hover] at htrue
    cases htrue
  · intro hreply
    have href := hsrv.refused hreply
    rw [hph] at href
    cases href
  · intro hreg
    refine (hsrv.registered hreg).imp_right fun hrest => hrest.imp_right ?_
    rw [hph]
    exact nofun
  · intro hreg hfail hterm hcls _
    refine (h.whole hreg hfail hterm hcls hover).congr ?_ rfl rfl
    simp only [underway, unsent, hwork, getD_some, append_nil]
    rfl

/-- The request goes on: the buffer is looked at, the response is sent, the queue is opened. -/
theorem Sound.advance (h : s.Sound) (hstep : s.advance = some s') : s'.Sound := by
  have hsrv := h.serves
  unfold Stream.advance at hstep
  cases hph : s.phase with
  | installed =>
    simp only [hph] at hstep
    cases hstep
    have hne : s.phase ≠ .activated ∧ s.phase ≠ .refused := by
      rw [hph]
      exact ⟨nofun, nofun⟩
    refine h.setPhase hne.1 hne.2 ?_ ?_ ?_
    · split_ifs <;> exact nofun
    · intro hoverflowed
      rw [if_pos hoverflowed]
      rfl
    · split_ifs <;> exact nofun
  | accepted =>
    simp only [hph] at hstep
    have hne : s.phase ≠ .activated ∧ s.phase ≠ .refused := by
      rw [hph]
      exact ⟨nofun, nofun⟩
    split_ifs at hstep with hover
    · cases hstep
      exact h.setPhase hne.1 hne.2 nofun (fun _ => rfl) fun _ => Bool.or_eq_true_iff.mp hover
    · cases hstep
      have hnext : { s with phase := .responded }.Sound := by
        refine h.setPhase hne.1 hne.2 nofun ?_ nofun
        intro hoverflowed
        rw [hsrv.overflowed_eq_false (.inr (by rw [hph]; rfl))] at hoverflowed
        cases hoverflowed
      rw [hand_setPhase]
      exact hnext.hand rfl nofun
  | responded =>
    simp only [hph] at hstep
    cases hstep
    exact h.activate hph
  | refusing =>
    simp only [hph] at hstep
    have hne : s.phase ≠ .activated ∧ s.phase ≠ .refused := by
      rw [hph]
      exact ⟨nofun, nofun⟩
    cases hstep
    have hnext : { s with phase := .refused }.Sound :=
      h.setPhase hne.1 hne.2 nofun (fun _ => rfl) nofun
    rw [hand_setPhase]
    exact hnext.hand rfl fun _ => rfl
  | invoking | activated | refused | unsent =>
    simp only [hph] at hstep
    cases hstep

/-! ## The client's side -/

variable {wire : List StreamFrame} {state : ActiveServiceState} {direct : Option Nat}
  {decodes : Bool}

variable {starter : Option (List Nat)} {reply : Option Bool} {event : StreamEvent}

/-- The client moves updates on without changing their order. -/
theorem Sound.clientMove (h : s.Sound) {received : List Nat} (hfits : Fits state starter direct)
    (hreceived : received <+: range s.published)
    (hclient : s.registered = true → received ++ direct.toList ++ starter.getD [] ++ state.queued ++
      state.queuedWire = s.client) :
    { s with state := state, starter := starter, direct := direct, received := received }.Sound := by
  refine { h with
    fits := hfits
    serves := { h.serves with }
    received := hreceived
    client := ?_
    wire := ?_
    whole := ?_ }
  · intro hreg
    have hsame := h.client hreg
    rw [← hclient hreg] at hsame
    exact hsame
  · intro hreg hfail
    have hsame := h.wire hreg hfail
    rw [← hclient hreg] at hsame
    exact hsame
  · intro hreg hfail hterm hcls hover
    refine (h.whole hreg hfail hterm hcls hover).congr ?_ rfl rfl
    rw [underway, underway, ← hclient hreg]
    rfl

/-- The client's connection fails. -/
theorem Sound.fail (h : s.Sound) : { s with failed := true }.Sound := by
  refine { h with
    serves := { h.serves with registered := fun _ => .inr (.inl rfl) }
    wire := fun _ => nofun
    whole := fun _ => nofun }

/-- The listener is not registered any more. -/
theorem Sound.unregister (h : s.Sound) {disposed : Bool}
    (hended : disposed = true ∨ s.failed = true ∨ s.phase = .refused)
    (hreply : reply = some false → s.phase = .refused) :
    { s with registered := false, disposed := disposed, reply := reply }.Sound := by
  refine { h with
    serves := { h.serves with
      refused := ?_
      registered := fun _ => hended }
    client := nofun
    wire := nofun
    whole := nofun }
  rintro (heq | hmem)
  · exact hreply heq
  · exact h.serves.refused (.inr hmem)

/-- A frame that arrives was handed over. -/
theorem Sound.shift (h : s.Sound) (hwire : s.wire = frame :: wire)
    (hfrm : StreamFrame.update? frame = none) (hreply : reply = some false → s.phase = .refused) :
    { s with wire := wire, reply := reply }.Sound := by
  have hupds : ({ s with wire := wire, reply := reply } : Stream).wireUpdates = s.wireUpdates := by
    simp only [wireUpdates, hwire, filterMap_cons, hfrm]
  refine { h with
    serves := { h.serves with
      waiting := ?_
      refused := ?_ }
    wire := ?_
    whole := ?_ }
  · intro hph
    rw [hupds]
    exact h.serves.waiting hph
  · rintro (heq | hmem)
    · exact hreply heq
    · refine h.serves.refused (.inr ?_)
      rw [hwire]
      exact mem_cons_of_mem _ hmem
  · intro hreg hfail
    rw [hupds]
    exact h.wire hreg hfail
  · intro hreg hfail hterm hcls hover
    refine (h.whole hreg hfail hterm hcls hover).congr ?_ rfl rfl
    rw [underway, hupds]
    rfl

theorem wireUpdates_cons (h : s.wire = .update upd :: wire) :
    s.wireUpdates = upd :: wire.filterMap StreamFrame.update? := by
  simp only [wireUpdates, h, filterMap_cons, StreamFrame.update?]

/-- Updates are only on their way to the client after activation. -/
theorem Serves.activated_of_wire (h : s.Serves) (hwire : s.wire = .update upd :: wire) :
    s.phase = .activated := by
  by_contra hph
  have hupds := (h.waiting hph).2.2.1
  rw [wireUpdates_cons hwire] at hupds
  cases hupds

theorem Serves.shift (h : s.Serves) (hwire : s.wire = .update upd :: wire) :
    { s with wire := wire }.Serves :=
  { h with
    waiting := fun hph => absurd (h.activated_of_wire hwire) hph
    refused := by
      rintro (heq | hmem)
      · exact h.refused (.inl heq)
      · refine h.refused (.inr ?_)
        rw [hwire]
        exact mem_cons_of_mem _ hmem }

/-- An update arrives at a client that forgot the listener or fails by it. -/
theorem Sound.drop (h : s.Sound) (hwire : s.wire = .update upd :: wire) {failed : Bool}
    (hended : s.registered = false ∨ failed = true) (hfail : s.failed = true → failed = true) :
    { s with wire := wire, failed := failed }.Sound := by
  have hgone : s.registered = true → failed ≠ false := by
    intro hreg
    rcases hended with heq | heq
    · rw [hreg] at heq
      cases heq
    · rw [heq]
      exact nofun
  refine { h with
    serves := { h.serves.shift hwire with
      registered := ?_ }
    wire := fun hreg heq => absurd heq (hgone hreg)
    whole := fun hreg heq => absurd heq (hgone hreg) }
  intro hreg
  exact (h.serves.registered hreg).imp_right fun hrest => hrest.imp_left hfail

/-- An update arrives and is behind what the client has. -/
theorem Sound.arrive (h : s.Sound) (hwire : s.wire = .update upd :: wire)
    (hreg : s.registered = true) (hfail : s.failed = false)
    (hfits : Fits state s.starter direct)
    (hclient : s.received ++ direct.toList ++ s.starter.getD [] ++ state.queued ++ state.queuedWire =
      s.client ++ [upd]) : { s with wire := wire, state := state, direct := direct }.Sound := by
  have hnext : ({ s with wire := wire, state := state, direct := direct } : Stream).client =
      s.client ++ [upd] := hclient
  have hsame : ({ s with wire := wire, state := state, direct := direct } : Stream).client ++
      wire.filterMap StreamFrame.update? = s.client ++ s.wireUpdates := by
    rw [hnext, wireUpdates_cons hwire, append_assoc, singleton_append]
  refine { h with
    fits := hfits
    serves := { h.serves.shift hwire with }
    client := ?_
    wire := ?_
    whole := ?_ }
  · intro _
    refine List.IsPrefix.trans ?_ (h.wire hreg hfail)
    rw [hnext, ← hsame, hnext]
    exact prefix_append _ _
  · intro _ _
    have hpref := h.wire hreg hfail
    rw [← hsame] at hpref
    exact hpref
  · intro _ _ hterm hcls hover
    refine (h.whole hreg hfail hterm hcls hover).congr ?_ rfl rfl
    rw [underway, underway, ← hsame]
    rfl

theorem Sound.onServiceUpdate (h : s.Sound) (hwire : s.wire = .update upd :: wire)
    (hfail : s.failed = false) (hdir : s.direct = none) :
    ({ s with wire := wire }.onServiceUpdate upd decodes).Sound := by
  have hfits := h.fits
  have hended : s.failed = true → true = true := fun _ => rfl
  unfold Stream.onServiceUpdate
  by_cases hreg : s.registered = false
  · rw [if_pos hreg]
    exact h.drop hwire (.inl hreg) id
  · rw [if_neg hreg]
    rw [Bool.not_eq_false] at hreg
    by_cases hhyd : s.state.hydrated = false
    · rw [if_pos hhyd]
      split_ifs
      · exact h.drop hwire (.inr rfl) hended
      · refine h.arrive hwire hreg hfail ?_ ?_
        · exact { hfits with
            hydrated := fun heq => absurd (hhyd.symm.trans heq) nofun }
        · simp only [Stream.client, append_assoc]
    · rw [if_neg hhyd]
      rw [Bool.not_eq_false] at hhyd
      have hqueuedWire := hfits.hydrated hhyd
      by_cases hdecs : decodes = false
      · rw [if_pos hdecs]
        exact h.drop hwire (.inr rfl) hended
      · rw [if_neg hdecs]
        by_cases hrdy : (s.state.ready && !s.state.delivering) = true
        · rw [if_pos hrdy]
          rw [Bool.and_eq_true, Bool.not_eq_true'] at hrdy
          obtain ⟨hsta, hq⟩ := hfits.resting hrdy.2
          have hq := hq hrdy.1
          have hnext : Fits s.state s.starter (some upd) := { hfits with
              unready := fun heq => absurd (hrdy.1.symm.trans heq) nofun
              direct := fun _ => hrdy.2 }
          refine h.arrive hwire hreg hfail hnext ?_
          simp only [Stream.client, hdir, hsta, hq, hqueuedWire, toList_some,
            toList_none, getD_none, append_nil]
        · rw [if_neg hrdy]
          split_ifs
          · exact h.drop hwire (.inr rfl) hended
          · refine h.arrive hwire hreg hfail ?_ ?_
            · exact { hfits with
                unhydrated := fun heq => absurd (hhyd.symm.trans heq) nofun
                resting := fun heq => ⟨(hfits.resting heq).1, fun htrue => by
                  rw [htrue, heq] at hrdy
                  exact absurd rfl hrdy⟩ }
            · simp only [Stream.client, hqueuedWire, append_nil, append_assoc]

/-- A frame arrives at the client. -/
theorem Sound.receive (h : s.Sound) (hstep : s.receive decodes = some s') : s'.Sound := by
  unfold Stream.receive at hstep
  split_ifs at hstep with hbusy
  rw [Bool.not_eq_true, Bool.or_eq_false_iff] at hbusy
  have hdir := not_isSome_iff_eq_none.mp (Bool.eq_false_iff.mp hbusy.2)
  cases hwire : s.wire with
  | nil => simp [hwire] at hstep
  | cons frame wire =>
    cases frame with
    | response =>
      simp only [hwire] at hstep
      cases hstep
      exact h.shift hwire rfl nofun
    | responseError =>
      simp only [hwire] at hstep
      cases hstep
      refine h.shift hwire rfl fun _ => h.serves.refused (.inr ?_)
      rw [hwire]
      exact mem_cons_self
    | update update =>
      simp only [hwire] at hstep
      cases hstep
      exact h.onServiceUpdate hwire hbusy.1 hdir
    | close =>
      simp only [hwire] at hstep
      cases hstep
      have hshift : { s with wire := wire, reply := s.reply }.Sound :=
        h.shift hwire rfl fun heq => h.serves.refused (.inl heq)
      exact hshift.fail

/-- The subscribing task sees the reply. -/
theorem Sound.hydrate (h : s.Sound) (hstep : s.hydrate decodes = some s') : s'.Sound := by
  have hfits := h.fits
  unfold Stream.hydrate at hstep
  cases hreply : s.reply with
  | none => simp [hreply] at hstep
  | some ok =>
    cases ok with
    | false =>
      simp only [hreply] at hstep
      cases hstep
      have href := h.serves.refused (.inl hreply)
      exact h.unregister (.inr (.inr href)) nofun
    | true =>
      simp only [hreply] at hstep
      split_ifs at hstep with hdecs
      · cases hstep
        have hset : { s with reply := none }.Sound := { h with serves := { h.serves with
              refused := fun href => h.serves.refused
                (href.imp_left fun heq => absurd heq nofun) } }
        refine hset.clientMove ?_ h.received ?_
        · refine { hfits with
            unhydrated := nofun
            hydrated := fun _ => rfl
            resting := ?_ }
          intro hdeliv
          obtain ⟨hsta, hq⟩ := hfits.resting hdeliv
          refine ⟨hsta, fun hrdy => ?_⟩
          have hhyd : s.state.hydrated = true := by
            by_contra hhyd
            rw [(hfits.unhydrated (Bool.not_eq_true _ ▸ hhyd)).2] at hrdy
            cases hrdy
          show s.state.queued ++ s.state.queuedWire = []
          rw [hq hrdy, hfits.hydrated hhyd]
          rfl
        · intro _
          show s.received ++ s.direct.toList ++ s.starter.getD [] ++
            (s.state.queued ++ s.state.queuedWire) ++ [] = s.client
          rw [Stream.client, append_nil, ← append_assoc]
      · cases hstep
        exact h.fail.unregister (.inr (.inl rfl)) nofun

/-- What is queued is taken by `start`. -/
theorem Sound.start (h : s.Sound) (hhyd : s.state.hydrated = true)
    (hrdy : s.state.ready = false) :
    { s with
      starter := some s.state.queued
      state := { s.state with ready := true, delivering := true, queued := [] } }.Sound := by
  have hfits := h.fits
  obtain ⟨hsta, hdir⟩ := hfits.unready hrdy
  have hqueuedWire := hfits.hydrated hhyd
  refine h.clientMove ?_ h.received ?_
  · exact {
      unhydrated := fun heq => absurd (hhyd.symm.trans heq) nofun
      hydrated := hfits.hydrated
      unready := nofun
      resting := nofun
      direct := fun hsome => by
        rw [hdir] at hsome
        cases hsome }
  · intro _
    simp only [Stream.client, hsta, hqueuedWire, getD_some, getD_none,
      append_nil]

/-- While `start` delivers, nothing is delivered as it arrives. -/
theorem Fits.of_starter (h : Fits state starter direct) (hsta : starter ≠ none) :
    direct = none ∧ state.delivering = true ∧ state.ready = true := by
  have hdeliv : state.delivering = true := by
    by_contra hdeliv
    exact hsta (h.resting (Bool.eq_false_iff.mpr hdeliv)).1
  refine ⟨?_, hdeliv, ?_⟩
  · by_contra hdir
    rw [h.direct (isSome_iff_ne_none.mpr hdir)] at hdeliv
    cases hdeliv
  · by_contra hrdy
    exact hsta (h.unready (Bool.eq_false_iff.mpr hrdy)).1

theorem Sound.deliver (h : s.Sound) (hsta : s.starter = some (upd :: batch)) :
    { s.deliver upd with starter := some batch }.Sound := by
  have hfits := h.fits
  obtain ⟨hdir, hdeliv, hrdy⟩ := hfits.of_starter (hsta ▸ nofun)
  have hnext : Fits s.state (some batch) s.direct := { hfits with
      unready := fun heq => absurd (hrdy.symm.trans heq) nofun
      resting := fun heq => absurd (hdeliv.symm.trans heq) nofun }
  have hclient : s.received ++ [upd] ++ batch ++ s.state.queued ++ s.state.queuedWire = s.client := by
    rw [Stream.client, hdir, hsta, toList_none, getD_some, append_nil,
      append_assoc s.received, singleton_append]
  unfold Stream.deliver
  by_cases hreg : s.registered = true
  · rw [if_pos hreg]
    refine h.clientMove hnext ?_ ?_
    · refine List.IsPrefix.trans ?_ (h.client hreg)
      rw [← hclient]
      simp only [append_assoc, prefix_append_right_inj]
      exact prefix_append _ _
    · intro _
      rw [hdir, toList_none, getD_some, append_nil]
      exact hclient
  · rw [if_neg hreg]
    exact h.clientMove hnext h.received fun heq => absurd heq hreg

theorem Sound.startNext (h : s.Sound) (hsta : s.starter = some []) (hstep : (if s.state.queued = [] then
      some { s with starter := none, state := { s.state with delivering := false } }
      else some { s with starter := some s.state.queued, state := { s.state with queued := [] } }) =
    some s') : s'.Sound := by
  have hfits := h.fits
  obtain ⟨hdir, hdeliv, hrdy⟩ := hfits.of_starter (hsta ▸ nofun)
  have hunready : s.state.ready = false → False := fun heq => nomatch hrdy.symm.trans heq
  have hhyd : s.state.hydrated = false → False := fun heq =>
    hunready (hfits.unhydrated heq).2
  split_ifs at hstep with hq
  · cases hstep
    refine h.clientMove ?_ h.received ?_
    · exact {
        unhydrated := hfits.unhydrated
        hydrated := hfits.hydrated
        unready := fun heq => (hunready heq).elim
        resting := fun _ => ⟨rfl, fun _ => hq⟩
        direct := fun _ => rfl }
    · intro _
      simp only [Stream.client, hsta, getD_some, getD_none]
  · cases hstep
    refine h.clientMove ?_ h.received ?_
    · exact {
        unhydrated := fun heq => (hhyd heq).elim
        hydrated := hfits.hydrated
        unready := fun heq => (hunready heq).elim
        resting := fun heq => nomatch hdeliv.symm.trans heq
        direct := hfits.direct }
    · intro _
      simp only [Stream.client, hsta, getD_some, append_nil]

theorem Sound.deliverDirect (h : s.Sound) (hdir : s.direct = some upd) :
    { s.deliver upd with direct := none }.Sound := by
  have hfits := h.fits
  have hnext : Fits s.state s.starter none := { hfits with
      unready := fun heq => ⟨(hfits.unready heq).1, rfl⟩
      direct := nofun }
  have hclient : s.received ++ [upd] ++ s.starter.getD [] ++ s.state.queued ++
      s.state.queuedWire = s.client := by
    rw [Stream.client, hdir, toList_some]
  unfold Stream.deliver
  by_cases hreg : s.registered = true
  · rw [if_pos hreg]
    refine h.clientMove hnext ?_ ?_
    · refine List.IsPrefix.trans ?_ (h.client hreg)
      rw [← hclient]
      simp only [append_assoc, prefix_append_right_inj]
      exact prefix_append _ _
    · intro _
      rw [toList_none, append_nil]
      exact hclient
  · rw [if_neg hreg]
    exact h.clientMove hnext h.received fun heq => absurd heq hreg

/-- An overflowed publisher closes the connection. -/
theorem Sound.close (h : s.Sound) :
    { s.hand .close with closing := true, closers := s.closers - 1 }.Sound := by
  have hclose : (s.hand .close).Sound := h.hand rfl nofun
  refine { hclose with
    serves := { hclose.serves with
      lost := fun lost heq => ⟨(hclose.serves.lost lost heq).1, .inr rfl⟩
      unsent := fun _ => .inr rfl }
    whole := fun _ _ _ => nofun }

/-- The server's end of the connection is disconnected. -/
theorem Sound.disconnect (h : s.Sound) : { s with terminal := true }.Sound := { h with
    serves := { h.serves with unsent := fun _ => .inl rfl }
    whole := fun _ _ => nofun }

theorem Sound.step (h : s.Sound) (hcare : s.Careful event) (hstep : s.step event = some s') :
    s'.Sound := by
  cases event with
  | publish =>
    cases hstep
    exact h.publish hcare
  | close =>
    simp only [Stream.step] at hstep
    split_ifs at hstep
    cases hstep
    exact h.close
  | result ok =>
    simp only [Stream.step] at hstep
    by_cases hph : s.phase = .invoking
    · rw [if_pos hph] at hstep
      cases hstep
      have hne : s.phase ≠ .activated ∧ s.phase ≠ .refused := by
        rw [hph]
        exact ⟨nofun, nofun⟩
      cases ok <;> exact h.setPhase hne.1 hne.2 nofun (fun _ => rfl) nofun
    · rw [if_neg hph] at hstep
      cases hstep
  | advance => exact h.advance hstep
  | send =>
    simp only [Stream.step] at hstep
    split at hstep
    · rename_i upd batch hwork
      cases hstep
      exact h.send hcare hwork
    · cases hstep
  | nextBatch =>
    simp only [Stream.step] at hstep
    split_ifs at hstep with hwork
    cases hstep
    exact h.nextBatch hwork
  | disconnect =>
    cases hstep
    exact h.disconnect
  | receive decodes => exact h.receive hstep
  | hydrate decodes => exact h.hydrate hstep
  | start =>
    simp only [Stream.step] at hstep
    split_ifs at hstep with hrdy
    cases hstep
    simp only [Bool.and_eq_true, Bool.not_eq_true'] at hrdy
    exact h.start hrdy.1.1 hrdy.1.2
  | deliver =>
    simp only [Stream.step] at hstep
    split at hstep
    · rename_i upd batch hsta
      cases hstep
      exact h.deliver hsta
    · cases hstep
  | startNext =>
    simp only [Stream.step] at hstep
    by_cases hsta : s.starter = some []
    · rw [if_pos hsta] at hstep
      exact h.startNext hsta hstep
    · rw [if_neg hsta] at hstep
      cases hstep
  | deliverDirect =>
    simp only [Stream.step] at hstep
    split at hstep
    · rename_i upd hdir
      cases hstep
      exact h.deliverDirect hdir
    · cases hstep
  | dispose =>
    cases hstep
    exact h.unregister (.inl rfl) fun heq => h.serves.refused (.inl heq)
  | fail =>
    cases hstep
    exact h.fail
  | forget =>
    simp only [Stream.step] at hstep
    split_ifs at hstep with hfail
    cases hstep
    exact h.unregister (.inr (.inl hfail)) fun heq => h.serves.refused (.inl heq)

/-! ## Runs -/

theorem Sound.initial : Sound {} where
  fits := by constructor <;> decide
  serves := by
    constructor
    case lost => exact fun _ => nofun
    all_goals simp [SubscribePhase.gated, wireUpdates]
  received := nil_prefix
  client _ := nil_prefix
  wire _ _ := nil_prefix
  whole _ _ _ _ _ := ⟨[], rfl, fun _ => rfl, fun _ _ => nofun⟩

/-- A subscription has no gaps, along every run that meets the conditions. -/
theorem gapless_of_run (h : machine.Run Careful s) : s.Gapless := by
  refine Sound.gapless (h.invariant ?_ ?_)
  · rintro s rfl
    exact Sound.initial
  · exact fun _ _ _ hsound hcare hstep => hsound.step hcare hstep

/-- The conditions, computed. -/
def checks (s : Stream) : StreamEvent → Bool
  | .publish =>
    s.pending.active || !s.phase.gated || s.pending.queue.length < maxQueuedSubscriptionUpdates
  | .send =>
    match s.worker, s.lost with
    | some (update :: _), some lost => update < lost || s.closing || s.terminal
    | _, _ => true
  | _ => true

theorem careful_of_checks (h : s.checks event = true) : s.Careful event := by
  cases event with
  | publish =>
    intro hact hgated
    simpa [checks, hact, hgated] using h
  | send =>
    intro upd batch lost hwork hlost
    simpa [checks, hwork, hlost, or_assoc] using h
  | _ => trivial

/-- Updates from before the response to after `start` arrive, in order. -/
theorem gapless_of_five : ∃ s, machine.Run Careful s ∧ s.Gapless ∧ s.Live ∧
    s.received = [0, 1, 2, 3] ∧ s.unsent = [4] := by
  have hstart : machine.Run Careful {} := .start rfl
  obtain ⟨s, hrun, hs⟩ := hstart.execute checks
    [.publish, .result true, .advance, .publish, .advance, .advance, .publish, .send,
      .receive true, .receive true, .hydrate true, .start, .send, .receive true, .deliver,
      .startNext, .deliver, .startNext, .nextBatch, .send, .receive true, .deliverDirect,
      .nextBatch, .publish, .send, .receive true, .deliverDirect, .publish]
    (fun s => s.received = [0, 1, 2, 3] ∧ s.unsent = [4] ∧ s.phase = .activated ∧
      s.disposed = false ∧ s.terminal = false ∧ s.closing = false ∧ s.failed = false ∧ s.closers = 0)
    (fun _ _ => careful_of_checks) (by decide +kernel)
  obtain ⟨hreceived, hunsent, hphase, hdisposed, hterminal, hclosing, hfailed, hclosers⟩ :=
    of_decide_eq_true hs
  refine ⟨s, hrun, gapless_of_run hrun, ⟨?_, ?_, hclosers, ?_⟩, hreceived, hunsent⟩
  · simp [Ended, hphase, hdisposed, hterminal, hclosing, hfailed]
  · rw [hphase]
    exact nofun
  · rw [hphase]
    rintro (heq | heq) <;> cases heq

/-! ## Without the conditions -/

/-- Any number of updates between the look at the buffer and the response. -/
theorem run_flooded (n : Nat) : machine.Run (fun _ _ => True) {
    published := n
    phase := .accepted
    pending := {
      queue := range (min n maxQueuedSubscriptionUpdates)
      overflowed := decide (maxQueuedSubscriptionUpdates < n) } } := by
  induction n with
  | zero =>
    have hsta : machine.Run (fun _ _ => True) {} := .start rfl
    exact .step .advance (.step (.result true) hsta trivial rfl) trivial rfl
  | succ n ih =>
    refine .step .publish ih trivial ?_
    simp only [machine, step, publish, PendingUpdates.enqueue, length_range, if_true]
    by_cases hfull : maxQueuedSubscriptionUpdates ≤ n
    · rw [if_pos (Nat.le_min.mpr ⟨hfull, Nat.le_refl _⟩), Nat.min_eq_right hfull,
        Nat.min_eq_right (Nat.le_succ_of_le hfull), decide_eq_true (Nat.lt_succ_of_le hfull)]
    · have hroom : ¬ maxQueuedSubscriptionUpdates ≤ min n maxQueuedSubscriptionUpdates := by
        rw [Nat.le_min]
        exact fun hle => hfull hle.1
      have hbelow : ¬ maxQueuedSubscriptionUpdates < n + 1 := by omega
      have hover : ¬ maxQueuedSubscriptionUpdates < n := by omega
      rw [if_neg hroom, Nat.min_eq_left (by omega), Nat.min_eq_left (by omega), range_succ,
        decide_eq_false hbelow, decide_eq_false hover]

/-- Any number of updates, as long as the queue has room, while its worker has sent its batch. -/
theorem run_crowded (n : Nat) (h : n ≤ maxQueuedSubscriptionUpdates) :
    machine.Run (fun _ _ => True) {
      published := n
      pending := { active := true, draining := true, queue := range n }
      phase := .activated
      worker := some []
      state := { hydrated := true, ready := true } } := by
  induction n with
  | zero =>
    have hsta : machine.Run (fun _ _ => True) {} := .start rfl
    obtain ⟨s, hrun, hs⟩ := hsta.execute (fun _ _ => true)
      [.result true, .advance, .advance, .advance, .receive true, .hydrate true, .start,
        .startNext]
      (fun s => s = {
        pending := { active := true, draining := true }
        phase := .activated
        worker := some []
        state := { hydrated := true, ready := true } })
      (fun _ _ _ => trivial) (by decide +kernel)
    obtain rfl := of_decide_eq_true hs
    exact hrun
  | succ n ih =>
    refine .step .publish (ih (Nat.le_of_succ_le h)) trivial ?_
    simp only [machine, step, publish, PendingUpdates.enqueue, length_range,
      if_neg (Nat.not_le.mpr h), range_succ, if_true, if_false, Bool.true_eq_false]

section

variable (h : machine.Run (fun _ _ => True) s)

include h

/-- The worker sends what it has. -/
theorem run_sent (hwork : s.worker = some updates) (hopen : (s.terminal || s.closing) = false) :
    machine.Run (fun _ _ => True)
      { s with wire := s.wire ++ updates.map .update, worker := some [] } := by
  induction updates generalizing s with
  | nil =>
    rw [map_nil, append_nil, ← hwork]
    exact h
  | cons upd updates ih =>
    have hsent : machine.Run (fun _ _ => True)
        { s with wire := s.wire ++ [.update upd], worker := some updates } := by
      refine .step .send h trivial ?_
      simp only [machine, step, hwork, hand, hopen]
      rfl
    have hall := ih hsent rfl hopen
    rw [append_assoc] at hall
    exact hall

/-- The client delivers what arrives. -/
theorem run_received (hwire : s.wire = updates.map .update) (hreg : s.registered = true)
    (hfail : s.failed = false) (hdir : s.direct = none) (hhyd : s.state.hydrated = true)
    (hrdy : (s.state.ready && !s.state.delivering) = true) :
    machine.Run (fun _ _ => True) { s with wire := [], received := s.received ++ updates } := by
  induction updates generalizing s with
  | nil =>
    rw [append_nil, ← hwire.trans map_nil]
    exact h
  | cons upd updates ih =>
    have harrived : machine.Run (fun _ _ => True)
        { s with wire := updates.map .update, direct := some upd } := by
      refine .step (.receive true) h trivial ?_
      simp [machine, step, receive, hwire, onServiceUpdate, hreg, hfail, hdir, hhyd, hrdy]
    have hdelivered : machine.Run (fun _ _ => True)
        { s with wire := updates.map .update, received := s.received ++ [upd] } := by
      refine .step .deliverDirect harrived trivial ?_
      simp [machine, step, deliver, hreg, ← hdir]
    have hall := ih hdelivered rfl hreg hfail hdir hhyd hrdy
    rw [append_assoc] at hall
    exact hall

/-- The response is sent, and what is buffered is taken. -/
theorem run_opened (hph : s.phase = .accepted) (hopen : (s.terminal || s.closing) = false) :
    machine.Run (fun _ _ => True) { s with
      phase := .activated
      wire := s.wire ++ [.response]
      pending := { s.pending with active := true, draining := true, queue := [] }
      worker := some s.pending.queue } := by
  have hresponded : machine.Run (fun _ _ => True)
      { s with phase := .responded, wire := s.wire ++ [.response] } := by
    refine .step .advance h trivial ?_
    simp [machine, step, Stream.advance, hph, hopen, Stream.hand]
  exact .step .advance hresponded trivial rfl

/-- A queue that is full loses an update, and the worker takes the queue. -/
theorem run_lost (hact : s.pending.active = true)
    (hque : s.pending.queue.length = maxQueuedSubscriptionUpdates) (hwork : s.worker = some [])
    (hlost : s.lost = none) :
    machine.Run (fun _ _ => True) { s with
      published := s.published + 1
      pending := { s.pending with queue := [] }
      worker := some s.pending.queue
      closers := s.closers + 1
      lost := some s.published } := by
  have hoverflow : machine.Run (fun _ _ => True)
      { s with published := s.published + 1, closers := s.closers + 1, lost := some s.published } := by
    refine .step .publish h trivial ?_
    simp [machine, step, Stream.publish, PendingUpdates.enqueue, hact, hque, hlost]
  refine .step .nextBatch hoverflow trivial ?_
  have hne : s.pending.queue ≠ [] := by
    intro hemp
    rw [hemp] at hque
    cases hque
  simp [machine, step, Stream.nextBatch, PendingUpdates.nextBatch, hwork, hne]

/-- One more update is published, taken by the worker and sent. -/
theorem run_published (hact : s.pending.active = true) (hdrn : s.pending.draining = true)
    (hque : s.pending.queue = []) (hwork : s.worker = some [])
    (hopen : (s.terminal || s.closing) = false) :
    machine.Run (fun _ _ => True) { s with
      published := s.published + 1
      wire := s.wire ++ [.update s.published] } := by
  have hq : machine.Run (fun _ _ => True) { s with
      published := s.published + 1
      pending := { s.pending with queue := [s.published] } } := by
    refine .step .publish h trivial ?_
    simp [machine, step, Stream.publish, PendingUpdates.enqueue, hact, hdrn, hque,
      maxQueuedSubscriptionUpdates]
  have htkn : machine.Run (fun _ _ => True) { s with
      published := s.published + 1
      worker := some [s.published] } := by
    refine .step .nextBatch hq trivial ?_
    simp [machine, step, Stream.nextBatch, PendingUpdates.nextBatch, hwork, ← hque]
  refine .step .send htkn trivial ?_
  simp [machine, step, Stream.hand, hopen, ← hwork]

end

/-- A subscription whose buffer overflows after it was looked at is activated with a gap; and an
update that is published after the queue overflowed is received before the connection is closed. -/
theorem overflow_leaves_gap :
    (∃ s, machine.Run (fun _ _ => True) s ∧ s.Live ∧ s.published = maxQueuedSubscriptionUpdates + 1 ∧
      s.underway = List.range maxQueuedSubscriptionUpdates ∧ ¬ s.Gapless) ∧
      ∃ s, machine.Run (fun _ _ => True) s ∧ s.published = maxQueuedSubscriptionUpdates + 2 ∧
        s.received = List.range maxQueuedSubscriptionUpdates ++ [maxQueuedSubscriptionUpdates + 1] ∧
        ¬ s.Gapless := by
  refine ⟨?_, ?_⟩
  · have hopened := run_opened (run_flooded (maxQueuedSubscriptionUpdates + 1)) rfl rfl
    rw [Nat.min_eq_right (Nat.le_succ _)] at hopened
    refine ⟨_, hopened, ?live, rfl, ?underway, ?gap⟩
    case live => constructor <;> simp [Ended]
    case underway =>
      simp only [underway, Stream.client, wireUpdates, unsent, StreamFrame.update?, getD_some,
        getD_none, toList_none, List.append_nil, nil_append, filterMap_cons,
        filterMap_nil]
    case gap =>
      intro hgapless
      have hkept := congrArg List.length (hgapless.kept (by constructor <;> simp [Ended]))
      simp only [underway, Stream.client, wireUpdates, unsent, StreamFrame.update?, getD_some,
        getD_none, toList_none, List.append_nil, nil_append, filterMap_cons,
        filterMap_nil, length_range] at hkept
      omega
  · have hcrowded := run_crowded maxQueuedSubscriptionUpdates (Nat.le_refl _)
    obtain ⟨queue, hqueue⟩ : ∃ queue, List.range maxQueuedSubscriptionUpdates = queue := ⟨_, rfl⟩
    have hlength : queue.length = maxQueuedSubscriptionUpdates := by
      rw [← hqueue, length_range]
    rw [hqueue] at hcrowded ⊢
    have hlost := run_lost hcrowded rfl hlength rfl rfl
    have hsent := run_published (run_sent hlost rfl rfl) rfl rfl rfl rfl rfl
    have hwire : ([] ++ queue.map StreamFrame.update) ++
        [.update (maxQueuedSubscriptionUpdates + 1)] =
          (queue ++ [maxQueuedSubscriptionUpdates + 1]).map .update := by
      rw [map_append, nil_append, map_singleton]
    have hreceived := run_received hsent hwire rfl rfl rfl rfl rfl
    refine ⟨_, hreceived, rfl, rfl, ?_⟩
    intro hgapless
    -- What was lost is missing where the next update was received.
    have hlast := hgapless.ordered.getElem (i := queue.length) (by simp)
    simp [hlength] at hlast

end Stream

end PiOxidized.Remote
