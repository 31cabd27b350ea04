/-
# Replicated state

The provider's mutable state with its tracker and dispatch queue, and the
consumer's replica.  A publication flushes the tracker and advances the sequence
and the published revision in one section under the lock; a replica accepts a
complete base and then only contiguous batches.
-/

import PiOxidized.Service.Delta.Tracker
import PiOxidized.Service.Error
import Mathlib.Data.Finset.Lattice.Fold

namespace PiOxidized.Service.Replicated

open Math
open Service.Delta

/-- A flushed batch with the revision it leads to. -/
structure PendingPublication where
  ops : List DeltaOp
  sequence : JsInteger
  value : JsonValue

/-- The revision captured when a listener subscribed. -/
structure PendingHydration where
  id : Nat
  value : JsonValue
  sequence : JsInteger

/-- One entry of the dispatch queue. -/
inductive PendingDispatch
  | publication (publication : PendingPublication)
  | hydration (hydration : PendingHydration)

/-- The provider state behind its lock. -/
structure MutableInner where
  tracker : DeltaTracker
  published : JsonValue
  sequence : JsInteger
  pending : List PendingDispatch
  draining : Bool
  drainingThread : Option Nat
  retired : Finset Nat

/-- How a dispatch leaves the section under the lock. -/
inductive DispatchRoute
  | start
  | inline
  | queued
  deriving DecidableEq

namespace MutableInner

/-- A state rooted at a value, whose tracker has already consumed its base. -/
def new (initial : JsonValue) : MutableInner where
  tracker := (DeltaTracker.new initial).discard
  published := initial
  sequence := JsInteger.zero
  pending := []
  draining := false
  drainingThread := none
  retired := ∅

/-- Where a thread's dispatch goes. -/
def route (inner : MutableInner) (thread : Nat) : DispatchRoute := if !inner.draining then .start
  else if inner.drainingThread = some thread then .inline
  else .queued

section

variable [SerdeJson]

/-- Flush the tracker into a publication, if there is anything to publish. -/
def flushPublication (inner : MutableInner) :
    Except ServiceError (Option PendingPublication) × MutableInner :=
  if !inner.tracker.root.isJsonValue then
    (.error (.remote ⟨.serviceInvalidValue, "replicated state publication must be strict JSON"⟩),
      inner)
  else
    match inner.tracker.flush with
    | (.error error, tracker) => (.error (.delta error), { inner with tracker := tracker })
    | (.ok ops, tracker) =>
      if ops.isEmpty then (.ok none, { inner with tracker := tracker })
      else
        let advanced := { inner with tracker := tracker, sequence := inner.sequence.next }
        match apply (some inner.published) ops with
        | .error error => (.error (.delta error), advanced)
        | .ok none =>
          (.error (.internal "replicated publication unexpectedly cleared its value" none),
            advanced)
        | .ok (some value) =>
          if !value.isJsonValue then
            (.error (.remote ⟨.serviceInvalidValue,
              "replicated state publication must be strict JSON"⟩), advanced)
          else
            (.ok (some ⟨ops, inner.sequence.next, value⟩), { advanced with published := value })

/-- A publish that fails after it has taken a sequence number: the flushed batch
does not carry the published revision to strict JSON. -/
def Wastes (inner : MutableInner) : Prop := inner.tracker.root.isJsonValue = true ∧ ∃ ops tracker,
    inner.tracker.flush = (.ok ops, tracker) ∧ ops.isEmpty = false ∧
    ∀ value, apply (some inner.published) ops = .ok (some value) → value.isJsonValue = false

/-- What flushing a publication can do. -/
theorem flushPublication_cases (inner : MutableInner) :
    (∃ tracker, inner.flushPublication.2 = { inner with tracker := tracker } ∧
      ∀ p, inner.flushPublication.1 ≠ .ok (some p)) ∨
    inner.Wastes ∨
    ∃ tracker p, inner.flushPublication = (.ok (some p), { inner with
          tracker := tracker
          sequence := inner.sequence.next
          published := p.value }) ∧
      p.sequence = inner.sequence.next ∧
      apply (some inner.published) p.ops = .ok (some p.value) ∧
      p.value.isJsonValue = true := by
  unfold flushPublication Wastes
  cases hroot : inner.tracker.root.isJsonValue with
  | false => exact .inl ⟨inner.tracker, rfl, nofun⟩
  | true =>
    obtain ⟨result, tracker⟩ := inner.tracker.flush
    cases result with
    | error error => exact .inl ⟨tracker, rfl, nofun⟩
    | ok ops =>
      cases hops : ops.isEmpty with
      | true =>
        refine .inl ⟨tracker, ?_, ?_⟩
        · simp [hops]
        · intro p
          simp [hops]
      | false =>
        right
        cases happly : apply (some inner.published) ops with
        | error error =>
          refine .inl ⟨rfl, ops, tracker, rfl, hops, ?_⟩
          rw [happly]
          exact fun _ => nofun
        | ok applied =>
          cases applied with
          | none =>
            refine .inl ⟨rfl, ops, tracker, rfl, hops, ?_⟩
            rw [happly]
            exact fun _ => nofun
          | some value =>
            cases hvalue : value.isJsonValue with
            | false =>
              refine .inl ⟨rfl, ops, tracker, rfl, hops, ?_⟩
              intro other hoth
              rw [happly] at hoth
              rw [← Option.some.inj (Except.ok.inj hoth)]
              exact hvalue
            | true =>
              refine .inr ⟨tracker, ⟨ops, inner.sequence.next, value⟩, ?_, rfl, happly, hvalue⟩
              simp [hops, happly, hvalue]

/-- A publish that returns without an error wastes no sequence number. -/
theorem not_wastes_of_ok {inner : MutableInner} (h : inner.flushPublication.1.isOk = true) :
    ¬inner.Wastes := by
  rintro ⟨hroot, ops, tracker, hflush, hops, hvalue⟩
  unfold flushPublication at h
  rw [hroot, hflush] at h
  cases happly : apply (some inner.published) ops with
  | error error => simp [hops, happly, Except.isOk, Except.toBool] at h
  | ok applied =>
    cases applied with
    | none => simp [hops, happly, Except.isOk, Except.toBool] at h
    | some value =>
      have hnot := hvalue value happly
      simp [hops, happly, hnot, Except.isOk, Except.toBool] at h

end

end MutableInner

/-- The consumer's revision. -/
structure ReplicaInner where
  value : Option JsonValue
  sequence : Option JsInteger

namespace ReplicaInner

/-- A cold replica. -/
def new : ReplicaInner := ⟨none, none⟩

/-- Discard the revision. -/
def clear (_ : ReplicaInner) : ReplicaInner := ⟨none, none⟩

section

variable [SerdeJson]

/-- Validate a complete base batch. -/
def stageHydration (ops : List DeltaOp) : Except ServiceError JsonValue :=
  if !isBase ops then .error (.state .notBaseBatch)
  else
    match apply none ops with
    | .error error => .error (.delta error)
    | .ok none => .error (.internal "replicated state base batch did not produce a value" none)
    | .ok (some value) =>
      if !value.isJsonValue then
        .error (.remote ⟨.serviceInvalidValue, "replicated state hydration must be strict JSON"⟩)
      else .ok value

/-- Install a complete base batch. -/
def hydrate (replica : ReplicaInner) (sequence : JsInteger) (ops : List DeltaOp) :
    Except ServiceError Unit × ReplicaInner :=
  match stageHydration ops with
  | .error error => (.error error, replica)
  | .ok value => (.ok (), ⟨some value, some sequence⟩)

/-- Install a contiguous batch; a gap discards the revision. -/
def applyUpdate (replica : ReplicaInner) (sequence : JsInteger) (ops : List DeltaOp) :
    Except ServiceError Unit × ReplicaInner :=
  match replica.sequence, replica.value with
  | some previousSequence, some previousValue =>
    if !(previousSequence.next == sequence) then
      (.error (.state .sequenceGap), replica.clear)
    else
      match apply (some previousValue) ops with
      | .error error => (.error (.delta error), replica)
      | .ok none =>
        (.error (.internal "replicated state update unexpectedly cleared its value" none), replica)
      | .ok (some value) =>
        if !value.isJsonValue then
          (.error (.remote ⟨.serviceInvalidValue,
            "replicated state update must be strict JSON"⟩), replica)
        else (.ok (), ⟨some value, some sequence⟩)
  | _, _ => (.error (.state .updateBeforeHydration), replica)

/-- Hydrate and then apply batches in order, stopping at the first failure. -/
def follow (replica : ReplicaInner) :
    List (JsInteger × List DeltaOp) → Except ServiceError Unit × ReplicaInner
  | [] => (.ok (), replica)
  | (sequence, ops) :: rest =>
    match replica.applyUpdate sequence ops with
    | (.error error, next) => (.error error, next)
    | (.ok (), next) => next.follow rest

end

end ReplicaInner

end PiOxidized.Service.Replicated
