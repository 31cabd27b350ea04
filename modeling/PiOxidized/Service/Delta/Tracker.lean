/-
# The mutation tracker

A tracker owns the current root and remembers the last published baseline.
Every call of its interface is a step that returns a batch (empty except for a
flush) together with the next tracker; a replica follows the batches.  The
invariant relates the replica to the baseline, so that whatever was edited since
the last flush is made up for by the next one.
-/

import PiOxidized.Service.Delta.DiffSound

namespace PiOxidized.Service.Delta

open List Math

/-- Options controlling native delta tracking. -/
structure DeltaTrackerOptions where
  /-- Maximum UTF-16 suffix scanned by string-overlap detection. -/
  maxOverlapScan : Nat := defaultMaxOverlapScan
  deriving DecidableEq

/-- Explicit native mutation tracker. -/
structure DeltaTracker where
  root : JsonValue
  baseline : Option JsonValue
  forceBase : Bool
  dirty : Bool
  options : DeltaTrackerOptions

namespace DeltaTracker

/-- Start tracking with explicit overlap options. -/
def withOptions (root : JsonValue) (options : DeltaTrackerOptions) : DeltaTracker :=
  ⟨root, none, true, false, options⟩

/-- Start tracking a root. -/
def new (root : JsonValue) : DeltaTracker := withOptions root {}

/-- Whether a base or delta is owed to consumers. -/
def isDirty (tracker : DeltaTracker) : Bool := tracker.forceBase || tracker.dirty

/-- Write an arbitrary root through the mutable borrow. -/
def stateMut (tracker : DeltaTracker) (root : JsonValue) : DeltaTracker :=
  { tracker with root := root, dirty := true }

/-- Replace the tracked root and owe a complete base. -/
def replaceState (tracker : DeltaTracker) (root : JsonValue) : DeltaTracker :=
  { tracker with root := root, baseline := none, forceBase := true, dirty := false }

/-- Owe a complete base. -/
def rebase (tracker : DeltaTracker) : DeltaTracker :=
  { tracker with forceBase := true, dirty := false }

/-- Accept the current value into the local baseline without publishing it. -/
def discard (tracker : DeltaTracker) : DeltaTracker :=
  { tracker with baseline := some tracker.root, forceBase := false, dirty := false }

/-- The result of a call and the tracker it leaves. -/
abbrev Outcome (X : Type) := Except DeltaError X × DeltaTracker

/-- Publish the current root as a replacement. -/
def flushBase (tracker : DeltaTracker) : Outcome (List DeltaOp) := (.ok [.replace tracker.root],
    { tracker with baseline := some tracker.root, forceBase := false, dirty := false })

/-- Publish the first base or the coalesced operations since the last flush. -/
def flush (tracker : DeltaTracker) : Outcome (List DeltaOp) :=
  if tracker.forceBase then tracker.flushBase
  else if !tracker.dirty then (.ok [], tracker)
  else
    match tracker.baseline with
    | none => flushBase { tracker with forceBase := true }
    | some baseline =>
      let result := do
        let output ← diffValue (some baseline) (some tracker.root) StatePath.root
          tracker.options.maxOverlapScan
        validateAll output
        .ok output
      match result with
      | .error error => (.error error, tracker)
      | .ok output => (.ok output, { tracker with baseline := some tracker.root, dirty := false })

/-- Keep what an edit left of the root; a successful one marks the tracker dirty. -/
def edited (tracker : DeltaTracker) (edit : JsonValue → Edit) : Outcome Unit :=
  match edit tracker.root with
  | (.error error, root) => (.error error, { tracker with root := root })
  | (.ok (), root) => (.ok (), { tracker with root := root, dirty := true })

/-- Run a check before an edit. -/
def checked (tracker : DeltaTracker) (check : Except DeltaError Unit) (edit : JsonValue → Edit) :
    Outcome Unit :=
  match check with
  | .error error => (.error error, tracker)
  | .ok () => tracker.edited edit

/-- Start index and removal count of a JavaScript-style splice. -/
def normalizeSplice (length : Nat) (start : Int) (deleteCount : Option Int) :
    JsInteger × JsInteger :=
  let index := if start < 0 then length - start.natAbs else min start.natAbs length
  let remove := match deleteCount with
    | none => length - index
    | some count => if count ≤ 0 then 0 else min count.natAbs (length - index)
  (JsInteger.count index, JsInteger.count remove)

section

variable [SerdeJson]

/-- Set one path. -/
def set (tracker : DeltaTracker) (path : StatePath) (value : JsonValue) : Outcome Unit :=
  tracker.checked (validateNonEmpty path) fun root => setPath root path value

/-- Delete one path. -/
def delete (tracker : DeltaTracker) (path : StatePath) : Outcome Unit :=
  tracker.checked (validateNonEmpty path) fun root => deletePath root path

/-- Splice an array with wire integers. -/
def splice (tracker : DeltaTracker) (path : StatePath) (index deleteCount : JsInteger)
    (values : List JsonValue) : Outcome Unit :=
  tracker.checked (validatePath path) fun root => splicePath root path index deleteCount values

/-- The array length at a path. -/
def lengthAt (root : JsonValue) (path : StatePath) : Except DeltaError Nat := do
  let target ← resolveValue path path.segments root
  match target with
  | .array items => .ok items.length
  | _ => .error (.notArray path)

/-- Splice with a JavaScript-style start and optional delete count. -/
def spliceJs (tracker : DeltaTracker) (path : StatePath) (start : Int) (deleteCount : Option Int)
    (values : List JsonValue) : Outcome Unit :=
  match validatePath path with
  | .error error => (.error error, tracker)
  | .ok () =>
    match lengthAt tracker.root path with
    | .error error => (.error error, tracker)
    | .ok length =>
      tracker.edited fun root => splicePath root path (normalizeSplice length start deleteCount).1
        (normalizeSplice length start deleteCount).2 values

/-- Append text to a string path. -/
def appendString (tracker : DeltaTracker) (path : StatePath) (text : JsString) : Outcome Unit :=
  tracker.checked (validateNonEmpty path) fun root => appendStringPath root path text

/-- Remove code units from the front of a string path. -/
def truncateString (tracker : DeltaTracker) (path : StatePath) (count : JsInteger) : Outcome Unit :=
  tracker.checked (validateNonEmpty path) fun root => truncateStringPath root path count

/-- Push values at the end of an array path. -/
def push (tracker : DeltaTracker) (path : StatePath) (values : List JsonValue) : Outcome Unit :=
  match validatePath path with
  | .error error => (.error error, tracker)
  | .ok () =>
    match lengthAt tracker.root path with
    | .error error => (.error error, tracker)
    | .ok length =>
      tracker.edited fun root =>
        splicePath root path (JsInteger.count length) JsInteger.zero values

end

/-! ## Calls as steps -/

/-- A call on a tracker other than a flush. -/
inductive Call
  | stateMut (root : JsonValue)
  | set (path : StatePath) (value : JsonValue)
  | delete (path : StatePath)
  | splice (path : StatePath) (index deleteCount : JsInteger) (values : List JsonValue)
  | spliceJs (path : StatePath) (start : Int) (deleteCount : Option Int) (values : List JsonValue)
  | appendString (path : StatePath) (text : JsString)
  | truncateString (path : StatePath) (count : JsInteger)
  | push (path : StatePath) (values : List JsonValue)
  | replaceState (root : JsonValue)
  | rebase

/-- The trees a call hands over. -/
def Call.payload : Call → List JsonValue
  | .stateMut root => [root]
  | .set _ value => [value]
  | .splice _ _ _ values => values
  | .spliceJs _ _ _ values => values
  | .push _ values => values
  | .replaceState root => [root]
  | .delete _ => []
  | .appendString _ _ => []
  | .truncateString _ _ => []
  | .rebase => []

section

variable [SerdeJson]

/-- Run one call. -/
def call (tracker : DeltaTracker) : Call → Outcome Unit
  | .stateMut root => (.ok (), tracker.stateMut root)
  | .set path value => tracker.set path value
  | .delete path => tracker.delete path
  | .splice path index deleteCount values => tracker.splice path index deleteCount values
  | .spliceJs path start deleteCount values => tracker.spliceJs path start deleteCount values
  | .appendString path text => tracker.appendString path text
  | .truncateString path count => tracker.truncateString path count
  | .push path values => tracker.push path values
  | .replaceState root => (.ok (), tracker.replaceState root)
  | .rebase => (.ok (), tracker.rebase)

/-- The trackers a program can reach, with the replica that applied every flushed
batch.  Trees handed over keep their keys in order, and a flushed root has no
collection longer than a count can say. -/
inductive Reachable : DeltaTracker → Option JsonValue → Prop
  | start (root : JsonValue) (options : DeltaTrackerOptions) :
      root.Ordered → Reachable (withOptions root options) none
  | call {tracker : DeltaTracker} {replica : Option JsonValue} (c : Call) :
      Reachable tracker replica → (∀ value ∈ c.payload, value.Ordered) →
      Reachable (tracker.call c).2 replica
  | flush {tracker next : DeltaTracker} {replica replica' : Option JsonValue}
      {ops : List DeltaOp} :
      Reachable tracker replica → tracker.root.Fits → tracker.flush = (.ok ops, next) →
      apply replica ops = .ok replica' → Reachable next replica'

/-! ## Failed calls change nothing -/

variable {tracker : DeltaTracker} {edit : JsonValue → Edit} {error : DeltaError}

omit [SerdeJson] in
theorem edited_of_error (hedit : Atomic edit) (h : (tracker.edited edit).1 = .error error) :
    (tracker.edited edit).2 = tracker := by
  have hroot := hedit tracker.root
  unfold edited at h ⊢
  generalize edit tracker.root = outcome at h hroot ⊢
  obtain ⟨result, root⟩ := outcome
  cases result with
  | error other => rw [show root = tracker.root from hroot other rfl]
  | ok _ => cases h

omit [SerdeJson] in
theorem checked_of_error {check : Except DeltaError Unit} (hedit : Atomic edit)
    (h : (tracker.checked check edit).1 = .error error) :
    (tracker.checked check edit).2 = tracker := by
  cases check with
  | error other => rfl
  | ok _ => exact edited_of_error hedit h

/-- A call that reports an error leaves the tracker as it was. -/
theorem call_of_error {c : Call} (h : (tracker.call c).1 = .error error) :
    (tracker.call c).2 = tracker := by
  cases c with
  | stateMut | replaceState | rebase => cases h
  | set path value => exact checked_of_error (atomic_setPath path value) h
  | delete path => exact checked_of_error (atomic_deletePath path) h
  | splice path i dels values =>
    exact checked_of_error (atomic_splicePath path i dels values) h
  | spliceJs path start dels values =>
    simp only [call, spliceJs] at h ⊢
    split at h
    · rfl
    · split at h
      · rfl
      · exact edited_of_error (atomic_splicePath path _ _ values) h
  | appendString path text => exact checked_of_error (atomic_appendStringPath path text) h
  | truncateString path count => exact checked_of_error (atomic_truncateStringPath path count) h
  | push path values =>
    simp only [call, push] at h ⊢
    split at h
    · rfl
    · split at h
      · rfl
      · exact edited_of_error (atomic_splicePath path _ _ values) h

/-! ## The invariant -/

/-- The replica agrees with the baseline unless a complete base is owed, and a
tracker that is not dirty has the baseline as its root. -/
structure Follows (tracker : DeltaTracker) (replica : Option JsonValue) : Prop where
  ordered : tracker.root.Ordered
  published : tracker.forceBase = false → ∃ baseline value,
    tracker.baseline = some baseline ∧ replica = some value ∧ baseline.Ordered ∧ baseline.Fits ∧
      value.normalized = baseline.normalized ∧ (tracker.dirty = false → tracker.root = baseline)

variable {replica : Option JsonValue}

omit [SerdeJson] in
theorem Follows.edited (h : Follows tracker replica) (hatomic : Atomic edit)
    (hkps : KeepsOrder edit) : Follows (tracker.edited edit).2 replica := by
  cases hret : (tracker.edited edit).1 with
  | error error =>
    rw [edited_of_error hatomic hret]
    exact h
  | ok _ =>
    have horder := hkps tracker.root h.ordered
    unfold DeltaTracker.edited at hret ⊢
    generalize edit tracker.root = outcome at hret horder ⊢
    obtain ⟨result, root⟩ := outcome
    cases result with
    | error error => cases hret
    | ok _ =>
      refine ⟨horder, fun hbase => ?_⟩
      obtain ⟨baseline, value, hbaseline, hreplica, hord, hfits, hagree, -⟩ := h.published hbase
      exact ⟨baseline, value, hbaseline, hreplica, hord, hfits, hagree, fun hclean => by
        cases hclean⟩

omit [SerdeJson] in
theorem Follows.checked (h : Follows tracker replica) (hatomic : Atomic edit)
    (hkps : KeepsOrder edit) (check : Except DeltaError Unit) :
    Follows (tracker.checked check edit).2 replica := by
  cases check with
  | error other => exact h
  | ok _ => exact h.edited hatomic hkps

/-- Every call keeps the invariant. -/
theorem Follows.call (h : Follows tracker replica) {c : Call}
    (hpay : ∀ value ∈ c.payload, value.Ordered) :
    Follows (tracker.call c).2 replica := by
  cases c with
  | stateMut root =>
    refine ⟨hpay root mem_cons_self, fun hbase => ?_⟩
    obtain ⟨baseline, value, hbaseline, hreplica, hord, hfits, hagree, -⟩ := h.published hbase
    exact ⟨baseline, value, hbaseline, hreplica, hord, hfits, hagree, fun hclean => by
      cases hclean⟩
  | set path value =>
    exact h.checked (atomic_setPath path value)
      (keepsOrder_setPath path (hpay value mem_cons_self)) _
  | delete path => exact h.checked (atomic_deletePath path) (keepsOrder_deletePath path) _
  | splice path i dels values =>
    exact h.checked (atomic_splicePath path i dels values)
      (keepsOrder_splicePath path i dels hpay) _
  | spliceJs path start dels values =>
    simp only [DeltaTracker.call, spliceJs]
    split
    · exact h
    · split
      · exact h
      · exact h.edited (atomic_splicePath path _ _ values) (keepsOrder_splicePath path _ _ hpay)
  | appendString path text =>
    exact h.checked (atomic_appendStringPath path text) (keepsOrder_appendStringPath path text) _
  | truncateString path count =>
    exact h.checked (atomic_truncateStringPath path count)
      (keepsOrder_truncateStringPath path count) _
  | push path values =>
    simp only [DeltaTracker.call, push]
    split
    · exact h
    · split
      · exact h
      · exact h.edited (atomic_splicePath path _ _ values) (keepsOrder_splicePath path _ _ hpay)
  | replaceState root => exact ⟨hpay root mem_cons_self, fun hbase => by cases hbase⟩
  | rebase => exact ⟨h.ordered, fun hbase => by cases hbase⟩

/-- What a flush does: it succeeds, its batch applies to the replica, and the
replica then agrees with the root, which the flush leaves alone. -/
theorem Follows.flush (h : Follows tracker replica) (hfits : tracker.root.Fits) :
    ∃ ops value, tracker.flush = (.ok ops, (tracker.flush).2) ∧
      apply replica ops = .ok (some value) ∧ value.normalized = tracker.root.normalized ∧
      (tracker.flush).2.root = tracker.root ∧ Follows (tracker.flush).2 (some value) := by
  cases hbase : tracker.forceBase with
  | true =>
    have hflush : tracker.flush = tracker.flushBase := by rw [DeltaTracker.flush, if_pos hbase]
    rw [hflush]
    exact ⟨_, tracker.root, rfl, rfl, rfl, rfl, h.ordered, fun _ =>
      ⟨_, _, rfl, rfl, h.ordered, hfits, rfl, fun _ => rfl⟩⟩
  | false =>
    obtain ⟨baseline, value, hbaseline, rfl, hord, hbaseFits, hagree, hclean⟩ := h.published hbase
    cases hdirty : tracker.dirty with
    | false =>
      have hflush : tracker.flush = (.ok [], tracker) := by simp [DeltaTracker.flush, hbase, hdirty]
      rw [hflush]
      exact ⟨[], value, rfl, rfl, by rw [hagree, hclean hdirty], rfl, h⟩
    | true =>
      have hreplica : value.Ordered := ordered_of_mapNumbers_eq hagree hord
      obtain ⟨ops, result, hops, happly, hret⟩ := diffValue_reaches
        ⟨hbaseFits, hfits, h.ordered, JsonValue.collapses_normalized _ _⟩ hreplica hagree
        tracker.options.maxOverlapScan
      have hval := validateAll_eq_ok_iff.mpr (validate_of_apply happly)
      have hflush : tracker.flush = (.ok ops,
          { tracker with baseline := some tracker.root, dirty := false }) := by
        simp [DeltaTracker.flush, hbase, hdirty, hbaseline, hops, hval, bind, Except.bind]
      rw [hflush]
      exact ⟨ops, result, rfl, happly, hret, rfl, h.ordered, fun _ =>
        ⟨_, _, rfl, rfl, h.ordered, hfits, hret, fun _ => rfl⟩⟩

/-- Every reachable tracker keeps the invariant with its replica. -/
theorem Reachable.follows (h : Reachable tracker replica) : Follows tracker replica := by
  induction h with
  | start root options hroot => exact ⟨hroot, fun hbase => by cases hbase⟩
  | call c _ hpay ih => exact ih.call hpay
  | flush _ hfits hflush happly ih =>
    obtain ⟨ops, value, hops, hvalue, -, -, hnext⟩ := ih.flush hfits
    rw [hflush] at hops hnext
    obtain rfl := Except.ok.inj (congrArg Prod.fst hops)
    obtain rfl := Except.ok.inj (happly.symm.trans hvalue)
    exact hnext

/-- In every reachable state a flush succeeds and brings the replica to the root:
the same tree up to the sign of zeros, hence equal to it unless the root holds
NaN; and a call that fails leaves the tracker as it was. -/
theorem Reachable.flush_reproduces {tracker : DeltaTracker} {replica : Option JsonValue}
    (h : Reachable tracker replica) :
    (tracker.root.Fits → ∃ ops next value, tracker.flush = (.ok ops, next) ∧
      next.root = tracker.root ∧ apply replica ops = .ok (some value) ∧
      Reachable next (some value) ∧ value.normalized = next.root.normalized ∧
      ((next.root.AllNumbers fun x => x.isNaN = false) → value.eq next.root = true)) ∧
    ∀ c error, (tracker.call c).1 = .error error → (tracker.call c).2 = tracker := by
  refine ⟨fun hfits => ?_, fun c error => call_of_error⟩
  obtain ⟨ops, value, hflush, happly, hagree, hroot, -⟩ := h.follows.flush hfits
  refine ⟨ops, _, value, hflush, hroot, happly, h.flush hfits hflush happly, ?_, fun hnan => ?_⟩
  · rw [hroot, hagree]
  · exact JsonValue.eq_of_normalized_eq (by rw [hroot, hagree]) hnan

end

/-- An edited tracker before its second flush. -/
theorem flush_reproduces_edited :
    ((((new (.array [])).flushBase).2.stateMut (.array [.null])).root.Fits → ∃ ops next value,
        (((new (.array [])).flushBase).2.stateMut (.array [.null])).flush = (.ok ops, next) ∧
        next.root = (((new (.array [])).flushBase).2.stateMut (.array [.null])).root ∧
        @apply SerdeJson.integral (some (.array [])) ops = .ok (some value) ∧
        @Reachable SerdeJson.integral next (some value) ∧
        value.normalized = next.root.normalized ∧
        ((next.root.AllNumbers fun x => x.isNaN = false) → value.eq next.root = true)) ∧
    ∀ c error, (@call SerdeJson.integral
        (((new (.array [])).flushBase).2.stateMut (.array [.null])) c).1 = .error error →
      (@call SerdeJson.integral (((new (.array [])).flushBase).2.stateMut (.array [.null])) c).2 =
          ((new (.array [])).flushBase).2.stateMut (.array [.null]) := by
  have hempty : (JsonValue.array []).Ordered := by simp [JsonValue.ordered_array]
  have hitem : (JsonValue.array [.null]).Ordered := by
    simp [JsonValue.Ordered, JsonValue.All, JsonValue.AllItems]
  have hfits : (JsonValue.array []).Fits := by simp [JsonValue.fits_array]
  have hstart := @Reachable.start SerdeJson.integral (.array []) {} hempty
  have hflushed : @Reachable SerdeJson.integral ((new (.array [])).flushBase).2
      (some (.array [])) := @Reachable.flush SerdeJson.integral _ _ _ _ _ hstart hfits rfl rfl
  exact @Reachable.flush_reproduces SerdeJson.integral _ _
    (@Reachable.call SerdeJson.integral _ _ (.stateMut (.array [.null])) hflushed
      (by simpa [Call.payload] using hitem))

theorem flush_nan : ∃ next value,
    (new (.number Binary64.nan)).flush = (.ok [.replace (.number Binary64.nan)], next) ∧
      @apply SerdeJson.integral none [.replace (.number Binary64.nan)] = .ok (some value) ∧
      value.eq next.root = false := by
  refine ⟨_, .number Binary64.nan, rfl, rfl, ?_⟩
  rw [JsonValue.eq_eq_sameTree]
  decide

theorem flush_longDocument {n : Nat} (hround : (JsInteger.count (n + 1)).toNat = n)
    (hn : n < 2 ^ 64) : ∃ first second ops value,
    (withOptions (longDocument (n + 1)) ⟨1⟩).flush =
        (.ok [.replace (longDocument (n + 1))], first) ∧
      (first.stateMut shortDocument).flush = (.ok ops, second) ∧
      @apply SerdeJson.integral (some (longDocument (n + 1))) ops = .ok (some value) ∧
      value.eq second.root = false := by
  have happly := @apply_longDocument SerdeJson.integral n hround hn
  have hval := validateAll_eq_ok_iff.mpr (@validate_of_apply SerdeJson.integral _ _ _ happly)
  refine ⟨_, ⟨shortDocument, some shortDocument, false, false, ⟨1⟩⟩, _, leftoverDocument, rfl, ?_,
    happly, ?_⟩
  · simp [flush, stateMut, withOptions, diffValue_longDocument, hval, bind, Except.bind]
  · rw [JsonValue.eq_eq_sameTree]
    decide

/-- Equality with the root fails for a root that is NaN, and for a string that a
count cannot measure. -/
theorem flush_not_equal : (∃ next value,
      (new (.number Binary64.nan)).flush = (.ok [.replace (.number Binary64.nan)], next) ∧
        @apply SerdeJson.integral none [.replace (.number Binary64.nan)] = .ok (some value) ∧
        value.eq next.root = false) ∧
    ∃ first second ops value, (withOptions (longDocument (2 ^ 53 + 1)) ⟨1⟩).flush =
          (.ok [.replace (longDocument (2 ^ 53 + 1))], first) ∧
        (first.stateMut shortDocument).flush = (.ok ops, second) ∧
        @apply SerdeJson.integral (some (longDocument (2 ^ 53 + 1))) ops = .ok (some value) ∧
        value.eq second.root = false :=
  ⟨flush_nan, flush_longDocument (by decide +kernel) (by decide)⟩

end DeltaTracker

end PiOxidized.Service.Delta
