/-
# Paths, operations and their grammar

The decoded and the wire vocabulary of the delta stream, with the validation
each boundary performs.  Identity of paths is the derived equality of the
source: numeric segments compare by value, so the two zeros are one segment
although their bits differ.
-/

import PiOxidized.Service.NumberText

namespace PiOxidized.Service.Delta

open List Math

/-- A key or an array index in a state path. -/
inductive PathSegment
  | key (name : JsString)
  | index (value : JsInteger)
  deriving DecidableEq

namespace PathSegment

/-- The key of an object segment. -/
def asKey : PathSegment → Option JsString
  | key name => some name
  | index _ => none

/-- The number of an index segment. -/
def asIndex : PathSegment → Option JsInteger
  | key _ => none
  | index value => some value

/-- The derived equality. -/
def eq : PathSegment → PathSegment → Bool
  | key first, key second => first == second
  | index first, index second => first == second
  | _, _ => false

/-- What the derived equality compares: the name, or the denoted integer. -/
def identity : PathSegment → JsString ⊕ Nat
  | key name => .inl name
  | index value => .inr value.toNat

theorem eq_iff {first second : PathSegment} :
    first.eq second = true ↔ first.identity = second.identity := by
  cases first <;> cases second <;> simp [eq, identity, JsInteger.eq_iff]

end PathSegment

/-- A complete state path; the empty path addresses the root. -/
structure StatePath where
  /-- The segments from the root inward. -/
  segments : List PathSegment
  deriving DecidableEq, Inhabited

namespace StatePath

/-- The root path. -/
def root : StatePath := ⟨[]⟩

/-- Whether this is the root path. -/
def isEmpty (path : StatePath) : Bool := path.segments.isEmpty

/-- The path with one segment appended. -/
def joined (path : StatePath) (segment : PathSegment) : StatePath := ⟨path.segments ++ [segment]⟩

/-- What the derived equality compares. -/
def identity (path : StatePath) : List (JsString ⊕ Nat) := path.segments.map PathSegment.identity

/-- The derived equality, segment by segment. -/
def eqSegments : List PathSegment → List PathSegment → Bool
  | [], [] => true
  | first :: firsts, second :: seconds => first.eq second && eqSegments firsts seconds
  | _, _ => false

instance : BEq StatePath := ⟨fun first second => eqSegments first.segments second.segments⟩

theorem beq_iff {first second : StatePath} :
    (first == second) = true ↔ first.identity = second.identity := by
  show eqSegments first.segments second.segments = true ↔ _
  obtain ⟨firsts⟩ := first
  obtain ⟨seconds⟩ := second
  simp only [identity]
  induction firsts generalizing seconds with
  | nil => cases seconds <;> simp [eqSegments]
  | cons first firsts ih =>
    cases seconds with
    | nil => simp [eqSegments]
    | cons second seconds => simp [eqSegments, ih, PathSegment.eq_iff]

instance : EquivBEq StatePath where
  symm h := beq_iff.mpr (beq_iff.mp h).symm
  trans h h' := beq_iff.mpr ((beq_iff.mp h).trans (beq_iff.mp h'))
  rfl := beq_iff.mpr rfl

end StatePath

/-- Failures of validating, coding, tracking or applying a delta stream. -/
inductive DeltaError
  | invalidTuple (kind reason : String)
  | unsafePath (segment : PathSegment)
  | path (path : StatePath)
  | pathId (id : JsInteger)
  | rootDelete
  | sparseArray (index : JsInteger)
  | notString (path : StatePath)
  | notArray (path : StatePath)
  deriving DecidableEq

/-- The prototype names no path may use. -/
def reservedSegments : List String := ["__proto__", "constructor", "prototype"]

/-- Whether a UTF-16 segment is one of the reserved names. -/
def isReservedSegment (segment : List UInt16) : Bool :=
  reservedSegments.any fun name => name.toList.map (fun c => UInt16.ofNat c.toNat) == segment

/-- Whether a segment is a reserved key. -/
def PathSegment.isReserved : PathSegment → Bool
  | .key name => isReservedSegment name.units
  | .index _ => false

/-- Reject the first reserved key of a path. -/
def validatePath (path : StatePath) : Except DeltaError Unit :=
  match path.segments.find? PathSegment.isReserved with
  | some segment => .error (.unsafePath segment)
  | none => .ok ()

/-- Reject reserved keys and the root path. -/
def validateNonEmpty (path : StatePath) : Except DeltaError Unit := do
  validatePath path
  if path.isEmpty then throw (.invalidTuple "op" "path is empty")

/-- A decoded operation with a complete path. -/
inductive DeltaOp
  | replace (value : JsonValue)
  | set (path : StatePath) (value : JsonValue)
  | delete (path : StatePath)
  | append (path : StatePath) (text : JsString)
  | truncate (path : StatePath) (count : JsInteger)
  | splice (path : StatePath) (index deleteCount : JsInteger) (values : List JsonValue)
  deriving Inhabited

namespace DeltaOp

/-- Validate the operation grammar and its path. -/
def validate : DeltaOp → Except DeltaError Unit
  | replace _ => .ok ()
  | set path _ => validateNonEmpty path
  | delete path => validateNonEmpty path
  | append path _ => validateNonEmpty path
  | truncate path _ => validateNonEmpty path
  | splice path _ _ _ => validatePath path

/-- The operation path, absent for a root replacement. -/
def path : DeltaOp → Option StatePath
  | replace _ => none
  | set path _ => some path
  | delete path => some path
  | append path _ => some path
  | truncate path _ => some path
  | splice path _ _ _ => some path

end DeltaOp

/-- Check every operation of a batch. -/
def validateAll : List DeltaOp → Except DeltaError Unit
  | [] => .ok ()
  | op :: ops => do
    op.validate
    validateAll ops

/-- Whether a decoded batch begins with a complete replacement. -/
def isBase : List DeltaOp → Bool
  | .replace _ :: _ => true
  | _ => false

/-- A path reference on the wire: an inline path or a dictionary id. -/
inductive PathRef
  | inline (path : StatePath)
  | id (id : JsInteger)
  deriving DecidableEq

/-- A wire operation.  Short forms reuse the previous path of their batch;
`define` is the dictionary record. -/
inductive WireOp
  | replace (value : JsonValue)
  | set (path : PathRef) (value : JsonValue)
  | setShort (value : JsonValue)
  | delete (path : PathRef)
  | deleteShort
  | append (path : PathRef) (text : JsString)
  | appendShort (text : JsString)
  | truncate (path : PathRef) (count : JsInteger)
  | truncateShort (count : JsInteger)
  | splice (path : PathRef) (index deleteCount : JsInteger) (values : List JsonValue)
  | spliceShort (index deleteCount : JsInteger) (values : List JsonValue)
  | define (id : JsInteger) (path : StatePath)
  deriving Inhabited

/-- Validate the inline path of a reference. -/
def validatePathRef : PathRef → Except DeltaError Unit
  | .inline path => validatePath path
  | .id _ => .ok ()

/-- Validate the inline paths of a wire operation. -/
def WireOp.validate : WireOp → Except DeltaError Unit
  | .set path _ => validatePathRef path
  | .delete path => validatePathRef path
  | .append path _ => validatePathRef path
  | .truncate path _ => validatePathRef path
  | .splice path _ _ _ => validatePathRef path
  | .define _ path => validatePath path
  | .replace _ => .ok ()
  | .setShort _ => .ok ()
  | .deleteShort => .ok ()
  | .appendShort _ => .ok ()
  | .truncateShort _ => .ok ()
  | .spliceShort _ _ _ => .ok ()

/-! ## Validation lemmas -/

/-- No segment of the path is a reserved key. -/
def StatePath.Safe (path : StatePath) : Prop :=
  ∀ segment ∈ path.segments, segment.isReserved = false

theorem validatePath_eq_ok_iff {path : StatePath} : validatePath path = .ok () ↔ path.Safe := by
  rw [validatePath]
  cases hfind : path.segments.find? PathSegment.isReserved with
  | none =>
    simp only [find?_eq_none, Bool.not_eq_true] at hfind
    exact iff_of_true rfl hfind
  | some segment =>
    have hresd := find?_some hfind
    have hmem := mem_of_find?_eq_some hfind
    refine iff_of_false (by simp) fun hsafe => ?_
    simp [hsafe segment hmem] at hresd

theorem validateNonEmpty_eq_ok_iff {path : StatePath} :
    validateNonEmpty path = .ok () ↔ path.Safe ∧ path.isEmpty = false := by
  rw [← validatePath_eq_ok_iff, validateNonEmpty]
  cases validatePath path with
  | error e => simp [bind, Except.bind]
  | ok u =>
    cases hemp : path.isEmpty <;> simp [bind, Except.bind, pure, Except.pure, throw,
      throwThe, MonadExceptOf.throw]

theorem validateAll_eq_ok_iff {ops : List DeltaOp} :
    validateAll ops = .ok () ↔ ∀ op ∈ ops, op.validate = .ok () := by
  induction ops with
  | nil => simp [validateAll]
  | cons op ops ih =>
    rw [forall_mem_cons, ← ih, validateAll]
    cases hop : op.validate with
    | error | ok => simp [bind, Except.bind]

theorem StatePath.Safe.joined {path : StatePath} (hsafe : path.Safe) {segment : PathSegment}
    (h : segment.isReserved = false) : (path.joined segment).Safe := by
  intro other hmem
  rcases mem_append.mp hmem with hmem | hmem
  · exact hsafe other hmem
  · rw [mem_singleton.mp hmem]
    exact h

@[simp]
theorem StatePath.isEmpty_joined (path : StatePath) (segment : PathSegment) :
    (path.joined segment).isEmpty = false := by
  simp [StatePath.isEmpty, StatePath.joined]

end PiOxidized.Service.Delta
