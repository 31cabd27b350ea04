/-
# Diffing two trees

The loops over the children of a container are passed to the container's own
strategy as an argument, so that the recursion stays structural in the later
tree.  The emitted operations are returned in order; the source pushes them onto
one output vector.
-/

import PiOxidized.Service.Delta.Apply

namespace PiOxidized.Service.Delta

open List Math

/-- Length of the first probe of an overlap search. -/
def overlapProbe : Nat := 64

/-- Candidate positions verified for one probe head. -/
def overlapMaxCandidates : Nat := 8

/-- Default suffix scanned by string-overlap detection. -/
def defaultMaxOverlapScan : Nat := 65536

/-- One pass of the overlap search over the remaining tail, for one probe head. -/
def overlapFrom (head b : List UInt16) : Nat → List UInt16 → Option Nat
  | _, [] => none
  | tried, unit :: rest =>
    if head.length ≤ (unit :: rest).length then
      if (unit :: rest).take head.length = head then
        if tried + 1 > overlapMaxCandidates then none
        else if (unit :: rest).length ≤ b.length ∧ unit :: rest = b.take (unit :: rest).length then
          some (unit :: rest).length
        else overlapFrom head b (tried + 1) rest
      else overlapFrom head b tried rest
    else none

/-- The passes of the overlap search, one for each probe length. -/
def overlapHeads (tail b : List UInt16) : List Nat → Nat
  | [] => 0
  | headLen :: rest =>
    if headLen = 0 then overlapHeads tail b rest
    else
      match overlapFrom (b.take headLen) b 0 tail with
      | some count => count
      | none => if headLen = 1 then 0 else overlapHeads tail b rest

/-- A bounded search for a suffix of `a` that is a prefix of `b`. -/
def overlap (a b : List UInt16) (scan : Nat) : Nat := if a.isEmpty || b.isEmpty || scan == 0 then 0
  else
    overlapHeads (a.drop (if a.length > scan then a.length - scan else 0)) b
      [min overlapProbe b.length, 1]

/-- Set at a path; at the root this is a replacement. -/
def emitSet (path : StatePath) (value : JsonValue) : List DeltaOp :=
  if path.isEmpty then [.replace value] else [.set path value]

/-- Delete at a path other than the root. -/
def emitDelete (path : StatePath) : Except DeltaError (List DeltaOp) :=
  if path.isEmpty then .error .rootDelete else .ok [.delete path]

/-- Edit one string into another. -/
def diffString (scan : Nat) (before after : List UInt16) (path : StatePath) : List DeltaOp :=
  if before = after then []
  else if path.isEmpty then emitSet path (.string ⟨after⟩)
  else if after.length > before.length ∧ before <+: after then
    [.append path ⟨after.drop before.length⟩]
  else
    let shared := overlap before after scan
    if shared = 0 then emitSet path (.string ⟨after⟩)
    else
      .truncate path (JsInteger.count (before.length - shared)) ::
        if after.length > shared then [.append path ⟨after.drop shared⟩] else []

/-- Number of leading elements that compare equal. -/
def commonPrefix : List JsonValue → List JsonValue → Nat
  | before :: befores, after :: afters =>
    if before.eq after then commonPrefix befores afters + 1 else 0
  | _, _ => 0

/-- The closing splice of an array edited element by element. -/
def diffLengths (before after : List JsonValue) (path : StatePath) : List DeltaOp :=
  if after.length > before.length then
    [.splice path (JsInteger.count before.length) JsInteger.zero (after.drop before.length)]
  else if before.length > after.length then
    if after.isEmpty then emitSet path (.array [])
    else
      [.splice path (JsInteger.count after.length)
        (JsInteger.count (before.length - after.length)) []]
  else []

/-- Edit one array into another, given the edits of the elements they share. -/
def diffArray (before after : List JsonValue) (path : StatePath)
    (shared : Except DeltaError (List DeltaOp)) : Except DeltaError (List DeltaOp) :=
  if before.length = after.length then shared
  else
    let front := commonPrefix before after
    let back := commonPrefix (before.drop front).reverse (after.drop front).reverse
    if front + back = min before.length after.length then
      let remove := before.length - front - back
      let items := (after.take (after.length - back)).drop front
      if front = 0 ∧ remove = before.length then .ok (emitSet path (.array after))
      else .ok [.splice path (JsInteger.count front) (JsInteger.count remove) items]
    else do
      let ops ← shared
      .ok (ops ++ diffLengths before after path)

/-- Delete the members that the later object lacks. -/
def deleteMissing (after : JsObject) (path : StatePath) :
    List JsString → Except DeltaError (List DeltaOp)
  | [] => .ok []
  | key :: keys =>
    if (after.lookup key).isSome then deleteMissing after path keys
    else do
      let ops ← emitDelete (path.joined (.key key))
      let rest ← deleteMissing after path keys
      .ok (ops ++ rest)

/-- Edit one object into another, given the edits of the later object's members. -/
def diffObject (before after : JsObject) (path : StatePath)
    (kept : Except DeltaError (List DeltaOp)) : Except DeltaError (List DeltaOp) :=
  if (before.map Prod.fst ++ after.map Prod.fst).any fun key => isReservedSegment key.units then
    .ok (emitSet path (.object after))
  else do
    let ops ← kept
    let deletes ← deleteMissing after path (before.map Prod.fst)
    .ok (ops ++ deletes)

mutual

/-- Edit a value that may be absent into a present one. -/
def diffPresent (scan : Nat) :
    Option JsonValue → JsonValue → StatePath → Except DeltaError (List DeltaOp)
  | none, after, path => .ok (emitSet path after)
  | some before, after, path =>
    if before.eq after then .ok []
    else
      match before, after with
      | .string before, .string after => .ok (diffString scan before.units after.units path)
      | .array before, .array after =>
        diffArray before after path (diffItems scan before after 0 path)
      | .object before, .object after =>
        diffObject before after path (diffMembers scan before after path)
      | _, after => .ok (emitSet path after)

/-- Edit the shared indices of two arrays, starting at an index. -/
def diffItems (scan : Nat) :
    List JsonValue → List JsonValue → Nat → StatePath → Except DeltaError (List DeltaOp)
  | before :: befores, after :: afters, index, path => do
    let ops ← diffPresent scan (some before) after (path.joined (.index (JsInteger.count index)))
    let rest ← diffItems scan befores afters (index + 1) path
    .ok (ops ++ rest)
  | _, _, _, _ => .ok []

/-- Edit the members of the later object. -/
def diffMembers (scan : Nat) (before : JsObject) :
    List (JsString × JsonValue) → StatePath → Except DeltaError (List DeltaOp)
  | [], _ => .ok []
  | (key, value) :: rest, path => do
    let ops ← diffPresent scan (before.lookup key) value (path.joined (.key key))
    let more ← diffMembers scan before rest path
    .ok (ops ++ more)

end

/-- Edit one value into another; either may be absent. -/
def diffValue (before after : Option JsonValue) (path : StatePath) (scan : Nat) :
    Except DeltaError (List DeltaOp) :=
  match before, after with
  | none, none => .ok []
  | some _, none => emitDelete path
  | before, some after => diffPresent scan before after path

/-! ## The overlap search -/

theorem overlapFrom_spec {head b tail : List UInt16} {tried count : Nat}
    (h : overlapFrom head b tried tail = some count) :
    count ≤ tail.length ∧ count ≤ b.length ∧ tail.drop (tail.length - count) = b.take count := by
  induction tail generalizing tried with
  | nil => cases h
  | cons unit rest ih =>
    have hshift : (unit :: rest).length = rest.length + 1 := rfl
    have hrest : ∀ {tried}, overlapFrom head b tried rest = some count →
        count ≤ (unit :: rest).length ∧ count ≤ b.length ∧
          (unit :: rest).drop ((unit :: rest).length - count) = b.take count := by
      intro tried hnext
      obtain ⟨hle, hle', hdrop⟩ := ih hnext
      refine ⟨by omega, hle', ?_⟩
      rw [show (unit :: rest).length - count = (rest.length - count) + 1 by omega]
      exact hdrop
    rw [overlapFrom] at h
    split_ifs at h with hlen hhead hbudget hmatch
    · cases h
      refine ⟨le_refl _, hmatch.1, ?_⟩
      rw [Nat.sub_self]
      exact hmatch.2
    · exact hrest h
    · exact hrest h

theorem overlapHeads_spec (tail b : List UInt16) (heads : List Nat) :
    overlapHeads tail b heads ≤ tail.length ∧ overlapHeads tail b heads ≤ b.length ∧
      tail.drop (tail.length - overlapHeads tail b heads) = b.take (overlapHeads tail b heads) := by
  induction heads with
  | nil => simp [overlapHeads]
  | cons headLen rest ih =>
    by_cases hzero : headLen = 0
    · rw [overlapHeads, if_pos hzero]
      exact ih
    · rw [overlapHeads, if_neg hzero]
      cases hfrom : overlapFrom (b.take headLen) b 0 tail with
      | some count => exact overlapFrom_spec hfrom
      | none =>
        by_cases hone : headLen = 1
        · simp only [if_pos hone]
          simp
        · simp only [if_neg hone]
          exact ih

/-- The search reports a suffix of the first string that is a prefix of the
second. -/
theorem overlap_spec (a b : List UInt16) (scan : Nat) :
    overlap a b scan ≤ a.length ∧ overlap a b scan ≤ b.length ∧
      a.drop (a.length - overlap a b scan) = b.take (overlap a b scan) := by
  rw [overlap]
  split_ifs with hnone hscan
  · simp
  · obtain ⟨hle, hle', hdrop⟩ := overlapHeads_spec (a.drop (a.length - scan)) b
      [min overlapProbe b.length, 1]
    rw [length_drop] at hle hdrop
    rw [drop_drop] at hdrop
    refine ⟨by omega, hle', ?_⟩
    rw [← hdrop]
    congr 1
    omega
  · rw [drop_zero]
    exact overlapHeads_spec a b _

end PiOxidized.Service.Delta
