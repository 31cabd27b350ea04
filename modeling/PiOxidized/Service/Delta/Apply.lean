/-
# Applying operations

A mutable borrow is modelled by a continuation: `modifyAt` walks a path, lets
the continuation rewrite the value it finds, and writes every intermediate node
back.  The walk reports an error and leaves the tree as it was, but the result
of the continuation is written back even when it failed, so that a failing
operation leaving the tree untouched is a theorem and not an accident of the
encoding.

The second half is the theory of the walk: reading and writing at a path obey
the laws of a lens, which is what relates a sequence of edits at nested paths to
edits of the nested values.
-/

import PiOxidized.Math.Optic
import PiOxidized.Service.Delta.Grammar

namespace PiOxidized.Service.Delta

open List Math Assoc

section

variable [SerdeJson]

/-- The object-member spelling of an index segment. -/
def indexKey (index : JsInteger) : JsString := JsString.fromUtf8 (jsNumberToString index.value)

/-- The object member a segment addresses. -/
def objectKey : PathSegment → JsString
  | .key name => name
  | .index value => indexKey value

/-- An index that must address a stored element. -/
def existingIndex (index : JsInteger) (length : Nat) (path : StatePath) : Except DeltaError Nat :=
  if index.clampToLen length ≥ length then .error (.path path)
  else .ok (index.clampToLen length)

/-- An index that may also address the end of the array. -/
def appendableIndex (index : JsInteger) (length : Nat) : Except DeltaError Nat :=
  if index.clampToLen (length + 1) > length then .error (.sparseArray index)
  else .ok (index.clampToLen (length + 1))

/-- One step of a path walk: the child a segment addresses. -/
def descend (path : StatePath) (segment : PathSegment) : JsonValue → Except DeltaError JsonValue
  | .object members =>
    match members.lookup (objectKey segment) with
    | some child => .ok child
    | none => .error (.path path)
  | .array items =>
    match segment.asIndex with
    | none => .error (.unsafePath segment)
    | some index => do
      let index ← existingIndex index items.length path
      match items[index]? with
      | some child => .ok child
      | none => .error (.path path)
  | _ => .error (.path path)

/-- Write a child back where `descend` found it. -/
def putChild (segment : PathSegment) (child : JsonValue) : JsonValue → JsonValue
  | .object members => .object (replace (objectKey segment) child members)
  | .array items =>
    match segment.asIndex with
    | none => .array items
    | some index => .array (items.set (index.clampToLen items.length) child)
  | value => value

/-- Walk a path and read the value it addresses. -/
def resolveValue (path : StatePath) : List PathSegment → JsonValue → Except DeltaError JsonValue
  | [], value => .ok value
  | segment :: rest, value => do
    let child ← descend path segment value
    resolveValue path rest child

/-- The outcome of an in-place edit: its result and the tree it leaves. -/
abbrev Edit := Except DeltaError Unit × JsonValue

/-- Walk a path and edit the value it addresses in place. -/
def modifyAt (path : StatePath) : List PathSegment → (JsonValue → Edit) → JsonValue → Edit
  | [], edit, value => edit value
  | segment :: rest, edit, value =>
    match descend path segment value with
    | .error error => (.error error, value)
    | .ok child =>
      let outcome := modifyAt path rest edit child
      (outcome.1, putChild segment outcome.2 value)

/-- Store a value in the container the last segment of a path belongs to. -/
def setIn (path : StatePath) (segment : PathSegment) (value : JsonValue) : JsonValue → Edit
  | .object members => (.ok (), .object (insert (objectKey segment) value members))
  | .array items =>
    match segment.asIndex with
    | none => (.error (.unsafePath segment), .array items)
    | some index =>
      match appendableIndex index items.length with
      | .error error => (.error error, .array items)
      | .ok index =>
        if index = items.length then (.ok (), .array (items ++ [value]))
        else if index < items.length then (.ok (), .array (items.set index value))
        else (.error (.path path), .array items)
  | parent => (.error (.path path), parent)

/-- Remove the last segment of a path from the container it belongs to. -/
def deleteIn (path : StatePath) (segment : PathSegment) : JsonValue → Edit
  | .object members => (.ok (), .object (erase (objectKey segment) members))
  | .array items =>
    match segment.asIndex with
    | none => (.error (.unsafePath segment), .array items)
    | some index =>
      match existingIndex index items.length path with
      | .error error => (.error error, .array items)
      | .ok index => (.ok (), .array (items.eraseIdx index))
  | parent => (.error (.path path), parent)

/-- Edit the container of the last segment of a path. -/
def modifyParent (path : StatePath) (edit : PathSegment → JsonValue → Edit)
    (root : JsonValue) : Edit :=
  match path.segments.getLast? with
  | none => (.error (.path path), root)
  | some last => modifyAt path path.segments.dropLast (edit last) root

/-- Set one object property or dense array element. -/
def setPath (root : JsonValue) (path : StatePath) (value : JsonValue) : Edit :=
  match validateNonEmpty path with
  | .error error => (.error error, root)
  | .ok () => modifyParent path (fun segment => setIn path segment value) root

/-- Delete one object property or array element. -/
def deletePath (root : JsonValue) (path : StatePath) : Edit := match validateNonEmpty path with
  | .error error => (.error error, root)
  | .ok () => modifyParent path (deleteIn path) root

/-- `Vec::splice` with both arguments clamped to the current length. -/
def spliceItems (items : List JsonValue) (index deleteCount : JsInteger)
    (values : List JsonValue) : List JsonValue :=
  let start := index.clampToLen items.length
  let remove := deleteCount.clampToLen (items.length - start)
  items.take start ++ values ++ items.drop (start + remove)

/-- Splice an array in place. -/
def spliceIn (path : StatePath) (index deleteCount : JsInteger) (values : List JsonValue) :
    JsonValue → Edit
  | .array items => (.ok (), .array (spliceItems items index deleteCount values))
  | value => (.error (.notArray path), value)

/-- Splice the array at a path. -/
def splicePath (root : JsonValue) (path : StatePath) (index deleteCount : JsInteger)
    (values : List JsonValue) : Edit :=
  match validatePath path with
  | .error error => (.error error, root)
  | .ok () => modifyAt path path.segments (spliceIn path index deleteCount values) root

/-- Append code units to a string in place. -/
def appendIn (path : StatePath) (text : JsString) : JsonValue → Edit
  | .string current => (.ok (), .string ⟨current.units ++ text.units⟩)
  | value => (.error (.notString path), value)

/-- Append to the string at a path. -/
def appendStringPath (root : JsonValue) (path : StatePath) (text : JsString) : Edit :=
  modifyAt path path.segments (appendIn path text) root

/-- Drop code units from the front of a string in place. -/
def truncateIn (path : StatePath) (count : JsInteger) : JsonValue → Edit
  | .string current =>
    (.ok (), .string ⟨current.units.drop (count.clampToLen current.units.length)⟩)
  | value => (.error (.notString path), value)

/-- Truncate the string at a path. -/
def truncateStringPath (root : JsonValue) (path : StatePath) (count : JsInteger) : Edit :=
  modifyAt path path.segments (truncateIn path count) root

/-- Edit a root that may be absent. -/
def editRoot (path : StatePath) (edit : JsonValue → Edit) :
    Option JsonValue → Except DeltaError Unit × Option JsonValue
  | none => (.error (.path path), none)
  | some root => ((edit root).1, some (edit root).2)

/-- Apply one operation to a root in place. -/
def applyOne (root : Option JsonValue) : DeltaOp → Except DeltaError Unit × Option JsonValue
  | .replace value => (.ok (), some value)
  | .set path value => editRoot path (fun target => setPath target path value) root
  | .delete path => editRoot path (fun target => deletePath target path) root
  | .append path text => editRoot path (fun target => appendStringPath target path text) root
  | .truncate path count => editRoot path (fun target => truncateStringPath target path count) root
  | .splice path index deleteCount values =>
    editRoot path (fun target => splicePath target path index deleteCount values) root

/-- Apply decoded operations in order; an absent target stays absent until a
replacement arrives. -/
def apply (target : Option JsonValue) : List DeltaOp → Except DeltaError (Option JsonValue)
  | [] => .ok target
  | op :: ops => do
    op.validate
    let outcome := applyOne target op
    outcome.1
    apply outcome.2 ops

/-! ## The theory of the walk -/

/-- The child a segment addresses, if any. -/
def child? (segment : PathSegment) : JsonValue → Option JsonValue
  | .object members => members.lookup (objectKey segment)
  | .array items =>
    match segment.asIndex with
    | none => none
    | some index => items[index.clampToLen items.length]?
  | _ => none

variable {segment : PathSegment} {value child : JsonValue} {path : StatePath}

omit [SerdeJson] in
theorem existingIndex_eq_ok {i : JsInteger} {length : Nat} (path : StatePath)
    (h : i.clampToLen length < length) :
    existingIndex i length path = .ok (i.clampToLen length) :=
  if_neg (Nat.not_le.mpr h)

theorem descend_eq_ok (h : child? segment value = some child) :
    descend path segment value = .ok child := by
  cases value with
  | object members =>
    rw [child?] at h
    rw [descend, h]
  | array items =>
    rw [child?] at h
    rw [descend]
    cases hidx : segment.asIndex with
    | none => simp [hidx] at h
    | some i =>
      simp only [hidx] at h ⊢
      obtain ⟨hlt, -⟩ := List.getElem?_eq_some_iff.mp h
      rw [existingIndex_eq_ok path hlt]
      simp only [bind, Except.bind, h]
  | null | bool | number | string => cases h

theorem descend_eq_error (path : StatePath) (h : child? segment value = none) :
    ∃ error, descend path segment value = .error error := by
  cases value with
  | object members =>
    rw [child?] at h
    exact ⟨.path path, by rw [descend, h]⟩
  | array items =>
    rw [child?] at h
    rw [descend]
    cases hidx : segment.asIndex with
    | none => exact ⟨.unsafePath segment, rfl⟩
    | some i =>
      simp only [hidx, getElem?_eq_none_iff] at h
      exact ⟨.path path, by simp [existingIndex, h, bind, Except.bind]⟩
  | null | bool | number | string => exact ⟨_, rfl⟩

/-- One segment as an optic on trees. -/
def segmentOptic (segment : PathSegment) : Optic JsonValue JsonValue where
  get? := child? segment
  put := putChild segment
  put_get? := by
    intro value child h
    cases value with
    | object members => rw [putChild, replace_of_lookup h]
    | array items =>
      rw [child?] at h
      rw [putChild]
      cases hindex : segment.asIndex with
      | none => rfl
      | some index =>
        simp only [hindex] at h ⊢
        obtain ⟨hlt, hget⟩ := List.getElem?_eq_some_iff.mp h
        rw [← hget, set_getElem_self]
    | null | bool | number | string => rfl
  get?_put := by
    intro value child new h
    cases value with
    | object members =>
      have hsome : (members.lookup (objectKey segment)).isSome = true := by
        rw [show members.lookup (objectKey segment) = some child from h]
        rfl
      rw [putChild, child?, lookup_replace hsome, if_pos rfl]
    | array items =>
      rw [child?] at h
      rw [putChild]
      cases hindex : segment.asIndex with
      | none => simp [hindex] at h
      | some index =>
        simp only [hindex] at h
        obtain ⟨hlt, -⟩ := List.getElem?_eq_some_iff.mp h
        simp only [child?, hindex, length_set]
        exact getElem?_set_self hlt
    | null | bool | number | string => cases h
  put_put := by
    intro first second value
    cases value with
    | object members => simp only [putChild, replace_replace]
    | array items =>
      simp only [putChild]
      cases hindex : segment.asIndex with
      | none => simp only
      | some index => simp only [length_set, set_set]
    | null | bool | number | string => rfl

/-- A path as an optic on trees. -/
def pathOptic (segments : List PathSegment) : Optic JsonValue JsonValue :=
  Optic.along segmentOptic segments

variable {segments : List PathSegment}

theorem pathOptic_cons_put (h : child? segment value = some child) (rest : List PathSegment)
    (new : JsonValue) :
    (pathOptic (segment :: rest)).put new value =
      putChild segment ((pathOptic rest).put new child) value :=
  Optic.along_cons_put h rest new

/-- A walk that reaches its target edits it there and writes the result back. -/
theorem modifyAt_of_get? (path : StatePath) (edit : JsonValue → Edit) {target : JsonValue}
    (h : (pathOptic segments).get? value = some target) :
    modifyAt path segments edit value =
      ((edit target).1, (pathOptic segments).put (edit target).2 value) := by
  induction segments generalizing value with
  | nil =>
    cases h
    rfl
  | cons segment rest ih =>
    obtain ⟨child, hchild, htgt⟩ := Option.bind_eq_some_iff.mp h
    rw [modifyAt, descend_eq_ok hchild, pathOptic_cons_put hchild]
    simp only [ih htgt]

/-- A walk that fails reports an error and leaves the tree as it was. -/
theorem modifyAt_of_get?_eq_none (path : StatePath) (edit : JsonValue → Edit)
    (h : (pathOptic segments).get? value = none) :
    ∃ error, modifyAt path segments edit value = (.error error, value) := by
  induction segments generalizing value with
  | nil => cases h
  | cons segment rest ih =>
    rw [modifyAt]
    cases hchild : child? segment value with
    | none =>
      obtain ⟨error, herror⟩ := descend_eq_error path hchild
      exact ⟨error, by rw [herror]⟩
    | some child =>
      have hrest : (pathOptic rest).get? child = none := by
        have hbind : ((segmentOptic segment).get? value).bind (pathOptic rest).get? = none := h
        rwa [show (segmentOptic segment).get? value = some child from hchild] at hbind
      obtain ⟨error, herror⟩ := ih hrest
      refine ⟨error, ?_⟩
      rw [descend_eq_ok hchild]
      simp only [herror]
      rw [show putChild segment child value = value from (segmentOptic segment).put_get? hchild]

/-! ## Failing edits leave the tree unchanged -/

/-- An edit that leaves its value as it was whenever it reports an error. -/
def Atomic (edit : JsonValue → Edit) : Prop :=
  ∀ value error, (edit value).1 = .error error → (edit value).2 = value

variable {edit : PathSegment → JsonValue → Edit}

theorem Atomic.modifyAt {edit : JsonValue → Edit} (hedit : Atomic edit) (path : StatePath)
    (segments : List PathSegment) : Atomic (modifyAt path segments edit) := by
  intro value error h
  cases hget : (pathOptic segments).get? value with
  | none =>
    obtain ⟨other, hoth⟩ := modifyAt_of_get?_eq_none path edit hget
    rw [hoth]
  | some target =>
    rw [modifyAt_of_get? path edit hget] at h ⊢
    simp only at h ⊢
    rw [hedit target error h]
    exact (pathOptic segments).put_get? hget

theorem atomic_setIn (path : StatePath) (segment : PathSegment) (value : JsonValue) :
    Atomic (setIn path segment value) := by
  intro parent error h
  cases parent with
  | object members => cases h
  | array items =>
    simp only [setIn] at h ⊢
    split at h
    · rfl
    · split at h
      · rfl
      · split_ifs at h ⊢
        rfl
  | null | bool | number | string => rfl

theorem atomic_deleteIn (path : StatePath) (segment : PathSegment) :
    Atomic (deleteIn path segment) := by
  intro parent error h
  cases parent with
  | object members => cases h
  | array items =>
    simp only [deleteIn] at h ⊢
    split at h
    · rfl
    · split at h
      · rfl
      · cases h
  | null | bool | number | string => rfl

omit [SerdeJson] in
theorem atomic_spliceIn (path : StatePath) (i dels : JsInteger)
    (values : List JsonValue) : Atomic (spliceIn path i dels values) := by
  intro value error h
  cases value <;> cases h <;> rfl

omit [SerdeJson] in
theorem atomic_appendIn (path : StatePath) (text : JsString) : Atomic (appendIn path text) := by
  intro value error h
  cases value <;> cases h <;> rfl

omit [SerdeJson] in
theorem atomic_truncateIn (path : StatePath) (count : JsInteger) :
    Atomic (truncateIn path count) := by
  intro value error h
  cases value <;> cases h <;> rfl

theorem Atomic.modifyParent (hedit : ∀ segment, Atomic (edit segment)) (path : StatePath) :
    Atomic (modifyParent path edit) := by
  intro root error h
  unfold Delta.modifyParent at h ⊢
  cases hlast : path.segments.getLast? with
  | none => rfl
  | some last =>
    rw [hlast] at h
    exact (hedit last).modifyAt path path.segments.dropLast root error h

theorem atomic_setPath (path : StatePath) (value : JsonValue) :
    Atomic fun root => setPath root path value := by
  intro root error h
  simp only [setPath] at h ⊢
  cases hval : validateNonEmpty path with
  | error other => rfl
  | ok _ =>
    simp only [hval] at h
    exact Atomic.modifyParent (fun segment => atomic_setIn path segment value) path root error h

theorem atomic_deletePath (path : StatePath) : Atomic fun root => deletePath root path := by
  intro root error h
  simp only [deletePath] at h ⊢
  cases hval : validateNonEmpty path with
  | error other => rfl
  | ok _ =>
    simp only [hval] at h
    exact Atomic.modifyParent (atomic_deleteIn path) path root error h

theorem atomic_splicePath (path : StatePath) (i dels : JsInteger)
    (values : List JsonValue) : Atomic fun root => splicePath root path i dels values := by
  intro root error h
  simp only [splicePath] at h ⊢
  cases hval : validatePath path with
  | error other => rfl
  | ok _ =>
    simp only [hval] at h
    exact (atomic_spliceIn path i dels values).modifyAt path _ root error h

theorem atomic_appendStringPath (path : StatePath) (text : JsString) :
    Atomic fun root => appendStringPath root path text :=
  (atomic_appendIn path text).modifyAt path path.segments

theorem atomic_truncateStringPath (path : StatePath) (count : JsInteger) :
    Atomic fun root => truncateStringPath root path count :=
  (atomic_truncateIn path count).modifyAt path path.segments

/-! ## What each operation does at a path that resolves -/

variable {parent root : JsonValue}

theorem modifyParent_joined (path : StatePath) (segment : PathSegment)
    (edit : PathSegment → JsonValue → Edit) (root : JsonValue) :
    modifyParent (path.joined segment) edit root =
      modifyAt (path.joined segment) path.segments (edit segment) root := by
  simp [modifyParent, StatePath.joined]

section

variable (hsafe : (path.joined segment).Safe)
  (hparent : (pathOptic path.segments).get? root = some parent)

include hsafe hparent

/-- Setting below a container that resolves edits that container. -/
theorem setPath_joined (value : JsonValue) : setPath root (path.joined segment) value =
      ((setIn (path.joined segment) segment value parent).1,
        (pathOptic path.segments).put (setIn (path.joined segment) segment value parent).2 root) := by
  have hval := validateNonEmpty_eq_ok_iff.mpr ⟨hsafe, path.isEmpty_joined segment⟩
  simp only [setPath, hval, modifyParent_joined]
  exact modifyAt_of_get? _ _ hparent

/-- Deleting below a container that resolves edits that container. -/
theorem deletePath_joined : deletePath root (path.joined segment) =
      ((deleteIn (path.joined segment) segment parent).1,
        (pathOptic path.segments).put (deleteIn (path.joined segment) segment parent).2 root) := by
  have hval := validateNonEmpty_eq_ok_iff.mpr ⟨hsafe, path.isEmpty_joined segment⟩
  simp only [deletePath, hval, modifyParent_joined]
  exact modifyAt_of_get? _ _ hparent

end

/-- Setting an addressed child overwrites it where it stands. -/
theorem setIn_of_child? (path : StatePath) (hord : parent.Ordered)
    (hchild : child? segment parent = some child) (value : JsonValue) :
    setIn path segment value parent = (.ok (), putChild segment value parent) := by
  cases parent with
  | object members =>
    have hsorted := (JsonValue.ordered_object.mp hord).1
    have hsome : (members.lookup (objectKey segment)).isSome = true := by
      rw [show members.lookup (objectKey segment) = some child from hchild]
      rfl
    rw [setIn, putChild, insert_eq_replace hsorted hsome]
  | array items =>
    rw [child?] at hchild
    rw [setIn, putChild]
    cases hidx : segment.asIndex with
    | none => simp [hidx] at hchild
    | some i =>
      simp only [hidx] at hchild ⊢
      obtain ⟨hlt, -⟩ := List.getElem?_eq_some_iff.mp hchild
      have hclamp : i.clampToLen (items.length + 1) = i.clampToLen items.length :=
        JsInteger.clampToLen_of_lt hlt (Nat.le_succ _)
      rw [appendableIndex, hclamp, if_neg (Nat.not_lt.mpr hlt.le)]
      simp only [if_neg hlt.ne, if_pos hlt]
  | null | bool | number | string => cases hchild

theorem Ordered.child? (hord : parent.Ordered) (hchild : Delta.child? segment parent = some child) :
    child.Ordered := by
  cases parent with
  | object members =>
    exact (JsonValue.ordered_object.mp hord).2 _ (mem_of_lookup_eq_some hchild)
  | array items =>
    rw [Delta.child?] at hchild
    split at hchild
    · cases hchild
    · exact JsonValue.ordered_array.mp hord _ (mem_of_getElem? hchild)
  | null | bool | number | string => cases hchild

theorem Ordered.putChild (hparent : parent.Ordered) (hchild : child.Ordered) (segment : PathSegment) :
    (Delta.putChild segment child parent).Ordered := by
  cases parent with
  | object members =>
    obtain ⟨hsort, hmems⟩ := JsonValue.ordered_object.mp hparent
    refine JsonValue.ordered_object.mpr ⟨hsort.replace _ _, fun member hmem => ?_⟩
    rcases mem_replace hmem with rfl | hmem
    · exact hchild
    · exact hmems member hmem
  | array items =>
    rw [Delta.putChild]
    split
    · exact hparent
    · refine JsonValue.ordered_array.mpr fun item hmem => ?_
      rcases mem_or_eq_of_mem_set hmem with hmem | rfl
      · exact JsonValue.ordered_array.mp hparent item hmem
      · exact hchild
  | null | bool | number | string => exact hparent

theorem Ordered.get? (hroot : root.Ordered) (hget : (pathOptic segments).get? root = some value) :
    value.Ordered := by
  induction segments generalizing root with
  | nil =>
    cases hget
    exact hroot
  | cons segment rest ih =>
    obtain ⟨child, hchild, hvalue⟩ := Option.bind_eq_some_iff.mp hget
    exact ih (Ordered.child? hroot hchild) hvalue

theorem Ordered.put {new : JsonValue} (hroot : root.Ordered)
    (hget : (pathOptic segments).get? root = some value) (hnew : new.Ordered) :
    ((pathOptic segments).put new root).Ordered := by
  induction segments generalizing root with
  | nil => exact hnew
  | cons segment rest ih =>
    obtain ⟨child, hchild, hvalue⟩ := Option.bind_eq_some_iff.mp hget
    rw [pathOptic_cons_put hchild]
    exact Ordered.putChild hroot (ih (Ordered.child? hroot hchild) hvalue) segment

/-! ## Edits keep keys in order -/

/-- An edit that maps ordered trees to ordered trees, also when it fails. -/
def KeepsOrder (edit : JsonValue → Edit) : Prop := ∀ value, value.Ordered → (edit value).2.Ordered

variable {values : List JsonValue}

theorem KeepsOrder.modifyAt {edit : JsonValue → Edit} (hedit : KeepsOrder edit) (path : StatePath)
    (segments : List PathSegment) : KeepsOrder (modifyAt path segments edit) := by
  intro value hvalue
  cases hget : (pathOptic segments).get? value with
  | none =>
    obtain ⟨error, herror⟩ := modifyAt_of_get?_eq_none path edit hget
    rw [herror]
    exact hvalue
  | some target =>
    rw [modifyAt_of_get? path edit hget]
    exact Ordered.put hvalue hget (hedit target (Ordered.get? hvalue hget))

theorem keepsOrder_setIn (path : StatePath) (segment : PathSegment) (hvalue : value.Ordered) :
    KeepsOrder (setIn path segment value) := by
  intro parent hparent
  cases parent with
  | object members =>
    obtain ⟨hsort, hmems⟩ := JsonValue.ordered_object.mp hparent
    refine JsonValue.ordered_object.mpr ⟨hsort.insert _ _, fun member hmem => ?_⟩
    rcases mem_insert hmem with rfl | hmem
    · exact hvalue
    · exact hmems member hmem
  | array items =>
    have hitems := JsonValue.ordered_array.mp hparent
    simp only [setIn]
    split
    · exact hparent
    · split
      · exact hparent
      · split_ifs
        · refine JsonValue.ordered_array.mpr fun item hmem => ?_
          rcases mem_append.mp hmem with hmem | hmem
          · exact hitems item hmem
          · rw [mem_singleton.mp hmem]
            exact hvalue
        · refine JsonValue.ordered_array.mpr fun item hmem => ?_
          rcases mem_or_eq_of_mem_set hmem with hmem | rfl
          · exact hitems item hmem
          · exact hvalue
        · exact hparent
  | null | bool | number | string => exact hparent

theorem keepsOrder_deleteIn (path : StatePath) (segment : PathSegment) :
    KeepsOrder (deleteIn path segment) := by
  intro parent hparent
  cases parent with
  | object members =>
    obtain ⟨hsort, hmems⟩ := JsonValue.ordered_object.mp hparent
    exact JsonValue.ordered_object.mpr
      ⟨hsort.erase _, fun member hmem => hmems member (mem_of_mem_filter hmem)⟩
  | array items =>
    simp only [deleteIn]
    split
    · exact hparent
    · split
      · exact hparent
      · exact JsonValue.ordered_array.mpr fun item hmem =>
          JsonValue.ordered_array.mp hparent item (mem_of_mem_eraseIdx hmem)
  | null | bool | number | string => exact hparent

omit [SerdeJson] in
theorem keepsOrder_spliceIn (path : StatePath) (i dels : JsInteger)
    (hvals : ∀ value ∈ values, value.Ordered) :
    KeepsOrder (spliceIn path i dels values) := by
  intro value hvalue
  cases value with
  | array items =>
    have hitems := JsonValue.ordered_array.mp hvalue
    refine JsonValue.ordered_array.mpr fun item hmem => ?_
    simp only [spliceItems, mem_append] at hmem
    rcases hmem with (hmem | hmem) | hmem
    · exact hitems item (mem_of_mem_take hmem)
    · exact hvals item hmem
    · exact hitems item (mem_of_mem_drop hmem)
  | null | bool | number | string | object => exact hvalue

omit [SerdeJson] in
theorem keepsOrder_appendIn (path : StatePath) (text : JsString) :
    KeepsOrder (appendIn path text) := by
  intro value hvalue
  cases value with
  | string current => trivial
  | null | bool | number | array | object => exact hvalue

omit [SerdeJson] in
theorem keepsOrder_truncateIn (path : StatePath) (count : JsInteger) :
    KeepsOrder (truncateIn path count) := by
  intro value hvalue
  cases value with
  | string current => trivial
  | null | bool | number | array | object => exact hvalue

theorem KeepsOrder.modifyParent (hedit : ∀ segment, KeepsOrder (edit segment)) (path : StatePath) :
    KeepsOrder (modifyParent path edit) := by
  intro root hroot
  unfold Delta.modifyParent
  cases path.segments.getLast? with
  | none => exact hroot
  | some last => exact (hedit last).modifyAt path _ root hroot

theorem keepsOrder_setPath (path : StatePath) (hvalue : value.Ordered) :
    KeepsOrder fun root => setPath root path value := by
  intro root hroot
  simp only [setPath]
  cases validateNonEmpty path with
  | error error => exact hroot
  | ok _ =>
    exact KeepsOrder.modifyParent (fun segment => keepsOrder_setIn path segment hvalue) path root hroot

theorem keepsOrder_deletePath (path : StatePath) : KeepsOrder fun root => deletePath root path := by
  intro root hroot
  simp only [deletePath]
  cases validateNonEmpty path with
  | error error => exact hroot
  | ok _ => exact KeepsOrder.modifyParent (keepsOrder_deleteIn path) path root hroot

theorem keepsOrder_splicePath (path : StatePath) (i dels : JsInteger)
    (hvals : ∀ value ∈ values, value.Ordered) :
    KeepsOrder fun root => splicePath root path i dels values := by
  intro root hroot
  simp only [splicePath]
  cases validatePath path with
  | error error => exact hroot
  | ok _ => exact (keepsOrder_spliceIn path i dels hvals).modifyAt path _ root hroot

theorem keepsOrder_appendStringPath (path : StatePath) (text : JsString) :
    KeepsOrder fun root => appendStringPath root path text :=
  (keepsOrder_appendIn path text).modifyAt path path.segments

theorem keepsOrder_truncateStringPath (path : StatePath) (count : JsInteger) :
    KeepsOrder fun root => truncateStringPath root path count :=
  (keepsOrder_truncateIn path count).modifyAt path path.segments

end

end PiOxidized.Service.Delta
