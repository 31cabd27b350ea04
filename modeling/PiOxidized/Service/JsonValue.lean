/-
# The canonical value tree

Equality and admission are written over explicit work lists, as the source
writes them so that deep documents do not exhaust the call stack.  Each is shown
to compute a structural predicate, and only the structural predicates are used
afterwards.
-/

import PiOxidized.Service.Value

namespace PiOxidized.Service

open List Math

/-- The value tree.  Object members are listed in key order; `Ordered` says so. -/
inductive JsonValue
  | null
  | bool (value : Bool)
  | number (value : Binary64)
  | string (value : JsString)
  | array (items : List JsonValue)
  | object (members : List (JsString × JsonValue))
  deriving Inhabited

/-- The members of an object. -/
abbrev JsObject := List (JsString × JsonValue)

namespace JsonValue

variable {P : JsonValue → Prop}

/-- Structural induction with the hypotheses stated by membership. -/
theorem induction (null : P .null) (bool : ∀ value, P (.bool value))
    (number : ∀ value, P (.number value)) (string : ∀ value, P (.string value))
    (array : ∀ items, (∀ item ∈ items, P item) → P (.array items))
    (object : ∀ members, (∀ member ∈ members, P member.2) → P (.object members)) :
    ∀ value, P value :=
  @JsonValue.rec P (fun items => ∀ item ∈ items, P item)
    (fun members => ∀ member ∈ members, P member.2) (fun member => P member.2)
    null bool number string array object
    (fun _ h => absurd h not_mem_nil)
    (fun _ _ hhead htail item hmem =>
      (mem_cons.mp hmem).elim (fun h => h ▸ hhead) (htail item))
    (fun _ h => absurd h not_mem_nil)
    (fun _ _ hhead htail member hmem =>
      (mem_cons.mp hmem).elim (fun h => h ▸ hhead) (htail member))
    (fun _ _ h => h)

/-! ## Folds over the tree -/

mutual

/-- Number of nodes, the measure of every work list. -/
def weight : JsonValue → Nat
  | .array items => 1 + weightItems items
  | .object members => 1 + weightMembers members
  | _ => 1

/-- Total weight of an array's items. -/
def weightItems : List JsonValue → Nat
  | [] => 0
  | item :: rest => item.weight + weightItems rest

/-- Total weight of an object's members. -/
def weightMembers : List (JsString × JsonValue) → Nat
  | [] => 0
  | (_, value) :: rest => value.weight + weightMembers rest

end

mutual

/-- Apply a function to every number of a tree. -/
def mapNumbers (f : Binary64 → Binary64) : JsonValue → JsonValue
  | .null => .null
  | .bool value => .bool value
  | .number value => .number (f value)
  | .string value => .string value
  | .array items => .array (mapNumbersItems f items)
  | .object members => .object (mapNumbersMembers f members)

/-- `mapNumbers` along an array. -/
def mapNumbersItems (f : Binary64 → Binary64) : List JsonValue → List JsonValue
  | [] => []
  | item :: rest => item.mapNumbers f :: mapNumbersItems f rest

/-- `mapNumbers` along an object. -/
def mapNumbersMembers (f : Binary64 → Binary64) :
    List (JsString × JsonValue) → List (JsString × JsonValue)
  | [] => []
  | (key, value) :: rest => (key, value.mapNumbers f) :: mapNumbersMembers f rest

end

theorem mapNumbersItems_eq (f : Binary64 → Binary64) (items : List JsonValue) :
    mapNumbersItems f items = items.map (mapNumbers f) := by
  induction items with
  | nil => rfl
  | cons item rest ih => simp only [mapNumbersItems, map_cons, ih]

theorem mapNumbersMembers_eq (f : Binary64 → Binary64) (members : JsObject) :
    mapNumbersMembers f members = members.map fun member => (member.1, member.2.mapNumbers f) := by
  induction members with
  | nil => rfl
  | cons member rest ih => simp only [mapNumbersMembers, map_cons, ih]

@[simp]
theorem mapNumbers_array (f : Binary64 → Binary64) (items : List JsonValue) :
    (array items).mapNumbers f = array (items.map (mapNumbers f)) := by
  rw [mapNumbers, mapNumbersItems_eq]

@[simp]
theorem mapNumbers_object (f : Binary64 → Binary64) (members : JsObject) :
    (object members).mapNumbers f =
      object (members.map fun member => (member.1, member.2.mapNumbers f)) := by
  rw [mapNumbers, mapNumbersMembers_eq]

mutual

/-- A property of every subtree of a tree. -/
def All (P : JsonValue → Prop) : JsonValue → Prop
  | .array items => P (.array items) ∧ AllItems P items
  | .object members => P (.object members) ∧ AllMembers P members
  | value => P value

/-- `All` along an array. -/
def AllItems (P : JsonValue → Prop) : List JsonValue → Prop
  | [] => True
  | item :: rest => item.All P ∧ AllItems P rest

/-- `All` along an object. -/
def AllMembers (P : JsonValue → Prop) : List (JsString × JsonValue) → Prop
  | [] => True
  | (_, value) :: rest => value.All P ∧ AllMembers P rest

end

variable {value : JsonValue}

theorem allItems_iff {items : List JsonValue} : AllItems P items ↔ ∀ item ∈ items, item.All P := by
  induction items with
  | nil => simp [AllItems]
  | cons item rest ih => simp [AllItems, ih]

theorem allMembers_iff {members : JsObject} :
    AllMembers P members ↔ ∀ member ∈ members, member.2.All P := by
  induction members with
  | nil => simp [AllMembers]
  | cons member rest ih => simp [AllMembers, ih]

@[simp]
theorem all_array {items : List JsonValue} :
    (array items).All P ↔ P (array items) ∧ ∀ item ∈ items, item.All P := by
  rw [All, allItems_iff]

@[simp]
theorem all_object {members : JsObject} :
    (object members).All P ↔ P (object members) ∧ ∀ member ∈ members, member.2.All P := by
  rw [All, allMembers_iff]

/-- Every object keeps its members in strictly increasing key order. -/
def Ordered (value : JsonValue) : Prop := value.All fun
    | .object members => Assoc.Sorted members
    | _ => True

/-- No array and no string is longer than the binary64 integers count exactly. -/
def Fits (value : JsonValue) : Prop := value.All fun
    | .array items => items.length ≤ 2 ^ 53
    | .string text => text.units.length ≤ 2 ^ 53
    | _ => True

/-- Every number of the tree satisfies a property. -/
def AllNumbers (P : Binary64 → Prop) (value : JsonValue) : Prop := value.All fun
    | .number n => P n
    | _ => True

/-! ## Equality -/

mutual

/-- Structural equality with binary64 equality at the numbers. -/
def sameTree : JsonValue → JsonValue → Bool
  | .null, .null => true
  | .bool left, .bool right => left == right
  | .number left, .number right => left.eq right
  | .string left, .string right => left == right
  | .array left, .array right => sameItems left right
  | .object left, .object right => sameMembers left right
  | _, _ => false

/-- `sameTree` along two arrays. -/
def sameItems : List JsonValue → List JsonValue → Bool
  | [], [] => true
  | left :: lefts, right :: rights => left.sameTree right && sameItems lefts rights
  | _, _ => false

/-- `sameTree` along two objects. -/
def sameMembers : List (JsString × JsonValue) → List (JsString × JsonValue) → Bool
  | [], [] => true
  | (leftKey, left) :: lefts, (rightKey, right) :: rights =>
    leftKey == rightKey && left.sameTree right && sameMembers lefts rights
  | _, _ => false

end

/-- Total weight of the left components of a work list. -/
def workWeight (work : List (JsonValue × JsonValue)) : Nat :=
  (work.map fun pair => pair.1.weight).sum

attribute [local simp] workWeight

theorem workWeight_append (first second : List (JsonValue × JsonValue)) :
    workWeight (first ++ second) = workWeight first + workWeight second := by
  simp

theorem workWeight_reverse (work : List (JsonValue × JsonValue)) :
    workWeight work.reverse = workWeight work := by
  simp

theorem workWeight_zip_le (left right : List JsonValue) :
    workWeight (left.zip right) ≤ weightItems left := by
  induction left generalizing right with
  | nil => simp [weightItems]
  | cons item rest ih =>
    cases right with
    | nil => simp
    | cons other others =>
      have := ih others
      simp only [workWeight, zip_cons_cons, map_cons, sum_cons, weightItems] at *
      omega

/-- The value pairs of two objects whose keys are compared separately. -/
def memberPairs (left right : JsObject) : List (JsonValue × JsonValue) :=
  (left.zip right).map fun pair => (pair.1.2, pair.2.2)

theorem workWeight_memberPairs_le (left right : JsObject) :
    workWeight (memberPairs left right) ≤ weightMembers left := by
  induction left generalizing right with
  | nil => simp [memberPairs, weightMembers]
  | cons member rest ih =>
    obtain ⟨key, value⟩ := member
    cases right with
    | nil => simp [memberPairs]
    | cons other others =>
      have := ih others
      simp only [workWeight, memberPairs, zip_cons_cons, map_cons, sum_cons, weightMembers] at *
      omega

attribute [local simp] weight

/-- The comparison loop.  The head of the list is the top of the stack, so the
children pushed last are compared first. -/
def eqLoop : List (JsonValue × JsonValue) → Bool
  | [] => true
  | (.null, .null) :: work => eqLoop work
  | (.bool left, .bool right) :: work => if left == right then eqLoop work else false
  | (.number left, .number right) :: work => if left.eq right then eqLoop work else false
  | (.string left, .string right) :: work => if left == right then eqLoop work else false
  | (.array left, .array right) :: work =>
    if left.length != right.length then false
    else eqLoop ((left.zip right).reverse ++ work)
  | (.object left, .object right) :: work =>
    if left.length != right.length then false
    else if (left.zip right).all fun pair => pair.1.1 == pair.2.1 then
      eqLoop ((memberPairs left right).reverse ++ work)
    else false
  | _ => false
termination_by work => workWeight work
decreasing_by
  · simp
  · simp
  · simp
  · simp
  · have := workWeight_zip_le left right
    rw [workWeight_append, workWeight_reverse]
    simp only [workWeight, map_cons, sum_cons, weight] at *
    omega
  · have := workWeight_memberPairs_le left right
    rw [workWeight_append, workWeight_reverse]
    simp only [workWeight, map_cons, sum_cons, weight] at *
    omega

/-- Equality of values: NaN differs from itself and the zeros are equal. -/
def eq (left right : JsonValue) : Bool := eqLoop [(left, right)]

variable {f : Binary64 → Binary64}

variable {text : JsString}

attribute [local simp] sameItems

theorem sameItems_eq {left right : List JsonValue} : sameItems left right =
      (left.length == right.length && (left.zip right).all fun pair => pair.1.sameTree pair.2) := by
  induction left generalizing right with
  | nil => cases right <;> simp
  | cons item rest ih =>
    cases right with
    | nil => simp
    | cons other others =>
      simp only [sameItems, ih, length_cons, zip_cons_cons, all_cons]
      rw [Bool.eq_iff_iff]
      simp only [Bool.and_eq_true, beq_iff_eq, Nat.add_right_cancel_iff]
      tauto

attribute [local simp] sameMembers

theorem sameMembers_eq {left right : JsObject} : sameMembers left right =
      (left.length == right.length && ((left.zip right).all fun pair => pair.1.1 == pair.2.1) &&
        (memberPairs left right).all fun pair => pair.1.sameTree pair.2) := by
  induction left generalizing right with
  | nil => cases right <;> simp [memberPairs]
  | cons member rest ih =>
    obtain ⟨key, value⟩ := member
    cases right with
    | nil => simp
    | cons other others =>
      obtain ⟨otherKey, otherValue⟩ := other
      simp only [sameMembers, ih, memberPairs, length_cons, zip_cons_cons, all_cons, map_cons]
      rw [Bool.eq_iff_iff]
      simp only [Bool.and_eq_true, beq_iff_eq, Nat.add_right_cancel_iff]
      tauto

attribute [local simp] sameTree eqLoop

/-- The loop compares every pair of its work list structurally. -/
theorem eqLoop_eq_all (work : List (JsonValue × JsonValue)) :
    eqLoop work = work.all fun pair => pair.1.sameTree pair.2 := by
  induction work using eqLoop.induct with
  | case1 => simp
  | case2 work ih => simp [ih]
  | case3 | case4 | case5 | case6 | case7 | case8 => simp_all
  | case9 left right work h => simp_all [sameItems_eq]
  | case10 left right work h ih =>
    rw [eqLoop, if_neg h, ih]
    simp_all [sameItems_eq]
  | case11 left right work h => simp_all [sameMembers_eq]
  | case12 left right work h hkeys ih =>
    rw [eqLoop, if_neg h, if_pos hkeys, ih]
    simp only [all_cons, sameTree, sameMembers_eq, hkeys]
    simp_all
  | case13 left right work h hkeys =>
    rw [eqLoop, if_neg h, if_neg hkeys]
    simp only [all_cons, sameTree, sameMembers_eq, Bool.not_eq_true] at *
    simp [hkeys]
  | case14 work hnil hnull hbool hnumber hstring harray hobject =>
    rw [eqLoop.eq_8 work hnil hnull hbool hnumber hstring harray hobject]
    rcases work with _ | ⟨⟨left, right⟩, work⟩
    · exact absurd rfl hnil
    · have hdiffer : left.sameTree right = false := by
        cases left <;> cases right <;> first
          | rfl
          | exact absurd rfl (hnull work)
          | exact absurd rfl (hbool _ _ work)
          | exact absurd rfl (hnumber _ _ work)
          | exact absurd rfl (hstring _ _ work)
          | exact absurd rfl (harray _ _ work)
          | exact absurd rfl (hobject _ _ work)
      simp [hdiffer]

/-- The work-list comparison is structural equality. -/
theorem eq_eq_sameTree (left right : JsonValue) : left.eq right = left.sameTree right := by
  simp [eq, eqLoop_eq_all]

theorem sameItems_iff {left right : List JsonValue} : sameItems left right = true ↔
      List.Forall₂ (fun a b => a.sameTree b = true) left right := by
  induction left generalizing right with
  | nil => cases right <;> simp
  | cons item rest ih => cases right <;> simp [ih]

theorem sameMembers_iff {left right : JsObject} : sameMembers left right = true ↔
      List.Forall₂ (fun a b => a.1 = b.1 ∧ a.2.sameTree b.2 = true) left right := by
  induction left generalizing right with
  | nil => cases right <;> simp
  | cons member rest ih =>
    obtain ⟨key, value⟩ := member
    cases right with
    | nil => simp
    | cons other others => simp [ih]

theorem allNumbers_number {P : Binary64 → Prop} {n : Binary64} : (number n).AllNumbers P ↔ P n := by
  simp [AllNumbers, All]

theorem allNumbers_array {P : Binary64 → Prop} {items : List JsonValue} :
    (array items).AllNumbers P ↔ ∀ item ∈ items, item.AllNumbers P := by
  simp [AllNumbers]

theorem allNumbers_object {P : Binary64 → Prop} {members : JsObject} :
    (object members).AllNumbers P ↔ ∀ member ∈ members, member.2.AllNumbers P := by
  simp [AllNumbers]

theorem ordered_array {items : List JsonValue} :
    (array items).Ordered ↔ ∀ item ∈ items, item.Ordered := by
  simp [Ordered]

theorem ordered_object {members : JsObject} : (object members).Ordered ↔
      Assoc.Sorted members ∧ ∀ member ∈ members, member.2.Ordered := by
  simp [Ordered]

theorem fits_string : (string text).Fits ↔ text.units.length ≤ 2 ^ 53 := by
  simp [Fits, All]

theorem fits_array {items : List JsonValue} :
    (array items).Fits ↔ items.length ≤ 2 ^ 53 ∧ ∀ item ∈ items, item.Fits := by
  simp [Fits]

theorem fits_object {members : JsObject} :
    (object members).Fits ↔ ∀ member ∈ members, member.2.Fits := by
  simp [Fits]

attribute [local simp] mapNumbers

/-- Key order does not depend on the numbers of a tree. -/
theorem ordered_mapNumbers : (value.mapNumbers f).Ordered ↔ value.Ordered := by
  induction value using JsonValue.induction with
  | null | bool | string => rfl
  | number value => simp [Ordered, All]
  | array items ih =>
    rw [mapNumbers_array, ordered_array, ordered_array, forall_mem_map]
    exact forall₂_congr ih
  | object members ih =>
    rw [mapNumbers_object, ordered_object, ordered_object, forall_mem_map]
    refine and_congr ?_ (forall₂_congr ih)
    exact pairwise_map

/-! ## Trees that agree up to their numbers -/

theorem eq_string_of_mapNumbers_eq (h : value.mapNumbers f = (string text).mapNumbers f) :
    value = string text := by
  cases value with
  | string other => simpa using h
  | null | bool | number | array | object => simp at h

theorem exists_array_of_mapNumbers_eq {items : List JsonValue}
    (h : value.mapNumbers f = (array items).mapNumbers f) :
    ∃ others, value = array others ∧ others.map (mapNumbers f) = items.map (mapNumbers f) := by
  cases value with
  | array others =>
    rw [mapNumbers_array, mapNumbers_array] at h
    exact ⟨others, rfl, array.inj h⟩
  | null | bool | number | string | object => simp at h

theorem exists_object_of_mapNumbers_eq {members : JsObject}
    (h : value.mapNumbers f = (object members).mapNumbers f) :
    ∃ others, value = object others ∧
      ∀ key, (others.lookup key).map (mapNumbers f) = (members.lookup key).map (mapNumbers f) := by
  cases value with
  | object others =>
    rw [mapNumbers_object, mapNumbers_object] at h
    refine ⟨others, rfl, fun key => ?_⟩
    rw [← Assoc.lookup_map_snd, ← Assoc.lookup_map_snd, object.inj h]
  | null | bool | number | string | array => simp at h

theorem mapNumbers_object_eq_of_lookup {members others : JsObject} (hmems : Assoc.Sorted members)
    (hoth : Assoc.Sorted others)
    (h : ∀ key, (members.lookup key).map (mapNumbers f) = (others.lookup key).map (mapNumbers f)) :
    (object members).mapNumbers f = (object others).mapNumbers f := by
  rw [mapNumbers_object, mapNumbers_object]
  refine congrArg object (Assoc.ext_lookup (pairwise_map.mpr hmems)
    (pairwise_map.mpr hoth) fun key => ?_)
  rw [Assoc.lookup_map_snd, Assoc.lookup_map_snd, h key]

/-- A function that cannot tell apart the equal-comparing numbers of two trees. -/
def Collapses (f : Binary64 → Binary64) (left right : JsonValue) : Prop :=
  left.AllNumbers fun x => right.AllNumbers fun y => x.eq y = true → f x = f y

variable {right left : JsonValue}

theorem All.imp {Q : JsonValue → Prop} (himp : ∀ value, P value → Q value) (h : value.All P) :
    value.All Q := by
  induction value using JsonValue.induction with
  | null | bool | number | string => exact himp _ h
  | array items ih =>
    obtain ⟨hself, hitems⟩ := all_array.mp h
    exact all_array.mpr ⟨himp _ hself, fun item hmem => ih item hmem (hitems item hmem)⟩
  | object members ih =>
    obtain ⟨hself, hmems⟩ := all_object.mp h
    exact all_object.mpr ⟨himp _ hself, fun member hmem => ih member hmem (hmems member hmem)⟩

theorem AllNumbers.imp {P Q : Binary64 → Prop} (himp : ∀ n, P n → Q n) (h : value.AllNumbers P) :
    value.AllNumbers Q := by
  refine All.imp (fun subtree hsubtree => ?_) h
  cases subtree with
  | number n => exact himp n hsubtree
  | null | bool | string | array | object => trivial

theorem Collapses.items {lefts rights : List JsonValue}
    (h : Collapses f (array lefts) (array rights)) (hleft : left ∈ lefts) (hright : right ∈ rights) :
    Collapses f left right :=
  (allNumbers_array.mp h left hleft).imp fun _ hx => allNumbers_array.mp hx right hright

theorem Collapses.members {lefts rights : JsObject} (h : Collapses f (object lefts) (object rights))
    {left right : JsString × JsonValue} (hleft : left ∈ lefts) (hright : right ∈ rights) :
    Collapses f left.2 right.2 :=
  (allNumbers_object.mp h left hleft).imp fun _ hx => allNumbers_object.mp hx right hright

/-- Equal trees have the same image under a function that collapses them. -/
theorem mapNumbers_eq_of_sameTree (hsame : left.sameTree right = true)
    (hcollapse : Collapses f left right) :
    left.mapNumbers f = right.mapNumbers f := by
  induction left using JsonValue.induction generalizing right with
  | null | bool | string => cases right <;> simp_all
  | number value =>
    cases right with
    | number other =>
      have hf := allNumbers_number.mp (allNumbers_number.mp hcollapse)
      simp only [mapNumbers, hf hsame]
    | null | bool | string | array | object => simp at hsame
  | array items ih =>
    cases right with
    | array others =>
      have hall := sameItems_iff.mp hsame
      rw [mapNumbers_array, mapNumbers_array]
      congr 1
      refine ext_getElem (by simpa using hall.length_eq) fun i hi hj => ?_
      simp only [length_map] at hi hj
      simp only [getElem_map]
      exact ih _ (getElem_mem hi) (hall.get hi hj)
        (hcollapse.items (getElem_mem hi) (getElem_mem hj))
    | null | bool | number | string | object => simp at hsame
  | object members ih =>
    cases right with
    | object others =>
      have hall := sameMembers_iff.mp hsame
      rw [mapNumbers_object, mapNumbers_object]
      congr 1
      refine ext_getElem (by simpa using hall.length_eq) fun i hi hj => ?_
      simp only [length_map] at hi hj
      obtain ⟨hkey, hvalue⟩ := hall.get hi hj
      simp only [get_eq_getElem] at hkey hvalue
      simp only [getElem_map, hkey, Prod.mk.injEq, true_and]
      exact ih _ (getElem_mem hi) hvalue (hcollapse.members (getElem_mem hi) (getElem_mem hj))
    | null | bool | number | string | array => simp at hsame

/-- The tree with every negative zero folded to positive zero. -/
def normalized (value : JsonValue) : JsonValue := value.mapNumbers Binary64.normalized

theorem All.of_forall (h : ∀ value, P value) (value : JsonValue) : value.All P := by
  induction value using JsonValue.induction with
  | null | bool | number | string => exact h _
  | array items ih => exact all_array.mpr ⟨h _, ih⟩
  | object members ih => exact all_object.mpr ⟨h _, ih⟩

theorem AllNumbers.of_forall {P : Binary64 → Prop} (h : ∀ n, P n) (value : JsonValue) :
    value.AllNumbers P := by
  refine All.of_forall (fun subtree => ?_) value
  cases subtree with
  | number n => exact h n
  | null | bool | string | array | object => trivial

/-- Folding the zeros collapses any two trees. -/
theorem collapses_normalized (left right : JsonValue) : Collapses Binary64.normalized left right :=
  AllNumbers.of_forall (fun _ => AllNumbers.of_forall (fun _ => Binary64.normalized_eq_of_eq) _) _

/-- Trees that agree up to the sign of zeros compare equal unless they hold NaN. -/
theorem eq_of_normalized_eq (h : left.normalized = right.normalized)
    (hnan : right.AllNumbers fun x => x.isNaN = false) : left.eq right = true := by
  rw [eq_eq_sameTree]
  rw [normalized, normalized] at h
  induction right using JsonValue.induction generalizing left with
  | null | bool => cases left <;> simp_all
  | number value =>
    cases left with
    | number other =>
      rw [mapNumbers, mapNumbers] at h
      exact Binary64.eq_of_normalized_eq (number.inj h) (allNumbers_number.mp hnan)
    | null | bool | string | array | object => simp at h
  | string value =>
    rw [eq_string_of_mapNumbers_eq h]
    simp
  | array items ih =>
    obtain ⟨others, rfl, hitems⟩ := exists_array_of_mapNumbers_eq h
    have hnans := allNumbers_array.mp hnan
    have hlen : others.length = items.length := by simpa using congrArg length hitems
    refine sameItems_iff.mpr (forall₂_iff_get.mpr ⟨hlen, fun i hi hj => ?_⟩)
    refine ih _ (getElem_mem hj) ?_ (hnans _ (getElem_mem hj))
    have hget := congrArg (fun l => l[i]?) hitems
    simpa [hi, hj] using hget
  | object members ih =>
    cases left with
    | object others =>
      rw [mapNumbers_object, mapNumbers_object] at h
      have hmems := object.inj h
      have hnans := allNumbers_object.mp hnan
      have hlen : others.length = members.length := by
        simpa using congrArg length hmems
      refine sameMembers_iff.mpr (forall₂_iff_get.mpr ⟨hlen, fun i hi hj => ?_⟩)
      have hget := congrArg (fun l => l[i]?) hmems
      simp only [getElem?_map, getElem?_eq_getElem hi, getElem?_eq_getElem hj,
        Option.map_some, Option.some.injEq, Prod.mk.injEq] at hget
      exact ⟨hget.1, ih _ (getElem_mem hj) hget.2 (hnans _ (getElem_mem hj))⟩
    | null | bool | number | string | array => simp at h

theorem mapNumbers_id (value : JsonValue) : value.mapNumbers id = value := by
  induction value using JsonValue.induction with
  | null | bool | number | string => rfl
  | array items ih =>
    rw [mapNumbers_array, map_congr_left ih, map_id']
  | object members ih =>
    rw [mapNumbers_object, map_congr_left (g := id)
      fun member hmem => by rw [ih member hmem]; rfl, map_id]

/-! ## Admission -/

/-- The deepest level a strict JSON document may reach. -/
def maxDepth : Nat := 512

/-- Total weight of an admission work list. -/
def admitWeight (work : List (JsonValue × Nat)) : Nat := (work.map fun pair => pair.1.weight).sum

theorem weightItems_eq (items : List JsonValue) : weightItems items = (items.map weight).sum := by
  induction items with
  | nil => rfl
  | cons item rest ih => simp [weightItems, ih]

theorem weightMembers_eq (members : JsObject) :
    weightMembers members = (members.map fun member => member.2.weight).sum := by
  induction members with
  | nil => rfl
  | cons member rest ih => simp [weightMembers, ih]

/-- The work an array pushes: its items, one level further down. -/
def itemsBelow (depth : Nat) (items : List JsonValue) : List (JsonValue × Nat) :=
  items.map fun item => (item, depth + 1)

/-- The work an object pushes: its values, one level further down. -/
def membersBelow (depth : Nat) (members : JsObject) : List (JsonValue × Nat) :=
  members.map fun member => (member.2, depth + 1)

attribute [local simp] admitWeight

/-- The admission loop: numbers must be finite and no node may lie below the
depth limit. -/
def isJsonValueLoop : List (JsonValue × Nat) → Bool
  | [] => true
  | (.number value, _) :: work => if !value.isFinite then false else isJsonValueLoop work
  | (.array items, depth) :: work =>
    if !items.isEmpty && maxDepth ≤ depth then false
    else isJsonValueLoop ((itemsBelow depth items).reverse ++ work)
  | (.object members, depth) :: work =>
    if !members.isEmpty && maxDepth ≤ depth then false
    else isJsonValueLoop ((membersBelow depth members).reverse ++ work)
  | (.null, _) :: work => isJsonValueLoop work
  | (.bool _, _) :: work => isJsonValueLoop work
  | (.string _, _) :: work => isJsonValueLoop work
termination_by work => admitWeight work
decreasing_by
  · simp
  · simp [itemsBelow, weightItems_eq, Function.comp_def]
  · simp [membersBelow, weightMembers_eq, Function.comp_def]
  · simp
  · simp
  · simp

/-- Whether a tree is admissible as a finite JSON value. -/
def isJsonValue (value : JsonValue) : Bool := isJsonValueLoop [(value, 0)]

mutual

/-- Structural admission at a depth. -/
def admits : Nat → JsonValue → Bool
  | _, .number value => value.isFinite
  | depth, .array items => admitsItems depth items
  | depth, .object members => admitsMembers depth members
  | _, _ => true

/-- `admits` for the items of an array at a depth. -/
def admitsItems : Nat → List JsonValue → Bool
  | _, [] => true
  | depth, item :: rest => decide (depth < maxDepth) && admits (depth + 1) item &&
      admitsItems depth rest

/-- `admits` for the members of an object at a depth. -/
def admitsMembers : Nat → List (JsString × JsonValue) → Bool
  | _, [] => true
  | depth, (_, value) :: rest => decide (depth < maxDepth) && admits (depth + 1) value &&
      admitsMembers depth rest

end

theorem admitsItems_eq (depth : Nat) (items : List JsonValue) : admitsItems depth items =
      ((items.isEmpty || decide (depth < maxDepth)) && items.all (admits (depth + 1))) := by
  induction items with
  | nil => simp [admitsItems]
  | cons item rest ih =>
    rw [admitsItems, ih, Bool.eq_iff_iff]
    simp only [Bool.and_eq_true, Bool.or_eq_true, isEmpty_cons, all_cons]
    tauto

theorem admitsMembers_eq (depth : Nat) (members : JsObject) : admitsMembers depth members =
      ((members.isEmpty || decide (depth < maxDepth)) &&
        members.all fun member => admits (depth + 1) member.2) := by
  induction members with
  | nil => simp [admitsMembers]
  | cons member rest ih =>
    obtain ⟨key, value⟩ := member
    rw [admitsMembers, ih, Bool.eq_iff_iff]
    simp only [Bool.and_eq_true, Bool.or_eq_true, isEmpty_cons, all_cons]
    tauto

attribute [local simp] admits isJsonValueLoop

/-- The admission loop admits every entry of its work list structurally. -/
theorem isJsonValueLoop_eq_all (work : List (JsonValue × Nat)) :
    isJsonValueLoop work = work.all fun pair => admits pair.2 pair.1 := by
  induction work using isJsonValueLoop.induct with
  | case1 => simp
  | case2 | case3 => simp_all
  | case4 items depth work h =>
    rw [isJsonValueLoop, if_pos h]
    simp_all [admitsItems_eq]
  | case5 items depth work h ih =>
    rw [isJsonValueLoop, if_neg h, ih]
    have hdepth : (items.isEmpty || decide (depth < maxDepth)) = true := by
      simp_all [imp_iff_not_or]
    simp [admitsItems_eq, hdepth, itemsBelow, Function.comp_def]
  | case6 members depth work h =>
    rw [isJsonValueLoop, if_pos h]
    simp_all [admitsMembers_eq]
  | case7 members depth work h ih =>
    rw [isJsonValueLoop, if_neg h, ih]
    have hdepth : (members.isEmpty || decide (depth < maxDepth)) = true := by
      simp_all [imp_iff_not_or]
    simp [admitsMembers_eq, hdepth, membersBelow, Function.comp_def]
  | case8 depth work ih | case9 value depth work ih | case10 value depth work ih => simp [ih]

/-- The work-list admission is structural admission at the root. -/
theorem isJsonValue_eq_admits (value : JsonValue) : value.isJsonValue = admits 0 value := by
  simp [isJsonValue, isJsonValueLoop_eq_all]

end JsonValue

end PiOxidized.Service
