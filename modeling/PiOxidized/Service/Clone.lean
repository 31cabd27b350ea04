/-
# Cloning with an explicit stack

The clone of a tree does not recurse.  Containers half built stand on a stack, and the loop visits
one value at a time or hands it to the container on top.  It ends on every tree with the tree.
-/

import PiOxidized.Service.JsonValue

namespace PiOxidized.Service.JsonValue

open List Relation Math

/-- A container half built and what is left of the one cloned. -/
inductive Frame
  | array (built rest : List JsonValue)
  | object (built : JsObject) (key : Option JsString) (rest : JsObject)

structure CloneState where
  frames : List Frame := []
  pending : Option JsonValue := none
  completed : Option JsonValue := none

/-- Put a completed value into the container on top, under the key kept for it. -/
def Frame.take (value : JsonValue) : Frame → Frame
  | .array built rest => .array (built ++ [value]) rest
  | .object built none rest => .object built none rest
  | .object built (some key) rest => .object (Assoc.insert key value built) none rest

/-- Visit the next value of the container on top, or close it. -/
def Frame.advance (frames : List Frame) : Frame → CloneState
  | .array built [] => ⟨frames, none, some (.array built)⟩
  | .array built (value :: rest) => ⟨.array built rest :: frames, some value, none⟩
  | .object built _ [] => ⟨frames, none, some (.object built)⟩
  | .object built _ ((key, value) :: rest) =>
    ⟨.object built (some key) rest :: frames, some value, none⟩

/-- Complete a leaf, or open a container and visit its first value. -/
def visit (frames : List Frame) : JsonValue → CloneState
  | .array values => ⟨.array [] values.tail :: frames, values.head?, none⟩
  | .object values => ⟨.object [] (values.head?.map Prod.fst) values.tail :: frames,
      values.head?.map Prod.snd, none⟩
  | value => ⟨frames, none, some value⟩

/-- One turn of the loop: the tree returned, or the next state. -/
def cloneStep (state : CloneState) : JsonValue ⊕ CloneState := match state.completed with
  | some value =>
    match state.frames with
    | [] => .inl value
    | frame :: frames => .inr ⟨frame.take value :: frames, state.pending, none⟩
  | none =>
    match state.pending with
    | some value => .inr (visit state.frames value)
    | none =>
      match state.frames with
      | [] => .inr state
      | frame :: frames => .inr (frame.advance frames)

/-- Some turns of the loop; `none` where it has not returned yet. -/
def cloneLoop : Nat → CloneState → Option JsonValue
  | 0, _ => none
  | turns + 1, state => (cloneStep state).elim some (cloneLoop turns)

/-- The turns of the loop lead from a state to another. -/
def Leads : CloneState → CloneState → Prop := ReflTransGen fun s s' => cloneStep s = .inr s'

variable {frames : List Frame}

/-- A value visited is completed over the same frames. -/
def Clones (value : JsonValue) : Prop :=
  ∀ frames, Leads ⟨frames, some value, none⟩ ⟨frames, none, some value⟩

theorem leads_array {items : List JsonValue} (h : ∀ item ∈ items, Clones item)
    (built : List JsonValue) : Leads ((Frame.array built items).advance frames)
      ⟨frames, none, some (.array (built ++ items))⟩ := by
  induction items generalizing built with
  | nil =>
    rw [append_nil]
    exact .refl
  | cons item rest ih =>
    have hrest := ih (fun other hmem => h other (mem_cons_of_mem _ hmem)) (built ++ [item])
    rw [append_assoc] at hrest
    exact (h item mem_cons_self _).trans (.head rfl (.head rfl hrest))

/-- The members come in key order, so each is inserted behind those built. -/
theorem leads_object {members : JsObject} (h : ∀ member ∈ members, Clones member.2)
    (built : JsObject) (hsort : Assoc.Sorted (built ++ members)) (key : Option JsString) :
    Leads ((Frame.object built key members).advance frames)
      ⟨frames, none, some (.object (built ++ members))⟩ := by
  induction members generalizing built key with
  | nil =>
    rw [append_nil]
    exact .refl
  | cons member rest ih =>
    obtain ⟨name, value⟩ := member
    have hlt : ∀ member ∈ built, member.1 < name := fun member hmem =>
      (pairwise_append.mp hsort).2.2 member hmem _ mem_cons_self
    have hinsert := (Assoc.insert_of_forall_lt value hlt).2
    rw [append_cons] at hsort ⊢
    have hrest := ih (fun other hmem => h other (mem_cons_of_mem _ hmem)) _ hsort none
    rw [← hinsert] at hrest ⊢
    exact (h _ mem_cons_self _).trans (.head rfl (.head rfl hrest))

/-- The loop gets over every tree, the containers by induction. -/
theorem clones (value : JsonValue) (h : value.Ordered) : Clones value := by
  intro frames
  induction value using JsonValue.induction generalizing frames with
  | null | bool | number | string => exact .single rfl
  | array items ih =>
    have hitems := @leads_array frames _
      (fun item hmem frames => ih item hmem ((ordered_array.mp h) item hmem) frames) []
    cases items with
    | nil => exact .head rfl (.head rfl hitems)
    | cons item rest => exact .head rfl hitems
  | object members ih =>
    obtain ⟨hsort, hmems⟩ := ordered_object.mp h
    have hobject := @leads_object frames _
      (fun member hmem frames => ih member hmem (hmems member hmem) frames) [] hsort none
    cases members with
    | nil => exact .head rfl (.head rfl hobject)
    | cons member rest => exact .head rfl hobject

/-- The loop returns what it returns from a state its turns lead to. -/
theorem Leads.cloneLoop {s s' : CloneState} (h : Leads s s') :
    ∃ turns, ∀ more, JsonValue.cloneLoop (more + turns) s = JsonValue.cloneLoop more s' := by
  induction h using ReflTransGen.head_induction_on with
  | refl => exact ⟨0, fun _ => rfl⟩
  | head hstep _ ih =>
    obtain ⟨turns, hturns⟩ := ih
    refine ⟨turns + 1, fun more => ?_⟩
    rw [← Nat.add_assoc, JsonValue.cloneLoop, hstep]
    exact hturns more

/-- The clone of a tree is the tree, and two trees are equal where their parts are. -/
theorem clone_eq_and_eq_iff (value : JsonValue) (h : value.Ordered) :
    (∃ turns, ∀ more, cloneLoop (more + turns) { pending := some value } = some value) ∧
      ∀ left right : JsonValue, left.eq right = true ↔ left.sameTree right = true := by
  obtain ⟨turns, hturns⟩ := (clones value h []).cloneLoop
  refine ⟨⟨1 + turns, fun more => ?_⟩, fun left right => by rw [eq_eq_sameTree]⟩
  rw [← Nat.add_assoc]
  exact hturns (more + 1)

/-- An object of an empty array and a not-a-number. -/
theorem clone_eq_and_eq_iff_object : ∃ value : JsonValue,
    (∃ turns, ∀ more, cloneLoop (more + turns) { pending := some value } = some value) ∧
      value.eq value = false := by
  let value := object [(⟨[97]⟩, array []), (⟨[98]⟩, number ⟨0x7FF8000000000000⟩)]
  have hordered : value.Ordered := by
    refine ordered_object.mpr ⟨by rw [Assoc.Sorted]; decide, ?_⟩
    simp [Ordered, All, AllItems]
  obtain ⟨hclone, heq⟩ := clone_eq_and_eq_iff value hordered
  refine ⟨value, hclone, ?_⟩
  rw [← Bool.not_eq_true, heq]
  decide

end PiOxidized.Service.JsonValue
