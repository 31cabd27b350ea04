/-
# JSON values of tool arguments

Values as the serialization library holds them, their normalized text and the comparison of a
snapshot with what has been parsed since.  Reading a text and writing numbers and strings are
code of the library and come as parameters.
-/

import PiOxidized.Math.Binary64
import PiOxidized.Math.U64

namespace PiOxidized.Ai

open Math

/-- A number of a JSON value.  What is neither a natural number nor a negative integer of 64 bits
is a finite float. -/
inductive Number
  | posInt (value : U64)
  | negInt (value : Int) (range : -2 ^ 63 ≤ value ∧ value < 0)
  | float (value : Binary64) (finite : value.isFinite = true)
  deriving DecidableEq

/-- A JSON value.  The members of an object are in the order of their keys. -/
inductive Value
  | null
  | bool (value : Bool)
  | number (value : Number)
  | string (text : String)
  | array (items : List Value)
  | object (members : List (String × Value))

/-- The members of an object. -/
abbrev JsonMap := List (String × Value)

/-- What the library does with texts. -/
structure JsonLibrary where
  fromStr : List Char → Option Value
  writeF64 : Binary64 → String
  writeStr : String → String

namespace Number

/-- The nearest float. -/
def asF64 : Number → Option Binary64
  | posInt value => some (Binary64.ofNat value.val)
  | negInt value _ => some (Binary64.ofMagnitude true (Binary64.scale * value.natAbs))
  | float value _ => some value

end Number

/-! ## The normalized text -/

variable (library : JsonLibrary)

mutual

/-- The text of a value with every number as a float. -/
def serializeValue : Value → Except String String
  | .null => .ok "null"
  | .bool value => .ok (if value then "true" else "false")
  | .number value =>
    match value.asF64.filter Binary64.isFinite with
    | some value => .ok (library.writeF64 value.normalized)
    | none => .error "Tool-call arguments contain a non-finite number"
  | .string text => .ok (library.writeStr text)
  | .array items => do
    let texts ← serializeItems items
    .ok ("[" ++ ",".intercalate texts ++ "]")
  | .object members => do
    let texts ← serializeMembers members
    .ok ("\x7b" ++ ",".intercalate texts ++ "\x7d")

def serializeItems : List Value → Except String (List String)
  | [] => .ok []
  | item :: items => do
    let text ← serializeValue item
    let texts ← serializeItems items
    .ok (text :: texts)

def serializeMembers : List (String × Value) → Except String (List String)
  | [] => .ok []
  | (key, value) :: members => do
    let text ← serializeValue value
    let texts ← serializeMembers members
    .ok ((library.writeStr key ++ ":" ++ text) :: texts)

end

/-- An encoder or a reducer rejected a transition or a payload. -/
structure FrameError where
  message : String
  deriving DecidableEq

def serializedArguments (arguments : JsonMap) : Except FrameError String :=
  match serializeValue library (.object arguments) with
  | .ok text => .ok text
  | .error _ => .error ⟨"Tool-call arguments are not JSON-serializable"⟩

/-! ## Prefixes -/

mutual

/-- Whether a value can have grown out of a snapshot. -/
def isJsonPrefix : Value → Value → Bool
  | .string snapshot, .string current => snapshot.toList.isPrefixOf current.toList
  | .array snapshot, .array current => isPrefixItems snapshot current
  | .object snapshot, .object current => isPrefixMembers snapshot current
  | .number snapshot, .number current =>
    match snapshot.asF64, current.asF64 with
    | some snapshot, some current => snapshot.bits == current.bits
    | _, _ => false
  | .null, .null => true
  | .bool snapshot, .bool current => snapshot == current
  | _, _ => false

/-- No fewer items, each with the snapshot's item in front. -/
def isPrefixItems : List Value → List Value → Bool
  | [], _ => true
  | _ :: _, [] => false
  | snapshot :: snapshots, current :: currents =>
    isJsonPrefix snapshot current && isPrefixItems snapshots currents

def isPrefixMembers : List (String × Value) → List (String × Value) → Bool
  | [], _ => true
  | (key, snapshot) :: snapshots, currents =>
    (match currents.lookup key with
      | some current => isJsonPrefix snapshot current
      | none => false) && isPrefixMembers snapshots currents

end

/-! ## Texts of arguments -/

/-- Every number has a finite float. -/
theorem Number.asF64_finite (number : Number) :
    ∃ value, number.asF64 = some value ∧ value.isFinite = true := by
  cases number with
  | posInt value =>
    exact ⟨_, rfl, Binary64.isFinite_ofMagnitude_scale false value.isLt.le⟩
  | negInt value range =>
    have hsize : value.natAbs ≤ 2 ^ 64 := by omega
    exact ⟨_, rfl, Binary64.isFinite_ofMagnitude_scale true hsize⟩
  | float value finite => exact ⟨value, rfl, finite⟩

mutual

theorem serializeValue_ok : ∀ value : Value, ∃ text, serializeValue library value = .ok text
  | .null => ⟨_, rfl⟩
  | .bool _ => ⟨_, rfl⟩
  | .number number => by
    obtain ⟨value, hvalue, hfin⟩ := number.asF64_finite
    rw [serializeValue, hvalue, Option.filter_some_pos hfin]
    exact ⟨_, rfl⟩
  | .string _ => ⟨_, rfl⟩
  | .array items => by
    obtain ⟨texts, htexts⟩ := serializeItems_ok items
    rw [serializeValue, htexts]
    exact ⟨_, rfl⟩
  | .object members => by
    obtain ⟨texts, htexts⟩ := serializeMembers_ok members
    rw [serializeValue, htexts]
    exact ⟨_, rfl⟩

theorem serializeItems_ok : ∀ items : List Value, ∃ texts, serializeItems library items = .ok texts
  | [] => ⟨[], rfl⟩
  | item :: items => by
    obtain ⟨text, htext⟩ := serializeValue_ok item
    obtain ⟨texts, htexts⟩ := serializeItems_ok items
    rw [serializeItems, htext, htexts]
    exact ⟨_, rfl⟩

theorem serializeMembers_ok :
    ∀ members : JsonMap, ∃ texts, serializeMembers library members = .ok texts
  | [] => ⟨[], rfl⟩
  | (_, value) :: members => by
    obtain ⟨text, htext⟩ := serializeValue_ok value
    obtain ⟨texts, htexts⟩ := serializeMembers_ok members
    rw [serializeMembers, htext, htexts]
    exact ⟨_, rfl⟩

end

/-- All arguments have a text. -/
theorem serializedArguments_ok (arguments : JsonMap) :
    ∃ text, serializedArguments library arguments = .ok text := by
  obtain ⟨text, htext⟩ := serializeValue_ok library (.object arguments)
  rw [serializedArguments, htext]
  exact ⟨text, rfl⟩

end PiOxidized.Ai
