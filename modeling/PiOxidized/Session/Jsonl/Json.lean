/-
# JSON values

Values as the serialization library holds them, with the readers of single fields.
The text of a value is the library's: it is a pair of functions, and what is relied
on is that the text of a value reads back as the value and fits on one line.  What is
read has its members in the order of their keys, whatever their order in the text.
-/

import PiOxidized.Math.Binary64
import PiOxidized.Math.U64

namespace PiOxidized.Session.Jsonl

open List Math

/-- A JSON value. -/
inductive Json
  | null
  | bool (value : Bool)
  | int (value : Int)
  | float (value : Binary64)
  | string (text : String)
  | array (items : List Json)
  | object (members : List (String × Json))

/-- How values are written as text and read from it. -/
structure JsonText where
  write : Json → List Char
  read : List Char → Option Json

/-- A value whose text is one line that is not empty and reads as a value: as itself, if its
members are in order. -/
structure JsonText.Faithful (text : JsonText) (written value : Json) : Prop where
  read : text.read (text.write written) = some value
  line : '\n' ∉ text.write written
  nonempty : text.write written ≠ []

namespace Json

/-- A member of an object. -/
def get? (value : Json) (key : String) : Option Json := match value with
  | object members => members.lookup key
  | _ => none

/-- What a slot for an optional value holds. -/
def ofOption {X : Type} (write : X → Json) : Option X → Json
  | none => null
  | some value => write value

def ofU64 (n : U64) : Json := int n.val

/-- A number that is not finite has no JSON form. -/
def ofF64 (x : Binary64) : Json := if x.isFinite then float x else null

/-! ## Readers -/

def readString : Json → Option String
  | string text => some text
  | _ => none

def readBool : Json → Option Bool
  | bool value => some value
  | _ => none

def readU64 : Json → Option U64
  | int n => if h : n.toNat < 2 ^ 64 ∧ 0 ≤ n then some ⟨n.toNat, h.1⟩ else none
  | _ => none

def readI64 : Json → Option Int
  | int n => if -2 ^ 63 ≤ n ∧ n < 2 ^ 63 then some n else none
  | _ => none

/-- A floating-point field takes any number. -/
def readF64 : Json → Option Binary64
  | float x => some x
  | int n => some (Binary64.ofMagnitude (decide (n < 0)) (Binary64.scale * n.natAbs))
  | _ => none

/-- Any value. -/
def readAny (value : Json) : Option Json := some value

def readArray {X : Type} (read : Json → Option X) : Json → Option (List X)
  | array items => items.mapM read
  | _ => none

variable {X : Type} (read : Json → Option X) (value : Json) (key : String)

/-- A field that must be there. -/
def required : Option X := (value.get? key).bind read

/-- A field that may be missing; a null counts as missing. -/
def optional : Option (Option X) := match value.get? key with
  | none => some none
  | some .null => some none
  | some field => (read field).map some

/-- A field with a default. -/
def defaulted (default : X) : Option X := match value.get? key with
  | none => some default
  | some field => read field

variable {write : X → Json}

@[simp]
theorem readString_string (text : String) : readString (string text) = some text := rfl

@[simp]
theorem readBool_bool (b : Bool) : readBool (bool b) = some b := rfl

@[simp]
theorem readU64_ofU64 (n : U64) : readU64 (ofU64 n) = some n := by
  have hbound : ((n.val : Int)).toNat < 2 ^ 64 ∧ (0 : Int) ≤ n.val :=
    ⟨by rw [Int.toNat_natCast]; exact n.isLt, Int.natCast_nonneg _⟩
  rw [ofU64, readU64, dif_pos hbound]
  rfl

theorem readI64_int {n : Int} (h : -2 ^ 63 ≤ n ∧ n < 2 ^ 63) : readI64 (int n) = some n := if_pos h

theorem readF64_ofF64 {x : Binary64} (h : x.isFinite = true) : readF64 (ofF64 x) = some x := by
  rw [ofF64, if_pos h]
  rfl

theorem readArray_array {items : List X} (h : ∀ item ∈ items, read (write item) = some item) :
    readArray read (array (items.map write)) = some items := by
  rw [readArray]
  induction items with
  | nil => rfl
  | cons item items ih =>
    rw [map_cons, mapM_cons, h item mem_cons_self,
      ih fun other hoth => h other (mem_cons_of_mem _ hoth)]
    rfl

/-- A value that is written as null reads back as no value, so one whose own form is null is
lost. -/
theorem optional_ofOption {field : Option X} (hget : value.get? key = some (ofOption write field))
    (hread : ∀ x : X, field = some x → read (write x) = some x)
    (hnull : ∀ x : X, field = some x → write x ≠ .null) :
    value.optional read key = some field := by
  rw [optional, hget]
  cases field with
  | none => rfl
  | some x =>
    have hx := hnull x rfl
    rw [ofOption]
    split
    · contradiction
    · rename_i heq
      exact absurd (Option.some.inj heq) hx
    · rename_i other heq
      rw [← Option.some.inj heq, hread x rfl]
      rfl

/-! ## A text of some values -/

/-- A text in quotes, with what cannot stand in it escaped. -/
def quoted (text : String) : List Char := '"' :: text.toList.flatMap (fun c =>
    if c = '"' then ['\\', '"'] else if c = '\\' then ['\\', '\\']
    else if c = '\n' then ['\\', 'n'] else [c]) ++ ['"']

mutual

/-- The text of a value without spaces, its members as they stand.  The values it is used for hold
no fractions. -/
def print : Json → List Char
  | null => "null".toList
  | bool true => "true".toList
  | bool false => "false".toList
  | int n => (toString n).toList
  | float _ => "0.0".toList
  | string text => quoted text
  | array items => '[' :: printItems items ++ [']']
  | object members => '{' :: printMembers members ++ ['}']

def printItems : List Json → List Char
  | [] => []
  | [item] => print item
  | item :: items => print item ++ ',' :: printItems items

def printMembers : List (String × Json) → List Char
  | [] => []
  | [(key, value)] => quoted key ++ ':' :: print value
  | (key, value) :: members => quoted key ++ ':' :: print value ++ ',' :: printMembers members

end

end Json

/-- The texts of some values, each read as the value beside the first one that has it. -/
def JsonText.ofValues (values : List (Json × Json)) : JsonText where
  write := Json.print
  read line := (values.find? fun value => value.1.print == line).map Prod.snd

theorem JsonText.faithful_ofValues {before after : List (Json × Json)} {written value : Json}
    (hpre : ∀ other ∈ before, (other.1.print == written.print) = false)
    (hline : '\n' ∉ written.print) (hne : written.print ≠ []) :
    (JsonText.ofValues (before ++ (written, value) :: after)).Faithful written value where
  read := by
    have hnone : before.find? (fun other => other.1.print == written.print) = none := by
      rw [find?_eq_none]
      intro other hoth
      rw [hpre other hoth]
      exact Bool.false_ne_true
    change ((before ++ (written, value) :: after).find? fun other =>
      other.1.print == written.print).map Prod.snd = some value
    have hself : (written.print == written.print) = true := beq_self_eq_true _
    rw [find?_append, hnone, Option.none_or, find?_cons, hself]
    rfl
  line := hline
  nonempty := hne

end PiOxidized.Session.Jsonl
