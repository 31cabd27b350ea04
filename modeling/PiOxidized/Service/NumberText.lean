/-
# ECMAScript number spelling

The digits come from the float formatter of a JSON library outside the
repository, taken as the parameter `SerdeJson`; this module models what the
source does with that spelling: split it into bare digits and a decimal
exponent, then place the digits by the ECMAScript rules.
-/

import PiOxidized.Service.JsonValue

namespace PiOxidized.Service

open Math

/-- The foreign formatter: the decimal spelling of a finite number. -/
class SerdeJson where
  /-- `serde_json::Number::from_f64(value).to_string()`. -/
  numberToString : Binary64 → String

/-- The formatter on integral numbers below `10 ^ 16`: plain digits and one
fractional zero. -/
@[reducible]
def SerdeJson.integral : SerdeJson := ⟨fun value => toString value.toNat ++ ".0"⟩

namespace NumberText

/-- The decimal digits of a text, when every character is one. -/
def parseDigits : List Char → Option Nat
  | [] => none
  | digits => if digits.all Char.isDigit then
      some (digits.foldl (fun acc c => 10 * acc + (c.toNat - '0'.toNat)) 0) else none

/-- `str::parse::<i32>`. -/
def parseI32 : List Char → Option Int
  | '-' :: digits => (parseDigits digits).bind fun n =>
    if n ≤ 2 ^ 31 then some (-(n : Int)) else none
  | '+' :: digits => (parseDigits digits).bind fun n =>
    if n < 2 ^ 31 then some (n : Int) else none
  | digits => (parseDigits digits).bind fun n =>
    if n < 2 ^ 31 then some (n : Int) else none

/-- `str::split_once` at a character. -/
def splitOnce (sep : Char) (text : List Char) : Option (List Char × List Char) :=
  if text.contains sep then
    some (text.takeWhile (· != sep), (text.dropWhile (· != sep)).drop 1)
  else none

/-- Split a decimal spelling into normalized digits and the exponent `n` with
value `0.digits * 10 ^ n`. -/
def normalizeDecimal (text : List Char) : List Char × Int :=
  let (mantissa, exponent) := match (splitOnce 'e' text).or (splitOnce 'E' text) with
    | some (mantissa, exponent) => (mantissa, (parseI32 exponent).getD 0)
    | none => (text, 0)
  let digits := mantissa.filter Char.isDigit
  let beforeDot := ((mantissa.takeWhile (· != '.')).filter Char.isDigit).length
  let leading := (digits.takeWhile (· == '0')).length
  let end_ := digits.length - (digits.reverse.takeWhile (· == '0')).length
  if end_ ≤ leading then (['0'], 1)
  else ((digits.take end_).drop leading, (beforeDot : Int) + exponent - leading)

/-- Place digits by the ECMAScript `Number::toString` selection rules. -/
def placeDigits (digits : List Char) (exponent : Int) : List Char :=
  let count : Int := digits.length
  if count ≤ exponent && exponent ≤ 21 then
    digits ++ List.replicate (exponent - count).toNat '0'
  else if 0 < exponent && exponent ≤ 21 then
    digits.take exponent.toNat ++ '.' :: digits.drop exponent.toNat
  else if -6 < exponent && exponent ≤ 0 then
    '0' :: '.' :: List.replicate (-exponent).toNat '0' ++ digits
  else
    digits.take 1 ++ (if 1 < digits.length then '.' :: digits.drop 1 else []) ++
      'e' :: (if exponent - 1 < 0 then '-' else '+') :: (toString (exponent - 1).natAbs).toList

end NumberText

section

variable [SerdeJson]

/-- Spell a number exactly as ECMAScript `Number::toString` does. -/
def jsNumberToString (value : Binary64) : String := if value.isNaN then "NaN"
  else if !value.isFinite then if value.isSignNegative then "-Infinity" else "Infinity"
  else if value.isZero then "0"
  else
    let magnitude : Binary64 := ⟨UInt64.ofNat (value.word % 2 ^ 63)⟩
    let (digits, exponent) := NumberText.normalizeDecimal (SerdeJson.numberToString magnitude).toList
    String.ofList ((if value.isSignNegative then ['-'] else []) ++
      NumberText.placeDigits digits exponent)

end

end PiOxidized.Service
