/-
# Text of a string

The text a string of UTF-16 code units encodes, if it has no unpaired surrogate.  Text and the
strings that encode text determine each other.
-/

import PiOxidized.Service.Value

namespace PiOxidized.Service.JsString

open List Bool Option

/-- The character of a scalar value. -/
def scalar (n : Nat) : Option Char := if n.isValidChar then some (Char.ofNat n) else none

def isHigh (unit : UInt16) : Bool := 0xD800 ≤ unit.toNat && unit.toNat ≤ 0xDBFF

def isLow (unit : UInt16) : Bool := 0xDC00 ≤ unit.toNat && unit.toNat ≤ 0xDFFF

/-- The scalar value of a surrogate pair. -/
def pair (high low : UInt16) : Nat := 0x10000 + (high.toNat - 0xD800) * 0x400 + (low.toNat - 0xDC00)

/-- The characters some code units encode. -/
def scalars : List UInt16 → Option (List Char)
  | [] => some []
  | [unit] => (scalar unit.toNat).map fun c => [c]
  | unit :: next :: rest =>
    if isHigh unit && isLow next then
      (scalar (pair unit next)).bind fun c => (scalars rest).map (c :: ·)
    else (scalar unit.toNat).bind fun c => (scalars (next :: rest)).map (c :: ·)

def tryToUtf8 (s : JsString) : Option String := (scalars s.units).map String.ofList

variable {c : Char}

theorem scalar_toNat (c : Char) : scalar c.toNat = some c := by
  have hval : c.toNat.isValidChar := c.valid
  rw [scalar, if_pos hval, Char.ofNat_toNat]

theorem toNat_of_scalar {n : Nat} (h : scalar n = some c) : c.toNat = n := by
  rw [scalar] at h
  split_ifs at h with hval
  rw [← some.inj h]
  rw [Char.ofNat, dif_pos hval]
  rfl

/-- A character of the basic plane is no surrogate. -/
theorem isHigh_of_lt (h : c.toNat < 0x10000) : isHigh (UInt16.ofNat c.toNat) = false := by
  have hvalid := c.valid
  have htoNat : (UInt16.ofNat c.toNat).toNat = c.toNat := by
    rw [UInt16.toNat_ofNat', Nat.mod_eq_of_lt h]
  simp only [isHigh, htoNat, and_eq_false_iff, decide_eq_false_iff_not]
  simp only [UInt32.isValidChar, Nat.isValidChar] at hvalid
  have hval : c.val.toNat = c.toNat := rfl
  omega

theorem scalars_cons_of_lt (h : c.toNat < 0x10000) (units : List UInt16) :
    scalars (UInt16.ofNat c.toNat :: units) = (scalars units).map (c :: ·) := by
  have htoNat : (UInt16.ofNat c.toNat).toNat = c.toNat := by
    rw [UInt16.toNat_ofNat', Nat.mod_eq_of_lt h]
  cases units with
  | nil =>
    rw [scalars.eq_2, htoNat, scalar_toNat]
    rfl
  | cons next rest =>
    rw [scalars, isHigh_of_lt h, htoNat, scalar_toNat]
    rfl

/-- What is encoded before other units is read before them. -/
theorem scalars_encodeUtf16 (c : Char) (units : List UInt16) :
    scalars (encodeUtf16 c ++ units) = (scalars units).map (c :: ·) := by
  rw [encodeUtf16]
  split_ifs with h
  · exact scalars_cons_of_lt h units
  · have hvalid := c.valid
    have hbound : c.toNat < 0x110000 := by
      simp only [UInt32.isValidChar, Nat.isValidChar] at hvalid
      have hval : c.val.toNat = c.toNat := rfl
      omega
    have hhigh : (UInt16.ofNat (0xD800 + (c.toNat - 0x10000) / 0x400)).toNat =
        0xD800 + (c.toNat - 0x10000) / 0x400 := by
      rw [UInt16.toNat_ofNat', Nat.mod_eq_of_lt]
      omega
    have hlow : (UInt16.ofNat (0xDC00 + (c.toNat - 0x10000) % 0x400)).toNat =
        0xDC00 + (c.toNat - 0x10000) % 0x400 := by
      rw [UInt16.toNat_ofNat', Nat.mod_eq_of_lt]
      omega
    have hpair : (isHigh (UInt16.ofNat (0xD800 + (c.toNat - 0x10000) / 0x400)) &&
        isLow (UInt16.ofNat (0xDC00 + (c.toNat - 0x10000) % 0x400))) = true := by
      simp only [isHigh, isLow, hhigh, hlow, and_eq_true, decide_eq_true_eq]
      omega
    have hvalue : pair (UInt16.ofNat (0xD800 + (c.toNat - 0x10000) / 0x400))
        (UInt16.ofNat (0xDC00 + (c.toNat - 0x10000) % 0x400)) = c.toNat := by
      unfold pair
      rw [hhigh, hlow]
      omega
    rw [cons_append, cons_append, nil_append, scalars, if_pos hpair, hvalue, scalar_toNat]
    rfl

theorem scalars_flatMap (text : List Char) : scalars (text.flatMap encodeUtf16) = some text := by
  induction text with
  | nil => rfl
  | cons c text ih =>
    rw [flatMap_cons, scalars_encodeUtf16, ih]
    rfl

/-- Text is recovered from its string. -/
@[simp]
theorem tryToUtf8_fromUtf8 (text : String) : (fromUtf8 text).tryToUtf8 = some text := by
  rw [tryToUtf8, fromUtf8, scalars_flatMap, map_some, String.ofList_toList]

theorem encodeUtf16_of_unit {unit : UInt16} (h : scalar unit.toNat = some c) :
    encodeUtf16 c = [unit] := by
  have htoNat := toNat_of_scalar h
  have hlt : c.toNat < 0x10000 := by
    have hunit := unit.toNat_lt
    omega
  rw [encodeUtf16, if_pos hlt, htoNat, UInt16.ofNat_toNat]

theorem encodeUtf16_of_pair {high low : UInt16} (hhigh : isHigh high = true)
    (hlow : isLow low = true) (h : scalar (pair high low) = some c) :
    encodeUtf16 c = [high, low] := by
  have htoNat := toNat_of_scalar h
  simp only [isHigh, isLow, and_eq_true, decide_eq_true_eq] at hhigh hlow
  unfold pair at htoNat
  have hfst : 0xD800 + (c.toNat - 0x10000) / 0x400 = high.toNat := by omega
  have hsnd : 0xDC00 + (c.toNat - 0x10000) % 0x400 = low.toNat := by omega
  rw [encodeUtf16, if_neg (by omega), hfst, hsnd, UInt16.ofNat_toNat, UInt16.ofNat_toNat]

theorem flatMap_of_scalars {units : List UInt16} {text : List Char} (h : scalars units = some text) :
    text.flatMap encodeUtf16 = units := by
  induction units using scalars.induct generalizing text with
  | case1 =>
    rw [scalars] at h
    rw [← some.inj h]
    rfl
  | case2 unit =>
    rw [scalars] at h
    obtain ⟨c, hc, rfl⟩ := map_eq_some_iff.mp h
    rw [flatMap_singleton, encodeUtf16_of_unit hc]
  | case3 unit next rest hpair ih =>
    rw [scalars, if_pos hpair] at h
    obtain ⟨c, hc, hrest⟩ := bind_eq_some_iff.mp h
    obtain ⟨more, hmore, rfl⟩ := map_eq_some_iff.mp hrest
    rw [and_eq_true] at hpair
    rw [flatMap_cons, encodeUtf16_of_pair hpair.1 hpair.2 hc, ih hmore]
    rfl
  | case4 unit next rest hpair ih =>
    rw [scalars, if_neg hpair] at h
    obtain ⟨c, hc, hrest⟩ := bind_eq_some_iff.mp h
    obtain ⟨more, hmore, rfl⟩ := map_eq_some_iff.mp hrest
    rw [flatMap_cons, encodeUtf16_of_unit hc, ih hmore]
    rfl

/-- A string is recovered from its text. -/
theorem fromUtf8_of_tryToUtf8 {s : JsString} {text : String} (h : s.tryToUtf8 = some text) :
    fromUtf8 text = s := by
  obtain ⟨chars, hchars, rfl⟩ := map_eq_some_iff.mp h
  rw [fromUtf8, String.toList_ofList, flatMap_of_scalars hchars]

/-- A string has a text exactly when it encodes it. -/
theorem tryToUtf8_eq_some_iff (s : JsString) (text : String) :
    s.tryToUtf8 = some text ↔ s = fromUtf8 text :=
  ⟨fun h => (fromUtf8_of_tryToUtf8 h).symm, fun h => h ▸ tryToUtf8_fromUtf8 text⟩

end PiOxidized.Service.JsString
