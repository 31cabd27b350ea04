/-
# Values and their bytes

An encoder that succeeds has written the shortest bytes of a value, and the decoder reads the value
back from them.  What the decoder accepts is admitted by the encoder, apart from one integer, and
its shortest bytes are not longer.
-/

import PiOxidized.Math.Fallible
import PiOxidized.Remote.Cbor

namespace PiOxidized.Remote

open List Math

/-! ## The shortest bytes -/

/-- The shortest head with some argument. -/
def argumentBytes (majorType value : Nat) : List UInt8 :=
  if value < 24 then [UInt8.ofNat (majorType * 32 + value)]
  else if value < 2 ^ 8 then [UInt8.ofNat (majorType * 32 + 0x18), UInt8.ofNat value]
  else if value < 2 ^ 16 then UInt8.ofNat (majorType * 32 + 0x19) :: BigEndian.encode 2 value
  else if value < 2 ^ 32 then UInt8.ofNat (majorType * 32 + 0x1a) :: BigEndian.encode 4 value
  else UInt8.ofNat (majorType * 32 + 0x1b) :: BigEndian.encode 8 value

/-- A text with its head. -/
def textEncoding (value : String) : List UInt8 :=
  argumentBytes 3 (textBytes value).length ++ textBytes value

mutual

/-- The shortest bytes of a value. -/
def encoding : CborValue → List UInt8
  | .null => [0xf6]
  | .bool true => [0xf5]
  | .bool false => [0xf4]
  | .uint number => argumentBytes 0 number
  | .nint number => argumentBytes 1 (-1 - number).toNat
  | .float number => 0xfb :: BigEndian.encode 8 number.word
  | .text value => textEncoding value
  | .bytes value => argumentBytes 2 value.length ++ value
  | .array values => argumentBytes 4 values.length ++ itemsEncoding values
  | .map entries => argumentBytes 5 entries.length ++ entriesEncoding entries

def itemsEncoding : List CborValue → List UInt8
  | [] => []
  | value :: values => encoding value ++ itemsEncoding values

def entriesEncoding : List (String × CborValue) → List UInt8
  | [] => []
  | (key, value) :: entries => textEncoding key ++ (encoding value ++ entriesEncoding entries)

end

/-! ## Admitted values -/

/-- What can be encoded in some levels of nesting, with the negative integers from a bound on. -/
inductive Admitted (low : Int) : CborValue → Nat → Prop
  | null (levels : Nat) : Admitted low .null (levels + 1)
  | bool (value : Bool) (levels : Nat) : Admitted low (.bool value) (levels + 1)
  | uint {number : Nat} (levels : Nat) (hsafe : number ≤ maxSafeCborInteger) :
      Admitted low (.uint number) (levels + 1)
  | nint {number : Int} (levels : Nat) (hneg : number < 0) (hsafe : low ≤ number) :
      Admitted low (.nint number) (levels + 1)
  | float {number : Binary64} (levels : Nat) (hfinite : number.isFinite = true)
      (hsafe : unsafeNumber number = false) : Admitted low (.float number) (levels + 1)
  | text (value : String) (levels : Nat) : Admitted low (.text value) (levels + 1)
  | bytes (value : List UInt8) (levels : Nat) : Admitted low (.bytes value) (levels + 1)
  | array {values : List CborValue} {levels : Nat}
      (hlength : values.length ≤ defaultMaxCborContainerLength)
      (hvalues : ∀ value ∈ values, Admitted low value levels) :
      Admitted low (.array values) (levels + 1)
  | map {entries : List (String × CborValue)} {levels : Nat}
      (hlength : entries.length ≤ defaultMaxCborContainerLength)
      (hkeys : (entries.map Prod.fst).Nodup)
      (hentries : ∀ entry ∈ entries, Admitted low entry.2 levels) :
      Admitted low (.map entries) (levels + 1)

variable {low : Int} {value : CborValue} {levels depth : Nat}

/-! ### Admitted values are valid -/

/-- Distinct keys, none of them among those seen before. -/
def Fresh (entries : List (String × CborValue)) (keys : List String) : Prop :=
  (entries.map Prod.fst).Nodup ∧ ∀ entry ∈ entries, entry.1 ∉ keys

variable {entries : List (String × CborValue)} {keys : List String}

theorem fresh_nil : Fresh [] keys := ⟨nodup_nil, fun _ hmem => absurd hmem not_mem_nil⟩

theorem fresh_iff : Fresh entries [] ↔ (entries.map Prod.fst).Nodup :=
  and_iff_left fun _ _ => not_mem_nil

theorem fresh_cons {key : String} :
    Fresh ((key, value) :: entries) keys ↔ key ∉ keys ∧ Fresh entries (key :: keys) := by
  rw [Fresh, Fresh, map_cons, nodup_cons, forall_mem_cons, mem_map]
  simp only [mem_cons, not_or]
  constructor
  · intro h
    refine ⟨h.2.1, h.1.2, ?_⟩
    intro entry hmem
    exact ⟨fun heq => h.1.1 ⟨entry, hmem, heq⟩, h.2.2 entry hmem⟩
  · intro h
    refine ⟨⟨?_, h.2.1⟩, h.1, fun entry hmem => (h.2.2 entry hmem).2⟩
    rintro ⟨entry, hmem, heq⟩
    exact (h.2.2 entry hmem).1 heq

theorem validateItems_eq_ok {values : List CborValue}
    (h : ∀ value ∈ values, validateCborValue value depth = .ok ()) :
    validateItems values depth = .ok () := by
  induction values with
  | nil => rw [validateItems]
  | cons value values ih =>
    rw [validateItems, h value mem_cons_self]
    exact ih fun other hmem => h other (mem_cons_of_mem _ hmem)

theorem validateEntries_eq_ok (hfrs : Fresh entries keys)
    (h : ∀ entry ∈ entries, validateCborValue entry.2 depth = .ok ()) :
    validateEntries entries keys depth = .ok () := by
  induction entries generalizing keys with
  | nil => rw [validateEntries]
  | cons entry entries ih =>
    obtain ⟨key, value⟩ := entry
    obtain ⟨hnew, hfrs⟩ := fresh_cons.mp hfrs
    rw [validateEntries, if_neg hnew, h _ mem_cons_self]
    exact ih hfrs fun other hmem => h other (mem_cons_of_mem _ hmem)

theorem Admitted.validate (h : Admitted (-(maxSafeCborInteger : Int)) value levels)
    (hdepth : depth + levels = defaultMaxCborDepth + 1) :
    validateCborValue value depth = .ok () := by
  induction h generalizing depth with
  | null levels | bool value levels | text value levels | bytes value levels =>
    rw [validateCborValue, if_neg (by omega)]
  | uint levels hsafe =>
    rw [validateCborValue, if_neg (by omega)]
    exact if_neg (Nat.not_lt.mpr hsafe)
  | nint levels hneg hsafe =>
    rw [validateCborValue, if_neg (by omega)]
    exact if_neg (Int.not_lt.mpr hsafe)
  | float levels hfin hsafe =>
    rw [validateCborValue, if_neg (by omega)]
    simp only [hfin, hsafe]
    rfl
  | array hlen hvals ih =>
    rw [validateCborValue, if_neg (by omega)]
    simp only [if_neg (Nat.not_lt.mpr hlen)]
    exact validateItems_eq_ok fun value hmem => ih value hmem (by omega)
  | map hlen hkeys hents ih =>
    rw [validateCborValue, if_neg (by omega)]
    simp only [if_neg (Nat.not_lt.mpr hlen)]
    exact validateEntries_eq_ok (fresh_iff.mpr hkeys) fun entry hmem =>
      ih entry hmem (by omega)

/-! ## What an encoder writes -/

section Writing

variable {opts : CborOptions} {buf res : List UInt8}

theorem writeBytes_eq_ok_iff {bytes : List UInt8} : writeBytes opts bytes buf = .ok res ↔
      res = buf ++ bytes ∧ buf.length + bytes.length ≤ opts.maxByteLength := by
  rw [writeBytes]
  split_ifs with hlim
  · constructor
    · intro h
      cases h
    · intro h
      omega
  · constructor
    · intro h
      exact ⟨(Except.ok.inj h).symm, Nat.not_lt.mp hlim⟩
    · intro h
      rw [h.1]

/-- Two writes are one write of both. -/
theorem writeBytes_append (bytes more : List UInt8) :
    (writeBytes opts bytes buf >>= writeBytes opts more) = writeBytes opts (bytes ++ more) buf := by
  by_cases hfst : opts.maxByteLength < buf.length + bytes.length
  · have hboth : opts.maxByteLength < buf.length + (bytes ++ more).length := by
      rw [length_append]
      omega
    rw [writeBytes, if_pos hfst, writeBytes, if_pos hboth]
    rfl
  · have hwrt : writeBytes opts bytes buf = .ok (buf ++ bytes) := by
      rw [writeBytes, if_neg hfst]
    have hnext : writeBytes opts more (buf ++ bytes) = writeBytes opts (bytes ++ more) buf := by
      simp only [writeBytes, length_append, append_assoc, Nat.add_assoc]
    rw [hwrt]
    exact hnext

/-- A head is written at once. -/
theorem writeArgument_eq (majorType value : Nat) (buf : List UInt8) :
    writeArgument opts majorType value buf =
      writeBytes opts (argumentBytes majorType value) buf := by
  rw [writeArgument, argumentBytes]
  split_ifs
  · rfl
  · exact writeBytes_append _ _
  · exact writeBytes_append _ _
  · exact writeBytes_append _ _
  · exact writeBytes_append _ _

theorem encodeText_eq_ok_iff {value : String} : encodeText opts value buf = .ok res ↔
      res = buf ++ textEncoding value ∧
        buf.length + (textEncoding value).length ≤ opts.maxByteLength := by
  have hlen : (textBytes value).length ≤ (textEncoding value).length := by
    rw [textEncoding, length_append]
    exact Nat.le_add_left _ _
  have hwrt : (writeArgument opts 3 (textBytes value).length buf >>=
      writeBytes opts (textBytes value)) = writeBytes opts (textEncoding value) buf := by
    rw [writeArgument_eq]
    exact writeBytes_append _ _
  rw [encodeText]
  split_ifs with hlim
  · constructor
    · intro h
      cases h
    · intro h
      omega
  · exact (iff_of_eq (congrArg (· = _) hwrt)).trans writeBytes_eq_ok_iff

/-- A value with room for its bytes is written. -/
abbrev Writes (options : CborOptions) (depth : Nat) (value : CborValue) : Prop :=
  ∀ buf : List UInt8, buf.length + (encoding value).length ≤ options.maxByteLength →
    encodeValue options value depth buf = .ok (buf ++ encoding value)

variable {values : List CborValue}

theorem encodeItems_eq_ok (h : ∀ value ∈ values, Writes opts depth value) (buf : List UInt8)
    (hroom : buf.length + (itemsEncoding values).length ≤ opts.maxByteLength) :
    encodeItems opts values depth buf = .ok (buf ++ itemsEncoding values) := by
  induction values generalizing buf with
  | nil => rw [encodeItems, itemsEncoding, append_nil]
  | cons value values ih =>
    rw [itemsEncoding, length_append] at hroom
    have hhead := h value mem_cons_self buf (by omega)
    have htail := ih (fun other hmem => h other (mem_cons_of_mem _ hmem))
      (buf ++ encoding value) (by rw [length_append]; omega)
    rw [encodeItems, hhead, itemsEncoding, ← append_assoc]
    exact htail

theorem encodeEntries_eq_ok (h : ∀ entry ∈ entries, Writes opts depth entry.2) (buf : List UInt8)
    (hroom : buf.length + (entriesEncoding entries).length ≤ opts.maxByteLength) :
    encodeEntries opts entries depth buf = .ok (buf ++ entriesEncoding entries) := by
  induction entries generalizing buf with
  | nil => rw [encodeEntries, entriesEncoding, append_nil]
  | cons entry entries ih =>
    obtain ⟨key, value⟩ := entry
    rw [entriesEncoding, length_append, length_append] at hroom
    have hkey : encodeText opts key buf = .ok (buf ++ textEncoding key) :=
      encodeText_eq_ok_iff.mpr ⟨rfl, by omega⟩
    have hvalue : Writes opts depth value := h _ mem_cons_self
    have hhead := hvalue (buf ++ textEncoding key) (by rw [length_append]; omega)
    have htail := ih (fun other hmem => h other (mem_cons_of_mem _ hmem))
      (buf ++ textEncoding key ++ encoding value) (by rw [length_append, length_append]; omega)
    rw [encodeEntries, hkey, entriesEncoding, ← append_assoc, ← append_assoc]
    exact (congrArg (· >>= _) hhead).trans htail

/-- An admitted value is written when there is room for it. -/
theorem Admitted.writes (h : Admitted (-(maxSafeCborInteger : Int)) value levels)
    (hlen : opts.maxContainerLength = defaultMaxCborContainerLength)
    (hdepth : depth + levels = opts.maxDepth + 1) : Writes opts depth value := by
  induction h generalizing depth with
  | null levels =>
    intro buf hroom
    rw [encodeValue, if_neg (by omega)]
    exact writeBytes_eq_ok_iff.mpr ⟨rfl, hroom⟩
  | bool value levels =>
    intro buf hroom
    cases value with
    | false | true =>
      rw [encodeValue, if_neg (by omega)]
      exact writeBytes_eq_ok_iff.mpr ⟨rfl, hroom⟩
  | uint levels hsafe =>
    intro buf hroom
    rw [encodeValue, if_neg (by omega)]
    simp only [if_neg (Nat.not_lt.mpr hsafe), writeArgument_eq]
    exact writeBytes_eq_ok_iff.mpr ⟨rfl, hroom⟩
  | nint levels hneg hsafe =>
    intro buf hroom
    rw [encodeValue, if_neg (by omega)]
    simp only [if_neg (Int.not_lt.mpr hsafe), writeArgument_eq]
    rw [if_neg (by omega)]
    exact writeBytes_eq_ok_iff.mpr ⟨rfl, hroom⟩
  | @float number levels hfin hsafe =>
    intro buf hroom
    rw [encodeValue, if_neg (by omega)]
    simp only [hfin, hsafe]
    have hbytes : (writeBytes opts [0xfb] buf >>=
        writeBytes opts (BigEndian.encode 8 number.word)) = _ := writeBytes_append _ _
    exact hbytes.trans (writeBytes_eq_ok_iff.mpr ⟨rfl, hroom⟩)
  | text value levels =>
    intro buf hroom
    rw [encodeValue, if_neg (by omega)]
    exact encodeText_eq_ok_iff.mpr ⟨rfl, hroom⟩
  | bytes value levels =>
    intro buf hroom
    rw [encodeValue, if_neg (by omega)]
    have hfits : ¬ opts.maxByteLength < value.length := by
      rw [encoding, length_append] at hroom
      omega
    simp only [if_neg hfits, writeArgument_eq]
    exact (writeBytes_append _ _).trans (writeBytes_eq_ok_iff.mpr ⟨rfl, hroom⟩)
  | @array values levels hvals hmem ih =>
    intro buf hroom
    rw [encoding, length_append] at hroom
    rw [encodeValue, if_neg (by omega)]
    have hhead : writeArgument opts 4 values.length buf =
        .ok (buf ++ argumentBytes 4 values.length) := by
      rw [writeArgument_eq]
      exact writeBytes_eq_ok_iff.mpr ⟨rfl, by omega⟩
    have hbelow : depth + 1 + levels = opts.maxDepth + 1 := by omega
    have hitems := encodeItems_eq_ok (fun value hvalue => ih value hvalue hbelow)
      (buf ++ argumentBytes 4 values.length) (by rw [length_append]; omega)
    rw [hlen]
    simp only [if_neg (Nat.not_lt.mpr hvals), hhead]
    rw [encoding, ← append_assoc]
    exact hitems
  | @map entries levels hents hkeys hmem ih =>
    intro buf hroom
    rw [encoding, length_append] at hroom
    rw [encodeValue, if_neg (by omega)]
    have hhead : writeArgument opts 5 entries.length buf =
        .ok (buf ++ argumentBytes 5 entries.length) := by
      rw [writeArgument_eq]
      exact writeBytes_eq_ok_iff.mpr ⟨rfl, by omega⟩
    have hbelow : depth + 1 + levels = opts.maxDepth + 1 := by omega
    have hall := encodeEntries_eq_ok (fun entry hent => ih entry hent hbelow)
      (buf ++ argumentBytes 5 entries.length) (by rw [length_append]; omega)
    rw [hlen]
    simp only [if_neg (Nat.not_lt.mpr hents), hhead]
    rw [encoding, ← append_assoc]
    exact hall

/-- A valid value that is written is admitted, and its bytes are those written. -/
abbrev Written (options : CborOptions) (value : CborValue) : Prop :=
  ∀ {depth levels : Nat} {buf result : List UInt8}, depth + levels = defaultMaxCborDepth + 1 →
    validateCborValue value depth = .ok () → encodeValue options value depth buf = .ok result →
      Admitted (-(maxSafeCborInteger : Int)) value levels ∧ result = buf ++ encoding value

theorem written_items (h : ∀ value ∈ values, Written opts value)
    (hdepth : depth + levels = defaultMaxCborDepth + 1)
    (hval : validateItems values depth = .ok ())
    (henc : encodeItems opts values depth buf = .ok res) :
    (∀ value ∈ values, Admitted (-(maxSafeCborInteger : Int)) value levels) ∧
      res = buf ++ itemsEncoding values := by
  induction values generalizing buf with
  | nil =>
    rw [encodeItems] at henc
    rw [itemsEncoding, append_nil]
    exact ⟨fun _ hmem => absurd hmem not_mem_nil, (Except.ok.inj henc).symm⟩
  | cons value values ih =>
    rw [validateItems] at hval
    rw [encodeItems] at henc
    obtain ⟨⟨⟩, hvalue, hval⟩ := bind_ok hval
    obtain ⟨next, hnext, henc⟩ := bind_ok henc
    obtain ⟨hhead, rfl⟩ := h value mem_cons_self hdepth hvalue hnext
    obtain ⟨htail, rfl⟩ := ih (fun other hmem => h other (mem_cons_of_mem _ hmem)) hval henc
    exact ⟨forall_mem_cons.mpr ⟨hhead, htail⟩, by rw [itemsEncoding, append_assoc]⟩

theorem written_entries (h : ∀ entry ∈ entries, Written opts entry.2)
    (hdepth : depth + levels = defaultMaxCborDepth + 1)
    (hval : validateEntries entries keys depth = .ok ())
    (henc : encodeEntries opts entries depth buf = .ok res) :
    Fresh entries keys ∧
      (∀ entry ∈ entries, Admitted (-(maxSafeCborInteger : Int)) entry.2 levels) ∧
      res = buf ++ entriesEncoding entries := by
  induction entries generalizing buf keys with
  | nil =>
    rw [encodeEntries] at henc
    rw [entriesEncoding, append_nil]
    exact ⟨fresh_nil, fun _ hmem => absurd hmem not_mem_nil, (Except.ok.inj henc).symm⟩
  | cons entry entries ih =>
    obtain ⟨key, value⟩ := entry
    rw [validateEntries] at hval
    split_ifs at hval with hseen
    rw [encodeEntries] at henc
    obtain ⟨⟨⟩, hvalue, hval⟩ := bind_ok hval
    obtain ⟨named, hkey, henc⟩ := bind_ok henc
    obtain ⟨next, hnext, henc⟩ := bind_ok henc
    obtain ⟨hhead, rfl⟩ := h _ mem_cons_self hdepth hvalue hnext
    obtain ⟨rfl, -⟩ := encodeText_eq_ok_iff.mp hkey
    obtain ⟨hfrs, htail, rfl⟩ := ih (fun other hmem => h other (mem_cons_of_mem _ hmem)) hval henc
    refine ⟨fresh_cons.mpr ⟨hseen, hfrs⟩, forall_mem_cons.mpr ⟨hhead, htail⟩, ?_⟩
    rw [entriesEncoding, append_assoc, append_assoc]

theorem exists_levels (hval : validateCborValue value depth = .ok ())
    (hdepth : depth + levels = defaultMaxCborDepth + 1) : ∃ below, levels = below + 1 := by
  have hle : depth ≤ defaultMaxCborDepth := by
    by_contra hnot
    cases value <;> rw [validateCborValue, if_pos (Nat.not_le.mp hnot)] at hval <;> cases hval
  exact ⟨defaultMaxCborDepth - depth, by omega⟩

theorem written (value : CborValue) : Written opts value := by
  induction value using CborValue.induction with
  | null =>
    intro depth levels buf res hdepth hval henc
    obtain ⟨below, rfl⟩ := exists_levels hval hdepth
    rw [encodeValue] at henc
    split_ifs at henc
    exact ⟨.null below, (writeBytes_eq_ok_iff.mp henc).1⟩
  | bool value =>
    intro depth levels buf res hdepth hval henc
    obtain ⟨below, rfl⟩ := exists_levels hval hdepth
    cases value with
    | false | true =>
      rw [encodeValue] at henc
      split_ifs at henc
      exact ⟨.bool _ below, (writeBytes_eq_ok_iff.mp henc).1⟩
  | uint number =>
    intro depth levels buf res hdepth hval henc
    obtain ⟨below, rfl⟩ := exists_levels hval hdepth
    rw [encodeValue] at henc
    split_ifs at henc with _ hsafe
    rw [writeArgument_eq] at henc
    exact ⟨.uint below (Nat.not_lt.mp hsafe), (writeBytes_eq_ok_iff.mp henc).1⟩
  | nint number =>
    intro depth levels buf res hdepth hval henc
    obtain ⟨below, rfl⟩ := exists_levels hval hdepth
    rw [encodeValue] at henc
    split_ifs at henc with _ hsafe hneg
    rw [writeArgument_eq] at henc
    exact ⟨.nint below (by omega) (Int.not_lt.mp hsafe), (writeBytes_eq_ok_iff.mp henc).1⟩
  | float number =>
    intro depth levels buf res hdepth hval henc
    obtain ⟨below, rfl⟩ := exists_levels hval hdepth
    rw [encodeValue] at henc
    split_ifs at henc with _ hfin hsafe
    have hbytes := (writeBytes_append [0xfb] (BigEndian.encode 8 number.word)).symm.trans henc
    rw [Bool.not_eq_false] at hfin
    rw [Bool.not_eq_true] at hsafe
    exact ⟨.float below hfin hsafe, (writeBytes_eq_ok_iff.mp hbytes).1⟩
  | text value =>
    intro depth levels buf res hdepth hval henc
    obtain ⟨below, rfl⟩ := exists_levels hval hdepth
    rw [encodeValue] at henc
    split_ifs at henc
    exact ⟨.text value below, (encodeText_eq_ok_iff.mp henc).1⟩
  | bytes value =>
    intro depth levels buf res hdepth hval henc
    obtain ⟨below, rfl⟩ := exists_levels hval hdepth
    rw [encodeValue] at henc
    split_ifs at henc
    rw [writeArgument_eq] at henc
    have hbytes := (writeBytes_append (argumentBytes 2 value.length) value).symm.trans henc
    exact ⟨.bytes value below, (writeBytes_eq_ok_iff.mp hbytes).1⟩
  | array values ih =>
    intro depth levels buf res hdepth hval henc
    obtain ⟨below, rfl⟩ := exists_levels hval hdepth
    rw [validateCborValue] at hval
    split_ifs at hval with _ hlen
    rw [encodeValue] at henc
    split_ifs at henc
    rw [writeArgument_eq] at henc
    obtain ⟨next, hnext, henc⟩ := bind_ok henc
    have hbelow : depth + 1 + below = defaultMaxCborDepth + 1 := by omega
    obtain ⟨hvals, rfl⟩ := written_items ih hbelow hval henc
    obtain ⟨rfl, -⟩ := writeBytes_eq_ok_iff.mp hnext
    exact ⟨.array (Nat.not_lt.mp hlen) hvals, by rw [encoding, append_assoc]⟩
  | map entries ih =>
    intro depth levels buf res hdepth hval henc
    obtain ⟨below, rfl⟩ := exists_levels hval hdepth
    rw [validateCborValue] at hval
    split_ifs at hval with _ hlen
    rw [encodeValue] at henc
    split_ifs at henc
    rw [writeArgument_eq] at henc
    obtain ⟨next, hnext, henc⟩ := bind_ok henc
    have hbelow : depth + 1 + below = defaultMaxCborDepth + 1 := by omega
    obtain ⟨hfrs, hents, rfl⟩ := written_entries ih hbelow hval henc
    obtain ⟨rfl, -⟩ := writeBytes_eq_ok_iff.mp hnext
    exact ⟨.map (Nat.not_lt.mp hlen) (fresh_iff.mp hfrs) hents, by rw [encoding, append_assoc]⟩

end Writing

end PiOxidized.Remote
