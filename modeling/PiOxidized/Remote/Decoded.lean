/-
# Reading values

The decoder reads an admitted value back from its shortest bytes, whatever follows them.  What it
reads from other bytes is admitted too, and the shortest bytes of it are not longer.
-/

import PiOxidized.Remote.Encoded

namespace PiOxidized.Remote

open List Math

variable {opts : CborOptions} {bytes rest : List UInt8} {value : CborValue}
  {levels count num majorType info : Nat}

/-- The negative integers the decoder reads, one more than the encoder admits. -/
abbrev leastRead : Int := -(maxSafeCborInteger : Int) - 1

/-! ## Reading what was written -/

theorem readBytes_append (bytes rest : List UInt8) :
    readBytes bytes.length (bytes ++ rest) = .ok (bytes, rest) := by
  have hlen : ¬ (bytes ++ rest).length < bytes.length := by
    rw [length_append]
    omega
  rw [readBytes, if_neg hlen, take_left, drop_left]

theorem readNumber_encode (hnumber : num < 256 ^ count) (rest : List UInt8) :
    readNumber count (BigEndian.encode count num ++ rest) = .ok (num, rest) := by
  have hread := readBytes_append (BigEndian.encode count num) rest
  rw [BigEndian.length_encode] at hread
  rw [readNumber, hread]
  exact congrArg (fun n => Except.ok (n, rest)) (BigEndian.decode_encode hnumber)

/-- An initial byte is split into what it was made of. -/
theorem toNat_initial (hmajor : majorType < 8) (hinfo : info < 32) :
    (UInt8.ofNat (majorType * 32 + info)).toNat / 32 = majorType ∧
      (UInt8.ofNat (majorType * 32 + info)).toNat % 32 = info := by
  have htoNat : (UInt8.ofNat (majorType * 32 + info)).toNat = majorType * 32 + info := by
    rw [UInt8.toNat_ofNat', Nat.mod_eq_of_lt (by omega)]
  rw [htoNat]
  omega

theorem encode_one (num : Nat) : BigEndian.encode 1 num = [UInt8.ofNat num] := by
  rw [BigEndian.encode, Nat.pow_zero, Nat.div_one]
  rfl

/-- A head starts with its major type, and its argument is read back. -/
theorem exists_head (hmajor : majorType < 8) (hnumber : num ≤ maxSafeCborInteger) :
    ∃ initial tail, argumentBytes majorType num = initial :: tail ∧
      initial.toNat / 32 = majorType ∧ initial.toNat % 32 ≠ 31 ∧
      ∀ rest, readArgument (initial.toNat % 32) (tail ++ rest) = .ok (num, rest) := by
  have hread : ∀ info tail, info < 31 → (∀ rest, readRaw info (tail ++ rest) = .ok (num, rest)) →
      UInt8.ofNat (majorType * 32 + info) :: tail = argumentBytes majorType num →
      ∃ initial tail, argumentBytes majorType num = initial :: tail ∧
        initial.toNat / 32 = majorType ∧ initial.toNat % 32 ≠ 31 ∧
        ∀ rest, readArgument (initial.toNat % 32) (tail ++ rest) = .ok (num, rest) := by
    intro info tail hinfo hraw hbytes
    obtain ⟨hfst, hlast⟩ := toNat_initial hmajor (show info < 32 by omega)
    refine ⟨_, tail, hbytes.symm, hfst, by omega, ?_⟩
    intro rest
    rw [hlast, readArgument, hraw]
    exact if_neg (Nat.not_lt.mpr hnumber)
  by_cases h5 : num < 24
  · refine hread num [] (by omega) ?_ ?_
    · intro rest
      rw [readRaw, if_pos h5]
      rfl
    · rw [argumentBytes, if_pos h5]
  by_cases h8 : num < 2 ^ 8
  · refine hread 24 (BigEndian.encode 1 num) (by omega) (readNumber_encode h8) ?_
    rw [argumentBytes, if_neg h5, if_pos h8, encode_one]
  by_cases h16 : num < 2 ^ 16
  · refine hread 25 (BigEndian.encode 2 num) (by omega) (readNumber_encode h16) ?_
    rw [argumentBytes, if_neg h5, if_neg h8, if_pos h16]
  by_cases h32 : num < 2 ^ 32
  · refine hread 26 (BigEndian.encode 4 num) (by omega) (readNumber_encode h32) ?_
    rw [argumentBytes, if_neg h5, if_neg h8, if_neg h16, if_pos h32]
  · have h64 : num < 256 ^ 8 := by
      simp only [maxSafeCborInteger] at hnumber
      omega
    refine hread 27 (BigEndian.encode 8 num) (by omega) (readNumber_encode h64) ?_
    rw [argumentBytes, if_neg h5, if_neg h8, if_neg h16, if_neg h32]

/-- A value is read from its shortest bytes. -/
abbrev Reads (read : Reader CborValue) (limit : Nat) (value : CborValue) : Prop :=
  (encoding value).length ≤ limit → ∀ rest, read (encoding value ++ rest) = .ok (value, rest)

variable {read : Reader CborValue} {limit : Nat}

variable {entries : List (String × CborValue)} {values : List CborValue} {keys : List String}

theorem readItems_encoding (h : ∀ value ∈ values, Reads read limit value)
    (hlim : (itemsEncoding values).length ≤ limit) (rest : List UInt8) :
    readItems read values.length (itemsEncoding values ++ rest) = .ok (values, rest) := by
  induction values with
  | nil => rfl
  | cons value values ih =>
    rw [itemsEncoding, length_append] at hlim
    have hhead := h value mem_cons_self (by omega) (itemsEncoding values ++ rest)
    have htail := ih (fun other hmem => h other (mem_cons_of_mem _ hmem)) (by omega)
    rw [length_cons, readItems, itemsEncoding, append_assoc]
    exact bind_ok_iff.mpr ⟨_, hhead, bind_ok_iff.mpr ⟨_, htail, rfl⟩⟩

theorem readEntries_encoding (hfrs : Fresh entries keys)
    (htext : ∀ entry ∈ entries, Reads read limit (.text entry.1))
    (h : ∀ entry ∈ entries, Reads read limit entry.2)
    (hlim : (entriesEncoding entries).length ≤ limit) (rest : List UInt8) :
    readEntries read entries.length keys (entriesEncoding entries ++ rest) =
      .ok (entries, rest) := by
  induction entries generalizing keys with
  | nil => rfl
  | cons entry entries ih =>
    obtain ⟨key, value⟩ := entry
    rw [entriesEncoding, length_append, length_append] at hlim
    obtain ⟨hnew, hfrs⟩ := fresh_cons.mp hfrs
    have hkeyRead : Reads read limit (.text key) := htext (key, value) mem_cons_self
    have hvalueRead : Reads read limit value := h (key, value) mem_cons_self
    have hkey : (encoding (.text key)) = textEncoding key := by rw [encoding]
    rw [Reads, hkey] at hkeyRead
    have hfst := hkeyRead (by omega) (encoding value ++ entriesEncoding entries ++ rest)
    have hsnd := hvalueRead (by omega) (entriesEncoding entries ++ rest)
    have htail := ih hfrs (fun other hmem => htext other (mem_cons_of_mem _ hmem))
      (fun other hmem => h other (mem_cons_of_mem _ hmem)) (by omega)
    rw [append_assoc] at hfst
    rw [length_cons, readEntries, entriesEncoding, append_assoc, append_assoc]
    refine bind_ok_iff.mpr ⟨_, hfst, (if_neg hnew).trans ?_⟩
    exact bind_ok_iff.mpr ⟨_, hsnd, bind_ok_iff.mpr ⟨_, htail, rfl⟩⟩

theorem readLength_of_argument (kind : ItemKind) (hinfo : info ≠ 31)
    (hread : readArgument info bytes = .ok (num, rest)) (hlim : num ≤ limit) :
    readLength info kind limit bytes = .ok (num, rest) := by
  rw [readLength, if_neg hinfo, hread]
  exact if_neg (Nat.not_lt.mpr hlim)

/-- Every value is nested in a level. -/
theorem Admitted.exists_succ {low : Int} (h : Admitted low value levels) :
    ∃ below, levels = below + 1 := by
  cases h <;> exact ⟨_, rfl⟩

theorem reads_text (hbytes : opts.maxByteLength ≤ maxSafeCborInteger) (value : String)
    (levels : Nat) : Reads (readItem opts (levels + 1)) opts.maxByteLength (.text value) := by
  intro hlim rest
  rw [encoding, textEncoding, length_append] at hlim
  obtain ⟨initial, tail, hhead, hmajor, hinfo, hread⟩ := exists_head (show 3 < 8 by omega)
    (show (textBytes value).length ≤ maxSafeCborInteger by omega)
  have hlen := readLength_of_argument .textString hinfo (hread (textBytes value ++ rest))
    (show _ ≤ opts.maxByteLength by omega)
  rw [encoding, textEncoding, hhead, append_assoc, cons_append, readItem]
  refine bind_ok_iff.mpr ⟨_, rfl, ?_⟩
  simp only [hmajor]
  refine bind_ok_iff.mpr ⟨_, hlen, ?_⟩
  refine bind_ok_iff.mpr ⟨_, readBytes_append _ rest, ?_⟩
  simp only [textBytes, Utf8.decode_encode, String.ofList_toList]

/-- An admitted value is read from its shortest bytes. -/
theorem Admitted.reads (h : Admitted leastRead value levels)
    (hcontainer : opts.maxContainerLength = defaultMaxCborContainerLength)
    (hbytes : opts.maxByteLength ≤ maxSafeCborInteger) :
    Reads (readItem opts levels) opts.maxByteLength value := by
  induction h with
  | null levels =>
    intro hlim rest
    rfl
  | bool value levels =>
    intro hlim rest
    cases value with
    | false | true => rfl
  | uint levels hsafe =>
    intro hlim rest
    obtain ⟨initial, tail, hhead, hmajor, -, hread⟩ := exists_head (show 0 < 8 by omega) hsafe
    rw [encoding, hhead, cons_append, readItem]
    refine bind_ok_iff.mpr ⟨_, rfl, ?_⟩
    simp only [hmajor]
    exact bind_ok_iff.mpr ⟨_, hread rest, rfl⟩
  | @nint number levels hneg hsafe =>
    intro hlim rest
    have hargument : (-1 - number).toNat ≤ maxSafeCborInteger := by
      simp only [leastRead] at hsafe
      omega
    have hback : -1 - ((-1 - number).toNat : Int) = number := by omega
    obtain ⟨initial, tail, hhead, hmajor, -, hread⟩ := exists_head (show 1 < 8 by omega) hargument
    rw [encoding, hhead, cons_append, readItem]
    refine bind_ok_iff.mpr ⟨_, rfl, ?_⟩
    simp only [hmajor]
    exact bind_ok_iff.mpr ⟨_, hread rest, congrArg (fun n => Except.ok (CborValue.nint n, rest)) hback⟩
  | @float number levels hfin hsafe =>
    intro hlim rest
    have hoctets := readBytes_append (BigEndian.encode 8 number.word) rest
    have hword : BigEndian.decode (BigEndian.encode 8 number.word) = number.word :=
      BigEndian.decode_encode number.word_lt
    have hback : (⟨UInt64.ofNat number.word⟩ : Binary64) = number := by
      rw [Binary64.word, UInt64.ofNat_toNat]
    rw [BigEndian.length_encode] at hoctets
    rw [encoding, cons_append, readItem]
    refine bind_ok_iff.mpr ⟨_, rfl, ?_⟩
    refine bind_ok_iff.mpr ⟨_, hoctets, ?_⟩
    simp only [hword, hback, hfin, hsafe]
    rfl
  | text value levels => exact reads_text hbytes value levels
  | bytes value levels =>
    intro hlim rest
    rw [encoding, length_append] at hlim
    obtain ⟨initial, tail, hhead, hmajor, hinfo, hread⟩ := exists_head (show 2 < 8 by omega)
      (show value.length ≤ maxSafeCborInteger by omega)
    have hlen := readLength_of_argument .byteString hinfo (hread (value ++ rest))
      (show _ ≤ opts.maxByteLength by omega)
    rw [encoding, hhead, append_assoc, cons_append, readItem]
    refine bind_ok_iff.mpr ⟨_, rfl, ?_⟩
    simp only [hmajor]
    refine bind_ok_iff.mpr ⟨_, hlen, ?_⟩
    exact bind_ok_iff.mpr ⟨_, readBytes_append _ rest, rfl⟩
  | @array values levels hvals hmem ih =>
    intro hlim rest
    rw [encoding, length_append] at hlim
    obtain ⟨initial, tail, hhead, hmajor, hinfo, hread⟩ := exists_head (show 4 < 8 by omega)
      (hvals.trans (by decide))
    have hlen := readLength_of_argument .array hinfo (hread (itemsEncoding values ++ rest))
      (hcontainer ▸ hvals)
    have hitems := readItems_encoding ih (by omega) rest
    rw [encoding, hhead, append_assoc, cons_append, readItem]
    refine bind_ok_iff.mpr ⟨_, rfl, ?_⟩
    simp only [hmajor]
    refine bind_ok_iff.mpr ⟨_, hlen, ?_⟩
    exact bind_ok_iff.mpr ⟨_, hitems, rfl⟩
  | @map entries levels hents hkeys hmem ih =>
    intro hlim rest
    rw [encoding, length_append] at hlim
    obtain ⟨initial, tail, hhead, hmajor, hinfo, hread⟩ := exists_head (show 5 < 8 by omega)
      (hents.trans (by decide))
    have hlen := readLength_of_argument .map hinfo (hread (entriesEncoding entries ++ rest))
      (hcontainer ▸ hents)
    have htext : ∀ entry ∈ entries,
        Reads (readItem opts levels) opts.maxByteLength (.text entry.1) := by
      intro entry hent
      obtain ⟨below, rfl⟩ := (hmem entry hent).exists_succ
      exact reads_text hbytes entry.1 below
    have hall := readEntries_encoding (fresh_iff.mpr hkeys) htext ih (by omega) rest
    rw [encoding, hhead, append_assoc, cons_append, readItem]
    refine bind_ok_iff.mpr ⟨_, rfl, ?_⟩
    simp only [hmajor]
    refine bind_ok_iff.mpr ⟨_, hlen, ?_⟩
    exact bind_ok_iff.mpr ⟨_, hall, rfl⟩

/-! ## What else is read -/

theorem readBytes_eq_ok {taken : List UInt8} (h : readBytes count bytes = .ok (taken, rest)) :
    bytes = taken ++ rest ∧ taken.length = count := by
  rw [readBytes] at h
  split_ifs at h with hlen
  cases h
  refine ⟨(take_append_drop count bytes).symm, ?_⟩
  rw [length_take, Nat.min_eq_left (Nat.not_lt.mp hlen)]

theorem readNumber_eq_ok (h : readNumber count bytes = .ok (num, rest)) :
    num < 256 ^ count ∧ count + rest.length = bytes.length := by
  obtain ⟨⟨taken, more⟩, htkn, hnumber⟩ := bind_ok h
  cases hnumber
  obtain ⟨rfl, hcnt⟩ := readBytes_eq_ok htkn
  have hlt := BigEndian.decode_lt taken
  rw [hcnt] at hlt
  rw [length_append, hcnt]
  exact ⟨hlt, rfl⟩

theorem length_argumentBytes (majorType num : Nat) : (argumentBytes majorType num).length =
      if num < 24 then 1 else if num < 2 ^ 8 then 2 else if num < 2 ^ 16 then 3
      else if num < 2 ^ 32 then 5 else 9 := by
  rw [argumentBytes]
  split_ifs <;> simp

theorem length_argumentBytes_mono (majorType : Nat) {less more : Nat} (h : less ≤ more) :
    (argumentBytes majorType less).length ≤ (argumentBytes majorType more).length := by
  rw [length_argumentBytes, length_argumentBytes]
  split_ifs <;> omega

/-- The shortest head is not longer than the one that was read. -/
theorem readRaw_eq_ok (majorType : Nat) (h : readRaw info bytes = .ok (num, rest)) :
    (argumentBytes majorType num).length + rest.length ≤ bytes.length + 1 := by
  rw [length_argumentBytes]
  rw [readRaw] at h
  split_ifs at h with h5 h8 h16 h32 h64
  · cases h
    rw [if_pos h5]
    omega
  all_goals
    obtain ⟨hlt, hlen⟩ := readNumber_eq_ok h
    split_ifs <;> omega

theorem readArgument_eq_ok (majorType : Nat) (h : readArgument info bytes = .ok (num, rest)) :
    num ≤ maxSafeCborInteger ∧
      (argumentBytes majorType num).length + rest.length ≤ bytes.length + 1 := by
  obtain ⟨⟨value, more⟩, hraw, hnumber⟩ := bind_ok h
  dsimp only at hnumber
  split_ifs at hnumber with hsafe
  cases hnumber
  exact ⟨Nat.not_lt.mp hsafe, readRaw_eq_ok majorType hraw⟩

theorem readLength_eq_ok (majorType : Nat) {kind : ItemKind}
    (h : readLength info kind limit bytes = .ok (num, rest)) :
    num ≤ limit ∧ (argumentBytes majorType num).length + rest.length ≤ bytes.length + 1 := by
  rw [readLength] at h
  split_ifs at h
  obtain ⟨⟨value, more⟩, hargument, hnumber⟩ := bind_ok h
  dsimp only at hnumber
  split_ifs at hnumber with hlim
  cases hnumber
  exact ⟨Nat.not_lt.mp hlim, (readArgument_eq_ok majorType hargument).2⟩

/-- What is read is admitted, and its shortest bytes are not longer than those read. -/
abbrev Admits (read : Reader CborValue) (levels : Nat) : Prop :=
  ∀ {bytes rest : List UInt8} {value : CborValue}, read bytes = .ok (value, rest) →
    Admitted leastRead value levels ∧ (encoding value).length + rest.length ≤ bytes.length

theorem readItems_eq_ok (hread : Admits read levels)
    (h : readItems read count bytes = .ok (values, rest)) :
    values.length = count ∧ (∀ value ∈ values, Admitted leastRead value levels) ∧
      (itemsEncoding values).length + rest.length ≤ bytes.length := by
  induction count generalizing bytes values with
  | zero =>
    cases h
    exact ⟨rfl, fun _ hmem => absurd hmem not_mem_nil, by simp [itemsEncoding]⟩
  | succ count ih =>
    obtain ⟨⟨value, more⟩, hvalue, h⟩ := bind_ok h
    obtain ⟨⟨others, more⟩, hoth, h⟩ := bind_ok h
    cases h
    obtain ⟨hhead, hfst⟩ := hread hvalue
    obtain ⟨hcnt, htail, hsnd⟩ := ih hoth
    refine ⟨congrArg (· + 1) hcnt, forall_mem_cons.mpr ⟨hhead, htail⟩, ?_⟩
    rw [itemsEncoding, length_append]
    omega

theorem readEntries_eq_ok (hread : Admits read levels)
    (h : readEntries read count keys bytes = .ok (entries, rest)) :
    entries.length = count ∧ Fresh entries keys ∧
      (∀ entry ∈ entries, Admitted leastRead entry.2 levels) ∧
      (entriesEncoding entries).length + rest.length ≤ bytes.length := by
  induction count generalizing bytes entries keys with
  | zero =>
    cases h
    exact ⟨rfl, fresh_nil, fun _ hmem => absurd hmem not_mem_nil, by simp [entriesEncoding]⟩
  | succ count ih =>
    obtain ⟨⟨key, more⟩, hkey, h⟩ := bind_ok h
    cases key with
    | text key =>
      dsimp only at h
      split_ifs at h with hseen
      obtain ⟨⟨value, more⟩, hvalue, h⟩ := bind_ok h
      obtain ⟨⟨others, more⟩, hoth, h⟩ := bind_ok h
      cases h
      obtain ⟨-, hname⟩ := hread hkey
      obtain ⟨hhead, hfst⟩ := hread hvalue
      obtain ⟨hcnt, hfrs, htail, hsnd⟩ := ih hoth
      rw [encoding] at hname
      refine ⟨congrArg (· + 1) hcnt, fresh_cons.mpr ⟨hseen, hfrs⟩,
        forall_mem_cons.mpr ⟨hhead, htail⟩, ?_⟩
      simp only [entriesEncoding, length_append]
      dsimp only at hfst hsnd
      omega
    | _ => cases h

theorem readSimple_eq_ok (h : readSimple info bytes = .ok (value, rest)) :
    Admitted leastRead value (levels + 1) ∧
      (encoding value).length + rest.length ≤ bytes.length + 1 := by
  rw [readSimple] at h
  split_ifs at h
  · cases h
    exact ⟨.bool false levels, by simp [encoding, Nat.add_comm]⟩
  · cases h
    exact ⟨.bool true levels, by simp [encoding, Nat.add_comm]⟩
  · cases h
    exact ⟨.null levels, by simp [encoding, Nat.add_comm]⟩
  · obtain ⟨⟨octets, more⟩, hoctets, h⟩ := bind_ok h
    dsimp only at h
    split_ifs at h with hfin hsafe
    cases h
    obtain ⟨rfl, hcnt⟩ := readBytes_eq_ok hoctets
    rw [Bool.not_eq_false] at hfin
    rw [Bool.not_eq_true] at hsafe
    refine ⟨.float levels hfin hsafe, ?_⟩
    rw [encoding, length_cons, BigEndian.length_encode, length_append]
    omega

/-- Whatever is read is admitted. -/
theorem readItem_admits (opts : CborOptions)
    (hcontainer : opts.maxContainerLength = defaultMaxCborContainerLength) (levels : Nat) :
    Admits (readItem opts levels) levels := by
  induction levels with
  | zero =>
    intro bytes rest value h
    cases h
  | succ levels ih =>
    intro bytes rest value h
    rw [readItem] at h
    obtain ⟨⟨initial, more⟩, hinitial, h⟩ := bind_ok h
    have hbytes : bytes.length = more.length + 1 := by
      cases bytes with
      | nil => cases hinitial
      | cons first bytes =>
        cases hinitial
        rfl
    dsimp only at h
    rw [hbytes]
    split at h
    · obtain ⟨⟨num, after⟩, hnumber, h⟩ := bind_ok h
      cases h
      obtain ⟨hsafe, hlen⟩ := readArgument_eq_ok 0 hnumber
      exact ⟨.uint levels hsafe, by rw [encoding]; exact hlen⟩
    · obtain ⟨⟨argument, after⟩, hargument, h⟩ := bind_ok h
      cases h
      obtain ⟨hsafe, hlen⟩ := readArgument_eq_ok 1 hargument
      have hback : (-1 - (-1 - (argument : Int))).toNat = argument := by omega
      refine ⟨.nint levels (by omega) (by simp only [leastRead]; omega), ?_⟩
      rw [encoding, hback]
      exact hlen
    · obtain ⟨⟨length, after⟩, hhead, h⟩ := bind_ok h
      obtain ⟨⟨octets, last⟩, hoctets, h⟩ := bind_ok h
      cases h
      obtain ⟨-, hlen⟩ := readLength_eq_ok 2 hhead
      obtain ⟨rfl, rfl⟩ := readBytes_eq_ok hoctets
      refine ⟨.bytes octets levels, ?_⟩
      rw [length_append] at hlen
      simp only [encoding, length_append]
      omega
    · obtain ⟨⟨length, after⟩, hhead, h⟩ := bind_ok h
      obtain ⟨⟨octets, last⟩, hoctets, hdec⟩ := bind_ok h
      obtain ⟨-, hlen⟩ := readLength_eq_ok 3 hhead
      obtain ⟨rfl, rfl⟩ := readBytes_eq_ok hoctets
      dsimp only at hdec
      split at hdec
      · cases hdec
      · next text htext =>
          cases hdec
          obtain rfl := Utf8.decode_eq_some_iff.mp htext
          refine ⟨.text _ levels, ?_⟩
          rw [length_append] at hlen
          rw [encoding, textEncoding, textBytes, String.toList_ofList, length_append]
          omega
    · obtain ⟨⟨length, after⟩, hhead, h⟩ := bind_ok h
      obtain ⟨⟨values, last⟩, hvals, h⟩ := bind_ok h
      cases h
      obtain ⟨hlim, hlen⟩ := readLength_eq_ok 4 hhead
      obtain ⟨rfl, hmem, hitems⟩ := readItems_eq_ok ih hvals
      refine ⟨.array (hcontainer ▸ hlim) hmem, ?_⟩
      simp only [encoding, length_append]
      dsimp only at hitems
      omega
    · obtain ⟨⟨length, after⟩, hhead, h⟩ := bind_ok h
      obtain ⟨⟨entries, last⟩, hents, h⟩ := bind_ok h
      cases h
      obtain ⟨hlim, hlen⟩ := readLength_eq_ok 5 hhead
      obtain ⟨rfl, hfrs, hmem, hall⟩ := readEntries_eq_ok ih hents
      refine ⟨.map (hcontainer ▸ hlim) (fresh_iff.mp hfrs) hmem, ?_⟩
      simp only [encoding, length_append]
      dsimp only at hall
      omega
    · cases h
    · exact readSimple_eq_ok h

/-! ## Whole payloads -/

/-- A decoder and an encoder with the same limits on containers and nesting as by default. -/
structure CborOptions.Standard (options : CborOptions) : Prop where
  container : options.maxContainerLength = defaultMaxCborContainerLength
  depth : options.maxDepth = defaultMaxCborDepth

theorem CborOptions.standard_fromFrame (opts : Option FrameDecoderOptions) :
    (CborOptions.fromFrame opts).Standard := ⟨rfl, rfl⟩

theorem Admitted.mono {low high : Int} (h : Admitted high value levels) (hle : low ≤ high) :
    Admitted low value levels := by
  induction h with
  | null levels => exact .null levels
  | bool value levels => exact .bool value levels
  | uint levels hsafe => exact .uint levels hsafe
  | nint levels hneg hsafe => exact .nint levels hneg (hle.trans hsafe)
  | float levels hfin hsafe => exact .float levels hfin hsafe
  | text value levels => exact .text value levels
  | bytes value levels => exact .bytes value levels
  | array hlen hvals ih => exact .array hlen ih
  | map hlen hkeys hents ih => exact .map hlen hkeys ih

/-- An admitted value is decoded from its shortest bytes. -/
theorem decodeCborValue_encoding (hopts : opts.Standard)
    (h : Admitted leastRead value (defaultMaxCborDepth + 1))
    (hbytes : opts.maxByteLength ≤ maxSafeCborInteger)
    (hlim : (encoding value).length ≤ opts.maxByteLength) :
    decodeCborValue (encoding value) opts = .ok value := by
  have hread := h.reads hopts.container hbytes hlim []
  rw [append_nil] at hread
  rw [decodeCborValue, if_neg (Nat.not_lt.mpr hlim), hopts.depth]
  exact bind_ok_iff.mpr ⟨_, hread, if_neg (not_not_intro rfl)⟩

/-- A payload that is decoded holds an admitted value, whose shortest bytes are not longer. -/
theorem decodeCborValue_eq_ok (hopts : opts.Standard) (h : decodeCborValue bytes opts = .ok value) :
    Admitted leastRead value (defaultMaxCborDepth + 1) ∧ (encoding value).length ≤ bytes.length := by
  rw [decodeCborValue, hopts.depth] at h
  split_ifs at h
  obtain ⟨⟨decoded, rest⟩, hread, h⟩ := bind_ok h
  dsimp only at h
  split_ifs at h
  obtain ⟨hadm, hlen⟩ := readItem_admits opts hopts.container _ hread
  rw [← Except.ok.inj h]
  exact ⟨hadm, by omega⟩

/-- A valid value that is encoded is admitted, and the payload holds its shortest bytes. -/
theorem encodeCborValue_eq_ok (hval : validateCborValue value 0 = .ok ())
    (h : encodeCborValue opts value = .ok bytes) :
    Admitted (-(maxSafeCborInteger : Int)) value (defaultMaxCborDepth + 1) ∧
      bytes = encoding value :=
  written value (Nat.zero_add _) hval h

/-- An admitted value is encoded when the limit allows its bytes. -/
theorem encodeCborValue_encoding (hopts : opts.Standard)
    (h : Admitted (-(maxSafeCborInteger : Int)) value (defaultMaxCborDepth + 1))
    (hlim : (encoding value).length ≤ opts.maxByteLength) :
    encodeCborValue opts value = .ok (encoding value) := by
  have hdepth : 0 + (defaultMaxCborDepth + 1) = opts.maxDepth + 1 := by
    rw [hopts.depth, Nat.zero_add]
  exact h.writes hopts.container hdepth [] (by simpa using hlim)

/-! ## The range of what is read -/

/-- Whether a negative integer stands somewhere in a value. -/
inductive CborValue.Contains (number : Int) : CborValue → Prop
  | here : Contains number (.nint number)
  | item {values : List CborValue} {value : CborValue} (hmem : value ∈ values)
      (inside : Contains number value) : Contains number (.array values)
  | entry {entries : List (String × CborValue)} {entry : String × CborValue}
      (hmem : entry ∈ entries) (inside : Contains number entry.2) : Contains number (.map entries)

/-- The encoder admits what the decoder reads, apart from the least integer. -/
theorem admitted_iff_not_contains (h : Admitted leastRead value levels) :
    Admitted (-(maxSafeCborInteger : Int)) value levels ↔ ¬value.Contains leastRead := by
  constructor
  · intro hadm hhas
    clear h
    induction hhas generalizing levels with
    | here =>
      cases hadm with
      | nint _ _ hsafe => exact absurd hsafe (by decide)
    | item hmem _ ih =>
      cases hadm with
      | array _ hvals => exact ih (hvals _ hmem)
    | entry hmem _ ih =>
      cases hadm with
      | map _ _ hents => exact ih (hents _ hmem)
  · intro hnot
    induction h with
    | null levels => exact .null levels
    | bool value levels => exact .bool value levels
    | uint levels hsafe => exact .uint levels hsafe
    | @nint num levels hneg hsafe =>
      have hne : num ≠ leastRead := fun hsame => hnot (hsame ▸ .here)
      exact .nint levels hneg (by simp only [leastRead] at hsafe hne; omega)
    | float levels hfin hsafe => exact .float levels hfin hsafe
    | text value levels => exact .text value levels
    | bytes value levels => exact .bytes value levels
    | array hlen _ ih =>
      exact .array hlen fun value hmem => ih value hmem fun hins => hnot (.item hmem hins)
    | map hlen hkeys _ ih =>
      exact .map hlen hkeys fun entry hmem =>
        ih entry hmem fun hins => hnot (.entry hmem hins)

/-- A payload that is decoded holds a valid value, which is encoded in no more bytes and read back
from them, exactly when it does not hold the least integer. -/
theorem decoded_encodable_iff {frame : Option FrameDecoderOptions} {max : Nat}
    (hframe : resolveMax frame = .ok max)
    (h : decodeCborValue bytes (.fromFrame frame) = .ok value) :
    (validateCborValue value 0 = .ok () ∧ ∃ output,
      encodeCborValue (.fromFrame frame) value = .ok output ∧ output.length ≤ bytes.length ∧
        decodeCborValue output (.fromFrame frame) = .ok value) ↔ ¬value.Contains leastRead := by
  have hstandard := CborOptions.standard_fromFrame frame
  obtain ⟨hread, hlen⟩ := decodeCborValue_eq_ok hstandard h
  rw [← admitted_iff_not_contains hread]
  constructor
  · rintro ⟨hvalid, output, hencode, -⟩
    exact (encodeCborValue_eq_ok hvalid hencode).1
  · intro hadmitted
    have hbytes : bytes.length ≤ (CborOptions.fromFrame frame).maxByteLength := by
      by_contra hnot
      rw [decodeCborValue, if_pos (Nat.not_le.mp hnot)] at h
      cases h
    have hmax : (CborOptions.fromFrame frame).maxByteLength ≤ maxSafeCborInteger := by
      rw [resolveMax] at hframe
      split_ifs at hframe with hle
      exact hle.trans (by decide)
    have hlimit := hlen.trans hbytes
    exact ⟨hadmitted.validate (Nat.zero_add _), encoding value,
      encodeCborValue_encoding hstandard hadmitted hlimit, hlen,
      decodeCborValue_encoding hstandard hread hmax hlimit⟩

/-- A valid value is read back from the bytes it is encoded in. -/
theorem encoded_decodable {frame : Option FrameDecoderOptions} {max : Nat}
    (hfrm : resolveMax frame = .ok max) (hvalid : validateCborValue value 0 = .ok ())
    (h : encodeCborValue (.fromFrame frame) value = .ok bytes) (hlim : bytes.length ≤ max) :
    decodeCborValue bytes (.fromFrame frame) = .ok value := by
  obtain ⟨hadm, rfl⟩ := encodeCborValue_eq_ok hvalid h
  rw [resolveMax] at hfrm
  split_ifs at hfrm with hle
  cases hfrm
  exact decodeCborValue_encoding (CborOptions.standard_fromFrame frame)
    (hadm.mono (by simp)) (hle.trans (by decide)) hlim

/-- Numbers, bytes and text in arrays and maps. -/
def nestedValue : CborValue :=
  .map [("items", .array [.uint 24, .nint (-1), .float ⟨0x3FF8000000000000⟩, .bytes [7]]),
    ("inner", .map [("text", .text "é"), ("rest", .array [.null, .bool true])])]

/-- The nested value is read back. -/
theorem encoded_decodable_nested :
    decodeCborValue (encoding nestedValue) (.fromFrame none) = .ok nestedValue :=
  encoded_decodable (show resolveMax none = .ok defaultMaxFrameLength from rfl)
    (by decide +kernel) (by decide +kernel) (by decide +kernel)

/-- The integer `-1` in a head of two bytes is encoded in one. -/
theorem minus_one_encodable : (validateCborValue (.nint (-1)) 0 = .ok () ∧ ∃ output,
      encodeCborValue (.fromFrame none) (.nint (-1)) = .ok output ∧
        output.length ≤ [(0x38 : UInt8), 0].length ∧
          decodeCborValue output (.fromFrame none) = .ok (.nint (-1))) ↔
      ¬(CborValue.nint (-1)).Contains leastRead :=
  decoded_encodable_iff (show resolveMax none = .ok defaultMaxFrameLength from rfl) rfl

set_option maxRecDepth 2000 in
/-- The least integer is read, and neither valid nor encoded. -/
theorem least_read_not_valid :
    decodeCborValue [0x3b, 0, 0x1f, 0xff, 0xff, 0xff, 0xff, 0xff, 0xff] (.fromFrame none) =
        .ok (.nint leastRead) ∧
      validateCborValue (.nint leastRead) 0 = .error .unsafeInteger ∧
      encodeCborValue (.fromFrame none) (.nint leastRead) = .error .unsafeInteger :=
  ⟨rfl, rfl, rfl⟩

end PiOxidized.Remote
