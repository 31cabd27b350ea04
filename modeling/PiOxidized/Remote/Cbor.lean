/-
# The value encoding of the remote protocol

The subset of CBOR that messages are written in.  The encoder writes every head in its shortest
form; the decoder takes any head of a definite length.  Both refuse what is too long, too deep or
no safe integer.
-/

import PiOxidized.Math.BigEndian
import PiOxidized.Math.Integral
import PiOxidized.Math.Utf8
import PiOxidized.Remote.Framing

namespace PiOxidized.Remote

open Math

def defaultMaxCborContainerLength : Nat := 1000000

def defaultMaxCborDepth : Nat := 64

def maxSafeCborInteger : Nat := 9007199254740991

/-- The limits of an encoder or a decoder. -/
structure CborOptions where
  maxByteLength : Nat
  maxContainerLength : Nat
  maxDepth : Nat
  deriving DecidableEq

/-- The limits that go with those of frames. -/
def CborOptions.fromFrame (options : Option FrameDecoderOptions) : CborOptions where
  maxByteLength := options.elim defaultMaxFrameLength FrameDecoderOptions.maxFrameLength
  maxContainerLength := defaultMaxCborContainerLength
  maxDepth := defaultMaxCborDepth

inductive CborValue
  | null
  | bool (value : Bool)
  | uint (number : Nat)
  | nint (number : Int)
  | float (number : Binary64)
  | text (value : String)
  | bytes (value : List UInt8)
  | array (values : List CborValue)
  | map (entries : List (String × CborValue))
  deriving Inhabited

/-- Structural induction with the hypotheses stated by membership. -/
theorem CborValue.induction {P : CborValue → Prop} (null : P .null) (bool : ∀ value, P (.bool value))
    (uint : ∀ number, P (.uint number)) (nint : ∀ number, P (.nint number))
    (float : ∀ number, P (.float number)) (text : ∀ value, P (.text value))
    (bytes : ∀ value, P (.bytes value))
    (array : ∀ values, (∀ value ∈ values, P value) → P (.array values))
    (map : ∀ entries, (∀ entry ∈ entries, P entry.2) → P (.map entries)) : ∀ value, P value :=
  @CborValue.rec P (fun values => ∀ value ∈ values, P value)
    (fun entries => ∀ entry ∈ entries, P entry.2) (fun entry => P entry.2)
    null bool uint nint float text bytes array map
    (fun _ h => absurd h List.not_mem_nil)
    (fun _ _ hhead htail value hmem =>
      (List.mem_cons.mp hmem).elim (fun h => h ▸ hhead) (htail value))
    (fun _ h => absurd h List.not_mem_nil)
    (fun _ _ hhead htail entry hmem =>
      (List.mem_cons.mp hmem).elim (fun h => h ▸ hhead) (htail entry))
    (fun _ _ h => h)

/-- What a length is the length of. -/
inductive ItemKind
  | item
  | byteString
  | textString
  | array
  | map
  deriving DecidableEq

inductive CborError
  | byteLengthExceeded (limit : Nat)
  | lengthExceeded (kind : ItemKind) (limit : Nat)
  | depthExceeded (limit : Nat)
  | nonFinite
  | truncated
  | trailingData
  | tagsNotSupported
  | breakNotSupported
  | indefiniteLength (kind : ItemKind)
  | unsupportedSimple
  | malformedAdditionalInfo
  | unsafeInteger
  | decodedUnsafeInteger
  | decodedNonFinite
  | duplicateKey
  | nonStringKey
  | invalidUtf8
  deriving DecidableEq

/-- The bytes of a text. -/
def textBytes (value : String) : List UInt8 := Utf8.encode value.toList

/-- Whether a number has no fractional part and is no safe integer. -/
def unsafeNumber (number : Binary64) : Bool :=
  number.magnitude % Binary64.scale == 0 && number.absExceeds maxSafeCborInteger

/-! ## Encoding -/

section Encoding

variable (options : CborOptions)

/-- Append bytes, as long as the limit allows. -/
def writeBytes (bytes buf : List UInt8) : Except CborError (List UInt8) :=
  if options.maxByteLength < buf.length + bytes.length then
    .error (.byteLengthExceeded options.maxByteLength)
  else .ok (buf ++ bytes)

def writeByte (byte : Nat) (buf : List UInt8) : Except CborError (List UInt8) :=
  writeBytes options [UInt8.ofNat byte] buf

/-- Append a head, in the shortest form that holds its argument. -/
def writeArgument (majorType value : Nat) (buf : List UInt8) : Except CborError (List UInt8) :=
  if value < 24 then writeByte options (majorType * 32 + value) buf
  else if value < 2 ^ 8 then do
    writeByte options value (← writeByte options (majorType * 32 + 0x18) buf)
  else if value < 2 ^ 16 then do
    writeBytes options (BigEndian.encode 2 value) (← writeByte options (majorType * 32 + 0x19) buf)
  else if value < 2 ^ 32 then do
    writeBytes options (BigEndian.encode 4 value) (← writeByte options (majorType * 32 + 0x1a) buf)
  else do
    writeBytes options (BigEndian.encode 8 value) (← writeByte options (majorType * 32 + 0x1b) buf)

def encodeText (value : String) (buf : List UInt8) : Except CborError (List UInt8) :=
  if options.maxByteLength < (textBytes value).length then
    .error (.lengthExceeded .textString options.maxByteLength)
  else do
    writeBytes options (textBytes value) (← writeArgument options 3 (textBytes value).length buf)

mutual

/-- Append a value. -/
def encodeValue : CborValue → Nat → List UInt8 → Except CborError (List UInt8)
  | value, depth, buf =>
    if options.maxDepth < depth then .error (.depthExceeded options.maxDepth)
    else
      match value with
      | .null => writeByte options 0xf6 buf
      | .bool true => writeByte options 0xf5 buf
      | .bool false => writeByte options 0xf4 buf
      | .uint number =>
        if maxSafeCborInteger < number then .error .unsafeInteger
        else writeArgument options 0 number buf
      | .nint number =>
        if number < -(maxSafeCborInteger : Int) then .error .unsafeInteger
        else if -1 - number < 0 then .error .unsafeInteger
        else writeArgument options 1 (-1 - number).toNat buf
      | .float number =>
        if number.isFinite = false then .error .nonFinite
        else if unsafeNumber number then .error .unsafeInteger
        else do
          writeBytes options (BigEndian.encode 8 number.word) (← writeByte options 0xfb buf)
      | .text value => encodeText options value buf
      | .bytes value =>
        if options.maxByteLength < value.length then
          .error (.lengthExceeded .byteString options.maxByteLength)
        else do writeBytes options value (← writeArgument options 2 value.length buf)
      | .array values =>
        if options.maxContainerLength < values.length then
          .error (.lengthExceeded .array options.maxContainerLength)
        else do encodeItems values (depth + 1) (← writeArgument options 4 values.length buf)
      | .map entries =>
        if options.maxContainerLength < entries.length then
          .error (.lengthExceeded .map options.maxContainerLength)
        else do encodeEntries entries (depth + 1) (← writeArgument options 5 entries.length buf)

/-- Append the values of an array. -/
def encodeItems : List CborValue → Nat → List UInt8 → Except CborError (List UInt8)
  | [], _, buf => .ok buf
  | value :: values, depth, buf => do encodeItems values depth (← encodeValue value depth buf)

/-- Append the entries of a map. -/
def encodeEntries : List (String × CborValue) → Nat → List UInt8 → Except CborError (List UInt8)
  | [], _, buf => .ok buf
  | (key, value) :: entries, depth, buf => do
    encodeEntries entries depth (← encodeValue value depth (← encodeText options key buf))

end

def encodeCborValue (value : CborValue) : Except CborError (List UInt8) :=
  encodeValue options value 0 []

end Encoding

/-! ## Decoding -/

/-- Take something from the front of the bytes that are left. -/
abbrev Reader (X : Type) := List UInt8 → Except CborError (X × List UInt8)

def readBytes (length : Nat) : Reader (List UInt8) := fun bytes =>
  if bytes.length < length then .error .truncated else .ok (bytes.take length, bytes.drop length)

def readByte : Reader UInt8
  | [] => .error .truncated
  | byte :: bytes => .ok (byte, bytes)

/-- A number in some bytes. -/
def readNumber (count : Nat) : Reader Nat := fun bytes => do
  let (number, bytes) ← readBytes count bytes
  .ok (BigEndian.decode number, bytes)

/-- The argument of a head, of any size. -/
def readRaw (additionalInformation : Nat) : Reader Nat := fun bytes =>
  if additionalInformation < 24 then .ok (additionalInformation, bytes)
  else if additionalInformation = 24 then readNumber 1 bytes
  else if additionalInformation = 25 then readNumber 2 bytes
  else if additionalInformation = 26 then readNumber 4 bytes
  else if additionalInformation = 27 then readNumber 8 bytes
  else if additionalInformation = 31 then .error (.indefiniteLength .item)
  else .error .malformedAdditionalInfo

def readArgument (additionalInformation : Nat) : Reader Nat := fun bytes => do
  let (value, bytes) ← readRaw additionalInformation bytes
  if maxSafeCborInteger < value then .error .decodedUnsafeInteger else .ok (value, bytes)

def readLength (additionalInformation : Nat) (kind : ItemKind) (limit : Nat) : Reader Nat :=
  fun bytes =>
    if additionalInformation = 31 then .error (.indefiniteLength kind)
    else do
      let (length, bytes) ← readArgument additionalInformation bytes
      if limit < length then .error (.lengthExceeded kind limit) else .ok (length, bytes)

def readSimple (additionalInformation : Nat) : Reader CborValue := fun bytes =>
  if additionalInformation = 20 then .ok (.bool false, bytes)
  else if additionalInformation = 21 then .ok (.bool true, bytes)
  else if additionalInformation = 22 then .ok (.null, bytes)
  else if additionalInformation = 27 then do
    let (octets, bytes) ← readBytes 8 bytes
    let number : Binary64 := ⟨UInt64.ofNat (BigEndian.decode octets)⟩
    if number.isFinite = false then .error .decodedNonFinite
    else if unsafeNumber number then .error .decodedUnsafeInteger
    else .ok (.float number, bytes)
  else if additionalInformation = 31 then .error .breakNotSupported
  else .error .unsupportedSimple

/-- The values of an array. -/
def readItems (read : Reader CborValue) : Nat → Reader (List CborValue)
  | 0, bytes => .ok ([], bytes)
  | count + 1, bytes => do
    let (value, bytes) ← read bytes
    let (values, bytes) ← readItems read count bytes
    .ok (value :: values, bytes)

/-- The entries of a map, whose keys are texts and not among those seen before. -/
def readEntries (read : Reader CborValue) : Nat → List String → Reader (List (String × CborValue))
  | 0, _, bytes => .ok ([], bytes)
  | count + 1, keys, bytes => do
    let (key, bytes) ← read bytes
    match key with
    | .text key =>
      if key ∈ keys then .error .duplicateKey
      else do
        let (value, bytes) ← read bytes
        let (entries, bytes) ← readEntries read count (key :: keys) bytes
        .ok ((key, value) :: entries, bytes)
    | _ => .error .nonStringKey

/-- A value that is nested in fewer levels than are left. -/
def readItem (options : CborOptions) : Nat → Reader CborValue
  | 0, _ => .error (.depthExceeded options.maxDepth)
  | levels + 1, bytes => do
    let (initial, bytes) ← readByte bytes
    let additionalInformation := initial.toNat % 32
    match initial.toNat / 32 with
    | 0 => do
      let (number, bytes) ← readArgument additionalInformation bytes
      .ok (.uint number, bytes)
    | 1 => do
      let (argument, bytes) ← readArgument additionalInformation bytes
      .ok (.nint (-1 - argument), bytes)
    | 2 => do
      let (length, bytes) ← readLength additionalInformation .byteString options.maxByteLength bytes
      let (value, bytes) ← readBytes length bytes
      .ok (.bytes value, bytes)
    | 3 => do
      let (length, bytes) ← readLength additionalInformation .textString options.maxByteLength bytes
      let (value, bytes) ← readBytes length bytes
      match Utf8.decode value with
      | none => .error .invalidUtf8
      | some text => .ok (.text (String.ofList text), bytes)
    | 4 => do
      let (length, bytes) ← readLength additionalInformation .array options.maxContainerLength bytes
      let (values, bytes) ← readItems (readItem options levels) length bytes
      .ok (.array values, bytes)
    | 5 => do
      let (length, bytes) ← readLength additionalInformation .map options.maxContainerLength bytes
      let (entries, bytes) ← readEntries (readItem options levels) length [] bytes
      .ok (.map entries, bytes)
    | 6 => .error .tagsNotSupported
    | _ => readSimple additionalInformation bytes

def decodeCborValue (bytes : List UInt8) (options : CborOptions) : Except CborError CborValue :=
  if options.maxByteLength < bytes.length then
    .error (.byteLengthExceeded options.maxByteLength)
  else do
    let (value, rest) ← readItem options (options.maxDepth + 1) bytes
    if rest ≠ [] then .error .trailingData else .ok value

/-! ## Validation -/

mutual

/-- Whether a value is in the subset, with the default limits. -/
def validateCborValue : CborValue → Nat → Except CborError Unit
  | value, depth =>
    if defaultMaxCborDepth < depth then .error (.depthExceeded defaultMaxCborDepth)
    else
      match value with
      | .null | .bool _ | .text _ | .bytes _ => .ok ()
      | .uint number => if maxSafeCborInteger < number then .error .unsafeInteger else .ok ()
      | .nint number =>
        if number < -(maxSafeCborInteger : Int) then .error .unsafeInteger else .ok ()
      | .float number =>
        if number.isFinite = false then .error .nonFinite
        else if unsafeNumber number then .error .unsafeInteger
        else .ok ()
      | .array values =>
        if defaultMaxCborContainerLength < values.length then
          .error (.lengthExceeded .array defaultMaxCborContainerLength)
        else validateItems values (depth + 1)
      | .map entries =>
        if defaultMaxCborContainerLength < entries.length then
          .error (.lengthExceeded .map defaultMaxCborContainerLength)
        else validateEntries entries [] (depth + 1)

/-- Whether the values of an array are. -/
def validateItems : List CborValue → Nat → Except CborError Unit
  | [], _ => .ok ()
  | value :: values, depth => do
    validateCborValue value depth
    validateItems values depth

/-- Whether the entries of a map are, and their keys are not among those seen before. -/
def validateEntries : List (String × CborValue) → List String → Nat → Except CborError Unit
  | [], _, _ => .ok ()
  | (key, value) :: entries, keys, depth =>
    if key ∈ keys then .error .duplicateKey
    else do
      validateCborValue value depth
      validateEntries entries (key :: keys) depth

end

end PiOxidized.Remote
