/-
# Where a session lies

A session is known by its working directory and its id.  Its file lies in a directory
named after the working directory, which several working directories may share, under a
name made of the time of its creation and its id.
-/

import Mathlib.Data.List.TakeDrop
import PiOxidized.Math.Percent

namespace PiOxidized.Session.Jsonl

open List Math

/-- What a session is known by. -/
structure Identity where
  cwd : String
  id : String
  deriving DecidableEq

/-- A file in a directory of the repository. -/
structure SessionPath where
  directory : List Char
  name : List Char
  deriving DecidableEq

/-- The key a session is reserved and opened under. -/
def Identity.sessionKey (identity : Identity) : String := identity.cwd ++ "\x00" ++ identity.id

/-- Bytes of an id that stand for themselves. -/
def keptInId (byte : UInt8) : Bool := let n := byte.toNat
  (48 ≤ n && n ≤ 57) || (65 ≤ n && n ≤ 90) || (97 ≤ n && n ≤ 122) ||
    "-_.!~*'()".toList.any fun c => c.toNat == n

def encodeSessionId (id : String) : List Char := Percent.encode keptInId (Utf8.encode id.toList)

/-- The prefixes of a verbatim path are taken off. -/
def withoutVerbatim (cwd : List Char) : List Char :=
  match cwd.dropPrefix? "\\\\?\\UNC\\".toList with
  | some rest => "\\\\".toList ++ rest
  | none =>
    match (cwd.dropPrefix? "\\\\?\\".toList).or (cwd.dropPrefix? "\\\\.\\".toList) with
    | some rest => rest
    | none => cwd

def encodeCwdForSessionDir (resolvedCwd : String) : List Char :=
  let resolved := withoutVerbatim resolvedCwd.toList
  let stripped := ((resolved.dropPrefix? ['/']).or (resolved.dropPrefix? ['\\'])).getD resolved
  let safe := stripped.map fun c => if c = '/' ∨ c = '\\' ∨ c = ':' then '-' else c
  "--".toList ++ safe ++ "--".toList

def sessionDirectoryName (cwd : String) : List Char := encodeCwdForSessionDir cwd

def extension : List Char := ".jsonl".toList

section Names

-- How a time in milliseconds is written as a date.
variable (isoFromMillis : Int → List Char)

def timestamp (createdAt : Int) : List Char :=
  (isoFromMillis createdAt).map fun c => if c = ':' ∨ c = '.' then '-' else c

def sessionFileName (createdAt : Int) (id : String) : List Char :=
  timestamp isoFromMillis createdAt ++ '_' :: encodeSessionId id ++ extension

/-- The path of a session that is about to be created. -/
def newSessionPath (identity : Identity) (createdAt : Int) : SessionPath :=
  ⟨sessionDirectoryName identity.cwd, sessionFileName isoFromMillis createdAt identity.id⟩

end Names

/-- The end of the name of every file that was created for an id. -/
def duplicateSuffix (id : String) : List Char := '_' :: encodeSessionId id ++ extension

/-- Whether a file stands in the way of a new session. -/
def duplicates (identity : Identity) (path : SessionPath) : Bool :=
  path.directory = sessionDirectoryName identity.cwd &&
    (duplicateSuffix identity.id).isSuffixOf path.name

/-- The part of a name behind the first underscore, if there is something before it. -/
def fileId? (name : List Char) : Option (List Char) := match name.dropSuffix? extension with
  | none => none
  | some stem =>
    match stem.span (· ≠ '_') with
    | (_ :: _, _ :: fileId) => some fileId
    | _ => none

/-- Whether a path is where the repository keeps the file of a session. -/
def ownsSessionPath (identity : Identity) (path : SessionPath) : Bool :=
  path.directory = sessionDirectoryName identity.cwd && (fileId? path.name).any fun fileId =>
      fileId = identity.id.toList || (fileId = encodeSessionId identity.id &&
          Utf8.decode (Percent.decode fileId) = some identity.id.toList)

theorem keptInId_ascii (byte : UInt8) (h : keptInId byte = true) :
    byte.toNat < 128 ∧ byte.toNat ≠ 37 := by
  have hall : ∀ n < 256, keptInId (UInt8.ofNat n) = true → n < 128 ∧ n ≠ 37 := by
    decide +kernel
  exact hall byte.toNat byte.toNat_lt (by rw [UInt8.ofNat_toNat]; exact h)

/-- An id is read back from its encoding. -/
theorem decode_encodeSessionId (id : String) :
    Utf8.decode (Percent.decode (encodeSessionId id)) = some id.toList := by
  rw [encodeSessionId, Percent.decode_encode keptInId_ascii, Utf8.decode_encode]

theorem encodeSessionId_injective : Function.Injective encodeSessionId := by
  intro first second h
  have hbytes := Utf8.encode_injective (Percent.encode_injective keptInId_ascii h)
  exact String.toList_injective hbytes

variable {isoFromMillis : Int → List Char} {identity : Identity} {createdAt : Int}

theorem underscore_not_mem_timestamp (h : '_' ∉ isoFromMillis createdAt) :
    '_' ∉ timestamp isoFromMillis createdAt := by
  intro hmem
  obtain ⟨d, hd, hsame⟩ := mem_map.mp hmem
  split_ifs at hsame
  · cases hsame
  · exact h (hsame ▸ hd)

/-- A session's own path stands in its way. -/
theorem duplicates_newSessionPath :
    duplicates identity (newSessionPath isoFromMillis identity createdAt) = true := by
  simp only [duplicates, newSessionPath, decide_true, Bool.true_and, isSuffixOf_iff_suffix]
  refine ⟨timestamp isoFromMillis createdAt, ?_⟩
  rw [sessionFileName, duplicateSuffix, append_assoc]

section

variable (hsome : isoFromMillis createdAt ≠ []) (hunderscore : '_' ∉ isoFromMillis createdAt)

include hsome hunderscore

/-- The part behind the first underscore of the name of a created file is its encoded id, as long as
its date is written without an underscore. -/
theorem fileId?_sessionFileName {id : String} :
    fileId? (sessionFileName isoFromMillis createdAt id) = some (encodeSessionId id) := by
  have hdrop : (sessionFileName isoFromMillis createdAt id).dropSuffix? extension =
      some (timestamp isoFromMillis createdAt ++ '_' :: encodeSessionId id) := by
    rw [dropSuffix?_eq_some_iff]
    exact ⟨extension, rfl, beq_self_eq_true _⟩
  have hkeep : ∀ c ∈ timestamp isoFromMillis createdAt, decide (c ≠ '_') = true := by
    intro c hc
    exact decide_eq_true fun hsame => underscore_not_mem_timestamp hunderscore (hsame ▸ hc)
  have hspan : (timestamp isoFromMillis createdAt ++ '_' :: encodeSessionId id).span
      (· ≠ '_') = (timestamp isoFromMillis createdAt, '_' :: encodeSessionId id) := by
    rw [span_eq_takeWhile_dropWhile, takeWhile_append_of_pos hkeep, dropWhile_append_of_pos hkeep]
    simp
  simp only [fileId?, hdrop, hspan]
  cases hcase : timestamp isoFromMillis createdAt with
  | nil => exact absurd (map_eq_nil_iff.mp hcase) hsome
  | cons c rest => rfl

/-- The path of a created session is owned by the ids that have its encoding, and by the id that is
its encoding. -/
theorem ownsSessionPath_iff {cwd id other : String} :
    ownsSessionPath ⟨cwd, other⟩ (newSessionPath isoFromMillis ⟨cwd, id⟩ createdAt) = true ↔
      encodeSessionId id = other.toList ∨ id = other := by
  simp only [ownsSessionPath, newSessionPath, decide_true, Bool.true_and, Option.any_some,
    fileId?_sessionFileName hsome hunderscore, Bool.or_eq_true, Bool.and_eq_true, decide_eq_true_iff]
  apply or_congr_right
  constructor
  · rintro ⟨hsame, -⟩
    exact encodeSessionId_injective hsame
  · rintro rfl
    exact ⟨rfl, decode_encodeSessionId id⟩

/-- The path of a session that was created is its own. -/
theorem ownsSessionPath_newSessionPath :
    ownsSessionPath identity (newSessionPath isoFromMillis identity createdAt) = true :=
  (ownsSessionPath_iff hsome hunderscore).mpr (.inr rfl)

end

/-! ## The ids of a directory -/

/-- The files of a directory, each made at a time for an id. -/
def sessionFiles (isoFromMillis : Int → List Char) (cwd : String) (content : List (Int × String)) :
    List SessionPath :=
  content.map fun file => newSessionPath isoFromMillis ⟨cwd, file.2⟩ file.1

/-- The path of a fresh session, unless its id is in use by one of the files. -/
def resolveNewSessionPath (isoFromMillis : Int → List Char) (identity : Identity) (createdAt : Int)
    (files : List SessionPath) : Except String SessionPath :=
  if files.any (duplicates identity) then .error s!"Session already exists: {identity.id}"
  else .ok (newSessionPath isoFromMillis identity createdAt)

/-- The lookups of an id agree on a directory: it is refused exactly when it has a file, its own
path is owned by it, and of the ids of the directory by no other. -/
structure LookupsAgree (isoFromMillis : Int → List Char) (cwd : String)
    (content : List (Int × String)) (id : String) : Prop where
  refused (createdAt : Int) : (resolveNewSessionPath isoFromMillis ⟨cwd, id⟩ createdAt
    (sessionFiles isoFromMillis cwd content)).isOk = false ↔ id ∈ content.map Prod.snd
  owned (createdAt : Int) :
    ownsSessionPath ⟨cwd, id⟩ (newSessionPath isoFromMillis ⟨cwd, id⟩ createdAt) = true
  unshared (createdAt : Int) : ∀ other ∈ content.map Prod.snd,
    ownsSessionPath ⟨cwd, other⟩ (newSessionPath isoFromMillis ⟨cwd, id⟩ createdAt) = true →
      other = id

/-- A list that begins with a mark ends a text with one mark in front exactly when it ends what
the mark is in front of. -/
theorem cons_suffix_append_iff {c : Char} {before first second : List Char} (h : c ∉ before) :
    c :: first <:+ before ++ c :: second ↔ first = second ∨ c :: first <:+ second := by
  rw [← cons_inj_right c, ← suffix_cons_iff]
  refine ⟨fun hsuffix => ?_, fun hsuffix => hsuffix.trans (suffix_append _ _)⟩
  rcases suffix_or_suffix_of_suffix hsuffix (suffix_append before _) with hle | ⟨more, hmore⟩
  · exact hle
  obtain ⟨rest, hrest⟩ := hsuffix
  rw [← hmore, ← append_assoc] at hrest
  have hpre := append_cancel_right hrest
  cases more with
  | nil => exact ⟨[], hmore.symm⟩
  | cons d more =>
    rw [(cons.inj hmore).1] at hpre
    exact absurd (hpre ▸ mem_append_right _ mem_cons_self) h

/-- A file of another id stands in the way of an id that its own ends in, behind an underscore. -/
theorem duplicates_iff {cwd id other : String} (hunderscore : '_' ∉ isoFromMillis createdAt) :
    duplicates ⟨cwd, id⟩ (newSessionPath isoFromMillis ⟨cwd, other⟩ createdAt) = true ↔
      id = other ∨ '_' :: encodeSessionId id <:+ encodeSessionId other := by
  rw [← encodeSessionId_injective.eq_iff,
    ← cons_suffix_append_iff (underscore_not_mem_timestamp hunderscore)]
  simp only [duplicates, newSessionPath, decide_true, Bool.true_and, isSuffixOf_iff_suffix,
    sessionFileName, duplicateSuffix, suffix_append_self_iff]

/-- The lookups of an id agree exactly when no id of the directory ends in it behind an underscore,
encoded, unless it has a file itself, and no other is its encoding. -/
theorem lookupsAgree_iff {cwd id : String} {content : List (Int × String)}
    (hsome : ∀ createdAt, isoFromMillis createdAt ≠ [])
    (hunderscore : ∀ createdAt, '_' ∉ isoFromMillis createdAt) :
    LookupsAgree isoFromMillis cwd content id ↔ (∀ other ∈ content.map Prod.snd,
        '_' :: encodeSessionId id <:+ encodeSessionId other → id ∈ content.map Prod.snd) ∧
      ∀ other ∈ content.map Prod.snd, encodeSessionId id = other.toList → other = id := by
  have hrefused : ∀ createdAt, (resolveNewSessionPath isoFromMillis ⟨cwd, id⟩ createdAt
      (sessionFiles isoFromMillis cwd content)).isOk = false ↔ ∃ other ∈ content.map Prod.snd,
        id = other ∨ '_' :: encodeSessionId id <:+ encodeSessionId other := by
    intro createdAt
    have hany : (sessionFiles isoFromMillis cwd content).any (duplicates ⟨cwd, id⟩) = true ↔
        ∃ other ∈ content.map Prod.snd,
          id = other ∨ '_' :: encodeSessionId id <:+ encodeSessionId other := by
      simp only [sessionFiles, List.any_map, List.any_eq_true, Function.comp_apply,
        duplicates_iff (hunderscore _), List.mem_map, exists_exists_and_eq_and]
    rw [← hany, resolveNewSessionPath]
    split_ifs with h <;> simp [h, Except.isOk, Except.toBool]
  constructor
  · intro h
    refine ⟨fun other hother hsuffix => ?_, fun other hother hsame => ?_⟩
    · exact (h.refused 0).mp ((hrefused 0).mpr ⟨other, hother, .inr hsuffix⟩)
    · exact h.unshared 0 other hother
        ((ownsSessionPath_iff (hsome 0) (hunderscore 0)).mpr (.inl hsame))
  · rintro ⟨hsuffixes, hencodings⟩
    constructor
    case refused =>
      intro createdAt
      rw [hrefused]
      constructor
      · rintro ⟨other, hother, rfl | hsuffix⟩
        · exact hother
        · exact hsuffixes other hother hsuffix
      · intro hid
        exact ⟨id, hid, .inl rfl⟩
    case owned =>
      intro createdAt
      exact ownsSessionPath_newSessionPath (hsome _) (hunderscore _)
    case unshared =>
      intro createdAt other hother howns
      rcases (ownsSessionPath_iff (hsome _) (hunderscore _)).mp howns with hsame | rfl
      · exact hencodings other hother hsame
      · rfl

/-- The date of the epoch. -/
def epoch : Int → List Char := fun _ => "1970-01-01T00:00:00.000Z".toList

/-- Among the files of two ids with an underscore the lookups of one agree. -/
theorem lookupsAgree_underscores :
    LookupsAgree epoch "/" [(0, "q_abc"), (0, "q_bc")] "q_bc" :=
  (lookupsAgree_iff (fun _ => (by decide : epoch 0 ≠ []))
    fun _ => (by decide : '_' ∉ epoch 0)).mpr
    ⟨fun _ _ _ => by decide, by decide +kernel⟩

/-- A file of another id, which ends in it behind an underscore, refuses a free id. -/
theorem free_id_refused : ¬LookupsAgree epoch "/" [(0, "q_abc")] "abc" := by
  intro h
  have hrefused := (h.refused 0).mp (by decide +kernel)
  revert hrefused
  decide

end PiOxidized.Session.Jsonl
