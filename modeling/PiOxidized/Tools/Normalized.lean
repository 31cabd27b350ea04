/-
# Texts normalized for a fuzzy match

The normalization of Unicode is taken to treat the pieces between newlines separately, to keep the
newlines, and to leave a normalized text alone.  Then a text is normalized line by line, and
normalizing it twice is normalizing it once.  Its lines are those of the original, each
normalized, except that a last line of whitespace goes away.
-/

import PiOxidized.Tools.EditDiff
import Mathlib.Data.List.DropRight

namespace PiOxidized.Tools

open List Math

/-- What is known of the compatibility normalization of Unicode. -/
structure Normalizes (nfkc : List Char → List Char) : Prop where
  nil : nfkc [] = []
  cut : ∀ before after, nfkc (before ++ '\n' :: after) = nfkc before ++ '\n' :: nfkc after
  keeps_line : ∀ text, '\n' ∉ text → '\n' ∉ nfkc text
  settled : ∀ text, nfkc (normalizeForFuzzyMatch nfkc text) = normalizeForFuzzyMatch nfkc text

/-- The parts of a normalized text are normal too. -/
structure NormalizesParts (nfkc : List Char → List Char) : Prop extends Normalizes nfkc where
  parts : ∀ text part, part <:+: normalizeForFuzzyMatch nfkc text → nfkc part = part

/-- The identity normalizes texts that are normal. -/
theorem normalizes_id : Normalizes id where
  nil := rfl
  cut _ _ := rfl
  keeps_line _ h := h
  settled _ := rfl

/-- The text behind the last newline. -/
def lastLine (content : List Char) : List Char := (content.splitOn '\n').getLastD []

/-! ## Lines -/

/-- A text is a line, or a line in front of a newline and a text. -/
theorem line_induction {P : List Char → Prop} (line : ∀ text, '\n' ∉ text → P text)
    (cut : ∀ front rest, '\n' ∉ front → P rest → P (front ++ '\n' :: rest)) (text : List Char) :
    P text := by
  by_cases hmem : '\n' ∈ text
  · obtain ⟨front, rest, htext, hfront⟩ := eq_append_cons_of_mem hmem
    have hshorter : rest.length < text.length := by
      rw [htext, length_append, length_cons]
      omega
    rw [htext]
    exact cut front rest hfront (line_induction line cut rest)
  · exact line text hmem
termination_by text.length

variable {text : List Char}

theorem intercalate_append {separator : List Char} {pre after : List (List Char)}
    (hpre : pre ≠ []) (haft : after ≠ []) :
    separator.intercalate (pre ++ after) =
      separator.intercalate pre ++ separator ++ separator.intercalate after := by
  induction pre with
  | nil => exact absurd rfl hpre
  | cons first pre ih =>
    cases pre with
    | nil =>
      rw [singleton_append, intercalate_cons_of_ne_nil haft, intercalate_singleton]
    | cons second pre =>
      rw [cons_append, intercalate_cons_of_ne_nil (by simp),
        intercalate_cons_of_ne_nil (cons_ne_nil _ _), ih (cons_ne_nil _ _)]
      simp only [append_assoc]

theorem trimLines_cut (pre after : List Char) :
    trimLines (pre ++ '\n' :: after) = trimLines pre ++ '\n' :: trimLines after := by
  have hpre : (pre.splitOn '\n').map trimEnd ≠ [] :=
    fun h => splitOn_ne_nil '\n' pre (map_eq_nil_iff.mp h)
  have haft : (after.splitOn '\n').map trimEnd ≠ [] :=
    fun h => splitOn_ne_nil '\n' after (map_eq_nil_iff.mp h)
  rw [trimLines, splitOn_append_cons_self, map_append, intercalate_append hpre haft, append_assoc]
  rfl

theorem trimLines_line (h : '\n' ∉ text) : trimLines text = trimEnd text := by
  rw [trimLines, splitOn_eq_singleton h, map_singleton, intercalate_singleton]

theorem lastLine_cut (pre after : List Char) :
    lastLine (pre ++ '\n' :: after) = lastLine after := by
  rw [lastLine, lastLine, splitOn_append_cons_self, getLastD_eq_getLast?,
    getLastD_eq_getLast?, getLast?_append_of_ne_nil _ (splitOn_ne_nil '\n' after)]

theorem lastLine_line (h : '\n' ∉ text) : lastLine text = text := by
  rw [lastLine, splitOn_eq_singleton h]
  rfl

/-! ## Characters -/

variable {c : Char}

theorem trimEnd_begins (text : List Char) : trimEnd text <+: text := by
  rw [trimEnd, ← reverse_suffix, reverse_reverse]
  exact dropWhile_suffix isWhitespace

theorem trimEnd_eq_nil_iff : trimEnd text = [] ↔ ∀ c ∈ text, isWhitespace c = true := by
  rw [trimEnd, reverse_eq_nil_iff, dropWhile_eq_nil_iff]
  simp only [mem_reverse]

theorem trimEnd_trimEnd (text : List Char) : trimEnd (trimEnd text) = trimEnd text := by
  rw [trimEnd, trimEnd, reverse_reverse, dropWhile_idempotent]

/-- A character is kept, or it becomes one that is whitespace when it is. -/
theorem toAscii_cases (c : Char) : toAscii c = c ∨
      (toAscii c ∈ ['\'', '"', '-'] ∧ isWhitespace c = false) ∨
        toAscii c = ' ' ∧ isWhitespace c = true ∧ c ≠ '\n' := by
  have hnewline : isWhitespace c = true → 0x20 < c.toNat → c ≠ '\n' := by
    rintro - hlt rfl
    exact absurd hlt (by decide)
  rw [toAscii]
  split_ifs with hsingle hdouble hdash hspace
  · right; left
    simp only [contains_eq_mem, mem_cons, not_mem_nil, or_false, decide_eq_true_iff] at hsingle
    exact ⟨by decide, by rcases hsingle with h | h | h | h <;> simp [isWhitespace, h]⟩
  · right; left
    simp only [contains_eq_mem, mem_cons, not_mem_nil, or_false, decide_eq_true_iff] at hdouble
    exact ⟨by decide, by rcases hdouble with h | h | h | h <;> simp [isWhitespace, h]⟩
  · right; left
    simp only [contains_eq_mem, mem_cons, not_mem_nil, or_false, decide_eq_true_iff] at hdash
    exact ⟨by decide, by rcases hdash with h | h | h | h | h | h | h <;> simp [isWhitespace, h]⟩
  · right; right
    simp only [contains_eq_mem, mem_cons, not_mem_nil, or_false, decide_eq_true_iff] at hspace
    have hwhite : isWhitespace c = true := by
      rcases hspace with h | h | h | h | h | h | h | h | h | h | h | h | h <;>
        simp [isWhitespace, h]
    exact ⟨rfl, hwhite, hnewline hwhite (by omega)⟩
  · exact Or.inl rfl

theorem isWhitespace_toAscii (c : Char) : isWhitespace (toAscii c) = isWhitespace c := by
  rcases toAscii_cases c with h | ⟨h, hwhite⟩ | ⟨h, hwhite, -⟩
  · rw [h]
  · have hplain : ∀ d ∈ ['\'', '"', '-'], isWhitespace d = false := by
      simp only [forall_mem_cons, not_mem_nil, false_imp_iff, implies_true, and_true]
      decide
    rw [hplain _ h, hwhite]
  · rw [h, hwhite]
    rfl

theorem toAscii_toAscii (c : Char) : toAscii (toAscii c) = toAscii c := by
  rcases toAscii_cases c with h | ⟨h, -⟩ | ⟨h, -, -⟩
  · rw [h, h]
  · have hplain : ∀ d ∈ ['\'', '"', '-'], toAscii d = d := by
      simp only [forall_mem_cons, not_mem_nil, false_imp_iff, implies_true, and_true]
      decide
    exact hplain _ h
  · rw [h]
    rfl

theorem toAscii_eq_newline_iff : toAscii c = '\n' ↔ c = '\n' := by
  constructor
  · intro hc
    rcases toAscii_cases c with h | ⟨h, -⟩ | ⟨h, -, -⟩
    · rwa [h] at hc
    · rw [hc] at h
      exact absurd h (by decide)
    · rw [hc] at h
      exact absurd h (by decide)
  · rintro rfl
    rfl

/-! ## Normalized texts -/

variable {nfkc : List Char → List Char}

section

variable (hnfkc : Normalizes nfkc)

include hnfkc

theorem normalize_nil : normalizeForFuzzyMatch nfkc [] = [] := by
  rw [normalizeForFuzzyMatch, hnfkc.nil]
  rfl

theorem normalize_cut (pre after : List Char) : normalizeForFuzzyMatch nfkc (pre ++ '\n' :: after) =
      normalizeForFuzzyMatch nfkc pre ++ '\n' :: normalizeForFuzzyMatch nfkc after := by
  rw [normalizeForFuzzyMatch, hnfkc.cut, trimLines_cut, map_append, map_cons]
  rfl

theorem normalize_line (h : '\n' ∉ text) :
    normalizeForFuzzyMatch nfkc text = (trimEnd (nfkc text)).map toAscii := by
  rw [normalizeForFuzzyMatch, trimLines_line (hnfkc.keeps_line text h)]

theorem not_mem_normalize (h : '\n' ∉ text) : '\n' ∉ normalizeForFuzzyMatch nfkc text := by
  rw [normalize_line hnfkc h]
  intro hmem
  obtain ⟨c, hc, hascii⟩ := mem_map.mp hmem
  rw [toAscii_eq_newline_iff.mp hascii] at hc
  exact hnfkc.keeps_line text h ((trimEnd_begins _).subset hc)

/-- A line becomes empty when it is nothing but whitespace. -/
theorem normalize_line_eq_nil_iff (h : '\n' ∉ text) :
    normalizeForFuzzyMatch nfkc text = [] ↔ ∀ c ∈ nfkc text, isWhitespace c = true := by
  rw [normalize_line hnfkc h, map_eq_nil_iff, trimEnd_eq_nil_iff]

end

theorem trimEnd_map_toAscii (text : List Char) :
    trimEnd (text.map toAscii) = (trimEnd text).map toAscii := by
  have hwhite : isWhitespace ∘ toAscii = isWhitespace := funext isWhitespace_toAscii
  rw [trimEnd, ← map_reverse, dropWhile_map, hwhite, ← map_reverse]
  rfl

section

variable (hnfkc : Normalizes nfkc)

include hnfkc

theorem trimLines_normalize_line (h : '\n' ∉ text) :
    trimLines (normalizeForFuzzyMatch nfkc text) = normalizeForFuzzyMatch nfkc text := by
  rw [trimLines_line (not_mem_normalize hnfkc h), normalize_line hnfkc h, trimEnd_map_toAscii,
    trimEnd_trimEnd]

theorem trimLines_normalize (text : List Char) :
    trimLines (normalizeForFuzzyMatch nfkc text) = normalizeForFuzzyMatch nfkc text := by
  induction text using line_induction with
  | line text h => exact trimLines_normalize_line hnfkc h
  | cut front rest h ih =>
    rw [normalize_cut hnfkc, trimLines_cut, ih, trimLines_normalize_line hnfkc h]

/-- A normalized text is left alone. -/
theorem normalize_normalize (text : List Char) :
    normalizeForFuzzyMatch nfkc (normalizeForFuzzyMatch nfkc text) =
      normalizeForFuzzyMatch nfkc text := by
  rw [normalizeForFuzzyMatch, hnfkc.settled, trimLines_normalize hnfkc, normalizeForFuzzyMatch,
    map_map]
  exact map_congr_left fun c _ => toAscii_toAscii c

/-! ## Lines of a normalized text -/

theorem normalize_ending (front : List Char) : normalizeForFuzzyMatch nfkc (front ++ ['\n']) =
      normalizeForFuzzyMatch nfkc front ++ ['\n'] := by
  rw [normalize_cut hnfkc, normalize_nil hnfkc]

/-- The lines of a normalized text are the lines of the text, each normalized, unless the last
line is not empty and becomes empty. -/
theorem splitLines_normalize (content : List Char) :
    splitLinesWithEndings (normalizeForFuzzyMatch nfkc content) =
      ((splitLinesWithEndings content).map (normalizeForFuzzyMatch nfkc)).filter (· ≠ []) := by
  unfold splitLinesWithEndings
  induction content using line_induction with
  | line text h =>
    by_cases hemp : text = []
    · rw [hemp, normalize_nil hnfkc]
      rfl
    · rw [splitInclusive_of_not_mem h hemp, map_singleton]
      by_cases hgone : normalizeForFuzzyMatch nfkc text = []
      · rw [hgone]
        rfl
      · rw [splitInclusive_of_not_mem (not_mem_normalize hnfkc h) hgone, filter_singleton]
        simp [hgone]
  | cut front rest h ih =>
    rw [normalize_cut hnfkc, splitInclusive_append (not_mem_normalize hnfkc h),
      splitInclusive_append h, ih, map_cons, normalize_ending hnfkc, filter_cons]
    simp

/-- No line becomes empty but the last one. -/
theorem exists_line_normalize_eq_nil_iff (content : List Char) :
    (∃ line ∈ splitLinesWithEndings content, normalizeForFuzzyMatch nfkc line = []) ↔
      lastLine content ≠ [] ∧ ∀ c ∈ nfkc (lastLine content), isWhitespace c = true := by
  unfold splitLinesWithEndings
  induction content using line_induction with
  | line text h =>
    rw [lastLine_line h, ← normalize_line_eq_nil_iff hnfkc h]
    by_cases hemp : text = []
    · rw [hemp]
      simp [splitInclusive]
    · rw [splitInclusive_of_not_mem h hemp]
      simp [hemp]
  | cut front rest h ih =>
    rw [lastLine_cut, ← ih, splitInclusive_append h, exists_mem_cons_iff, normalize_ending hnfkc]
    simp

end

/-! ## Parts of a normalized text -/

theorem length_trimLines_le (text : List Char) : (trimLines text).length ≤ text.length := by
  induction text using line_induction with
  | line text h =>
    rw [trimLines_line h]
    exact (trimEnd_begins text).length_le
  | cut front rest h ih =>
    rw [trimLines_cut, trimLines_line h, length_append, length_append, length_cons, length_cons]
    have hfront := (trimEnd_begins front).length_le
    omega

theorem trimEnd_concat (hc : isWhitespace c = true) (text : List Char) :
    trimEnd (text ++ [c]) = trimEnd text := by
  rw [trimEnd, trimEnd, reverse_concat, dropWhile_cons_of_pos hc]

theorem trimEnd_concat_of_black (hc : isWhitespace c = false) (text : List Char) :
    trimEnd (text ++ [c]) = text ++ [c] := by
  rw [trimEnd, reverse_concat, dropWhile_cons_of_neg (by rw [hc]; exact nofun),
    ← reverse_concat, reverse_reverse]

theorem length_trimLines_concat_le (hc : isWhitespace c = true) (hne : c ≠ '\n') (text : List Char) :
    (trimLines (text ++ [c])).length ≤ text.length := by
  induction text using line_induction with
  | line text h =>
    have hline : '\n' ∉ text ++ [c] := by
      rw [mem_append, mem_singleton, not_or]
      exact ⟨h, fun heq => hne heq.symm⟩
    rw [trimLines_line hline, trimEnd_concat hc]
    exact (trimEnd_begins text).length_le
  | cut front rest h ih =>
    have hfront := length_trimLines_le front
    rw [append_assoc, cons_append, trimLines_cut, length_append,
      length_append, length_cons, length_cons]
    omega

/-- A text that trimming leaves alone has no whitespace in front of a newline. -/
theorem black_before_newline {pre after : List Char} (h : trimLines text = text)
    (htext : text = pre ++ c :: '\n' :: after) :
    c = '\n' ∨ isWhitespace c = false := by
  by_contra hnot
  rw [not_or, Bool.not_eq_false] at hnot
  have hfront := length_trimLines_concat_le hnot.2 hnot.1 pre
  have hrest := length_trimLines_le after
  have hlen := congrArg length h
  have hsplit : text = (pre ++ [c]) ++ '\n' :: after := by
    rw [htext, append_assoc, singleton_append]
  rw [hsplit, trimLines_cut, length_append, length_append, length_cons,
    length_cons, length_append, length_singleton] at hlen
  omega

/-- Trimming a text without whitespace in front of newlines takes from its end only. -/
theorem trimLines_begins (h : ∀ pre c after, text = pre ++ c :: '\n' :: after →
      c = '\n' ∨ isWhitespace c = false) : trimLines text <+: text := by
  induction text using line_induction with
  | line text hline =>
    rw [trimLines_line hline]
    exact trimEnd_begins text
  | cut front rest hfront ih =>
    have hrest : trimLines rest <+: rest := by
      apply ih
      intro pre c after hsplit
      apply h (front ++ '\n' :: pre) c after
      rw [hsplit, append_assoc, cons_append]
    have hkept : trimEnd front = front := by
      rcases eq_nil_or_concat front with rfl | ⟨pre, c, rfl⟩
      · rfl
      · rw [concat_eq_append] at hfront h ⊢
        apply trimEnd_concat_of_black
        rcases h pre c rest (by rw [append_assoc, singleton_append]) with hc | hc
        · rw [hc] at hfront
          exact absurd (mem_append_right _ mem_cons_self) hfront
        · exact hc
    rw [trimLines_cut, trimLines_line hfront, hkept]
    exact prefix_append_right_inj front |>.mpr ((prefix_cons_inj '\n').mpr hrest)

theorem toAscii_of_mem_normalize (h : c ∈ normalizeForFuzzyMatch nfkc text) : toAscii c = c := by
  obtain ⟨d, -, rfl⟩ := mem_map.mp h
  exact toAscii_toAscii d

/-- The normalization of a part of a normalized text is the begin of the part. -/
theorem normalize_part (hnfkc : NormalizesParts nfkc) {part : List Char}
    (h : part <:+: normalizeForFuzzyMatch nfkc text) :
    normalizeForFuzzyMatch nfkc part <+: part := by
  have hbegins : trimLines part <+: part := by
    apply trimLines_begins
    intro pre c after hpart
    obtain ⟨front, rest, htext⟩ := h
    apply black_before_newline (trimLines_normalize hnfkc.toNormalizes text)
    rw [← htext, hpart]
    show front ++ (pre ++ c :: '\n' :: after) ++ rest =
      (front ++ pre) ++ c :: '\n' :: (after ++ rest)
    simp only [append_assoc, cons_append]
  have hascii : (trimLines part).map toAscii = trimLines part := by
    conv_rhs => rw [← map_id (trimLines part)]
    apply map_congr_left
    intro c hc
    exact toAscii_of_mem_normalize (h.subset (hbegins.subset hc))
  rw [normalizeForFuzzyMatch, hnfkc.parts text part h, hascii]
  exact hbegins

end PiOxidized.Tools
