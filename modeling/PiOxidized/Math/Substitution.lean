/-
# Replacing patterns of a text

The replacement of all patterns at once, by a search that goes on behind each pattern it finds,
and the replacement of one after the other.  The patterns begin with a mark that none of them has
inside.  Then the second way leads to the same text as the first where each pattern is found as
often as the text had it from the beginning.
-/

import PiOxidized.Math.Occurrence

namespace PiOxidized.Math

open List

universe u

variable {X : Type u} [BEq X]

/-- A text with its patterns replaced, behind some positions that are skipped. -/
def substitute (rules : List (List X × List X)) : Nat → List X → List X
  | _, [] => []
  | skip + 1, _ :: text => substitute rules skip text
  | 0, c :: text =>
    match rules.find? (·.1.isPrefixOf (c :: text)) with
    | some rule => rule.2 ++ substitute rules (rule.1.length - 1) text
    | none => c :: substitute rules 0 text

/-- One replacement, which is either meant for the text as it was or not. -/
structure Pass (X : Type u) where
  pattern : List X
  replacement : List X
  own : Bool

/-- The rule of a pass that is meant for the text. -/
def Pass.rules (pass : Pass X) : List (List X × List X) :=
  if pass.own then [(pass.pattern, pass.replacement)] else []

/-- How often a pass may find its pattern. -/
def Pass.expected (text : List X) (pass : Pass X) : Nat :=
  if pass.own then countDisjoint pass.pattern 0 text else 0

/-- One replacement after the other. -/
def runPasses (text : List X) (passes : List (Pass X)) : List X :=
  passes.foldl (fun text pass => substitute [(pass.pattern, pass.replacement)] 0 text) text

/-- How many patterns each replacement finds. -/
def replaced : List X → List (Pass X) → List Nat
  | _, [] => []
  | text, pass :: passes => countDisjoint pass.pattern 0 text ::
      replaced (substitute [(pass.pattern, pass.replacement)] 0 text) passes

/-- With all patterns of the passes before replaced at once, the text has each pattern as often as
it had it from the beginning, or not at all. -/
def undisturbed (text : List X) : List (List X × List X) → List (Pass X) → Bool
  | _, [] => true
  | rules, pass :: passes =>
    countDisjoint pass.pattern 0 (substitute rules 0 text) == pass.expected text &&
      undisturbed text (rules ++ pass.rules) passes

/-- A pattern that begins with a mark it does not have inside. -/
def Bracketed (mark : X) (pattern : List X) : Prop := ∃ body, pattern = mark :: body ∧ mark ∉ body

variable [LawfulBEq X] {mark : X} {pattern repl text pre : List X}
  {rules : List (List X × List X)} {rule : List X × List X}

omit [LawfulBEq X] in
theorem substitute_skip (skip : Nat) (text : List X) :
    substitute rules skip text = substitute rules 0 (text.drop skip) := by
  induction skip generalizing text with
  | zero => rfl
  | succ skip ih =>
    cases text with
    | nil => rfl
    | cons c text => exact ih text

omit [LawfulBEq X] in
theorem substitute_hit (hfind : rules.find? (·.1.isPrefixOf text) = some rule)
    (hmark : Bracketed mark rule.1) :
    substitute rules 0 text = rule.2 ++ substitute rules 0 (text.drop rule.1.length) := by
  obtain ⟨body, hbody, -⟩ := hmark
  have hpref := find?_some hfind
  cases text with
  | nil => simp [hbody] at hpref
  | cons c text =>
    simp only [substitute, hfind]
    rw [substitute_skip, hbody]
    rfl

/-- A pattern begins with the mark. -/
theorem Bracketed.not_isPrefixOf {c : X} (hpattern : Bracketed mark pattern)
    (h : mark ∉ c :: pre) : ¬ pattern.isPrefixOf (c :: text) = true := by
  obtain ⟨body, rfl, -⟩ := hpattern
  rw [isPrefixOf_cons_cons, Bool.and_eq_true, beq_iff_eq]
  exact fun hhit => h (hhit.1 ▸ mem_cons_self)

/-- Where no pattern begins nothing is replaced. -/
theorem substitute_append (hrules : ∀ rule ∈ rules, Bracketed mark rule.1) (hpre : mark ∉ pre) :
    substitute rules 0 (pre ++ text) = pre ++ substitute rules 0 text := by
  induction pre with
  | nil => rfl
  | cons c pre ih =>
    have hnone : rules.find? (·.1.isPrefixOf (c :: (pre ++ text))) = none :=
      find?_eq_none.mpr fun rule hmem => (hrules rule hmem).not_isPrefixOf hpre
    simp only [cons_append, substitute, hnone, ih fun h => hpre (mem_cons_of_mem _ h)]

section

variable (hpattern : Bracketed mark pattern)

include hpattern

/-- Where a pattern does not begin it is not found. -/
theorem countDisjoint_append (hpre : mark ∉ pre) :
    countDisjoint pattern 0 (pre ++ text) = countDisjoint pattern 0 text := by
  induction pre with
  | nil => rfl
  | cons c pre ih =>
    rw [cons_append, countDisjoint, if_neg (hpattern.not_isPrefixOf hpre),
      ih fun h => hpre (mem_cons_of_mem _ h)]

/-- The patterns that are found are all there are. -/
theorem countDisjoint_cons (c : X) (text : List X) : countDisjoint pattern 0 (c :: text) =
      countDisjoint pattern 0 text + if pattern.isPrefixOf (c :: text) then 1 else 0 := by
  rw [countDisjoint]
  split_ifs with hhit
  · obtain ⟨body, rfl, hmark⟩ := hpattern
    obtain ⟨rest, heq⟩ := isPrefixOf_iff_prefix.mp hhit
    obtain ⟨rfl, rfl⟩ := cons.inj heq
    rw [countDisjoint_skip, append_eq, countDisjoint_append ⟨body, rfl, hmark⟩ hmark,
      length_cons, Nat.add_sub_cancel, drop_left, Nat.add_comm]
  · rfl

theorem countDisjoint_le_append :
    countDisjoint pattern 0 text ≤ countDisjoint pattern 0 (pre ++ text) := by
  induction pre with
  | nil => exact le_rfl
  | cons c pre ih =>
    rw [cons_append, countDisjoint_cons hpattern]
    exact ih.trans (Nat.le_add_right _ _)

/-- A text in which no pattern begins is left. -/
theorem substitute_of_countDisjoint
    (h : countDisjoint pattern 0 (pre ++ text) = countDisjoint pattern 0 text) :
    substitute [(pattern, repl)] 0 (pre ++ text) = pre ++ substitute [(pattern, repl)] 0 text := by
  induction pre with
  | nil => rfl
  | cons c pre ih =>
    rw [cons_append, countDisjoint_cons hpattern] at h
    have hle : countDisjoint pattern 0 text ≤ countDisjoint pattern 0 (pre ++ text) :=
      countDisjoint_le_append hpattern
    split_ifs at h with hhit
    · omega
    · simp only [cons_append, substitute, find?_cons, hhit, find?_nil, ih h]

/-- A rule for a new pattern acts on what the others have left as it acts beside them, where the
pattern is found no more often than before. -/
theorem substitute_substitute (hrules : ∀ rule ∈ rules,
      Bracketed mark rule.1 ∧ ¬ pattern <+: rule.1 ∧ ¬ rule.1 <+: pattern) (text : List X) :
    countDisjoint pattern 0 text ≤ countDisjoint pattern 0 (substitute rules 0 text) ∧
      (countDisjoint pattern 0 (substitute rules 0 text) = countDisjoint pattern 0 text →
        substitute [(pattern, repl)] 0 (substitute rules 0 text) =
          substitute (rules ++ [(pattern, repl)]) 0 text) := by
  have hmarked := fun rule hmem => (hrules rule hmem).1
  have hboth : ∀ rule ∈ rules ++ [(pattern, repl)], Bracketed mark rule.1 := by
    intro rule hmem
    rcases mem_append.mp hmem with hmem | hmem
    · exact hmarked rule hmem
    · rw [mem_singleton.mp hmem]
      exact hpattern
  induction hlen : text.length using Nat.strong_induction_on generalizing text with
  | h length ih =>
  cases text with
  | nil => exact ⟨le_rfl, fun _ => rfl⟩
  | cons c text =>
  cases hfind : rules.find? (·.1.isPrefixOf (c :: text)) with
  | some rule =>
    have hmem := mem_of_find?_eq_some hfind
    obtain ⟨body, hbody, hmark⟩ := hmarked rule hmem
    have hpref := find?_some hfind
    obtain ⟨rest, hrest⟩ := isPrefixOf_iff_prefix.mp hpref
    have hsome : (rules ++ [(pattern, repl)]).find? (·.1.isPrefixOf (c :: text)) = some rule := by
      rw [find?_append, hfind]
      rfl
    have hcnt : countDisjoint pattern 0 (c :: text) = countDisjoint pattern 0 rest := by
      have hmiss : ¬ pattern.isPrefixOf (c :: text) = true := by
        intro hhit
        rcases prefix_or_prefix_of_prefix ( isPrefixOf_iff_prefix.mp hhit)
          ⟨rest, hrest⟩ with hpref | hpref
        · exact (hrules rule hmem).2.1 hpref
        · exact (hrules rule hmem).2.2 hpref
      rw [countDisjoint_cons hpattern, if_neg hmiss, Nat.add_zero]
      rw [hbody] at hrest
      rw [← (cons.inj hrest).2]
      exact countDisjoint_append hpattern hmark
    rw [substitute_hit hfind (hmarked rule hmem), substitute_hit hsome (hmarked rule hmem), hcnt,
      ← hrest, drop_left]
    obtain ⟨hle, heq⟩ := ih rest.length (by
      rw [← hlen, ← hrest, length_append, hbody, length_cons]
      omega) rest rfl
    have happ : countDisjoint pattern 0 (substitute rules 0 rest) ≤
        countDisjoint pattern 0 (rule.2 ++ substitute rules 0 rest) :=
      countDisjoint_le_append hpattern
    refine ⟨hle.trans happ, fun hsame => ?_⟩
    rw [substitute_of_countDisjoint hpattern (by omega), heq (by omega)]
  | none =>
    obtain ⟨hle, heq⟩ := ih text.length (by rw [← hlen]; exact Nat.lt_succ_self _) text rfl
    have hsub : substitute rules 0 (c :: text) = c :: substitute rules 0 text := by
      simp only [substitute, hfind]
    rw [hsub, countDisjoint_cons hpattern, countDisjoint_cons hpattern]
    by_cases hhit : pattern.isPrefixOf (c :: text) = true
    · have hsome : (rules ++ [(pattern, repl)]).find? (·.1.isPrefixOf (c :: text)) =
          some (pattern, repl) := by
        simp [find?_append, hfind, hhit]
      obtain ⟨rest, hrest⟩ := isPrefixOf_iff_prefix.mp hhit
      obtain ⟨body, hbody, hmark⟩ := id hpattern
      have htext : text = body ++ rest := by
        rw [hbody] at hrest
        exact (cons.inj hrest).2.symm
      -- the pattern is still there, with nothing replaced inside
      have hkept : c :: substitute rules 0 text = pattern ++ substitute rules 0 rest := by
        rw [htext, substitute_append hmarked hmark, ← cons_append, hbody]
        rw [hbody] at hrest
        rw [(cons.inj hrest).1]
      have hagain : pattern.isPrefixOf (c :: substitute rules 0 text) = true :=
        isPrefixOf_iff_prefix.mpr ⟨_, hkept.symm⟩
      rw [if_pos hhit, if_pos hagain]
      refine ⟨Nat.add_le_add_right hle 1, fun hsame => ?_⟩
      have hbeh := heq (Nat.add_right_cancel hsame)
      have hone : ∀ rule ∈ [(pattern, repl)], Bracketed mark rule.1 := fun rule hmem =>
        hboth rule (mem_append_right _ hmem)
      rw [htext, substitute_append hmarked hmark, substitute_append hone hmark,
        substitute_append hboth hmark, append_cancel_left_eq] at hbeh
      have hfnd : [(pattern, repl)].find?
          (·.1.isPrefixOf (c :: substitute rules 0 text)) = some (pattern, repl) :=
        find?_cons_of_pos hagain
      rw [substitute_hit hsome hpattern, substitute_hit hfnd hpattern, hkept, drop_left,
        ← hrest, drop_left, hbeh]
    · have hnone : (rules ++ [(pattern, repl)]).find? (·.1.isPrefixOf (c :: text)) = none := by
        simp [find?_append, hfind, hhit]
      rw [if_neg hhit]
      refine ⟨hle.trans (Nat.le_add_right _ _), fun hsame => ?_⟩
      split_ifs at hsame with hagain
      · omega
      · simp only [substitute, hnone, ← heq hsame, find?_cons, hagain, find?_nil]

end

/-! ## One after the other -/

omit [LawfulBEq X] in
@[simp] theorem substitute_nil (text : List X) : substitute [] 0 text = text := by
  induction text with
  | nil => rfl
  | cons c text ih => exact congrArg (c :: ·) ih

/-- Neither of two patterns is the beginning of the other. -/
def Unmixed (rule other : List X × List X) : Prop := ¬ rule.1 <+: other.1 ∧ ¬ other.1 <+: rule.1

variable {passes : List (Pass X)}

/-- A pass that finds what is expected does what is meant. -/
theorem Pass.substitute_eq {pass : Pass X} (hpattern : Bracketed mark pass.pattern)
    (hrules : ∀ rule ∈ rules, Bracketed mark rule.1)
    (hapart : ∀ rule ∈ rules, ∀ new ∈ pass.rules, Unmixed rule new)
    (h : countDisjoint pass.pattern 0 (substitute rules 0 text) = pass.expected text) :
    substitute [(pass.pattern, pass.replacement)] 0 (substitute rules 0 text) =
      substitute (rules ++ pass.rules) 0 text := by
  rw [Pass.expected] at h
  rw [Pass.rules] at hapart ⊢
  split_ifs at h hapart ⊢
  · exact (substitute_substitute hpattern (fun rule hmem => ⟨hrules rule hmem,
      (hapart rule hmem _ mem_cons_self).symm⟩) text).2 h
  · have hnone := @substitute_of_countDisjoint X _ _ mark pass.pattern pass.replacement []
      (substitute rules 0 text) hpattern
    simp only [append_nil, substitute] at hnone ⊢
    exact hnone h

/-- The passes find what is expected when the text is undisturbed, and then replace everything as
if at once. -/
theorem replaced_eq_iff (hpasses : ∀ pass ∈ passes, Bracketed mark pass.pattern)
    (hrules : ∀ rule ∈ rules, Bracketed mark rule.1)
    (hapart : (rules ++ passes.flatMap Pass.rules).Pairwise Unmixed) :
    (replaced (substitute rules 0 text) passes = passes.map (Pass.expected text) ↔
      undisturbed text rules passes = true) ∧
    (undisturbed text rules passes = true → runPasses (substitute rules 0 text) passes =
      substitute (rules ++ passes.flatMap Pass.rules) 0 text) := by
  induction passes generalizing rules with
  | nil => simp [replaced, undisturbed, runPasses]
  | cons pass passes ih =>
    rw [flatMap_cons, ← append_assoc] at hapart
    have hnew : ∀ rule ∈ rules, ∀ new ∈ pass.rules, Unmixed rule new :=
      (pairwise_append.mp (pairwise_append.mp hapart).1).2.2
    have hmarked : ∀ rule ∈ rules ++ pass.rules, Bracketed mark rule.1 := by
      intro rule hmem
      rcases mem_append.mp hmem with hmem | hmem
      · exact hrules rule hmem
      · rw [Pass.rules] at hmem
        split_ifs at hmem
        · rw [mem_singleton.mp hmem]
          exact hpasses pass mem_cons_self
        · cases hmem
    obtain ⟨hiff, hrun⟩ := ih (fun pass hmem => hpasses pass (mem_cons_of_mem _ hmem))
      hmarked hapart
    rw [replaced, undisturbed, map_cons, cons.injEq, Bool.and_eq_true, beq_iff_eq]
    have hturn : countDisjoint pass.pattern 0 (substitute rules 0 text) = pass.expected text →
        substitute [(pass.pattern, pass.replacement)] 0 (substitute rules 0 text) =
          substitute (rules ++ pass.rules) 0 text :=
      Pass.substitute_eq (hpasses pass mem_cons_self) hrules hnew
    refine ⟨and_congr_right fun h => ?_, fun h => ?_⟩
    · rw [hturn h, hiff]
    · rw [flatMap_cons, ← append_assoc, ← hrun h.2, ← hturn h.1]
      rfl

end PiOxidized.Math
