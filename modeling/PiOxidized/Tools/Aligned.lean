/-
# The alignment of two contents

The table holds the lengths of longest common sublists of all begins of the two lists of lines, and
the walk back through it pairs equal lines, as many as there are in a longest common sublist.  The
operations along these pairs make up both lists, and so do the lines of the patch, which only move
removed lines in front of added ones.
-/

import PiOxidized.Math.CommonSublist
import PiOxidized.Tools.Patch

namespace PiOxidized.Tools

open List Math

section Table

variable {A : Type} [DecidableEq A] {a : A} {as bs front back : List A} {row : List Nat}
  {left i j r c : Nat}

/-! ## The table -/

/-- The row holds the lengths for one list and for each begin of the other one from `back` on. -/
def IsRow (front back : List A) : List A → List Nat → Prop
  | [], row => ∃ n, row = [n] ∧ IsLcsLength front back n
  | b :: bs, row => ∃ n rest, row = n :: rest ∧ IsLcsLength front back n ∧
      IsRow front (back ++ [b]) bs rest

theorem IsRow.fillRow (h : IsRow front back bs row) (a : A)
    (hleft : IsLcsLength (front ++ [a]) back left) :
    IsRow (front ++ [a]) back bs (left :: fillRow a left bs row) := by
  induction bs generalizing back left row with
  | nil => exact ⟨left, rfl, hleft⟩
  | cons b bs ih =>
    obtain ⟨diagonal, rest, rfl, hdiagonal, hrest⟩ := h
    have habove : ∃ above row, rest = above :: row ∧ IsLcsLength front (back ++ [b]) above := by
      cases bs with
      | nil =>
        obtain ⟨above, rfl, habove⟩ := hrest
        exact ⟨above, [], rfl, habove⟩
      | cons b' bs =>
        obtain ⟨above, row, rfl, habove, -⟩ := hrest
        exact ⟨above, row, rfl, habove⟩
    obtain ⟨above, row, rfl, habove⟩ := habove
    refine ⟨left, _, rfl, hleft, ?_⟩
    rw [Tools.fillRow]
    apply ih hrest
    split_ifs with heq
    · rw [heq]
      exact hdiagonal.concat b
    · exact hleft.concat_ne heq habove

omit [DecidableEq A] in
theorem IsRow.get (h : IsRow front back bs row) (hc : c ≤ bs.length) :
    IsLcsLength front (back ++ bs.take c) (row.getD c 0) := by
  induction bs generalizing back row c with
  | nil =>
    obtain ⟨n, rfl, hn⟩ := h
    rw [Nat.le_zero.mp hc, take_nil, append_nil]
    exact hn
  | cons b bs ih =>
    obtain ⟨n, rest, rfl, hn, hrest⟩ := h
    cases c with
    | zero =>
      rw [take_zero, append_nil]
      exact hn
    | succ c =>
      have hlater := ih hrest (Nat.le_of_succ_le_succ hc)
      rw [append_assoc, singleton_append] at hlater
      exact hlater

theorem isRow_fillTable (h : IsRow front [] bs row) (hr : r ≤ as.length) :
    IsRow (front ++ as.take r) [] bs ((fillTable bs row as).getD r []) := by
  induction as generalizing front row r with
  | nil =>
    rw [Nat.le_zero.mp hr, take_nil, append_nil]
    exact h
  | cons a as ih =>
    cases r with
    | zero =>
      rw [take_zero, append_nil]
      exact h
    | succ r =>
      have hnext := h.fillRow a (isLcsLength_nil_right _)
      have hlater := ih hnext (Nat.le_of_succ_le_succ hr)
      rw [append_assoc, singleton_append] at hlater
      exact hlater

omit [DecidableEq A] in
theorem isRow_replicate (back bs : List A) : IsRow [] back bs (replicate (bs.length + 1) 0) := by
  induction bs generalizing back with
  | nil => exact ⟨0, rfl, isLcsLength_nil_left back⟩
  | cons b bs ih => exact ⟨0, _, rfl, isLcsLength_nil_left back, ih (back ++ [b])⟩

/-- The cells of the table are the lengths for the begins of the two lists. -/
theorem isLcsLength_cellOf (hr : r ≤ as.length) (hc : c ≤ bs.length) :
    IsLcsLength (as.take r) (bs.take c) (cellOf (lcsTable as bs) r c) :=
  (isRow_fillTable (isRow_replicate [] bs) hr).get hc

/-! ## The way back -/

/-- The pairs are positions of equal elements, each behind the one before it, between two pairs of
bounds. -/
def Paired (as bs : List A) (i j r c : Nat) : List (Nat × Nat) → Prop
  | [] => i ≤ r ∧ j ≤ c
  | pair :: pairs =>
    i ≤ pair.1 ∧ j ≤ pair.2 ∧ (∃ x, as[pair.1]? = some x ∧ bs[pair.2]? = some x) ∧
      Paired as bs (pair.1 + 1) (pair.2 + 1) r c pairs

variable {pairs : List (Nat × Nat)}

omit [DecidableEq A] in
theorem Paired.mono {r' c' : Nat} (h : Paired as bs i j r c pairs) (hr : r ≤ r') (hc : c ≤ c') :
    Paired as bs i j r' c' pairs := by
  induction pairs generalizing i j with
  | nil => exact ⟨Nat.le_trans h.1 hr, Nat.le_trans h.2 hc⟩
  | cons pair pairs ih => exact ⟨h.1, h.2.1, h.2.2.1, ih h.2.2.2⟩

omit [DecidableEq A] in
theorem Paired.concat (h : Paired as bs i j r c pairs)
    (heq : ∃ x, as[r]? = some x ∧ bs[c]? = some x) :
    Paired as bs i j (r + 1) (c + 1) (pairs ++ [(r, c)]) := by
  induction pairs generalizing i j with
  | nil => exact ⟨h.1, h.2, heq, Nat.le_refl _, Nat.le_refl _⟩
  | cons pair pairs ih => exact ⟨h.1, h.2.1, h.2.2.1, ih h.2.2.2⟩

omit [DecidableEq A] in
/-- The greater one of two neighbouring cells counts for the begins that end with different
elements. -/
theorem concat_max {m n k : Nat} (hr : r < as.length) (hc : c < bs.length)
    (hne : ¬ as[r]? = bs[c]?) (hleft : IsLcsLength (as.take (r + 1)) (bs.take c) n)
    (habove : IsLcsLength (as.take r) (bs.take (c + 1)) m) (hmax : max n m = k) :
    IsLcsLength (as.take (r + 1)) (bs.take (c + 1)) k := by
  rw [getElem?_eq_getElem hr, getElem?_eq_getElem hc] at hne
  rw [take_succ_eq_append_getElem hr] at hleft ⊢
  rw [take_succ_eq_append_getElem hc] at habove ⊢
  rw [← hmax]
  exact hleft.concat_ne (fun heq => hne (congrArg some heq)) habove

/-- The walk back pairs equal elements, as many as a longest common sublist has. -/
theorem paired_backtrack (as bs : List A) (hr : r ≤ as.length) (hc : c ≤ bs.length) :
    Paired as bs 0 0 r c (backtrack as bs (lcsTable as bs) r c) ∧
      IsLcsLength (as.take r) (bs.take c) (backtrack as bs (lcsTable as bs) r c).length := by
  fun_induction backtrack as bs (lcsTable as bs) r c with
  | case1 r c heq ih =>
    obtain ⟨hpaired, hlen⟩ := ih (Nat.le_of_succ_le hr) (Nat.le_of_succ_le hc)
    have hr' : r < as.length := hr
    have hc' : c < bs.length := hc
    rw [getElem?_eq_getElem hr', getElem?_eq_getElem hc'] at heq
    have hsame := Option.some.inj heq
    constructor
    · apply hpaired.concat
      exact ⟨as[r], getElem?_eq_getElem hr', by rw [hsame]; exact getElem?_eq_getElem hc'⟩
    · rw [take_succ_eq_append_getElem hr', take_succ_eq_append_getElem hc', ← hsame,
        length_append, length_singleton]
      exact hlen.concat as[r]
  | case2 r c hne hle ih =>
    -- the cell above is the greater one
    obtain ⟨hpaired, hlen⟩ := ih (Nat.le_of_succ_le hr) hc
    refine ⟨hpaired.mono (Nat.le_succ r) (Nat.le_refl _), ?_⟩
    have habove := isLcsLength_cellOf (Nat.le_of_succ_le hr) hc
    have hleft := isLcsLength_cellOf hr (Nat.le_of_succ_le hc)
    rw [hlen.unique habove]
    exact concat_max hr hc hne hleft habove (Nat.max_eq_right hle)
  | case3 r c hne hlt ih =>
    obtain ⟨hpaired, hlen⟩ := ih hr (Nat.le_of_succ_le hc)
    refine ⟨hpaired.mono (Nat.le_refl _) (Nat.le_succ c), ?_⟩
    have habove := isLcsLength_cellOf (Nat.le_of_succ_le hr) hc
    have hleft := isLcsLength_cellOf hr (Nat.le_of_succ_le hc)
    rw [hlen.unique hleft]
    exact concat_max hr hc hne hleft habove (Nat.max_eq_left (Nat.le_of_not_le hlt))
  | case4 r c h =>
    refine ⟨⟨Nat.zero_le r, Nat.zero_le c⟩, ?_⟩
    cases r with
    | zero =>
      rw [take_zero]
      exact isLcsLength_nil_left _
    | succ r =>
      cases c with
      | zero =>
        rw [take_zero]
        exact isLcsLength_nil_right _
      | succ c => exact absurd rfl (h r c rfl)

end Table

/-! ## Operations -/

/-- The line of the old content that an operation uses. -/
def Op.old : Op → List (List Char)
  | .equal text => [text]
  | .added _ => []
  | .removed text => [text]

/-- The line of the new content that an operation makes. -/
def Op.new : Op → List (List Char)
  | .equal text => [text]
  | .added text => [text]
  | .removed _ => []

def Op.isEqual : Op → Bool
  | .equal _ => true
  | _ => false

/-- The operations use up the old lines, make the new ones, and keep a number of lines. -/
structure Aligns (oldLines newLines : List (List Char)) (kept : Nat) (ops : List Op) : Prop where
  old : ops.flatMap Op.old = oldLines
  new : ops.flatMap Op.new = newLines
  kept : ops.countP Op.isEqual = kept

variable {oldLines newLines : List (List Char)} {as bs : List (List Char)} {i j kept : Nat}
  {lcs : List (Nat × Nat)} {ops : List Op} {text : List Char}

theorem Aligns.equal (h : Aligns oldLines newLines kept ops) (text : List Char) :
    Aligns (text :: oldLines) (text :: newLines) (kept + 1) (.equal text :: ops) where
  old := by rw [flatMap_cons, h.old]; rfl
  new := by rw [flatMap_cons, h.new]; rfl
  kept := by rw [countP_cons_of_pos rfl, h.kept]

theorem Aligns.added (h : Aligns oldLines newLines kept ops) (text : List Char) :
    Aligns oldLines (text :: newLines) kept (.added text :: ops) where
  old := by rw [flatMap_cons, h.old]; rfl
  new := by rw [flatMap_cons, h.new]; rfl
  kept := by rw [countP_cons_of_neg Bool.false_ne_true, h.kept]

theorem Aligns.removed (h : Aligns oldLines newLines kept ops) (text : List Char) :
    Aligns (text :: oldLines) newLines kept (.removed text :: ops) where
  old := by rw [flatMap_cons, h.old]; rfl
  new := by rw [flatMap_cons, h.new]; rfl
  kept := by rw [countP_cons_of_neg Bool.false_ne_true, h.kept]

theorem drop_eq_cons {xs rest : List (List Char)} {x : List Char} (h : x :: rest = xs.drop i) :
    i < xs.length ∧ xs[i]? = some x ∧ rest = xs.drop (i + 1) := by
  have hlt : i < xs.length := by
    by_contra hle
    rw [drop_eq_nil_of_le (Nat.le_of_not_lt hle)] at h
    cases h
  rw [drop_eq_getElem_cons hlt] at h
  obtain ⟨hx, hrest⟩ := cons.inj h
  exact ⟨hlt, by rw [hx]; exact getElem?_eq_getElem hlt, hrest⟩

section

variable (h : Paired as bs i j as.length bs.length lcs)

include h

/-- At the end of one of the contents there are no pairs. -/
theorem Paired.eq_nil (hend : [] = as.drop i ∨ [] = bs.drop j) : lcs = [] := by
  cases lcs with
  | nil => rfl
  | cons pair lcs =>
    obtain ⟨hi, hj, ⟨x, hold, hnew⟩, -⟩ := h
    obtain ⟨hr, -⟩ := List.getElem?_eq_some_iff.mp hold
    obtain ⟨hc, -⟩ := List.getElem?_eq_some_iff.mp hnew
    rcases hend with hend | hend
    · have hlen := List.drop_eq_nil_iff.mp hend.symm
      omega
    · have hlen := List.drop_eq_nil_iff.mp hend.symm
      omega

/-- The lines of a pair are equal, and the other pairs lie behind them. -/
theorem Paired.tail (hhead : lcs.head? = some (i, j)) : (∃ x, as[i]? = some x ∧ bs[j]? = some x) ∧
      Paired as bs (i + 1) (j + 1) as.length bs.length lcs.tail ∧
        lcs.length = lcs.tail.length + 1 := by
  cases lcs with
  | nil => cases hhead
  | cons pair lcs =>
    obtain ⟨-, -, heq, hrest⟩ := h
    rw [Option.some.inj hhead] at heq hrest
    exact ⟨heq, hrest, rfl⟩

theorem Paired.skip_new (hj : j < bs.length)
    (hall : lcs.head?.all (fun pair => decide (j < pair.2)) = true) :
    Paired as bs i (j + 1) as.length bs.length lcs := by
  cases lcs with
  | nil => exact ⟨h.1, hj⟩
  | cons pair lcs =>
    have hlt : j < pair.2 := of_decide_eq_true hall
    exact ⟨h.1, hlt, h.2.2⟩

theorem Paired.skip_old (hi : i < as.length) (hhead : ¬ lcs.head? = some (i, j))
    (hall : lcs = [] ∨ ¬ lcs.head?.all (fun pair => decide (j < pair.2)) = true) :
    Paired as bs (i + 1) j as.length bs.length lcs := by
  cases lcs with
  | nil => exact ⟨hi, h.2⟩
  | cons pair lcs =>
    obtain ⟨hpi, hpj, hrest⟩ := h
    rcases hall with hnil | hall
    · cases hnil
    · have hle : ¬ j < pair.2 := fun hlt => hall (decide_eq_true hlt)
      have hj : pair.2 = j := Nat.le_antisymm (Nat.le_of_not_lt hle) hpj
      have hne : pair.1 ≠ i := by
        intro heq
        apply hhead
        rw [head?_cons, ← heq, ← hj]
      exact ⟨Nat.lt_of_le_of_ne hpi (Ne.symm hne), hpj, hrest⟩

/-- Along pairs of equal lines the loop reaches the ends of both contents. -/
theorem exists_alignLines (hold : oldLines = as.drop i) (hnew : newLines = bs.drop j) :
    ∃ ops, alignLines i j lcs oldLines newLines = some ops ∧
      Aligns oldLines newLines lcs.length ops := by
  fun_induction alignLines i j lcs oldLines newLines with
  | case1 i j lcs =>
    rw [h.eq_nil (.inl hold)]
    exact ⟨[], rfl, rfl, rfl, rfl⟩
  | case2 i j lcs new newLines hhead =>
    rw [h.eq_nil (.inl hold)] at hhead
    cases hhead
  | case3 i j lcs new newLines hhead hall ih =>
    obtain ⟨hlt, -, hrest⟩ := drop_eq_cons hnew
    obtain ⟨ops, hops, haln⟩ := ih (h.skip_new hlt hall) hold hrest
    exact ⟨.added new :: ops, by rw [hops]; rfl, haln.added new⟩
  | case4 i j lcs new newLines hhead hall =>
    rw [h.eq_nil (.inl hold)] at hall
    exact absurd rfl hall
  | case5 i j lcs old oldLines hhead ih =>
    rw [h.eq_nil (.inr hnew)] at hhead
    cases hhead
  | case6 i j lcs old oldLines hhead ih =>
    obtain ⟨hlt, -, hrest⟩ := drop_eq_cons hold
    obtain ⟨ops, hops, haln⟩ := ih (h.skip_old hlt hhead (.inl (h.eq_nil (.inr hnew)))) hrest hnew
    exact ⟨.removed old :: ops, by rw [hops]; rfl, haln.removed old⟩
  | case7 i j lcs old oldLines new newLines hhead ih =>
    obtain ⟨⟨x, hx, hx'⟩, hpaired, hlen⟩ := h.tail hhead
    obtain ⟨-, hfst, hrest⟩ := drop_eq_cons hold
    obtain ⟨-, hfst', hrest'⟩ := drop_eq_cons hnew
    obtain ⟨ops, hops, haln⟩ := ih hpaired hrest hrest'
    have hsame : new = old := by
      rw [hx] at hfst
      rw [hx'] at hfst'
      rw [← Option.some.inj hfst, ← Option.some.inj hfst']
    rw [hlen, hsame]
    exact ⟨.equal old :: ops, by rw [hops]; rfl, haln.equal old⟩
  | case8 i j lcs old oldLines new newLines hhead hall ih =>
    obtain ⟨hlt, -, hrest⟩ := drop_eq_cons hnew
    obtain ⟨ops, hops, haln⟩ := ih (h.skip_new hlt hall) hold hrest
    exact ⟨.added new :: ops, by rw [hops]; rfl, haln.added new⟩
  | case9 i j lcs old oldLines new newLines hhead hall ih =>
    obtain ⟨hlt, -, hrest⟩ := drop_eq_cons hold
    obtain ⟨ops, hops, haln⟩ := ih (h.skip_old hlt hhead (.inr hall)) hrest hnew
    exact ⟨.removed old :: ops, by rw [hops]; rfl, haln.removed old⟩

end

/-! ## Lines of the patch -/

/-- The line of the old content that a line of the patch stands for. -/
def PatchLine.old (line : PatchLine) : List (List Char) :=
  if line.sign = .added then [] else [line.text]

/-- The line of the new content that a line of the patch stands for. -/
def PatchLine.new (line : PatchLine) : List (List Char) :=
  if line.sign = .removed then [] else [line.text]

/-- The lines of a patch make up both contents and keep a number of lines. -/
structure Spells (oldLines newLines : List (List Char)) (kept : Nat) (lines : List PatchLine) :
    Prop where
  old : lines.flatMap PatchLine.old = oldLines
  new : lines.flatMap PatchLine.new = newLines
  kept : lines.countP PatchLine.isContext = kept

variable {lines : List PatchLine}

theorem flatMap_old (sign : PatchSign) (texts : List (List Char)) :
    (texts.map (PatchLine.mk sign)).flatMap PatchLine.old =
      if sign = .added then [] else texts := by
  induction texts with
  | nil => rw [ite_self]; rfl
  | cons text texts ih =>
    rw [map_cons, flatMap_cons, ih, PatchLine.old]
    split_ifs <;> rfl

theorem flatMap_new (sign : PatchSign) (texts : List (List Char)) :
    (texts.map (PatchLine.mk sign)).flatMap PatchLine.new =
      if sign = .removed then [] else texts := by
  induction texts with
  | nil => rw [ite_self]; rfl
  | cons text texts ih =>
    rw [map_cons, flatMap_cons, ih, PatchLine.new]
    split_ifs <;> rfl

theorem countP_isContext (sign : PatchSign) (texts : List (List Char)) :
    (texts.map (PatchLine.mk sign)).countP PatchLine.isContext =
      if sign = .context then texts.length else 0 := by
  induction texts with
  | nil => rw [length_nil, ite_self]; rfl
  | cons text texts ih =>
    rw [map_cons, countP_cons, ih, PatchLine.isContext, length_cons]
    cases sign <;> rfl

theorem spells_append {before after : List PatchLine} {oldAfter newAfter : List (List Char)}
    {keptAfter : Nat} (hpre : Spells oldLines newLines kept before)
    (haft : Spells oldAfter newAfter keptAfter after) :
    Spells (oldLines ++ oldAfter) (newLines ++ newAfter) (kept + keptAfter) (before ++ after) where
  old := by rw [flatMap_append, hpre.old, haft.old]
  new := by rw [flatMap_append, hpre.new, haft.new]
  kept := by rw [countP_append, hpre.kept, haft.kept]

theorem spells_equal (texts : List (List Char)) :
    Spells texts texts texts.length (DiffPart.equal texts).lines :=
  ⟨flatMap_old .context texts, flatMap_new .context texts, countP_isContext .context texts⟩

theorem spells_change (removed added : List (List Char)) :
    Spells removed added 0 (DiffPart.change removed added).lines := by
  have hrmvd : Spells removed [] 0 (removed.map (PatchLine.mk .removed)) :=
    ⟨flatMap_old .removed removed, flatMap_new .removed removed, countP_isContext .removed removed⟩
  have hadded : Spells [] added 0 (added.map (PatchLine.mk .added)) :=
    ⟨flatMap_old .added added, flatMap_new .added added, countP_isContext .added added⟩
  have hboth := spells_append hrmvd hadded
  rwa [append_nil, nil_append] at hboth

theorem Spells.unique {old' new' : List (List Char)} {kept' : Nat}
    (h : Spells oldLines newLines kept lines) (h' : Spells old' new' kept' lines) :
    oldLines = old' ∧ newLines = new' ∧ kept = kept' :=
  ⟨h.old.symm.trans h'.old, h.new.symm.trans h'.new, h.kept.symm.trans h'.kept⟩

theorem spells_self (lines : List PatchLine) :
    Spells (lines.flatMap PatchLine.old) (lines.flatMap PatchLine.new)
      (lines.countP PatchLine.isContext) lines := ⟨rfl, rfl, rfl⟩

theorem Spells.of_eq {kept' : Nat} (h : Spells oldLines newLines kept lines) (heq : kept = kept') :
    Spells oldLines newLines kept' lines := heq ▸ h

/-- An operation in front of parts adds its lines in front of theirs. -/
theorem spells_pushOp (op : Op) (parts : List DiffPart)
    (h : Spells oldLines newLines kept (parts.flatMap DiffPart.lines)) :
    Spells (op.old ++ oldLines) (op.new ++ newLines) ((if op.isEqual then 1 else 0) + kept)
      ((pushOp op parts).flatMap DiffPart.lines) := by
  cases op with
  | equal text =>
    cases parts with
    | nil => exact spells_append (spells_equal [text]) h
    | cons part parts =>
      cases part with
      | change removed added => exact spells_append (spells_equal [text]) h
      | equal texts =>
        obtain ⟨rfl, rfl, rfl⟩ := h.unique
          (spells_append (spells_equal texts) (spells_self (parts.flatMap DiffPart.lines)))
        apply (spells_append (spells_equal (text :: texts)) (spells_self _)).of_eq
        have hone : (if (Op.equal text).isEqual then 1 else 0) = 1 := rfl
        rw [length_cons, hone]
        omega
  | added text =>
    cases parts with
    | nil => exact spells_append (spells_change [] [text]) h
    | cons part parts =>
      cases part with
      | equal texts => exact spells_append (spells_change [] [text]) h
      | change removed added =>
        obtain ⟨rfl, rfl, rfl⟩ := h.unique (spells_append (spells_change removed added)
            (spells_self (parts.flatMap DiffPart.lines)))
        apply (spells_append (spells_change removed (text :: added)) (spells_self _)).of_eq
        exact (Nat.zero_add _).symm
  | removed text =>
    cases parts with
    | nil => exact spells_append (spells_change [text] []) h
    | cons part parts =>
      cases part with
      | equal texts => exact spells_append (spells_change [text] []) h
      | change removed added =>
        obtain ⟨rfl, rfl, rfl⟩ := h.unique (spells_append (spells_change removed added)
            (spells_self (parts.flatMap DiffPart.lines)))
        apply (spells_append (spells_change (text :: removed) added) (spells_self _)).of_eq
        exact (Nat.zero_add _).symm

theorem spells_collapseOps (ops : List Op) :
    Spells (ops.flatMap Op.old) (ops.flatMap Op.new) (ops.countP Op.isEqual)
      ((collapseOps ops).flatMap DiffPart.lines) := by
  induction ops with
  | nil => exact ⟨rfl, rfl, rfl⟩
  | cons op ops ih =>
    rw [flatMap_cons, flatMap_cons, countP_cons, Nat.add_comm]
    exact spells_pushOp op (collapseOps ops) ih

/-- The lines of the patch make up both contents, and as many of them are unchanged as a longest
common sublist of the lines of the contents has. -/
theorem exists_patchLines (oldContent newContent : List Char) :
    ∃ lines kept, patchLines oldContent newContent = some lines ∧
      Spells (splitDisplayLines oldContent) (splitDisplayLines newContent) kept lines ∧
        IsLcsLength (splitDisplayLines oldContent) (splitDisplayLines newContent) kept := by
  have hback := paired_backtrack (splitDisplayLines oldContent) (splitDisplayLines newContent)
    (Nat.le_refl _) (Nat.le_refl _)
  obtain ⟨hpaired, hlen⟩ := hback
  rw [take_length, take_length] at hlen
  obtain ⟨ops, hops, haln⟩ := exists_alignLines hpaired rfl rfl
  have hsp := spells_collapseOps ops
  rw [haln.old, haln.new, haln.kept] at hsp
  refine ⟨_, _, ?_, hsp, hlen⟩
  exact congrArg (Option.map _) hops

end PiOxidized.Tools
