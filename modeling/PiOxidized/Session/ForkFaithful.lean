/-
# Forks are faithful and installable

The entries a fork selects are closed under parent links, its values are numbered
above every sequence it keeps, and the sequences it keeps are distinct in every
reachable source.  So the writes of a destination, in sequence order, are a list
that can be materialized from nothing.
-/

import PiOxidized.Session.Fork
import PiOxidized.Session.Installed
import PiOxidized.Session.Reachable

namespace PiOxidized.Session

open List Option Math OrderedMap

namespace InMemoryStorageState

variable {R : Type} {state : InMemoryStorageState R}

/-! ## Reading the source -/

variable {i : OrderedMap EntryId (Entry R)} {codec : ValueCodec R} {entries : List (Entry R)}
  {tips : BranchTips} {opts : ForkOptions} {branch : String}

variable {source : ForkSourceSnapshot R} {id : EntryId}

/-- The index holds the given entries on top of what it held. -/
theorem get?_indexEntries {result : OrderedMap EntryId (Entry R)}
    (h : indexEntries entries i = .ok result) (id : EntryId) (entry : Entry R) :
    result.get? id = some entry ↔ i.get? id = some entry ∨ (entry ∈ entries ∧ entry.id = id) := by
  induction entries generalizing i with
  | nil =>
    cases h
    simp
  | cons first entries ih =>
    rw [indexEntries] at h
    split_ifs at h with hhas
    have hnone : i.get? first.id = none := by
      rw [OrderedMap.contains, not_isSome_iff_eq_none] at hhas
      exact hhas
    rw [ih h, mem_cons]
    exact get?_insert_listed hnone

/-- The index of a captured state is its entries. -/
theorem Coherent.indexEntries_eq (h : Coherent state)
    (hidx : indexEntries state.snapshotForFork.entries ∅ = .ok i) :
    i = state.entries := by
  ext id entry
  rw [get?_indexEntries hidx, get?_empty]
  constructor
  · rintro (hnone | ⟨hmem, hid⟩)
    · cases hnone
    · obtain ⟨key, hkey⟩ := mem_values_iff.mp (mem_mergeSort.mp hmem)
      rw [← hid, h.entryKeys key entry hkey]
      exact hkey
  · intro hget
    refine .inr ⟨mem_mergeSort.mpr ?_, h.entryKeys id entry hget⟩
    exact mem_values_iff.mpr ⟨id, hget⟩

/-- The tips found name the slots they are stored in. -/
theorem mem_tipValuesFrom {values : List (RawStoredValue R)} {seen : List String}
    (h : tipValuesFrom codec seen values = .ok tips) {tip : Option EntryId}
    (hmem : (branch, tip) ∈ tips) :
    ∃ stored ∈ values, stored.ns = "pi.branch.tip" ∧ stored.key = branch ∧
      codec.readTip stored.value = some tip := by
  induction values generalizing seen tips with
  | nil =>
    cases h
    cases hmem
  | cons stored values ih =>
    rw [tipValuesFrom] at h
    split_ifs at h with hns hkind hseen
    · obtain ⟨other, hoth, hrest⟩ := ih h hmem
      exact ⟨other, mem_cons_of_mem _ hoth, hrest⟩
    · cases hread : codec.readTip stored.value with
      | none => simp [hread] at h
      | some first =>
        simp only [hread] at h
        obtain ⟨rest, hrest, hcons⟩ := bind_ok h
        rw [← Except.ok.inj hcons] at hmem
        rcases mem_cons.mp hmem with heq | hmem
        · obtain ⟨rfl, rfl⟩ := Prod.mk.inj heq
          exact ⟨stored, mem_cons_self, not_not.mp hns, rfl, hread⟩
        · obtain ⟨other, hoth, hprop⟩ := ih hrest hmem
          exact ⟨other, mem_cons_of_mem _ hoth, hprop⟩

/-- In a checked source every tip names one of its entries. -/
theorem tip_known {entries : OrderedMap EntryId (Entry R)} (hcomp : source.entriesComplete = true)
    (h : validateSourceSnapshot source entries tips opts = .ok ())
    (hmem : (branch, some id) ∈ tips) : entries.contains id = true := by
  rw [validateSourceSnapshot] at h
  cases horphan : source.values.find? (orphanLane tips) with
  | some stored => simp [horphan] at h
  | none =>
    simp only [horphan] at h
    have htip := Except.forM_eq_ok h _ hmem
    simp only [validateTip] at htip
    split_ifs at htip with hlane hconfigured hunknown
    cases opts <;> simpa [hcomp] using hunknown

/-! ## Selecting entries -/

/-- What a branch fork keeps: the requested entry, if its position includes it,
and everything above it. -/
def Kept (state : InMemoryStorageState R) (position : ForkPosition) (requested : Option EntryId)
    (id : EntryId) : Prop :=
  ∃ anchor, requested = some anchor ∧ match position with
    | .at => Relation.ReflTransGen (Link state.parentOf) anchor id
    | .before => Relation.TransGen (Link state.parentOf) anchor id

/-- Selected ids are stored, named once and closed under parent links. -/
structure Closed (state : InMemoryStorageState R) (selected : List EntryId) : Prop where
  stored : ∀ id ∈ selected, state.entries.contains id = true
  nodup : selected.Nodup
  parents : ∀ id ∈ selected, ∀ parent, state.parentOf id = some parent → parent ∈ selected

variable {pos : ForkPosition} {requested : Option EntryId}

/-- Entries other than the requested one are all taken once it was found. -/
theorem foldl_visit (h : ∀ entry ∈ entries, some entry.id ≠ requested) (sel : Selection) :
    entries.foldl (fun sel entry => sel.visit requested pos entry) sel = if sel.found then
        { sel with selected := sel.selected ++ entries.map Entry.id }
      else sel := by
  induction entries generalizing sel with
  | nil => simp
  | cons entry entries ih =>
    have hrest := ih fun other hmem => h other (mem_cons_of_mem _ hmem)
    have hoth : some entry.id ≠ requested := h entry mem_cons_self
    have hvisit : sel.visit requested pos entry = if sel.found then
          { sel with selected := sel.selected ++ [entry.id] }
        else sel := if_neg hoth
    rw [foldl_cons, hrest, hvisit]
    cases hfnd : sel.found with
    | true => simp
    | false => simp [hfnd]

/-- The walk from a stored entry visits the entries of its climb. -/
theorem selectLoop_climb {path : List EntryId} (hclimb : Climb state.parentOf id path)
    (hstored : ∀ other ∈ path, state.entries.contains other = true) (hnodup : path.Nodup)
    {visited : List EntryId} (hvisited : ∀ other ∈ path, other ∉ visited) (sel : Selection) :
    selectLoop state.entries requested pos (some id) visited sel =
      .ok ((path.filterMap state.entries.get?).foldl
        (fun sel entry => sel.visit requested pos entry) sel) := by
  induction hclimb generalizing visited sel with
  | @root id hpar =>
    have hfrs : ¬visited.contains id = true := by
      rw [contains_iff_mem]
      exact hvisited id mem_cons_self
    obtain ⟨entry, hent⟩ := isSome_iff_exists.mp (hstored id mem_cons_self)
    rw [parentOf, hent, bind_some] at hpar
    rw [selectLoop, dif_neg hfrs]
    split
    · rename_i hnone
      rw [hent] at hnone
      cases hnone
    · rename_i found hfnd
      obtain rfl := some.inj (hent.symm.trans hfnd)
      rw [hpar, selectLoop]
      simp [hent]
  | @step id parent path hpar hrest ih =>
    have hfrs : ¬visited.contains id = true := by
      rw [contains_iff_mem]
      exact hvisited id mem_cons_self
    obtain ⟨entry, hent⟩ := isSome_iff_exists.mp (hstored id mem_cons_self)
    obtain ⟨hfst, hlater⟩ := nodup_cons.mp hnodup
    rw [parentOf, hent, bind_some] at hpar
    rw [selectLoop, dif_neg hfrs]
    split
    · rename_i hnone
      rw [hent] at hnone
      cases hnone
    · rename_i found hfnd
      obtain rfl := some.inj (hent.symm.trans hfnd)
      rw [hpar, ih (fun other hmem => hstored other (mem_cons_of_mem _ hmem)) hlater]
      · simp [hent]
      · intro other hmem hseen
        rcases mem_cons.mp hseen with rfl | hseen
        · exact hfst hmem
        · exact hvisited other (mem_cons_of_mem _ hmem) hseen

theorem Coherent.map_id_filterMap (h : Coherent state) {ids : List EntryId}
    (hstored : ∀ id ∈ ids, state.entries.contains id = true) :
    (ids.filterMap state.entries.get?).map Entry.id = ids := by
  induction ids with
  | nil => rfl
  | cons id ids ih =>
    obtain ⟨entry, hent⟩ := isSome_iff_exists.mp (hstored id mem_cons_self)
    rw [filterMap_cons_some hent, map_cons, h.entryKeys id entry hent,
      ih fun other hmem => hstored other (mem_cons_of_mem _ hmem)]

/-- The selection anchored at an entry, from its parent and what lies above it. -/
def anchored (position : ForkPosition) (anchor : EntryId) (parent : Option EntryId)
    (above : List EntryId) : Selection :=
  match position with
  | .at => ⟨true, some anchor, anchor :: above⟩
  | .before => ⟨true, parent, above⟩

variable {destinationTips : BranchTips} {selected : List EntryId}

/-- What a walk from a stored tip has gathered once it found the requested entry. -/
theorem Coherent.selectLoop_found (h : Coherent state) {tip anchor : EntryId}
    {sel : Selection} (htip : state.entries.contains tip = true)
    (hloop : selectLoop state.entries (some anchor) pos (some tip) [] ⟨false, none, []⟩ =
      .ok sel) (hfnd : sel.found = true) :
    ∃ above, Climb state.parentOf anchor (anchor :: above) ∧ (anchor :: above).Nodup ∧
      (∀ id ∈ anchor :: above, state.entries.contains id = true) ∧
      sel = anchored pos anchor (state.parentOf anchor) above := by
  obtain ⟨path, hclimb, hnodup, hstored⟩ := h.exists_climb htip
  rw [selectLoop_climb hclimb hstored hnodup fun _ _ => not_mem_nil] at hloop
  cases hloop
  -- Ids read off the entries of a part of the climb are the ids of that part.
  have hids : ∀ part, part ⊆ path → ∀ entry ∈ part.filterMap state.entries.get?,
      entry.id ∈ part := by
    intro part hpart entry hmem
    rw [← h.map_id_filterMap fun id hid => hstored id (hpart hid)]
    exact mem_map_of_mem hmem
  by_cases hanchor : anchor ∈ path
  · obtain ⟨first, above, rfl⟩ := append_of_mem hanchor
    obtain ⟨entry, hent⟩ := isSome_iff_exists.mp (hstored anchor hanchor)
    obtain ⟨-, haft, hdisj⟩ := nodup_append.mp hnodup
    have hpre : ∀ other ∈ first.filterMap state.entries.get?, some other.id ≠ some anchor := by
      intro other hmem heq
      have hoth := hids first (subset_append_left _ _) other hmem
      exact hdisj other.id hoth anchor mem_cons_self (some.inj heq)
    have hrest : ∀ other ∈ above.filterMap state.entries.get?, some other.id ≠ some anchor := by
      intro other hmem heq
      have hoth := hids above (fun id hid => mem_append_right _ (mem_cons_of_mem _ hid)) other hmem
      rw [some.inj heq] at hoth
      exact (nodup_cons.mp haft).1 hoth
    have habove : (above.filterMap state.entries.get?).map Entry.id = above := by
      apply h.map_id_filterMap
      intro id hid
      exact hstored id (mem_append_right _ (mem_cons_of_mem _ hid))
    have hkey : entry.id = anchor := h.entryKeys anchor entry hent
    have hpar : state.parentOf anchor = entry.parentId := by
      rw [parentOf, hent, bind_some]
    have hvisit : Selection.visit (some anchor) pos entry ⟨false, none, []⟩ =
        anchored pos anchor (state.parentOf anchor) [] := by
      unfold Selection.visit
      rw [if_pos (congrArg some hkey), hkey, hpar]
      cases pos <;> rfl
    refine ⟨above, hclimb.of_append, haft, fun id hid => hstored id (mem_append_right _ hid), ?_⟩
    rw [filterMap_append, filterMap_cons_some hent, foldl_append,
      foldl_cons, foldl_visit hpre, if_neg Bool.false_ne_true, hvisit, foldl_visit hrest,
      habove]
    cases pos <;> rfl
  · rw [foldl_visit] at hfnd
    · cases hfnd
    · intro entry hmem heq
      have hmem := hids path (fun _ hid => hid) entry hmem
      rw [some.inj heq] at hmem
      exact hanchor hmem

theorem Kept.parent {parent : EntryId} (h : Kept state pos requested id)
    (hpar : state.parentOf id = some parent) :
    Kept state pos requested parent := by
  obtain ⟨anchor, hanchor, hreach⟩ := h
  refine ⟨anchor, hanchor, ?_⟩
  cases pos with
  | «at» => exact Relation.ReflTransGen.tail hreach hpar
  | before => exact Relation.TransGen.tail hreach hpar

theorem mem_anchored {anchor : EntryId} {above : List EntryId}
    (hclimb : Climb state.parentOf anchor (anchor :: above)) (parent : Option EntryId)
    (id : EntryId) :
    id ∈ (anchored pos anchor parent above).selected ↔ Kept state pos (some anchor) id := by
  have hkept : Kept state pos (some anchor) id ↔ match pos with
      | .at => Relation.ReflTransGen (Link state.parentOf) anchor id
      | .before => Relation.TransGen (Link state.parentOf) anchor id := by
    constructor
    · rintro ⟨other, hoth, hreach⟩
      rw [some.inj hoth]
      exact hreach
    · intro hreach
      exact ⟨anchor, rfl, hreach⟩
  rw [hkept]
  cases pos with
  | «at» => exact hclimb.mem_iff
  | before => exact hclimb.mem_tail_iff

/-- The selection of a branch fork. -/
theorem Coherent.selectContents_branch (h : Coherent state) {entryId : Option EntryId}
    {id : Option String}
    (htips : ∀ name tip, (name, some tip) ∈ tips → state.entries.contains tip = true)
    (hselect : selectContents state.entries tips (.branch branch entryId pos id) =
      .ok (selected, destinationTips)) :
    ∃ sourceTip, (branch, sourceTip) ∈ tips ∧ Closed state selected ∧
      (∀ id, id ∈ selected ↔ Kept state pos (entryId.or sourceTip) id) ∧
      ∀ name tip, (name, some tip) ∈ destinationTips → tip ∈ selected := by
  rw [selectContents] at hselect
  cases hlook : tips.lookup branch with
  | none => simp [hlook] at hselect
  | some sourceTip =>
    simp only [hlook] at hselect
    obtain ⟨sel, hloop, hrest⟩ := bind_ok hselect
    split_ifs at hrest with hfnd
    cases hrest
    have hmem : (branch, sourceTip) ∈ tips := Assoc.mem_of_lookup_eq_some hlook
    refine ⟨sourceTip, hmem, ?_⟩
    cases sourceTip with
    | none =>
      rw [selectLoop] at hloop
      cases hloop
      cases entryId with
      | some anchor => cases hfnd
      | none =>
        refine ⟨⟨by simp, nodup_nil, by simp⟩, fun other => ⟨by simp, ?_⟩, by simp⟩
        rintro ⟨anchor, hnone, -⟩
        cases hnone
    | some tip =>
      obtain ⟨anchor, hanchor⟩ : ∃ anchor, entryId.or (some tip) = some anchor := by
        cases entryId with
        | none => exact ⟨tip, rfl⟩
        | some anchor => exact ⟨anchor, rfl⟩
      rw [hanchor] at hloop ⊢
      obtain ⟨above, hclimb, hnodup, hstored, hselection⟩ :=
        h.selectLoop_found (htips branch tip hmem) hloop hfnd
      have hkept : ∀ other, other ∈ sel.selected ↔ Kept state pos (some anchor) other := by
        intro other
        rw [hselection]
        exact mem_anchored hclimb _ other
      refine ⟨⟨?_, ?_, ?_⟩, hkept, ?_⟩
      · rw [hselection]
        cases pos with
        | «at» => exact hstored
        | before => exact fun id hid => hstored id (mem_cons_of_mem _ hid)
      · rw [hselection]
        cases pos with
        | «at» => exact hnodup
        | before => exact (nodup_cons.mp hnodup).2
      · intro other hoth parent hpar
        rw [hkept] at hoth ⊢
        exact hoth.parent hpar
      · intro name other hoth
        have htip := (Prod.mk.inj (mem_singleton.mp hoth)).2
        rw [hkept]
        refine ⟨anchor, rfl, ?_⟩
        rw [hselection] at htip
        cases pos with
        | «at» => exact some.inj htip ▸ Relation.ReflTransGen.refl
        | before => exact Relation.TransGen.single htip.symm

/-- The selection of a tree fork. -/
theorem closed_tree (h : Coherent state) : Closed state (state.entries.entries.map Prod.fst) where
  stored := by
    intro id hid
    obtain ⟨pair, hpair, rfl⟩ := mem_map.mp hid
    have hget := Assoc.lookup_eq_some_of_mem state.entries.sorted hpair
    exact isSome_iff_exists.mpr ⟨pair.2, hget⟩
  nodup := by
    rw [List.Nodup, pairwise_map]
    exact state.entries.sorted.imp fun hlt => hlt.ne
  parents := by
    intro id hid parent hpar
    obtain ⟨entry, hent, hlink⟩ := bind_eq_some_iff.mp hpar
    obtain ⟨stored, hstored, -⟩ := h.parents id entry parent hent hlink
    exact mem_map.mpr ⟨_, Assoc.mem_of_lookup_eq_some hstored, rfl⟩

/-! ## Numbering the values -/

/-- Values numbered from a first sequence on, each allowed in its namespace. -/
structure Numbered (first : U64) (allowed : String → R → Prop) (pushed : Pushed R) : Prop where
  increasing : (pushed.values.map RawStoredValue.seq).Pairwise (· < ·)
  within : ∀ stored ∈ pushed.values, first ≤ stored.seq ∧ stored.seq < pushed.nextSeq
  le : first ≤ pushed.nextSeq
  allowed : ∀ stored ∈ pushed.values, allowed stored.ns stored.value

/-- A value that, as a branch tip, names a selected entry or none. -/
def TipSelected (codec : ValueCodec R) (selected : List EntryId) (ns : String) (value : R) : Prop :=
  ns = "pi.branch.tip" → ∃ tip, value = codec.tip tip ∧ ∀ id, tip = some id → id ∈ selected

theorem Numbered.pushValue {first : U64} {allowed : String → R → Prop} {pushed next : Pushed R}
    {ns key : String} {value : R} (h : Numbered first allowed pushed) (hvalue : allowed ns value)
    (hpush : pushValue pushed ns key value = .ok next) : Numbered first allowed next := by
  rw [Session.pushValue] at hpush
  cases hseq : pushed.nextSeq.checkedAdd 1 with
  | none => simp [hseq] at hpush
  | some seq =>
    simp only [hseq, Except.ok.injEq] at hpush
    obtain rfl := hpush
    have hlt : pushed.nextSeq < seq := by
      show pushed.nextSeq.val < seq.val
      rw [U64.checkedAdd_eq_some hseq]
      omega
    constructor
    case increasing =>
      rw [map_append]
      refine pairwise_append.mpr ⟨h.increasing, pairwise_singleton _ _, ?_⟩
      intro old hold new hnew
      obtain ⟨stored, hstored, rfl⟩ := mem_map.mp hold
      rw [mem_singleton.mp hnew]
      exact (h.within stored hstored).2
    case within =>
      intro stored hmem
      rcases mem_append.mp hmem with hold | hnew
      · exact ⟨(h.within stored hold).1, (h.within stored hold).2.trans hlt⟩
      · rw [mem_singleton.mp hnew]
        exact ⟨h.le, hlt⟩
    case le => exact h.le.trans hlt.le
    case allowed =>
      intro stored hmem
      rcases mem_append.mp hmem with hold | hnew
      · exact h.allowed stored hold
      · rw [mem_singleton.mp hnew]
        exact hvalue

section

variable {codec : ValueCodec R} {source : ForkSourceSnapshot R} {selected : List EntryId}
  {first : U64} {pushed next : Pushed R}

variable {scope : ForkScope}

theorem Numbered.pushBranch {tip : Option EntryId}
    (h : Numbered first (TipSelected codec selected) pushed)
    (htip : ∀ id, tip = some id → id ∈ selected)
    (hpush : pushBranch codec source pushed branch tip = .ok next) :
    Numbered first (TipSelected codec selected) next := by
  obtain ⟨tipped, htipped, hrest⟩ := bind_ok hpush
  have hnum := h.pushValue (fun _ => ⟨tip, rfl, htip⟩) htipped
  cases hconfig : valueFor source.values "pi.lane.config" branch with
  | none =>
    simp only [hconfig, Except.ok.injEq] at hrest
    exact hrest ▸ hnum
  | some configuration =>
    simp only [hconfig] at hrest
    obtain ⟨configured, hconfigured, hstored⟩ := bind_ok hrest
    have hlane := hnum.pushValue (fun hns => absurd hns (by decide)) hconfigured
    exact hlane.pushValue (fun hns => absurd hns (by decide)) hstored

theorem Numbered.pushCopy {stored : RawStoredValue R}
    (h : Numbered first (TipSelected codec selected) pushed)
    (hpush : pushCopy scope selected pushed stored = .ok next) :
    Numbered first (TipSelected codec selected) next := by
  obtain ⟨copied, hcopied, hrest⟩ := bind_ok hpush
  cases copied with
  | false =>
    cases hrest
    exact h
  | true =>
    refine h.pushValue ?_ hrest
    intro hns
    -- Branch tips are rebuilt, never copied.
    rw [hns] at hcopied
    cases hcopied

/-- No listed sequence exceeds the largest. -/
theorem le_maxSeq {seqs : List U64} {seq : U64} (h : seq ∈ seqs) : seq ≤ maxSeq seqs := by
  have hfold : ∀ (rest : List U64) (acc : U64),
      acc ≤ rest.foldl max acc ∧ ∀ other ∈ rest, other ≤ rest.foldl max acc := by
    intro rest
    induction rest with
    | nil => exact fun acc => ⟨le_refl _, fun other hoth => absurd hoth not_mem_nil⟩
    | cons next rest ih =>
      intro acc
      obtain ⟨hacc, hrest⟩ := ih (max acc next)
      refine ⟨(le_max_left _ _).trans hacc, fun other hoth => ?_⟩
      rcases mem_cons.mp hoth with rfl | hoth
      · exact (le_max_right _ _).trans hacc
      · exact hrest other hoth
  exact (hfold seqs U64.zero).2 seq h

/-- A destination keeps its entries and usage rows and numbers its values above them. -/
theorem forkDestination_spec {dest : ForkDestinationSnapshot R}
    (htips : ∀ name tip, (name, some tip) ∈ destinationTips → tip ∈ selected)
    (h : forkDestination codec source scope entries selected destinationTips = .ok dest) :
    dest.entries = entries ∧ dest.usage = copiedUsage source scope ∧
      ∃ first, 1 ≤ first.val ∧ (∀ entry ∈ entries, entry.seq < first) ∧
        (∀ row ∈ copiedUsage source scope, row.seq < first) ∧
        Numbered first (TipSelected codec selected) ⟨dest.values, dest.nextSeq⟩ := by
  rw [forkDestination] at h
  cases hfst : (max (maxSeq (entries.map Entry.seq))
      (maxSeq ((copiedUsage source scope).map UsageRow.seq))).checkedAdd 1 with
  | none => simp [hfst] at h
  | some first =>
    simp only [hfst] at h
    obtain ⟨branches, hbranches, hrest⟩ := bind_ok h
    obtain ⟨copied, hcopied, hdestination⟩ := bind_ok hrest
    cases hdestination
    have hval := U64.checkedAdd_eq_some hfst
    have hbelow : ∀ seq, seq ≤ max (maxSeq (entries.map Entry.seq))
        (maxSeq ((copiedUsage source scope).map UsageRow.seq)) → seq < first := by
      intro seq hle
      have hle : seq.val ≤ _ := hle
      show seq.val < first.val
      omega
    refine ⟨rfl, rfl, first, by omega, ?_, ?_, ?_⟩
    · intro entry hent
      exact hbelow _ ((le_maxSeq (mem_map_of_mem hent)).trans (le_max_left _ _))
    · intro row hrow
      exact hbelow _ ((le_maxSeq (mem_map_of_mem hrow)).trans (le_max_right _ _))
    · have hnum : Numbered first (TipSelected codec selected) ⟨[], first⟩ :=
        ⟨List.Pairwise.nil, by simp, le_refl _, by simp⟩
      have hbranched := Except.foldlM_preserves (P := Numbered first (TipSelected codec selected))
        (fun acc item next hmem hacc hstep => hacc.pushBranch
          (fun id hid => htips item.1 id (hid ▸ hmem)) hstep) hnum hbranches
      exact Except.foldlM_preserves (P := Numbered first (TipSelected codec selected))
        (fun acc item next _ hacc hstep => hacc.pushCopy hstep) hbranched hcopied

end

/-! ## Installing a destination -/

/-- The writes of a destination before they are put in sequence order. -/
def destinationWrites (destination : ForkDestinationSnapshot R) : List (CommittedWrite R) :=
  destination.entries.map CommittedWrite.entry ++ destination.values.map (fun stored =>
      CommittedWrite.value (.set stored.seq stored.ns stored.key stored.value)) ++
    destination.usage.map CommittedWrite.usage

variable {dest : ForkDestinationSnapshot R}

theorem perm_destinationWrites (dest : ForkDestinationSnapshot R) :
    (forkSnapshotWrites dest).Perm (destinationWrites dest) :=
  mergeSort_perm _ _

/-- Distinct sequences strictly increase once they are in order. -/
theorem increasing_forkSnapshotWrites
    (h : ((destinationWrites dest).map CommittedWrite.seq).Nodup) :
    ((forkSnapshotWrites dest).map CommittedWrite.seq).Pairwise (· < ·) := by
  have hsort : (forkSnapshotWrites dest).Pairwise fun a b => decide (a.seq ≤ b.seq) = true := by
    apply pairwise_mergeSort
    · intro a b c hab hbc
      exact decide_eq_true ((of_decide_eq_true hab).trans (of_decide_eq_true hbc))
    · intro a b
      simpa using le_total a.seq b.seq
  have hle : ((forkSnapshotWrites dest).map CommittedWrite.seq).Pairwise (· ≤ ·) := by
    rw [pairwise_map]
    exact hsort.imp fun hab => of_decide_eq_true hab
  have hnodup : ((forkSnapshotWrites dest).map CommittedWrite.seq).Nodup :=
    ((perm_destinationWrites dest).map _).nodup_iff.mpr h
  exact (hle.and hnodup).imp fun hboth => lt_of_le_of_ne hboth.1 hboth.2

/-- A destination drawn from a source: which entries and usage rows it keeps,
and where its values are numbered. -/
structure Drawn (state : InMemoryStorageState R) (selected : List EntryId)
    (keepsUsage : Prop) (allowed : String → R → Prop)
    (destination : ForkDestinationSnapshot R) : Prop where
  closed : Closed state selected
  entries : ∀ entry, entry ∈ destination.entries ↔
    ∃ id ∈ selected, state.entries.get? id = some entry
  entryIds : (destination.entries.map Entry.id).Nodup
  usage : ∀ row, row ∈ destination.usage ↔ keepsUsage ∧ ∃ id, state.usage.get? id = some row
  usageIds : (destination.usage.map UsageRow.id).Nodup
  numbered : ∃ first, (∀ entry ∈ destination.entries, entry.seq < first) ∧
    (∀ row ∈ destination.usage, row.seq < first) ∧ 1 ≤ first.val ∧
    Numbered first allowed ⟨destination.values, destination.nextSeq⟩

section

variable {selected : List EntryId} {keepsUsage : Prop} {allowed : String → R → Prop}
  {dest : ForkDestinationSnapshot R}

section

variable (h : Drawn state selected keepsUsage allowed dest)

include h

/-- Everything a destination keeps lies below its mark. -/
theorem Drawn.below : (∀ entry ∈ dest.entries, entry.seq < dest.nextSeq) ∧
      ∀ row ∈ dest.usage, row.seq < dest.nextSeq := by
  obtain ⟨first, hents, husage, -, hnum⟩ := h.numbered
  have hle : first ≤ dest.nextSeq := hnum.le
  exact ⟨fun entry hent => lt_of_lt_of_le (hents entry hent) hle,
    fun row hrow => lt_of_lt_of_le (husage row hrow) hle⟩

/-- Entries, values and usage rows of a destination have distinct sequences. -/
theorem Drawn.nodup_seqs (hcoherent : Coherent state) (hspread : Spread state) :
    ((destinationWrites dest).map CommittedWrite.seq).Nodup := by
  obtain ⟨first, hents, husage, -, hnum⟩ := h.numbered
  have hentrySeqs : (dest.entries.map Entry.seq).Nodup := by
    refine List.Nodup.map_on ?_ (List.Nodup.of_map _ h.entryIds)
    intro entry hent other hoth heq
    obtain ⟨id, -, hid⟩ := (h.entries entry).mp hent
    obtain ⟨id', -, hid'⟩ := (h.entries other).mp hoth
    have hidx := hcoherent.indexed id entry hid
    rw [heq, hcoherent.indexed id' other hid'] at hidx
    rw [some.inj hidx, hid] at hid'
    exact some.inj hid'
  have husageSeqs : (dest.usage.map UsageRow.seq).Nodup := by
    refine List.Nodup.map_on ?_ (List.Nodup.of_map _ h.usageIds)
    intro row hrow other hoth heq
    obtain ⟨-, id, hid⟩ := (h.usage row).mp hrow
    obtain ⟨-, id', hid'⟩ := (h.usage other).mp hoth
    rw [← hspread.rows id row id' other hid hid' heq, hid] at hid'
    exact some.inj hid'
  have hvalueSeqs : (dest.values.map RawStoredValue.seq).Nodup :=
    hnum.increasing.imp fun hlt => hlt.ne
  have hmaps : (destinationWrites dest).map CommittedWrite.seq =
      dest.entries.map Entry.seq ++ dest.values.map RawStoredValue.seq ++
        dest.usage.map UsageRow.seq := by
    simp only [destinationWrites, map_append, List.map_map]
    rfl
  rw [hmaps, nodup_append, nodup_append]
  refine ⟨⟨hentrySeqs, hvalueSeqs, ?_⟩, husageSeqs, ?_⟩
  · intro seq hseq other hoth
    obtain ⟨entry, hent, rfl⟩ := mem_map.mp hseq
    obtain ⟨stored, hstored, rfl⟩ := mem_map.mp hoth
    exact (lt_of_lt_of_le (hents entry hent) (hnum.within stored hstored).1).ne
  · intro seq hseq other hoth
    obtain ⟨row, hrow, rfl⟩ := mem_map.mp hoth
    rcases mem_append.mp hseq with hseq | hseq
    · obtain ⟨entry, hent, rfl⟩ := mem_map.mp hseq
      obtain ⟨id, -, hid⟩ := (h.entries entry).mp hent
      obtain ⟨-, id', hid'⟩ := (h.usage row).mp hrow
      exact hspread.apart id entry id' row hid hid'
    · obtain ⟨stored, hstored, rfl⟩ := mem_map.mp hseq
      exact (lt_of_lt_of_le (husage row hrow) (hnum.within stored hstored).1).ne'

/-- Entries and usage rows of a destination own distinct ids. -/
theorem Drawn.nodup_ids (hcoherent : Coherent state) :
    ((destinationWrites dest).filterMap CommittedWrite.ownedId).Nodup := by
  have hids : (destinationWrites dest).filterMap CommittedWrite.ownedId =
      dest.entries.map Entry.id ++ dest.usage.map UsageRow.id := by
    simp only [destinationWrites, filterMap_append, filterMap_map]
    rw [show CommittedWrite.ownedId ∘ (CommittedWrite.entry (R := R)) = some ∘ Entry.id from rfl,
      show CommittedWrite.ownedId ∘ (CommittedWrite.usage (R := R)) = some ∘ UsageRow.id from rfl]
    simp [CommittedWrite.ownedId, Function.comp_def]
  rw [hids, nodup_append]
  refine ⟨h.entryIds, h.usageIds, ?_⟩
  intro id hid other hoth heq
  obtain ⟨entry, hent, rfl⟩ := mem_map.mp hid
  obtain ⟨row, hrow, rfl⟩ := mem_map.mp hoth
  obtain ⟨key, -, hkey⟩ := (h.entries entry).mp hent
  obtain ⟨-, key', hkey'⟩ := (h.usage row).mp hrow
  rw [hcoherent.entryKeys key entry hkey, hcoherent.usageKeys key' row hkey'] at heq
  have hdisj := hcoherent.disjoint key (isSome_iff_exists.mpr ⟨entry, hkey⟩)
  rw [heq, OrderedMap.contains, hkey'] at hdisj
  cases hdisj

end

theorem mem_destinationWrites_entry {entry : Entry R} :
    CommittedWrite.entry entry ∈ destinationWrites dest ↔ entry ∈ dest.entries := by
  simp [destinationWrites]

theorem mem_destinationWrites_usage {row : UsageRow R} :
    CommittedWrite.usage row ∈ destinationWrites dest ↔ row ∈ dest.usage := by
  simp [destinationWrites]

theorem mem_destinationWrites_value {seq : U64} {ns key : String} {value : R}
    (h : CommittedWrite.value (.set seq ns key value) ∈ destinationWrites dest) :
    ∃ stored ∈ dest.values, stored.seq = seq ∧ stored.ns = ns ∧ stored.key = key ∧
      stored.value = value := by
  simpa [destinationWrites] using h

section

variable (h : Drawn state selected keepsUsage allowed dest) (hcoherent : Coherent state)
  (hspread : Spread state)

include h hcoherent hspread

/-- The writes of a destination can be materialized from nothing. -/
theorem Drawn.admitted : Admitted new (forkSnapshotWrites dest) ∧
      Ascending U64.one (forkSnapshotWrites dest) := by
  have hperm := perm_destinationWrites dest
  have hincr := increasing_forkSnapshotWrites (h.nodup_seqs hcoherent hspread)
  constructor
  · apply admitted_of_closed
    · exact (hperm.filterMap _).nodup_iff.mpr (h.nodup_ids hcoherent)
    · intro before entry after hwr parent hpar
      have hent : entry ∈ dest.entries := by
        rw [← mem_destinationWrites_entry, ← hperm.mem_iff, hwr]
        exact mem_append_right _ mem_cons_self
      obtain ⟨id, hid, hget⟩ := (h.entries entry).mp hent
      obtain ⟨stored, hstored, hlt⟩ := hcoherent.parents id entry parent hget hpar
      have hselected : parent ∈ selected := by
        apply h.closed.parents id hid
        rw [parentOf, hget, bind_some, hpar]
      have hmem : CommittedWrite.entry stored ∈ forkSnapshotWrites dest := by
        rw [hperm.mem_iff, mem_destinationWrites_entry, h.entries]
        exact ⟨parent, hselected, hstored⟩
      rw [hwr] at hincr hmem
      exact ⟨stored, mem_before hincr hmem hlt, hcoherent.entryKeys parent stored hstored⟩
  · refine ⟨hincr, fun write hwrt => ?_⟩
    obtain ⟨first, -, -, hfst, hnum⟩ := h.numbered
    show 1 ≤ write.seq.val
    rw [hperm.mem_iff] at hwrt
    rcases mem_append.mp hwrt with hwrt | hwrt
    · rcases mem_append.mp hwrt with hwrt | hwrt
      · obtain ⟨entry, hent, rfl⟩ := mem_map.mp hwrt
        obtain ⟨id, -, hid⟩ := (h.entries entry).mp hent
        exact (hspread.entries id entry hid).1
      · obtain ⟨stored, hstored, rfl⟩ := mem_map.mp hwrt
        exact hfst.trans (hnum.within stored hstored).1
    · obtain ⟨row, hrow, rfl⟩ := mem_map.mp hwrt
      obtain ⟨-, id, hid⟩ := (h.usage row).mp hrow
      exact (hspread.usage id row hid).1

/-- A drawn destination is installed, with exactly its entries, usage rows and
values, below its own mark. -/
theorem Drawn.install : ∃ installed, fromForkSnapshot dest = .ok installed ∧
      (∀ id entry, installed.entries.get? id = some entry ↔
        id ∈ selected ∧ state.entries.get? id = some entry) ∧
      (∀ id row, installed.usage.get? id = some row ↔ keepsUsage ∧ state.usage.get? id = some row) ∧
      (∀ slot stored, installed.values.get? slot = some stored →
        slot = toLex (stored.ns, stored.key) ∧ allowed stored.ns stored.value ∧
          stored.seq < dest.nextSeq) ∧
      dest.nextSeq ≤ installed.nextSeq := by
  obtain ⟨hadm, hasc⟩ := h.admitted hcoherent hspread
  have hrep := replay_eq_ok coherent_new.positive hadm hasc
  refine ⟨_, by rw [fromForkSnapshot, hrep], ?_, ?_, ?_, le_max_right _ _⟩
  · intro id entry
    have hget := get?_entries_applyCommitted hadm id entry
    rw [(perm_destinationWrites dest).mem_iff, mem_destinationWrites_entry, h.entries] at hget
    refine hget.trans ⟨?_, ?_⟩
    · rintro (hnone | ⟨⟨key, hkey, hstored⟩, hid⟩)
      · cases hnone
      · rw [← hid, hcoherent.entryKeys key entry hstored]
        exact ⟨hkey, hstored⟩
    · rintro ⟨hid, hstored⟩
      exact .inr ⟨⟨id, hid, hstored⟩, hcoherent.entryKeys id entry hstored⟩
  · intro id row
    have hget := get?_usage_applyCommitted hadm id row
    rw [(perm_destinationWrites dest).mem_iff, mem_destinationWrites_usage, h.usage] at hget
    refine hget.trans ⟨?_, ?_⟩
    · rintro (hnone | ⟨⟨hkeep, key, hstored⟩, hid⟩)
      · cases hnone
      · rw [← hid, hcoherent.usageKeys key row hstored]
        exact ⟨hkeep, hstored⟩
    · rintro ⟨hkeep, hstored⟩
      exact .inr ⟨⟨hkeep, id, hstored⟩, hcoherent.usageKeys id row hstored⟩
  · intro slot stored hget
    obtain ⟨first, -, -, -, hnum⟩ := h.numbered
    rcases get?_values_applyCommitted hget with hnone | ⟨hmem, hslot⟩
    · cases hnone
    · rw [(perm_destinationWrites dest).mem_iff] at hmem
      obtain ⟨value, hvalue, hseq, hns, -, hpay⟩ := mem_destinationWrites_value hmem
      rw [← hseq, ← hns, ← hpay]
      refine ⟨?_, hnum.allowed value hvalue, (hnum.within value hvalue).2⟩
      rw [hns]
      exact hslot

end

end

/-! ## Forks of reachable states -/

variable {history : List U64}

/-- Values are stored under their own namespace and key. -/
theorem Run.values_keyed {condition : InMemoryStorageState R → Action R → Prop}
    (h : Run condition state history) {slot : String ×ₗ String} {stored : RawStoredValue R}
    (hget : state.values.get? slot = some stored) : slot = toLex (stored.ns, stored.key) := by
  have hrep : ∀ (state : InMemoryStorageState R) writes,
      (state.replay writes).2.values.get? slot = some stored →
      state.values.get? slot = some stored ∨ slot = toLex (stored.ns, stored.key) := by
    intro state writes hget
    rcases replay_cases state writes with ⟨error, heq⟩ | ⟨-, heq, -⟩
    · rw [heq] at hget
      exact .inl hget
    · rw [heq] at hget
      exact (get?_values_applyCommitted hget).imp_right And.right
  induction h with
  | new => cases hget
  | @fork snapshot state _ hfork =>
    obtain ⟨-, rfl⟩ := fromForkSnapshot_eq_ok hfork
    rcases hrep InMemoryStorageState.new _ hget with hnone | hslot
    · cases hnone
    · exact hslot
  | @step state history action _ _ ih =>
    cases action with
    | apply writes timestamp =>
      rcases apply_cases state writes timestamp with ⟨error, heq⟩ | ⟨committed, -, heq, -⟩
      · rw [perform, heq] at hget
        exact ih hget
      · rw [perform, heq] at hget
        rcases get?_values_applyCommitted hget with hold | ⟨-, hslot⟩
        · exact ih hold
        · exact hslot
    | replay writes => exact (hrep state writes hget).elim ih id
    | advanceNextSeq nextSeq => exact ih hget

/-- The entries a fork selects: all of them, or what its branch keeps. -/
def Selects (codec : ValueCodec R) (state : InMemoryStorageState R) (options : ForkOptions)
    (selected : EntryId → Prop) : Prop :=
  match options with
  | .tree _ => ∀ id, selected id ↔ state.entries.contains id = true
  | .branch branch entryId position _ => ∃ stored sourceTip,
      state.values.get? (toLex ("pi.branch.tip", branch)) = some stored ∧
      codec.readTip stored.value = some sourceTip ∧
      ∀ id, selected id ↔ Kept state position (entryId.or sourceTip) id

/-- A destination built from a selection is drawn from its source. -/
theorem Coherent.drawn (h : Coherent state) (hshut : Closed state selected) {scope : ForkScope}
    (htips : ∀ name tip, (name, some tip) ∈ destinationTips → tip ∈ selected)
    (hdestination : forkDestination codec state.snapshotForFork scope
      ((selected.filterMap state.entries.get?).mergeSort fun a b => decide (a.seq ≤ b.seq))
      selected destinationTips = .ok dest) :
    Drawn state selected (scope = .tree) (TipSelected codec selected) dest := by
  obtain ⟨hents, husage, first, hpos, hentryBelow, husageBelow, hnum⟩ :=
    forkDestination_spec htips hdestination
  have hrows : ∀ row, row ∈ copiedUsage state.snapshotForFork scope ↔
      scope = .tree ∧ ∃ id, state.usage.get? id = some row := by
    intro row
    cases scope with
    | branch => simp [copiedUsage]
    | tree => simp [copiedUsage, snapshotForFork, mem_values_iff]
  have hrowIds : ((copiedUsage state.snapshotForFork scope).map UsageRow.id).Nodup := by
    cases scope with
    | branch => exact nodup_nil
    | tree =>
      refine (List.Perm.nodup_iff ((mergeSort_perm _ _).map _)).mpr ?_
      exact (nodup_append.mp h.nodup_ids).2.1
  constructor
  case closed => exact hshut
  case entries =>
    intro entry
    rw [hents, mem_mergeSort, mem_filterMap]
  case entryIds =>
    rw [hents]
    refine (List.Perm.nodup_iff ((mergeSort_perm _ _).map _)).mpr ?_
    rw [h.map_id_filterMap hshut.stored]
    exact hshut.nodup
  case usage =>
    intro row
    rw [husage, hrows]
  case usageIds =>
    rw [husage]
    exact hrowIds
  case numbered =>
    rw [hents, husage]
    exact ⟨first, hentryBelow, husageBelow, hpos, hnum⟩

/-- A fork draws its destination from a selection its options describe. -/
theorem Run.fork_drawn (h : Run Below state history)
    (hfork : createForkSnapshot codec state.snapshotForFork opts = .ok dest) :
    ∃ selected, Selects codec state opts (· ∈ selected) ∧
      Drawn state selected (opts.scope = .tree) (TipSelected codec selected) dest := by
  obtain ⟨hcoherent, -⟩ := h.coherent_spread
  obtain ⟨_, -, hrest⟩ := bind_ok hfork
  obtain ⟨i, hidx, hrest⟩ := bind_ok hrest
  obtain rfl := hcoherent.indexEntries_eq hidx
  obtain ⟨tips, htips, hrest⟩ := bind_ok hrest
  obtain ⟨_, hval, hrest⟩ := bind_ok hrest
  obtain ⟨⟨selected, destinationTips⟩, hselect, hrest⟩ := bind_ok hrest
  have hknown : ∀ name tip, (name, some tip) ∈ tips → state.entries.contains tip = true :=
    fun name tip hmem => tip_known rfl hval hmem
  simp only at hrest
  split at hrest
  · cases hrest
  · refine ⟨selected, ?_⟩
    cases opts with
    | tree id =>
      cases hselect
      have hkeys : ∀ id, id ∈ state.entries.entries.map Prod.fst ↔
          state.entries.contains id = true := by
        intro id
        refine ⟨(closed_tree hcoherent).stored id, fun hhas => ?_⟩
        obtain ⟨entry, hent⟩ := isSome_iff_exists.mp hhas
        exact mem_map.mpr ⟨_, Assoc.mem_of_lookup_eq_some hent, rfl⟩
      refine ⟨hkeys, hcoherent.drawn (closed_tree hcoherent) ?_ hrest⟩
      intro name tip hmem
      exact (hkeys tip).mpr (hknown name tip hmem)
    | branch branch entryId pos id =>
      obtain ⟨sourceTip, hmem, hshut, hkept, hnamed⟩ :=
        hcoherent.selectContents_branch hknown hselect
      obtain ⟨stored, hstored, hns, hkey, hread⟩ := mem_tipValuesFrom htips hmem
      obtain ⟨slot, hslot⟩ := mem_values_iff.mp hstored
      rw [h.values_keyed hslot, hns, hkey] at hslot
      exact ⟨⟨stored, sourceTip, hslot, hread, hkept⟩, hcoherent.drawn hshut hnamed hrest⟩

/-- Every fork of a state reached below the largest sequence is installed: it
holds exactly the selected entries, unchanged, and all usage rows or none; each
of its branch tips names one of its entries or none, and its mark lies above
every sequence it holds. -/
theorem Run.fork_installs {codec : ValueCodec R} {history : List U64} {opts : ForkOptions}
    {dest : ForkDestinationSnapshot R} (h : Run Below state history)
    (hfork : createForkSnapshot codec state.snapshotForFork opts = .ok dest) :
    ∃ installed, fromForkSnapshot dest = .ok installed ∧
      Selects codec state opts (fun id => installed.entries.contains id = true) ∧
      (∀ id entry, installed.entries.get? id = some entry → state.entries.get? id = some entry) ∧
      installed.usage = (match opts with
        | .tree _ => state.usage
        | .branch _ _ _ _ => ∅) ∧
      (∀ branch stored, installed.values.get? (toLex ("pi.branch.tip", branch)) = some stored →
        ∃ tip, codec.readTip stored.value = some tip ∧
          ∀ id, tip = some id → installed.entries.contains id = true) ∧
      (∀ id entry, installed.entries.get? id = some entry → entry.seq < installed.nextSeq) ∧
      (∀ slot stored, installed.values.get? slot = some stored → stored.seq < installed.nextSeq) ∧
      ∀ id row, installed.usage.get? id = some row → row.seq < installed.nextSeq := by
  obtain ⟨hcoherent, hspread⟩ := h.coherent_spread
  obtain ⟨selected, hselects, hdrawn⟩ := h.fork_drawn hfork
  obtain ⟨installed, hinstalled, hents, husage, hvalues, hmark⟩ := hdrawn.install hcoherent hspread
  have hcontains : ∀ id, installed.entries.contains id = true ↔ id ∈ selected := by
    intro id
    constructor
    · intro hstored
      obtain ⟨entry, hent⟩ := isSome_iff_exists.mp hstored
      exact ((hents id entry).mp hent).1
    · intro hid
      obtain ⟨entry, hent⟩ := isSome_iff_exists.mp (hdrawn.closed.stored id hid)
      exact isSome_iff_exists.mpr ⟨entry, (hents id entry).mpr ⟨hid, hent⟩⟩
  refine ⟨installed, hinstalled, ?_, fun id entry hget => ((hents id entry).mp hget).2, ?_, ?_,
    ?_, ?_, ?_⟩
  · rw [show (fun id => installed.entries.contains id = true) = (· ∈ selected) from
      funext fun id => propext (hcontains id)]
    exact hselects
  · cases opts with
    | tree id =>
      ext key row
      rw [husage]
      exact and_iff_right rfl
    | branch branch entryId pos id =>
      ext key row
      rw [husage]
      simp [ForkOptions.scope]
  · intro branch stored hget
    obtain ⟨hslot, hallowed, -⟩ := hvalues _ stored hget
    have hns : stored.ns = "pi.branch.tip" := (congrArg (fun slot => (ofLex slot).1) hslot).symm
    obtain ⟨tip, hvalue, htip⟩ := hallowed hns
    refine ⟨tip, ?_, fun id hid => (hcontains id).mpr (htip id hid)⟩
    rw [hvalue, codec.readTip_tip]
  · intro id entry hget
    have hent := (hdrawn.entries entry).mpr ⟨id, (hents id entry).mp hget⟩
    exact lt_of_lt_of_le (hdrawn.below.1 entry hent) hmark
  · intro slot stored hget
    exact lt_of_lt_of_le (hvalues slot stored hget).2.2 hmark
  · intro id row hget
    obtain ⟨hkeep, hstored⟩ := (husage id row).mp hget
    have hrow := (hdrawn.usage row).mpr ⟨hkeep, id, hstored⟩
    exact lt_of_lt_of_le (hdrawn.below.2 row hrow) hmark

/-- A fork whose checks pass builds its destination. -/
theorem createForkSnapshot_eq (hname : opts.validate = .ok ())
    (hidx : indexEntries source.entries ∅ = .ok i)
    (htips : tipValues codec source.values = .ok tips)
    (hval : validateSourceSnapshot source i tips opts = .ok ())
    (hselect : selectContents i tips opts = .ok (selected, destinationTips))
    (hents : ((selected.filterMap i.get?).mergeSort fun a b => decide (a.seq ≤ b.seq)) =
      entries) (hdist : duplicateSequence [] entries = none) :
    createForkSnapshot codec source opts =
      forkDestination codec source opts.scope entries selected destinationTips := by
  simp only [createForkSnapshot, hname, hidx, htips, hval, hselect, hents, hdist, bind, Except.bind]

theorem mergeSort_pair {X : Type} {le : X → X → Bool} {a b : X} (h : le a b = false) :
    [a, b].mergeSort le = [b, a] := by
  simp [mergeSort, MergeSort.Internal.splitInTwo, h]

/-- A stored note. -/
def storedNote (id : EntryId) (parentId : Option EntryId) (seq : U64) :
    Entry (Option EntryId ⊕ Unit) :=
  .custom ⟨id, parentId, seq, 0, none⟩ "note" none

/-- A lane with two entries, the second of which used tokens. -/
def twoEntries : List (Write (Option EntryId ⊕ Unit)) :=
  [.entry ⟨"a", none, .custom "note" none⟩, .entry ⟨"b", some "a", .custom "note" none⟩,
    .usage ⟨"u", {}, some "b", false, none⟩,
    .value (.set "pi.branch.tip" "main" (Sum.inl (some "b"))),
    .value (.set "pi.lane.config" "main" (Sum.inr ())),
    .value (.set "pi.lane.state" "main" (Sum.inr ()))]

/-- What a fork of the lane reads, in sequence order. -/
def twoEntriesSource : ForkSourceSnapshot (Option EntryId ⊕ Unit) where
  entries := [storedNote "a" none U64.one, storedNote "b" (some "a") ⟨2, by decide⟩]
  values := (new.apply twoEntries 0).2.values.values
  usage := (new.apply twoEntries 0).2.usage.values
  entriesComplete := true

theorem snapshotForFork_twoEntries :
    (new.apply twoEntries 0).2.snapshotForFork = twoEntriesSource := by
  have hents : (new.apply twoEntries 0).2.entries.values = twoEntriesSource.entries := by
    decide +kernel
  have hsorted : twoEntriesSource.entries.mergeSort (fun a b => decide (a.seq ≤ b.seq)) =
      twoEntriesSource.entries := mergeSort_of_pairwise (by decide +kernel)
  have husage : (new.apply twoEntries 0).2.usage.values =
      [⟨"u", ⟨3, by decide⟩, {}, some "b", false, none⟩] := by decide +kernel
  rw [snapshotForFork, hents, hsorted, husage, mergeSort_singleton, ← husage]
  rfl

theorem run_twoEntries : ∃ history, Run Below (new.apply twoEntries 0).2 history :=
  ⟨_, .step (.apply twoEntries 0) (@Run.new (Option EntryId ⊕ Unit) Below)
    fun _ => by decide +kernel⟩

theorem parentOf_twoEntries : (new.apply twoEntries 0).2.parentOf "b" = some "a" := by
  decide +kernel

/-- A fork of the lane at its second entry passes its checks. -/
theorem exists_fork_twoEntries (pos : ForkPosition) :
    ∃ dest, createForkSnapshot tipOrOther (new.apply twoEntries 0).2.snapshotForFork
      (.branch "main" (some "b") pos none) = .ok dest := by
  obtain ⟨history, hrun⟩ := run_twoEntries
  have hindex : indexEntries twoEntriesSource.entries ∅ =
      .ok (new.apply twoEntries 0).2.entries := by
    obtain ⟨i, hidx⟩ : ∃ i, indexEntries twoEntriesSource.entries ∅ = .ok i := ⟨_, rfl⟩
    rw [hidx]
    refine congrArg Except.ok (hrun.coherent_spread.1.indexEntries_eq (i := i) ?_)
    exact (congrArg (fun source => indexEntries source.entries ∅)
      snapshotForFork_twoEntries).trans hidx
  have htips : tipValues tipOrOther twoEntriesSource.values = .ok [("main", some "b")] := by
    decide +kernel
  have hclimb : Climb (new.apply twoEntries 0).2.parentOf "b" ["b", "a"] :=
    .step parentOf_twoEntries (.root (by decide +kernel))
  have hloop := @selectLoop_climb _ _ "b" pos (some "b") _ hclimb (by decide +kernel)
    (by decide +kernel) [] (fun _ _ => not_mem_nil) ⟨false, none, []⟩
  rw [snapshotForFork_twoEntries]
  cases pos with
  | before =>
    have hselect : selectContents (new.apply twoEntries 0).2.entries [("main", some "b")]
        (.branch "main" (some "b") .before none) = .ok (["a"], [("main", some "a")]) := by
      change (selectLoop _ (some "b") .before (some "b") [] ⟨false, none, []⟩ >>= _) = _
      rw [hloop]
      decide +kernel
    rw [createForkSnapshot_eq rfl hindex htips (by decide +kernel) hselect
      (mergeSort_singleton _) rfl]
    exact ⟨_, rfl⟩
  | «at» =>
    have hselect : selectContents (new.apply twoEntries 0).2.entries [("main", some "b")]
        (.branch "main" (some "b") .at none) = .ok (["b", "a"], [("main", some "b")]) := by
      change (selectLoop _ (some "b") .at (some "b") [] ⟨false, none, []⟩ >>= _) = _
      rw [hloop]
      decide +kernel
    have hents : (["b", "a"].filterMap (new.apply twoEntries 0).2.entries.get?).mergeSort
        (fun a b => decide (a.seq ≤ b.seq)) = twoEntriesSource.entries := by
      rw [show ["b", "a"].filterMap (new.apply twoEntries 0).2.entries.get? =
        [storedNote "b" (some "a") ⟨2, by decide⟩, storedNote "a" none U64.one] by
          decide +kernel]
      exact mergeSort_pair (by decide +kernel)
    rw [createForkSnapshot_eq rfl hindex htips (by decide +kernel) hselect hents rfl]
    exact ⟨_, rfl⟩

/-- The fork of the lane at its second entry is installed: with the first entry, with the second
one where its position is included, and without usage rows. -/
def ForksTwoEntries (pos : ForkPosition) : Prop :=
  ∃ dest, createForkSnapshot tipOrOther (new.apply twoEntries 0).2.snapshotForFork
      (.branch "main" (some "b") pos none) = .ok dest ∧
    ∃ installed, fromForkSnapshot dest = .ok installed ∧ installed.usage = ∅ ∧
      installed.entries.contains "a" = true ∧
      (pos = .at → installed.entries.contains "b" = true)

theorem fork_installs_twoEntries : ForksTwoEntries .at ∧ ForksTwoEntries .before := by
  obtain ⟨history, hrun⟩ := run_twoEntries
  have hforks (pos : ForkPosition) : ForksTwoEntries pos := by
    obtain ⟨dest, hdestination⟩ := exists_fork_twoEntries pos
    obtain ⟨installed, hinstalled, hselects, -, husage, -⟩ := hrun.fork_installs hdestination
    obtain ⟨stored, sourceTip, -, -, hkept⟩ := hselects
    refine ⟨dest, hdestination, installed, hinstalled, husage, (hkept "a").mpr ⟨"b", rfl, ?_⟩, ?_⟩
    · cases pos with
      | before => exact .single parentOf_twoEntries
      | «at» => exact .single parentOf_twoEntries
    · rintro rfl
      exact (hkept "b").mpr ⟨"b", rfl, .refl⟩
  exact ⟨hforks .at, hforks .before⟩

end InMemoryStorageState

end PiOxidized.Session
