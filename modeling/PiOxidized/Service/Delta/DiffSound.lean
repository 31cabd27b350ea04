/-
# Diffs reach their target

Applying the operations of a diff turns the earlier tree into the later one, up
to numbers that the comparison of the diff cannot tell apart.  The statement is
parametric in a function on numbers: taken to fold the two zeros it holds for
every pair of trees, taken to be the identity it says when the result is the
later tree bit for bit.
-/

import PiOxidized.Service.Delta.Diff

namespace PiOxidized.Service.Delta

open List Math Assoc

section

variable [SerdeJson]

/-! ## Running operations -/

variable {path : StatePath}

variable {target next : Option JsonValue}

theorem apply_cons {op : DeltaOp} (hval : op.validate = .ok ())
    (hone : applyOne target op = (.ok (), next)) (ops : List DeltaOp) :
    apply target (op :: ops) = apply next ops := by
  simp only [apply, hval, hone, bind, Except.bind]

theorem apply_append {first : List DeltaOp} (hfst : apply target first = .ok next)
    (second : List DeltaOp) :
    apply target (first ++ second) = apply next second := by
  induction first generalizing target with
  | nil =>
    rw [apply] at hfst
    cases hfst
    rfl
  | cons op ops ih =>
    simp only [apply, bind, Except.bind] at hfst
    cases hval : op.validate with
    | error error => simp [hval] at hfst
    | ok _ =>
      cases hone : (applyOne target op).1 with
      | error error => simp [hval, hone] at hfst
      | ok _ =>
        simp only [hval, hone] at hfst
        rw [cons_append, apply_cons hval (Prod.ext hone rfl)]
        exact ih hfst

/-- Application checks every operation it runs. -/
theorem validate_of_apply {ops : List DeltaOp} (h : apply target ops = .ok next) :
    ∀ op ∈ ops, op.validate = .ok () := by
  induction ops generalizing target with
  | nil => simp
  | cons op ops ih =>
    simp only [apply, bind, Except.bind] at h
    cases hval : op.validate with
    | error error => simp [hval] at h
    | ok _ =>
      cases hone : (applyOne target op).1 with
      | error error => simp [hval, hone] at h
      | ok _ =>
        simp only [hval, hone] at h
        exact forall_mem_cons.mpr ⟨hval, ih h⟩

omit [SerdeJson] in
theorem StatePath.exists_joined (h : path.isEmpty = false) :
    ∃ parent segment, path = StatePath.joined parent segment := by
  obtain ⟨segments⟩ := path
  rcases eq_nil_or_concat segments with rfl | ⟨front, last, rfl⟩
  · cases h
  · exact ⟨⟨front⟩, last, by simp [StatePath.joined]⟩

/-! ## Sites -/

/-- A path that an operation may name and that resolves in an ordered tree. -/
structure Site (root : JsonValue) (path : StatePath) (value : JsonValue) : Prop where
  /-- Object keys of the tree increase. -/
  ordered : root.Ordered
  /-- The path uses no reserved key. -/
  safe : path.Safe
  /-- The path resolves to the value. -/
  reads : (pathOptic path.segments).get? root = some value

namespace Site

variable {root value child : JsonValue} {path : StatePath} {segment : PathSegment}

theorem of_root (h : root.Ordered) : Site root StatePath.root root where
  ordered := h
  safe := fun _ hmem => absurd hmem not_mem_nil
  reads := rfl

theorem value_ordered (site : Site root path value) : value.Ordered :=
  Ordered.get? site.ordered site.reads

/-- A child of a site is a site. -/
theorem below (site : Site root path value) (hsegment : segment.isReserved = false)
    (hchild : child? segment value = some child) : Site root (path.joined segment) child where
  ordered := site.ordered
  safe := site.safe.joined hsegment
  reads := (Optic.along_snoc_get? site.reads segment).trans hchild

/-- Rewriting a site leaves a site. -/
theorem put (site : Site root path value) {new : JsonValue} (hnew : new.Ordered) :
    Site ((pathOptic path.segments).put new root) path new where
  ordered := Ordered.put site.ordered site.reads hnew
  safe := site.safe
  reads := (pathOptic path.segments).get?_put new site.reads

/-- Rewriting a child rewrites the site. -/
theorem put_child (site : Site root path value) (hchild : child? segment value = some child)
    (new : JsonValue) :
    (pathOptic (path.joined segment).segments).put new root =
      (pathOptic path.segments).put (putChild segment new value) root :=
  Optic.along_snoc_put site.reads hchild new

theorem put_self (site : Site root path value) : (pathOptic path.segments).put value root = root :=
  (pathOptic path.segments).put_get? site.reads

/-- Setting a site replaces its value. -/
theorem apply_emitSet (site : Site root path value) (new : JsonValue) :
    apply (some root) (emitSet path new) = .ok (some ((pathOptic path.segments).put new root)) := by
  cases hemp : path.isEmpty with
  | true =>
    have hroot : path = ⟨[]⟩ := by
      obtain ⟨segments⟩ := path
      exact congrArg StatePath.mk (isEmpty_iff.mp hemp)
    subst hroot
    rfl
  | false =>
    obtain ⟨parentPath, last, rfl⟩ := StatePath.exists_joined hemp
    have hreads : ((pathOptic parentPath.segments).get? root).bind (pathOptic [last]).get? =
        some value := (Optic.along_append_get? _ _ _).symm.trans site.reads
    obtain ⟨parent, hpar, hlast⟩ := Option.bind_eq_some_iff.mp hreads
    have hchild : child? last parent = some value :=
      (Optic.along_singleton_get? last parent).symm.trans hlast
    have hset := setIn_of_child? (parentPath.joined last)
      (Ordered.get? site.ordered hpar) hchild new
    have hval : (DeltaOp.set (parentPath.joined last) new).validate = .ok () :=
      validateNonEmpty_eq_ok_iff.mpr ⟨site.safe, hemp⟩
    have hput : (pathOptic (parentPath.joined last).segments).put new root =
        (pathOptic parentPath.segments).put (putChild last new parent) root :=
      Optic.along_snoc_put hpar hchild new
    have hemit : emitSet (parentPath.joined last) new = [.set (parentPath.joined last) new] :=
      if_neg (by simp)
    rw [hemit, hput]
    refine apply_cons hval ?_ []
    simp only [applyOne, editRoot, setPath_joined site.safe hpar, hset]

end Site

/-- Operations that rewrite the site at a path into a tree with a given image. -/
def Reaches (f : Binary64 → Binary64) (root : JsonValue) (path : StatePath) (after : JsonValue)
    (result : Except DeltaError (List DeltaOp)) : Prop :=
  ∃ ops value, result = .ok ops ∧
    apply (some root) ops = .ok (some ((pathOptic path.segments).put value root)) ∧
    value.mapNumbers f = after.mapNumbers f

variable {root value : JsonValue}

theorem Site.reaches_emitSet (site : Site root path value) (f : Binary64 → Binary64)
    (after : JsonValue) :
    Reaches f root path after (.ok (emitSet path after)) :=
  ⟨_, after, rfl, site.apply_emitSet after, rfl⟩

/-! ## Strings -/

namespace Site

variable {root value : JsonValue} {path : StatePath}

variable {cur : JsString}

theorem apply_append_string (site : Site root path (.string cur))
    (hemp : path.isEmpty = false) (text : JsString) (ops : List DeltaOp) :
    apply (some root) (.append path text :: ops) = apply (some ((pathOptic path.segments).put
        (.string ⟨cur.units ++ text.units⟩) root)) ops := by
  have hval : (DeltaOp.append path text).validate = .ok () :=
    validateNonEmpty_eq_ok_iff.mpr ⟨site.safe, hemp⟩
  refine apply_cons hval ?_ ops
  simp only [applyOne, editRoot, appendStringPath, modifyAt_of_get? path _ site.reads, appendIn]

theorem apply_truncate_string (site : Site root path (.string cur))
    (hemp : path.isEmpty = false) (count : JsInteger) (ops : List DeltaOp) :
    apply (some root) (.truncate path count :: ops) = apply (some ((pathOptic path.segments).put
        (.string ⟨cur.units.drop (count.clampToLen cur.units.length)⟩) root)) ops := by
  have hval : (DeltaOp.truncate path count).validate = .ok () :=
    validateNonEmpty_eq_ok_iff.mpr ⟨site.safe, hemp⟩
  refine apply_cons hval ?_ ops
  simp only [applyOne, editRoot, truncateStringPath, modifyAt_of_get? path _ site.reads, truncateIn]

theorem apply_splice_array {items : List JsonValue} (site : Site root path (.array items))
    (index dels : JsInteger) (values : List JsonValue) (ops : List DeltaOp) :
    apply (some root) (.splice path index dels values :: ops) =
      apply (some ((pathOptic path.segments).put
        (.array (spliceItems items index dels values)) root)) ops := by
  have hval := validatePath_eq_ok_iff.mpr site.safe
  have hop : (DeltaOp.splice path index dels values).validate = .ok () := hval
  refine apply_cons hop ?_ ops
  simp only [applyOne, editRoot, splicePath, hval, modifyAt_of_get? path _ site.reads, spliceIn]

/-- A string diff writes the later string. -/
theorem apply_diffString {pre : JsString} (site : Site root path (.string pre))
    (hfits : pre.units.length ≤ 2 ^ 53) (scan : Nat) (after : List UInt16) :
    apply (some root) (diffString scan pre.units after path) =
      .ok (some ((pathOptic path.segments).put (.string ⟨after⟩) root)) := by
  rw [diffString]
  split_ifs with heq hemp happ
  · subst heq
    rw [site.put_self]
    rfl
  · exact site.apply_emitSet _
  · obtain ⟨suffix, rfl⟩ := happ.2
    rw [site.apply_append_string (by simpa using hemp), drop_left]
    rfl
  · have hne : path.isEmpty = false := by simpa using hemp
    obtain ⟨hle, hle', hdrop⟩ := overlap_spec pre.units after scan
    by_cases hshared : overlap pre.units after scan = 0
    · simp only [if_pos hshared]
      exact site.apply_emitSet _
    · have hcnt : pre.units.length - overlap pre.units after scan ≤ 2 ^ 53 := by omega
      have htruncated : pre.units.drop ((JsInteger.count
          (pre.units.length - overlap pre.units after scan)).clampToLen pre.units.length) =
            after.take (overlap pre.units after scan) := by
        rw [JsInteger.clampToLen_count hcnt, min_eq_left (Nat.sub_le _ _), hdrop]
      simp only [if_neg hshared]
      rw [site.apply_truncate_string hne, htruncated]
      split_ifs with hmore
      · have hord : (JsonValue.string ⟨after.take (overlap pre.units after scan)⟩).Ordered :=
          trivial
        rw [(site.put hord).apply_append_string hne, take_append_drop,
          (pathOptic path.segments).put_put]
        rfl
      · rw [take_of_length_le (by omega)]
        rfl

end Site

/-! ## Arrays -/

/-- What a diff needs of the trees it compares: no collection is longer than a
count can say, keys of the later tree increase, and the chosen function does not
separate numbers that compare equal. -/
structure Comparable (f : Binary64 → Binary64) (before after : JsonValue) : Prop where
  beforeFits : before.Fits
  afterFits : after.Fits
  afterOrdered : after.Ordered
  collapses : JsonValue.Collapses f before after

variable {f : Binary64 → Binary64} {befores afters : List JsonValue} {after : JsonValue}

variable {pre : JsonValue}

omit [SerdeJson] in
theorem Comparable.items (h : Comparable f (.array befores) (.array afters))
    (hpre : pre ∈ befores) (haft : after ∈ afters) : Comparable f pre after where
  beforeFits := (JsonValue.fits_array.mp h.beforeFits).2 pre hpre
  afterFits := (JsonValue.fits_array.mp h.afterFits).2 after haft
  afterOrdered := JsonValue.ordered_array.mp h.afterOrdered after haft
  collapses := h.collapses.items hpre haft

omit [SerdeJson] in
theorem Comparable.members {befores afters : JsObject}
    (h : Comparable f (.object befores) (.object afters)) {pre after : JsString × JsonValue}
    (hpre : pre ∈ befores) (haft : after ∈ afters) : Comparable f pre.2 after.2 where
  beforeFits := JsonValue.fits_object.mp h.beforeFits pre hpre
  afterFits := JsonValue.fits_object.mp h.afterFits after haft
  afterOrdered := (JsonValue.ordered_object.mp h.afterOrdered).2 after haft
  collapses := h.collapses.members hpre haft

/-- Every diff into a tree reaches it, from every site that agrees with the
earlier tree. -/
def DiffSound (f : Binary64 → Binary64) (scan : Nat) (after : JsonValue) : Prop :=
  ∀ {before root value path}, Comparable f before after → Site root path value →
    value.mapNumbers f = before.mapNumbers f →
    Reaches f root path after (diffPresent scan (some before) after path)

variable {done : List JsonValue} {scan : Nat}

variable {cur : List JsonValue}

variable {rest : List JsonValue} {item : JsonValue}

omit [SerdeJson] in
theorem ordered_of_mapNumbers_eq {other : JsonValue} (h : value.mapNumbers f = other.mapNumbers f)
    (hoth : other.Ordered) : value.Ordered :=
  JsonValue.ordered_mapNumbers.mp (h ▸ JsonValue.ordered_mapNumbers.mpr hoth)

theorem child?_index (h : done.length < 2 ^ 53) :
    child? (.index (JsInteger.count done.length)) (.array (done ++ item :: rest)) = some item := by
  simp only [child?, PathSegment.asIndex]
  rw [JsInteger.clampToLen_count h.le, min_eq_left (by simp)]
  simp

theorem putChild_index (h : done.length < 2 ^ 53) (new : JsonValue) :
    putChild (.index (JsInteger.count done.length)) new (.array (done ++ item :: rest)) =
      .array (done ++ new :: rest) := by
  simp only [putChild, PathSegment.asIndex]
  rw [JsInteger.clampToLen_count h.le, min_eq_left (by simp)]
  simp

/-- Editing the shared indices rewrites them one after the other.  The elements
already edited are `done`, the others still agree with the earlier array. -/
theorem diffItems_reaches (ih : ∀ after ∈ afters, DiffSound f scan after)
    (hcmp : ∀ pre ∈ befores, ∀ after ∈ afters, Comparable f pre after)
    (hlen : done.length + befores.length ≤ 2 ^ 53)
    (site : Site root path (.array (done ++ cur)))
    (hcur : cur.map (JsonValue.mapNumbers f) = befores.map (JsonValue.mapNumbers f)) :
    ∃ ops edited, diffItems scan befores afters done.length path = .ok ops ∧
      apply (some root) ops = .ok (some ((pathOptic path.segments).put
        (.array (done ++ edited ++ cur.drop afters.length)) root)) ∧
      edited.map (JsonValue.mapNumbers f) =
        (afters.take befores.length).map (JsonValue.mapNumbers f) := by
  induction afters generalizing befores cur done root with
  | nil =>
    refine ⟨[], [], by cases befores <;> rfl, ?_, by simp⟩
    rw [append_nil, length_nil, drop_zero, site.put_self]
    rfl
  | cons after afters ihItems =>
    cases befores with
    | nil =>
      have hnil : cur = [] := by simpa using hcur
      refine ⟨[], [], rfl, ?_, by simp⟩
      subst hnil
      rw [append_nil, drop_nil, site.put_self]
      rfl
    | cons pre befores =>
      cases cur with
      | nil => simp at hcur
      | cons value cur =>
        rw [map_cons, map_cons, cons.injEq] at hcur
        obtain ⟨hvalue, hcur⟩ := hcur
        have hidx : done.length < 2 ^ 53 := by simp at hlen; omega
        have hbelow : Site root (path.joined (.index (JsInteger.count done.length))) value :=
          site.below rfl (child?_index hidx)
        obtain ⟨ops, edited, hops, happly, hedit⟩ := ih after mem_cons_self
          (hcmp pre mem_cons_self after mem_cons_self) hbelow hvalue
        rw [site.put_child (child?_index hidx), putChild_index hidx] at happly
        have hord : (JsonValue.array (done ++ edited :: cur)).Ordered := by
          rw [← putChild_index hidx edited]
          exact Ordered.putChild site.value_ordered (ordered_of_mapNumbers_eq hedit
              (hcmp pre mem_cons_self after mem_cons_self).afterOrdered) _
        have hnext : Site ((pathOptic path.segments).put (.array (done ++ edited :: cur)) root) path
            (.array ((done ++ [edited]) ++ cur)) := by
          rw [append_assoc]
          exact site.put hord
        obtain ⟨more, tail, hmore, hmoreApply, htail⟩ := ihItems
          (fun other hmem => ih other (mem_cons_of_mem _ hmem))
          (fun b hb a ha => hcmp b (mem_cons_of_mem _ hb) a (mem_cons_of_mem _ ha))
          (by simp at hlen ⊢; omega) hnext hcur
        refine ⟨ops ++ more, edited :: tail, ?_, ?_, ?_⟩
        · rw [length_append, length_singleton] at hmore
          simp only [diffItems, hops, hmore, bind, Except.bind]
        · rw [apply_append happly, hmoreApply, (pathOptic path.segments).put_put]
          simp
        · simp [hedit, htail]

omit [SerdeJson] in
theorem commonPrefix_le (befores afters : List JsonValue) :
    commonPrefix befores afters ≤ befores.length ∧ commonPrefix befores afters ≤ afters.length := by
  induction befores generalizing afters with
  | nil => simp [commonPrefix]
  | cons pre befores ih =>
    cases afters with
    | nil => simp [commonPrefix]
    | cons after afters =>
      rw [commonPrefix]
      split_ifs
      · simpa using ih afters
      · simp

omit [SerdeJson] in
/-- Leading elements that compare equal have the same image. -/
theorem commonPrefix_take
    (hcmp : ∀ pre ∈ befores, ∀ after ∈ afters, JsonValue.Collapses f pre after) :
    (befores.take (commonPrefix befores afters)).map (JsonValue.mapNumbers f) =
      (afters.take (commonPrefix befores afters)).map (JsonValue.mapNumbers f) := by
  induction befores generalizing afters with
  | nil => simp [commonPrefix]
  | cons pre befores ih =>
    cases afters with
    | nil => simp [commonPrefix]
    | cons after afters =>
      rw [commonPrefix]
      split_ifs with heq
      · rw [take_succ_cons, take_succ_cons, map_cons, map_cons,
          ih fun b hb a ha => hcmp b (mem_cons_of_mem _ hb) a (mem_cons_of_mem _ ha)]
        rw [JsonValue.eq_eq_sameTree] at heq
        rw [JsonValue.mapNumbers_eq_of_sameTree heq (hcmp pre mem_cons_self after mem_cons_self)]
      · simp

omit [SerdeJson] in
/-- Splicing in the small-count range. -/
theorem spliceItems_count {items : List JsonValue} {start remove : Nat}
    (hsta : start + remove ≤ items.length) (hfits : items.length ≤ 2 ^ 53)
    (values : List JsonValue) :
    spliceItems items (JsInteger.count start) (JsInteger.count remove) values =
      items.take start ++ values ++ items.drop (start + remove) := by
  have hfst : (JsInteger.count start).clampToLen items.length = start := by
    rw [JsInteger.clampToLen_count (by omega), min_eq_left (by omega)]
  have hsnd : (JsInteger.count remove).clampToLen (items.length - start) = remove := by
    rw [JsInteger.clampToLen_count (by omega), min_eq_left (by omega)]
  simp only [spliceItems, hfst, hsnd]

omit [SerdeJson] in
/-- Keeping a common front and a common back and replacing what lies between
gives the later array. -/
theorem map_splice_eq (hcmp : ∀ pre ∈ befores, ∀ after ∈ afters, JsonValue.Collapses f pre after)
    (hcur : cur.map (JsonValue.mapNumbers f) = befores.map (JsonValue.mapNumbers f))
    {front back : Nat} (hfront : front = commonPrefix befores afters)
    (hback : back = commonPrefix (befores.drop front).reverse (afters.drop front).reverse) :
    (cur.take front ++ (afters.take (afters.length - back)).drop front ++
        cur.drop (befores.length - back)).map (JsonValue.mapNumbers f) =
      afters.map (JsonValue.mapNumbers f) := by
  obtain ⟨hle, hle'⟩ := commonPrefix_le befores afters
  obtain ⟨hback₁, hback₂⟩ :=
    commonPrefix_le (befores.drop front).reverse (afters.drop front).reverse
  simp only [length_reverse, length_drop, ← hback, ← hfront] at hback₁ hback₂ hle hle'
  have hfrontMap := commonPrefix_take hcmp
  rw [← hfront] at hfrontMap
  have hreversed : ∀ pre ∈ (befores.drop front).reverse, ∀ after ∈ (afters.drop front).reverse,
      JsonValue.Collapses f pre after := fun b hb a ha =>
    hcmp b (mem_of_mem_drop (mem_reverse.mp hb)) a (mem_of_mem_drop (mem_reverse.mp ha))
  have hbackMap := commonPrefix_take hreversed
  rw [← hback, take_reverse, take_reverse, map_reverse, map_reverse,
    reverse_inj, drop_drop, drop_drop, length_drop, length_drop,
    show front + (befores.length - front - back) = befores.length - back by omega,
    show front + (afters.length - front - back) = afters.length - back by omega] at hbackMap
  have hsplit : afters = afters.take front ++ (afters.take (afters.length - back)).drop front ++
      afters.drop (afters.length - back) := by
    have hmiddle : afters.take front = (afters.take (afters.length - back)).take front := by
      rw [take_take, min_eq_left (by omega)]
    rw [hmiddle, take_append_drop, take_append_drop]
  have htake : (cur.take front).map (JsonValue.mapNumbers f) =
      (befores.take front).map (JsonValue.mapNumbers f) := by
    rw [map_take, hcur, ← map_take]
  have hdrop : (cur.drop (befores.length - back)).map (JsonValue.mapNumbers f) =
      (befores.drop (befores.length - back)).map (JsonValue.mapNumbers f) := by
    rw [map_drop, hcur, ← map_drop]
  conv_rhs => rw [hsplit]
  rw [map_append, map_append, map_append, map_append, htake, hdrop, hfrontMap, hbackMap]

/-- The closing splice leaves the edited elements and what the later array adds
to them. -/
theorem Site.apply_diffLengths {edited : List JsonValue}
    (site : Site root path (.array (edited ++ cur.drop afters.length)))
    (hlen : cur.length = befores.length)
    (heditedLength : edited.length = min befores.length afters.length)
    (hedit : edited.map (JsonValue.mapNumbers f) =
      (afters.take befores.length).map (JsonValue.mapNumbers f)) (hfits : befores.length ≤ 2 ^ 53)
    (hfits' : afters.length ≤ 2 ^ 53) :
    ∃ items, apply (some root) (diffLengths befores afters path) =
        .ok (some ((pathOptic path.segments).put (.array items) root)) ∧
      items.map (JsonValue.mapNumbers f) = afters.map (JsonValue.mapNumbers f) := by
  rw [diffLengths]
  split_ifs with hlonger hshorter hnone
  · have hdrop : cur.drop afters.length = [] := drop_of_length_le (by omega)
    rw [hdrop, append_nil] at site
    have hzero : JsInteger.zero.clampToLen (edited.length - befores.length) = 0 := by
      simp [JsInteger.clampToLen]
    have hsta : (JsInteger.count befores.length).clampToLen edited.length = befores.length := by
      rw [JsInteger.clampToLen_count hfits, min_eq_left (by omega)]
    have hall : edited.take befores.length = edited := take_of_length_le (by omega)
    have hend : edited.drop (befores.length + 0) = [] := drop_of_length_le (by omega)
    refine ⟨_, site.apply_splice_array _ _ _ [], ?_⟩
    simp only [spliceItems, hsta, hzero]
    rw [hall, hend, append_nil, map_append, hedit, ← map_append, take_append_drop]
  · have hnil : afters = [] := isEmpty_iff.mp hnone
    subst hnil
    exact ⟨[], site.apply_emitSet _, rfl⟩
  · have htotal : (edited ++ cur.drop afters.length).length = befores.length := by
      rw [length_append, length_drop]
      omega
    have hend : (edited ++ cur.drop afters.length).drop
        (afters.length + (befores.length - afters.length)) = [] :=
      drop_of_length_le (by omega)
    refine ⟨_, site.apply_splice_array _ _ _ [], ?_⟩
    rw [spliceItems_count (by omega) (by omega), hend, append_nil, append_nil,
      take_left' (by omega), hedit, take_of_length_le (by omega)]
  · have hsame : befores.length = afters.length := by omega
    refine ⟨edited ++ cur.drop afters.length, ?_, ?_⟩
    · rw [site.put_self]
      rfl
    · rw [drop_of_length_le (by omega), append_nil, hedit, take_of_length_le (by omega)]

/-- An array diff reaches the later array once the diffs of its elements do. -/
theorem diffArray_reaches (ih : ∀ after ∈ afters, DiffSound f scan after)
    (hcmp : Comparable f (.array befores) (.array afters)) (site : Site root path value)
    (hvalue : value.mapNumbers f = (JsonValue.array befores).mapNumbers f) :
    Reaches f root path (.array afters)
      (diffArray befores afters path (diffItems scan befores afters 0 path)) := by
  obtain ⟨cur, rfl, hcur⟩ := JsonValue.exists_array_of_mapNumbers_eq hvalue
  have hlen : cur.length = befores.length := by
    simpa using congrArg length hcur
  have hfits := (JsonValue.fits_array.mp hcmp.beforeFits).1
  have hfits' := (JsonValue.fits_array.mp hcmp.afterFits).1
  obtain ⟨ops, edited, hops, happly, hedited⟩ := diffItems_reaches ih
    (fun b hb a ha => hcmp.items hb ha) (by simpa using hfits)
    (show Site root path (.array ([] ++ cur)) from site) hcur
  simp only [nil_append, length_nil] at hops happly
  have heditedLength : edited.length = min befores.length afters.length := by
    simpa using congrArg length hedited
  have heditedSite : Site ((pathOptic path.segments).put
      (.array (edited ++ cur.drop afters.length)) root) path
      (.array (edited ++ cur.drop afters.length)) := by
    refine site.put (JsonValue.ordered_array.mpr fun item hmem => ?_)
    rcases mem_append.mp hmem with hmem | hmem
    · have hedit : (JsonValue.array edited).mapNumbers f =
          (JsonValue.array (afters.take befores.length)).mapNumbers f := by
        rw [JsonValue.mapNumbers_array, JsonValue.mapNumbers_array, hedited]
      have htkn : (JsonValue.array (afters.take befores.length)).Ordered :=
        JsonValue.ordered_array.mpr fun after ha =>
          JsonValue.ordered_array.mp hcmp.afterOrdered after (mem_of_mem_take ha)
      exact JsonValue.ordered_array.mp (ordered_of_mapNumbers_eq hedit htkn) item hmem
    · exact JsonValue.ordered_array.mp site.value_ordered item (mem_of_mem_drop hmem)
  simp only [diffArray]
  generalize hfront : commonPrefix befores afters = front
  generalize hback : commonPrefix (befores.drop front).reverse (afters.drop front).reverse = back
  obtain ⟨hback₁, -⟩ := commonPrefix_le (befores.drop front).reverse (afters.drop front).reverse
  obtain ⟨hfront₁, -⟩ := commonPrefix_le befores afters
  simp only [hback, hfront, length_reverse, length_drop] at hback₁ hfront₁
  split_ifs with heq hends hall
  · refine ⟨ops, .array edited, hops, ?_, ?_⟩
    · rw [happly, drop_of_length_le (by omega), append_nil]
    · rw [JsonValue.mapNumbers_array, JsonValue.mapNumbers_array, hedited,
        take_of_length_le (by omega)]
  · exact site.reaches_emitSet f _
  · refine ⟨_, .array _, rfl, site.apply_splice_array _ _ _ [], ?_⟩
    rw [spliceItems_count (by omega) (by omega), JsonValue.mapNumbers_array,
      JsonValue.mapNumbers_array,
      show front + (befores.length - front - back) = befores.length - back by omega]
    exact congrArg _ (map_splice_eq (fun b hb a ha => hcmp.collapses.items hb ha) hcur
      hfront.symm hback.symm)
  · have htotal := apply_append happly (diffLengths befores afters path)
    obtain ⟨items, hitems, hmap⟩ := heditedSite.apply_diffLengths hlen heditedLength hedited
      hfits hfits'
    refine ⟨ops ++ diffLengths befores afters path, .array items, ?_, ?_, ?_⟩
    · rw [hops]
      rfl
    · rw [htotal, hitems, (pathOptic path.segments).put_put]
    · rw [JsonValue.mapNumbers_array, JsonValue.mapNumbers_array, hmap]

/-! ## Objects -/

variable {key : JsString}

/-- Setting a member of an object site that has no such member inserts it. -/
theorem Site.apply_emitSet_member {members : JsObject} (site : Site root path (.object members))
    (hkey : (PathSegment.key key).isReserved = false) (new : JsonValue) :
    apply (some root) (emitSet (path.joined (.key key)) new) =
      .ok (some ((pathOptic path.segments).put (.object (insert key new members)) root)) := by
  have hsafe := site.safe.joined hkey
  have hval : (DeltaOp.set (path.joined (.key key)) new).validate = .ok () :=
    validateNonEmpty_eq_ok_iff.mpr ⟨hsafe, path.isEmpty_joined _⟩
  have hemit : emitSet (path.joined (.key key)) new = [.set (path.joined (.key key)) new] :=
    if_neg (by simp)
  rw [hemit]
  refine apply_cons hval ?_ []
  simp only [applyOne, editRoot, setPath_joined hsafe site.reads, setIn, objectKey]

/-- Deleting a member of an object site erases it. -/
theorem Site.apply_delete_member {members : JsObject} (site : Site root path (.object members))
    (hkey : (PathSegment.key key).isReserved = false) (ops : List DeltaOp) :
    apply (some root) (.delete (path.joined (.key key)) :: ops) =
      apply (some ((pathOptic path.segments).put (.object (erase key members)) root)) ops := by
  have hsafe := site.safe.joined hkey
  have hval : (DeltaOp.delete (path.joined (.key key))).validate = .ok () :=
    validateNonEmpty_eq_ok_iff.mpr ⟨hsafe, path.isEmpty_joined _⟩
  refine apply_cons hval ?_ ops
  simp only [applyOne, editRoot, deletePath_joined hsafe site.reads, deleteIn, objectKey]

/-- Editing one member of an object site stores its new value and leaves the
other members. -/
theorem diffMember_reaches (ih : DiffSound f scan after) {pre : Option JsonValue}
    (hcmp : ∀ value, pre = some value → Comparable f value after) (haft : after.Ordered)
    (hkey : (PathSegment.key key).isReserved = false) {members : JsObject}
    (site : Site root path (.object members))
    (hmemb : (members.lookup key).map (JsonValue.mapNumbers f) = pre.map (JsonValue.mapNumbers f)) :
    ∃ ops edited value, diffPresent scan pre after (path.joined (.key key)) = .ok ops ∧
      apply (some root) ops = .ok (some ((pathOptic path.segments).put (.object edited) root)) ∧
      (JsonValue.object edited).Ordered ∧ value.mapNumbers f = after.mapNumbers f ∧
      ∀ other, edited.lookup other = if other = key then some value else members.lookup other := by
  obtain ⟨hsort, hmems⟩ := JsonValue.ordered_object.mp site.value_ordered
  cases pre with
  | none =>
    refine ⟨_, insert key after members, after, by rw [diffPresent],
      site.apply_emitSet_member hkey after, ?_, rfl, fun other => lookup_insert key other _ _⟩
    refine JsonValue.ordered_object.mpr ⟨hsort.insert key after, fun member hmem => ?_⟩
    rcases mem_insert hmem with rfl | hmem
    · exact haft
    · exact hmems member hmem
  | some pre =>
    obtain ⟨value, hlook, hvalue⟩ := Option.map_eq_some_iff.mp hmemb
    have hchild : child? (.key key) (.object members) = some value := hlook
    obtain ⟨ops, edited, hops, happly, hedit⟩ := ih (hcmp pre rfl) (site.below hkey hchild) hvalue
    rw [site.put_child hchild] at happly
    refine ⟨ops, replace key edited members, edited, hops, happly, ?_, hedit,
      fun other => lookup_replace (by rw [hlook]; rfl) edited other⟩
    exact Ordered.putChild site.value_ordered (ordered_of_mapNumbers_eq hedit haft) (.key key)

/-- Editing the members of the later object gives each its later image and leaves
the others. -/
theorem diffMembers_reaches {befores afters : JsObject}
    (ih : ∀ member ∈ afters, DiffSound f scan member.2) (hsort : Assoc.Sorted afters)
    (hord : ∀ member ∈ afters, member.2.Ordered)
    (hcmp : ∀ member ∈ afters, ∀ value, befores.lookup member.1 = some value →
      Comparable f value member.2)
    (hkeys : ∀ member ∈ afters, (PathSegment.key member.1).isReserved = false) {cur : JsObject}
    (site : Site root path (.object cur))
    (hcur : ∀ member ∈ afters, (cur.lookup member.1).map (JsonValue.mapNumbers f) =
      (befores.lookup member.1).map (JsonValue.mapNumbers f)) :
    ∃ ops edited, diffMembers scan befores afters path = .ok ops ∧
      apply (some root) ops = .ok (some ((pathOptic path.segments).put (.object edited) root)) ∧
      (JsonValue.object edited).Ordered ∧
      ∀ key, (edited.lookup key).map (JsonValue.mapNumbers f) =
        if (afters.lookup key).isSome then (afters.lookup key).map (JsonValue.mapNumbers f)
        else (cur.lookup key).map (JsonValue.mapNumbers f) := by
  induction afters generalizing root cur with
  | nil =>
    refine ⟨[], cur, rfl, ?_, site.value_ordered, fun key => by simp⟩
    rw [site.put_self]
    rfl
  | cons member afters ihMembers =>
    obtain ⟨key, after⟩ := member
    obtain ⟨hfst, hrest⟩ := sorted_cons.mp hsort
    obtain ⟨ops, middle, value, hops, happly, hmiddle, hvalue, hlook⟩ := diffMember_reaches
      (ih _ mem_cons_self) (hcmp _ mem_cons_self) (hord _ mem_cons_self)
      (hkeys _ mem_cons_self) site (hcur _ mem_cons_self)
    have hkept : ∀ other ∈ afters, (middle.lookup other.1).map (JsonValue.mapNumbers f) =
        (befores.lookup other.1).map (JsonValue.mapNumbers f) := by
      intro other hmem
      rw [hlook, if_neg (hfst other hmem).ne']
      exact hcur other (mem_cons_of_mem _ hmem)
    obtain ⟨more, edited, hmore, hmoreApply, hedit, hlookups⟩ := ihMembers
      (fun other hmem => ih other (mem_cons_of_mem _ hmem)) hrest
      (fun other hmem => hord other (mem_cons_of_mem _ hmem))
      (fun other hmem => hcmp other (mem_cons_of_mem _ hmem))
      (fun other hmem => hkeys other (mem_cons_of_mem _ hmem)) (site.put hmiddle) hkept
    refine ⟨ops ++ more, edited, ?_, ?_, hedit, fun other => ?_⟩
    · simp only [diffMembers, hops, hmore, bind, Except.bind]
    · rw [apply_append happly, hmoreApply, (pathOptic path.segments).put_put]
    · rw [hlookups, hlook, Assoc.lookup_cons]
      by_cases hoth : other = key
      · subst hoth
        rw [lookup_eq_none_of_lt hfst, if_pos rfl, if_pos rfl]
        simp [hvalue]
      · simp only [if_neg hoth]

/-- The deletions erase the listed members that the later object lacks. -/
theorem deleteMissing_reaches (afters : JsObject) {keys : List JsString}
    (hkeys : ∀ key ∈ keys, (PathSegment.key key).isReserved = false) {cur : JsObject}
    (site : Site root path (.object cur)) :
    ∃ ops edited, deleteMissing afters path keys = .ok ops ∧
      apply (some root) ops = .ok (some ((pathOptic path.segments).put (.object edited) root)) ∧
      (JsonValue.object edited).Ordered ∧
      ∀ key, edited.lookup key =
        if key ∈ keys ∧ (afters.lookup key).isSome = false then none else cur.lookup key := by
  induction keys generalizing root cur with
  | nil =>
    refine ⟨[], cur, rfl, ?_, site.value_ordered, fun key => by simp⟩
    rw [site.put_self]
    rfl
  | cons key keys ih =>
    have hrest : ∀ key ∈ keys, (PathSegment.key key).isReserved = false :=
      fun other hmem => hkeys other (mem_cons_of_mem _ hmem)
    cases hkept : (afters.lookup key).isSome with
    | true =>
      obtain ⟨ops, edited, hops, happly, hedit, hlook⟩ := ih hrest site
      refine ⟨ops, edited, by rw [deleteMissing, if_pos hkept, hops], happly, hedit,
        fun other => ?_⟩
      rw [hlook]
      by_cases hoth : other = key
      · subst hoth
        simp [hkept]
      · simp only [mem_cons, hoth, false_or]
    | false =>
      obtain ⟨hsort, hmems⟩ := JsonValue.ordered_object.mp site.value_ordered
      have herased : (JsonValue.object (erase key cur)).Ordered :=
        JsonValue.ordered_object.mpr ⟨hsort.erase key, fun member hmem =>
          hmems member (mem_of_mem_filter hmem)⟩
      obtain ⟨ops, edited, hops, happly, hedit, hlook⟩ := ih hrest (site.put herased)
      refine ⟨.delete (path.joined (.key key)) :: ops, edited, ?_, ?_, hedit, fun other => ?_⟩
      · simp [deleteMissing, hkept, emitDelete, hops, bind, Except.bind]
      · rw [site.apply_delete_member (hkeys key mem_cons_self), happly,
          (pathOptic path.segments).put_put]
      · rw [hlook, lookup_erase]
        by_cases hoth : other = key
        · subst hoth
          simp [hkept]
        · simp only [mem_cons, hoth, false_or, if_false]

/-- An object diff reaches the later object once the diffs of its members do. -/
theorem diffObject_reaches {befores afters : JsObject}
    (ih : ∀ member ∈ afters, DiffSound f scan member.2)
    (hcmp : Comparable f (.object befores) (.object afters)) (site : Site root path value)
    (hvalue : value.mapNumbers f = (JsonValue.object befores).mapNumbers f) :
    Reaches f root path (.object afters)
      (diffObject befores afters path (diffMembers scan befores afters path)) := by
  obtain ⟨cur, rfl, hcur⟩ := JsonValue.exists_object_of_mapNumbers_eq hvalue
  obtain ⟨hsort, hord⟩ := JsonValue.ordered_object.mp hcmp.afterOrdered
  rw [diffObject]
  split_ifs with hresd
  · exact site.reaches_emitSet f _
  · have hfree : ∀ key ∈ befores.map Prod.fst ++ afters.map Prod.fst,
        (PathSegment.key key).isReserved = false := by
      intro key hmem
      cases hkey : isReservedSegment key.units with
      | false => exact hkey
      | true => exact absurd (any_eq_true.mpr ⟨key, hmem, hkey⟩) hresd
    obtain ⟨ops, middle, hops, happly, hmiddle, hlook⟩ := diffMembers_reaches ih hsort hord
      (fun member hmem value hvalue =>
        hcmp.members (mem_of_lookup_eq_some hvalue) hmem)
      (fun member hmem => hfree _ (mem_append_right _ (mem_map_of_mem hmem))) site
      (fun member _ => hcur member.1)
    obtain ⟨deletes, edited, hdeletes, hdeletesApply, hedit, hfinal⟩ :=
      deleteMissing_reaches afters (fun key hmem => hfree key (mem_append_left _ hmem))
        (site.put hmiddle)
    refine ⟨ops ++ deletes, .object edited, ?_, ?_, ?_⟩
    · simp only [hops, hdeletes, bind, Except.bind]
    · rw [apply_append happly, hdeletesApply, (pathOptic path.segments).put_put]
    · refine JsonValue.mapNumbers_object_eq_of_lookup (JsonValue.ordered_object.mp hedit).1 hsort
        fun key => ?_
      rw [hfinal]
      cases hafter : afters.lookup key with
      | some after =>
        have hlater := hlook key
        rw [hafter] at hlater
        simpa using hlater
      | none =>
        by_cases hmem : key ∈ befores.map Prod.fst
        · simp [hmem]
        · have hmiss : befores.lookup key = none := by
            rw [lookup_eq_none_iff]
            intro member hmemb
            simpa using fun h : key = member.1 => hmem (h ▸ mem_map_of_mem hmemb)
          have hlater := hlook key
          rw [hafter, hcur, hmiss] at hlater
          simpa [hmem] using hlater

/-! ## Whole trees -/

/-- Equal trees need no operation. -/
theorem Site.reaches_of_eq (site : Site root path value)
    (hvalue : value.mapNumbers f = pre.mapNumbers f) (heq : pre.eq after = true)
    (hcollapses : JsonValue.Collapses f pre after) :
    Reaches f root path after (.ok []) := by
  refine ⟨[], value, rfl, ?_, ?_⟩
  · rw [site.put_self]
    rfl
  · rw [JsonValue.eq_eq_sameTree] at heq
    rw [hvalue, JsonValue.mapNumbers_eq_of_sameTree heq hcollapses]

omit [SerdeJson] in
theorem diffPresent_of_eq (heq : pre.eq after = true) (scan : Nat) (path : StatePath) :
    diffPresent scan (some pre) after path = .ok [] := by
  cases pre <;> cases after <;> simp only [diffPresent, if_pos heq]

/-- A diff is sound once it is sound for the trees that differ. -/
theorem diffSound_of_ne
    (h : ∀ {pre root value path}, Comparable f pre after → Site root path value →
      value.mapNumbers f = pre.mapNumbers f → ¬pre.eq after = true →
      Reaches f root path after (diffPresent scan (some pre) after path)) :
    DiffSound f scan after := by
  intro pre root value path hcmp site hvalue
  by_cases heq : pre.eq after = true
  · rw [diffPresent_of_eq heq]
    exact site.reaches_of_eq hvalue heq hcmp.collapses
  · exact h hcmp site hvalue heq

/-- Every diff into every tree reaches it. -/
theorem diffSound (f : Binary64 → Binary64) (scan : Nat) (after : JsonValue) :
    DiffSound f scan after := by
  induction after using JsonValue.induction with
  | null | bool | number =>
    refine diffSound_of_ne fun {pre _ _ _} hcmp site hvalue hne => ?_
    cases pre <;> simp only [diffPresent, if_neg hne] <;> exact site.reaches_emitSet f _
  | string text =>
    refine diffSound_of_ne fun {pre _ _ _} hcmp site hvalue hne => ?_
    cases pre with
    | string other =>
      simp only [diffPresent, if_neg hne]
      obtain rfl := JsonValue.eq_string_of_mapNumbers_eq hvalue
      exact ⟨_, .string text, rfl, site.apply_diffString
        (JsonValue.fits_string.mp hcmp.beforeFits) scan text.units, rfl⟩
    | null | bool | number | array | object =>
      simp only [diffPresent, if_neg hne]
      exact site.reaches_emitSet f _
  | array items ih =>
    refine diffSound_of_ne fun {pre _ _ _} hcmp site hvalue hne => ?_
    cases pre with
    | array others =>
      simp only [diffPresent, if_neg hne]
      exact diffArray_reaches ih hcmp site hvalue
    | null | bool | number | string | object =>
      simp only [diffPresent, if_neg hne]
      exact site.reaches_emitSet f _
  | object members ih =>
    refine diffSound_of_ne fun {pre _ _ _} hcmp site hvalue hne => ?_
    cases pre with
    | object others =>
      simp only [diffPresent, if_neg hne]
      exact diffObject_reaches ih hcmp site hvalue
    | null | bool | number | string | array =>
      simp only [diffPresent, if_neg hne]
      exact site.reaches_emitSet f _

/-- A replica that agrees with the baseline reaches a tree that agrees with the
new root. -/
theorem diffValue_reaches {replica : JsonValue} (hcmp : Comparable f pre after)
    (hreplica : replica.Ordered) (hagree : replica.mapNumbers f = pre.mapNumbers f) (scan : Nat) :
    ∃ ops res, diffValue (some pre) (some after) StatePath.root scan = .ok ops ∧
      apply (some replica) ops = .ok (some res) ∧
      res.mapNumbers f = after.mapNumbers f := by
  obtain ⟨ops, res, hops, happly, hret⟩ :=
    diffSound f scan after hcmp (Site.of_root hreplica) hagree
  exact ⟨ops, res, hops, happly, hret⟩

/-- A diff is computed without error, every operation of it is valid, and
applying it to the earlier tree gives the later one up to the sign of zeros; it
gives the later tree bit for bit when no number of the earlier tree compares
equal to a different number of the later one. -/
theorem apply_diffValue {pre after : JsonValue} (hpre : pre.Ordered)
    (hafter : after.Ordered) (hbeforeFits : pre.Fits) (hafterFits : after.Fits) (scan : Nat) :
    ∃ ops res, diffValue (some pre) (some after) StatePath.root scan = .ok ops ∧
      (∀ op ∈ ops, op.validate = .ok ()) ∧
      apply (some pre) ops = .ok (some res) ∧
      res.normalized = after.normalized ∧
      (JsonValue.Collapses id pre after → res = after) := by
  obtain ⟨ops, res, hops, happly, hresult⟩ := diffValue_reaches
    ⟨hbeforeFits, hafterFits, hafter, JsonValue.collapses_normalized pre after⟩ hpre rfl scan
  refine ⟨ops, res, hops, validate_of_apply happly, happly, hresult, fun hexact => ?_⟩
  obtain ⟨ops', res', hops', happly', hresult'⟩ := diffValue_reaches
    ⟨hbeforeFits, hafterFits, hafter, hexact⟩ hpre rfl scan
  obtain rfl := Except.ok.inj (hops.symm.trans hops')
  obtain rfl := Option.some.inj (Except.ok.inj (happly.symm.trans happly'))
  rwa [JsonValue.mapNumbers_id, JsonValue.mapNumbers_id] at hresult'

end

/-- A member that disappears and an array that grows. -/
theorem apply_diffValue_document : ∃ ops res, diffValue
        (some (.object [(⟨[97]⟩, .array [.null]), (⟨[98]⟩, .string ⟨[120]⟩)]))
        (some (.object [(⟨[97]⟩, .array [.null, .bool true])])) StatePath.root 4 = .ok ops ∧
      (∀ op ∈ ops, op.validate = .ok ()) ∧
      @apply SerdeJson.integral
        (some (.object [(⟨[97]⟩, .array [.null]), (⟨[98]⟩, .string ⟨[120]⟩)])) ops =
          .ok (some res) ∧
      res.normalized = (JsonValue.object [(⟨[97]⟩, .array [.null, .bool true])]).normalized ∧
      (JsonValue.Collapses id (.object [(⟨[97]⟩, .array [.null]), (⟨[98]⟩, .string ⟨[120]⟩)])
        (.object [(⟨[97]⟩, .array [.null, .bool true])]) →
          res = .object [(⟨[97]⟩, .array [.null, .bool true])]) := by
  refine @apply_diffValue SerdeJson.integral _ _ ?_ ?_ ?_ ?_ 4
  · simp only [JsonValue.Ordered, JsonValue.All, JsonValue.AllMembers, JsonValue.AllItems,
      Assoc.Sorted]
    decide
  · simp [JsonValue.Ordered, JsonValue.All, JsonValue.AllMembers, JsonValue.AllItems, Assoc.Sorted]
  · simp [JsonValue.Fits, JsonValue.All, JsonValue.AllMembers, JsonValue.AllItems]
  · simp [JsonValue.Fits, JsonValue.All, JsonValue.AllMembers, JsonValue.AllItems]

section

variable [SerdeJson]

/-- A diff whose application gives the later tree bit for bit. -/
def ExactDiff (before after : JsonValue) (scan : Nat) : Prop :=
  ∃ ops, diffValue (some before) (some after) StatePath.root scan = .ok ops ∧
    (∀ op ∈ ops, op.validate = .ok ()) ∧ apply (some before) ops = .ok (some after)

theorem not_exactDiff_negZero :
    ¬ExactDiff (.number Binary64.zero) (.number Binary64.negZero) 0 := by
  rintro ⟨ops, hops, -, happly⟩
  have heq : (JsonValue.number Binary64.zero).eq (.number Binary64.negZero) = true := by
    rw [JsonValue.eq_eq_sameTree]
    decide +kernel
  rw [diffValue, diffPresent_of_eq heq] at hops
  cases hops
  have hzero : Binary64.zero = Binary64.negZero := by simpa [apply] using happly
  exact absurd hzero (by decide +kernel)

/-- The code unit of the letter `a` repeated, and a final `b`. -/
def longText (n : Nat) : JsString := ⟨List.replicate n 97 ++ [98]⟩

/-- A document with one long string. -/
def longDocument (n : Nat) : JsonValue := .object [(⟨[107]⟩, .string (longText n))]

/-- A document with one short string that continues the long one. -/
def shortDocument : JsonValue := .object [(⟨[107]⟩, .string ⟨[98, 99]⟩)]

omit [SerdeJson] in
theorem overlap_longText (n : Nat) : overlap (longText (n + 1)).units [98, 99] 1 = 1 := by
  have hlen : (longText (n + 1)).units.length = n + 2 := by simp [longText]
  have htail : (longText (n + 1)).units.drop (n + 2 - 1) = [98] := drop_left' (by simp)
  rw [overlap, if_neg (by simp [longText]), hlen, if_pos (by omega), htail]
  decide

omit [SerdeJson] in
theorem diffString_longText (n : Nat) (path : StatePath) (hpath : path.isEmpty = false) :
    diffString 1 (longText (n + 1)).units [98, 99] path =
      [.truncate path (JsInteger.count (n + 1)), .append path ⟨[99]⟩] := by
  have hlen : (longText (n + 1)).units.length = n + 2 := by simp [longText]
  have hne : (longText (n + 1)).units ≠ [98, 99] := by
    simp [longText, replicate_succ]
  have hpref : ¬(longText (n + 1)).units <+: [98, 99] := by
    simp [longText, replicate_succ]
  rw [diffString, if_neg hne, if_neg (by simp [hpath]), if_neg fun h => hpref h.2,
    overlap_longText, hlen]
  rfl

/-- The path of the long string in its document. -/
def textPath : StatePath := StatePath.root.joined (.key ⟨[107]⟩)

omit [SerdeJson] in
theorem diffValue_longDocument (n : Nat) :
    diffValue (some (longDocument (n + 1))) (some shortDocument) StatePath.root 1 =
      .ok [.truncate textPath (JsInteger.count (n + 1)), .append textPath ⟨[99]⟩] := by
  have hne : ¬(JsonValue.object [(⟨[107]⟩, .string (longText (n + 1)))]).eq
      (.object [(⟨[107]⟩, .string ⟨[98, 99]⟩)]) = true := by
    rw [JsonValue.eq_eq_sameTree]
    simp [JsonValue.sameTree, JsonValue.sameMembers, longText, replicate_succ]
  have hneText : ¬(JsonValue.string (longText (n + 1))).eq (.string ⟨[98, 99]⟩) = true := by
    rw [JsonValue.eq_eq_sameTree]
    simp [JsonValue.sameTree, longText, replicate_succ]
  have hresd : ¬([(⟨[107]⟩ : JsString)] ++ [(⟨[107]⟩ : JsString)]).any
      (fun key => isReservedSegment key.units) = true := by decide
  have hmems : diffMembers 1 [(⟨[107]⟩, .string (longText (n + 1)))]
      [(⟨[107]⟩, .string ⟨[98, 99]⟩)] StatePath.root =
      .ok [.truncate textPath (JsInteger.count (n + 1)), .append textPath ⟨[99]⟩] := by
    simp only [diffMembers, lookup_cons_self, diffPresent, if_neg hneText,
      diffString_longText n _ (StatePath.isEmpty_joined _ _), bind, Except.bind, append_nil]
    rfl
  rw [longDocument, shortDocument]
  simp only [diffValue, diffPresent, if_neg hne, diffObject, map_cons, map_nil,
    if_neg hresd, hmems, bind, Except.bind, deleteMissing, lookup_cons_self,
    Option.isSome_some, if_true, append_nil]

/-- What is left of the long string when the count rounds down, with the short
continuation appended. -/
def leftoverDocument : JsonValue := .object [(⟨[107]⟩, .string ⟨[97, 98, 99]⟩)]

/-- A count that rounds down truncates too little. -/
theorem apply_longDocument {n : Nat} (hround : (JsInteger.count (n + 1)).toNat = n)
    (hn : n < 2 ^ 64) :
    apply (some (longDocument (n + 1)))
      [.truncate textPath (JsInteger.count (n + 1)), .append textPath ⟨[99]⟩] =
        .ok (some leftoverDocument) := by
  have hord : (longDocument (n + 1)).Ordered := by
    simp [longDocument, Assoc.Sorted, JsonValue.Ordered, JsonValue.All]
  have site : Site (longDocument (n + 1)) textPath (.string (longText (n + 1))) :=
    (Site.of_root hord).below (by decide) rfl
  have hne : textPath.isEmpty = false := rfl
  have hclamp : (JsInteger.count (n + 1)).clampToLen (longText (n + 1)).units.length = n := by
    have hlen : (longText (n + 1)).units.length = n + 2 := by simp [longText]
    rw [JsInteger.clampToLen, hround, if_pos (by omega), hlen, min_eq_left (by omega)]
  have hremaining : (longText (n + 1)).units.drop n = [97, 98] := by
    rw [longText, replicate_succ', append_assoc]
    exact drop_left' (by simp)
  have hmiddle : (JsonValue.string ⟨[97, 98]⟩).Ordered := trivial
  rw [site.apply_truncate_string hne, hclamp, hremaining,
    (site.put hmiddle).apply_append_string hne,
    (pathOptic textPath.segments).put_put]
  rfl

theorem not_exactDiff_longDocument {n : Nat} (hround : (JsInteger.count (n + 1)).toNat = n)
    (hn : n < 2 ^ 64) : ¬ExactDiff (longDocument (n + 1)) shortDocument 1 := by
  rintro ⟨ops, hops, -, happly⟩
  obtain rfl := Except.ok.inj (hops.symm.trans (diffValue_longDocument n))
  rw [apply_longDocument hround hn] at happly
  simp [leftoverDocument, shortDocument] at happly

end

/-- The sign of a zero is not carried, and a count past `2 ^ 53` is rounded. -/
theorem diffValue_not_exact :
    ¬@ExactDiff SerdeJson.integral (.number Binary64.zero) (.number Binary64.negZero) 0 ∧
      ¬@ExactDiff SerdeJson.integral (longDocument (2 ^ 53 + 1)) shortDocument 1 :=
  ⟨@not_exactDiff_negZero SerdeJson.integral,
    @not_exactDiff_longDocument SerdeJson.integral (2 ^ 53) (by decide +kernel) (by decide)⟩

end PiOxidized.Service.Delta
