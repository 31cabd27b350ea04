/-
# Completions are put into the text they were found for

Results come back for any request handed out, in any order, any number of times.  As long as a
request is handed out with the text it was made for, and its number is not given out again, the
items shown are those the provider found for the text and cursor remembered with them.
-/

import PiOxidized.Screen.Autocomplete

namespace PiOxidized.Screen

/-- What happens to the editor.  The operations on the text end in any text and are told apart by
how they treat the completions. -/
inductive EditorEvent
  /-- Deletions to the ends of a word or line, yanks, and a jump that finds nothing. -/
  | leave (state : EditorState)
  /-- Moves of the cursor, history, and a run of characters. -/
  | navigate (state : EditorState)
  /-- Backspace, deletion forward and undo. -/
  | edit (state : EditorState)
  /-- A character typed. -/
  | insert (state : EditorState) (ch : Char)
  /-- Paste, submit, a new line and texts put in by the program. -/
  | replace (state : EditorState)
  | provide (provider : Option AutocompleteProvider)
  | tab
  | confirm
  | cancel
  | up
  | down
  | tick (ms : Nat)
  | dispatch
  /-- The result of the `i`-th request handed out. -/
  | complete (i : Nat) (suggestions : Option AutocompleteSuggestions)
  /-- A result found at once for the text as it stands. -/
  | poll (suggestions : Option AutocompleteSuggestions)

/-- What was handed out, the texts that accepted results were found for, the requests they were
accepted for, and the items put into the text. -/
structure Record where
  dispatched : List AutocompleteDispatch
  answered : List (Snapshot × Option AutocompleteSuggestions)
  accepted : List Nat
  spliced : List Splice

structure Composer where
  editor : Editor
  record : Record

namespace Composer

def new : Composer := ⟨Editor.new, ⟨[], [], [], []⟩⟩

/-- A result found for a text arrives for a request. -/
def complete (composer : Composer) (serial requestId : Nat) (origin : Snapshot)
    (suggestions : Option AutocompleteSuggestions) (force explicitTab : Bool) : Composer :=
  match composer.editor.completeAutocompleteRequest requestId suggestions force explicitTab with
  | none => composer
  | some (editor, splice) =>
    ⟨editor, { composer.record with
      answered := (origin, suggestions) :: composer.record.answered
      accepted := serial :: composer.record.accepted
      spliced := splice.toList ++ composer.record.spliced }⟩

/-- The editor goes on, after putting an item into the text or not. -/
def press (composer : Composer) (result : Editor × Option Splice) : Composer :=
  ⟨result.1, { composer.record with spliced := result.2.toList ++ composer.record.spliced }⟩

def step (composer : Composer) : EditorEvent → Composer
  | .leave state => { composer with editor := { composer.editor with state } }
  | .navigate state =>
    { composer with editor := { composer.editor with state }.refreshAutocompleteAfterNavigation }
  | .edit state =>
    { composer with editor := { composer.editor with state }.refreshAutocompleteAfterEdit }
  | .insert state ch =>
    { composer with editor := { composer.editor with state }.maybeAutoTriggerAutocomplete ch }
  | .replace state => { composer with editor := { composer.editor.cancelAutocomplete with state } }
  | .provide provider =>
    { composer with editor := composer.editor.setAutocompleteProvider provider }
  | .tab => composer.press composer.editor.handleTab
  | .confirm => composer.press composer.editor.handleConfirm
  | .cancel => { composer with editor := composer.editor.handleCancel }
  | .up => { composer with editor := composer.editor.selectUp }
  | .down => { composer with editor := composer.editor.selectDown }
  | .tick ms => { composer with editor := composer.editor.tickAutocompleteDebounce ms }
  | .dispatch =>
    match composer.editor.autocompleteDispatch with
    | none => composer
    | some (editor, dispatch) =>
      ⟨editor, { composer.record with
        dispatched := composer.record.dispatched ++ [dispatch] }⟩
  | .complete i suggestions =>
    match composer.record.dispatched[i]? with
    | none => composer
    | some dispatch => composer.complete dispatch.serial dispatch.requestId
        dispatch.origin.snapshot suggestions dispatch.force dispatch.explicitTab
  | .poll suggestions =>
    match composer.editor.pending with
    | none => composer
    | some pending =>
      if composer.editor.provider.isNone then composer
      else composer.complete pending.serial pending.requestId composer.editor.state.snapshot
        suggestions pending.force pending.explicitTab

def run : Composer → List EditorEvent → Composer := List.foldl step

/-- The number the next request gets is not that of one handed out before. -/
def Fresh (record : Record) (editor : Editor) : Prop :=
  ∀ dispatch ∈ record.dispatched, dispatch.requestId ≠ Editor.wrappingSucc editor.requestId

/-- A request is handed out with the text it was made for, and numbers are not used again. -/
def Attended (composer : Composer) : EditorEvent → Prop
  | .dispatch => ∀ pending ∈ composer.editor.pending, pending.dispatched = false →
      pending.requestId ≠ 0 → composer.editor.state.snapshot.text = pending.snapshot.text
  | .navigate _ | .edit _ | .insert _ _ | .tab | .tick _ => Fresh composer.record composer.editor
  | _ => True

/-- Every step of a run meets the condition. -/
def AllAttended : Composer → List EditorEvent → Prop
  | _, [] => True
  | composer, event :: events =>
    composer.Attended event ∧ (composer.step event).AllAttended events

/-- The provider found the item for the very text and cursor it is put into. -/
def Found (record : Record) (splice : Splice) : Prop :=
  ∃ suggestions, (splice.onto, some suggestions) ∈ record.answered ∧
    splice.item ∈ suggestions.items ∧ splice.matched = suggestions.matched

/-- What is outstanding was handed out for its text, and what is shown was found for its text. -/
structure Sound (record : Record) (editor : Editor) : Prop where
  pending : ∀ pending ∈ editor.pending, pending.serial ≤ editor.requested ∧
    pending.serial ∉ record.accepted ∧ ∀ dispatch ∈ record.dispatched,
      dispatch.requestId = pending.requestId →
        dispatch.serial = pending.serial ∧ dispatch.origin.snapshot = pending.snapshot
  dispatched : ∀ dispatch ∈ record.dispatched, dispatch.requestId ≠ 0
  accepted : record.accepted.Nodup ∧ ∀ serial ∈ record.accepted, serial ≤ editor.requested
  shown : ∀ snapshot ∈ editor.itemsSnapshot, ∀ item ∈ editor.items,
    Found record ⟨snapshot, item, editor.matched⟩
  spliced : ∀ splice ∈ record.spliced, Found record splice

variable {record : Record} {editor : Editor} {composer : Composer} {event : EditorEvent}

theorem Sound.cancel (h : Sound record editor) : Sound record editor.cancelAutocomplete := { h with
    pending := nofun
    shown := nofun }

/-- A request that gets its number has not been handed out under it. -/
theorem Sound.start (h : Sound record editor) (hfrs : Fresh record editor) (startToken : Nat)
    (force explicitTab : Bool) :
    Sound record (editor.startAutocompleteRequest startToken force explicitTab) := by
  rw [Editor.startAutocompleteRequest]
  split_ifs
  · exact h
  · refine { h with pending := fun pend hpend => ?_ }
    obtain ⟨old, hold, rfl⟩ := Option.map_eq_some_iff.1 hpend
    obtain ⟨hserial, haccepted, -⟩ := h.pending old hold
    exact ⟨hserial, haccepted, fun dispatch hmem hid => absurd hid (hfrs dispatch hmem)⟩

theorem Sound.request (h : Sound record editor) (hfrs : Fresh record editor)
    (force explicitTab : Bool) : Sound record (editor.requestAutocomplete force explicitTab) := by
  rw [Editor.requestAutocomplete]
  cases editor.provider with
  | none => exact h
  | some provider =>
    dsimp only
    split_ifs
    · exact h
    all_goals
      have hopn : ∀ startToken snapshot, Sound record { editor.cancelAutocompleteRequest with
          startToken
          requested := editor.requested + 1
          pending := some ⟨editor.requested + 1, 0, snapshot, force, explicitTab, false⟩ } := by
        intro startToken snapshot
        refine { h with
          pending := fun pend hpend => ?_
          accepted := ⟨h.accepted.1, fun serial hserial =>
            Nat.le_succ_of_le (h.accepted.2 serial hserial)⟩ }
        obtain rfl := Option.some.inj hpend
        exact ⟨Nat.le_refl _, fun hserial => Nat.not_succ_le_self _ (h.accepted.2 _ hserial),
          fun dispatch hmem hid => absurd hid (h.dispatched dispatch hmem)⟩
    · exact { hopn 0 editor.state.snapshot with }
    · exact (hopn _ _).start hfrs _ force explicitTab

theorem Sound.update (h : Sound record editor) (hfrs : Fresh record editor) :
    Sound record editor.updateAutocomplete := by
  rw [Editor.updateAutocomplete]
  cases editor.uiState with
  | none => exact h
  | some state => exact h.request hfrs _ _

theorem pending_of_complete {accepted : Editor × Option Splice} {requestId : Nat}
    {sugg : Option AutocompleteSuggestions} {force explicitTab : Bool}
    (h : editor.completeAutocompleteRequest requestId sugg force explicitTab = some accepted) :
    ∃ pend, editor.pending = some pend ∧ pend.requestId = requestId ∧
      editor.state.snapshot = pend.snapshot := by
  rw [Editor.completeAutocompleteRequest] at h
  cases hpend : editor.pending with
  | none =>
    rw [hpend] at h
    cases h
  | some pend =>
    rw [hpend] at h
    dsimp only at h
    split at h
    · cases h
    · rename_i hcur
      rw [not_or, not_not, not_not] at hcur
      exact ⟨pend, rfl, hcur⟩

/-- A result for the text as it stands is accepted for the request outstanding. -/
theorem Sound.complete {serial requestId : Nat} {origin : Snapshot}
    (h : Sound composer.record composer.editor)
    (horig : ∀ pend ∈ composer.editor.pending, pend.requestId = requestId →
      composer.editor.state.snapshot = pend.snapshot →
        serial = pend.serial ∧ origin = pend.snapshot)
    (sugg : Option AutocompleteSuggestions) (force explicitTab : Bool) :
    Sound (composer.complete serial requestId origin sugg force explicitTab).record
      (composer.complete serial requestId origin sugg force explicitTab).editor := by
  obtain ⟨editor, record⟩ := composer
  rw [Composer.complete]
  cases hcomp : editor.completeAutocompleteRequest requestId sugg force explicitTab with
  | none => exact h
  | some result =>
    obtain ⟨next, splice⟩ := result
    obtain ⟨pend, hpend, hid, hcur⟩ := pending_of_complete hcomp
    obtain ⟨rfl, rfl⟩ := horig pend hpend hid hcur
    obtain ⟨hserial, haccepted, -⟩ := h.pending pend hpend
    have hkept : ∀ splice, Found record splice → Found { record with
        answered := (pend.snapshot, sugg) :: record.answered } splice := by
      rintro splice ⟨sugg, hmem, hitem⟩
      exact ⟨sugg, List.mem_cons_of_mem _ hmem, hitem⟩
    have htkn : Sound { record with
        answered := (pend.snapshot, sugg) :: record.answered
        accepted := pend.serial :: record.accepted } { editor with pending := none } :=
      { pending := nofun
        dispatched := h.dispatched
        accepted := ⟨List.nodup_cons.2 ⟨haccepted, h.accepted.1⟩,
          List.forall_mem_cons.2 ⟨hserial, h.accepted.2⟩⟩
        shown := fun snapshot hsnap item hitem =>
          hkept _ (h.shown snapshot hsnap item hitem)
        spliced := fun splice hsplice => hkept _ (h.spliced splice hsplice) }
    rw [Editor.completeAutocompleteRequest, hpend] at hcomp
    dsimp only at hcomp hcur
    split at hcomp
    · cases hcomp
    cases sugg with
    | none =>
      cases hcomp
      exact htkn.cancel
    | some found =>
      dsimp only at hcomp
      split at hcomp
      · cases hcomp
        exact htkn.cancel
      · rename_i item hitems _
        split at hcomp
        · cases hcomp
          exact htkn.cancel
        · rename_i put hput
          cases hcomp
          obtain ⟨provider, -, heq⟩ := Option.map_eq_some_iff.1 hput
          cases heq
          refine { htkn.cancel with
            pending := nofun
            shown := nofun
            spliced := List.forall_mem_cons.2 ⟨⟨found, ?_, ?_, rfl⟩, htkn.spliced⟩ }
          · rw [hcur]
            exact List.mem_cons_self
          · rw [hitems]
            exact List.mem_cons_self
      · cases hcomp
        refine { htkn with shown := fun snapshot hsnap item hitem => ?_ }
        cases hsnap
        refine ⟨found, ?_, hitem, rfl⟩
        rw [hcur]
        exact List.mem_cons_self

/-- A selected item that is not stale was found for the text as it stands. -/
theorem Sound.apply (h : Sound record editor) (hstale : editor.autocompleteItemsStale ≠ true) :
    Sound { record with spliced := editor.applySelectedCompletion.2.toList ++ record.spliced }
      editor.applySelectedCompletion.1 := by
  rw [Editor.applySelectedCompletion]
  cases happly : editor.items[editor.selected]?.bind (editor.applyCompletion · editor.matched) with
  | none => exact h
  | some applied =>
    obtain ⟨item, hitem, happlied⟩ := Option.bind_eq_some_iff.1 happly
    obtain ⟨provider, -, rfl⟩ := Option.map_eq_some_iff.1 happlied
    have hsnap : editor.itemsSnapshot = some editor.state.snapshot := by
      simpa [Editor.autocompleteItemsStale] using hstale
    exact { h.cancel with
      pending := nofun
      shown := nofun
      spliced := List.forall_mem_cons.2
        ⟨h.shown _ hsnap item (List.mem_of_getElem? hitem), h.spliced⟩ }

theorem Sound.dispatch (h : Sound composer.record composer.editor)
    (hattd : composer.Attended .dispatch) {next : Editor} {dispatch : AutocompleteDispatch}
    (hdisp : composer.editor.autocompleteDispatch = some (next, dispatch)) :
    Sound { composer.record with dispatched := composer.record.dispatched ++ [dispatch] } next := by
  rw [Editor.autocompleteDispatch] at hdisp
  cases hpend : composer.editor.pending with
  | none =>
    rw [hpend] at hdisp
    cases hdisp
  | some pend =>
    rw [hpend] at hdisp
    dsimp only at hdisp
    split_ifs at hdisp with htkn
    rw [Bool.or_eq_true, not_or, decide_eq_true_iff, Bool.not_eq_true] at htkn
    cases hdisp
    obtain ⟨hserial, haccepted, hdispatched⟩ := h.pending pend hpend
    refine { h with pending := ?_, dispatched := ?_ }
    · rintro _ ⟨⟩
      refine ⟨hserial, haccepted, fun dispatch hmem hid => ?_⟩
      rcases List.mem_append.1 hmem with hmem | hmem
      · exact hdispatched dispatch hmem hid
      · obtain rfl := List.mem_singleton.1 hmem
        have htext := hattd pend hpend htkn.1 htkn.2
        exact ⟨rfl, congrArg (Snapshot.mk · pend.snapshot.line pend.snapshot.col) htext⟩
    · intro dispatch hmem
      rcases List.mem_append.1 hmem with hmem | hmem
      · exact h.dispatched dispatch hmem
      · obtain rfl := List.mem_singleton.1 hmem
        exact htkn.2

theorem Sound.step (h : Sound composer.record composer.editor) (hattd : composer.Attended event) :
    Sound (composer.step event).record (composer.step event).editor := by
  have hmoved (state : EditorState) : Sound composer.record { composer.editor with state } :=
    { h with }
  cases event with
  | leave state => exact hmoved state
  | navigate state => exact (hmoved state).update hattd
  | edit state =>
    dsimp only [Composer.step]
    rw [Editor.refreshAutocompleteAfterEdit]
    split_ifs
    · exact (hmoved state).update hattd
    · exact (hmoved state).request hattd false false
    · exact hmoved state
  | insert state ch =>
    dsimp only [Composer.step]
    rw [Editor.maybeAutoTriggerAutocomplete]
    dsimp only
    split_ifs
    · exact (hmoved state).update hattd
    all_goals first
      | exact hmoved state
      | exact (hmoved state).request hattd false false
  | replace state => exact { h.cancel with }
  | provide provider =>
    dsimp only [Composer.step]
    rw [Editor.setAutocompleteProvider]
    cases provider <;> exact { h.cancel with }
  | tab =>
    dsimp only [Composer.step, press]
    rw [Editor.handleTab]
    split_ifs with hshut hstale
    · exact h.request hattd _ _
    · exact h.cancel.request hattd _ _
    · exact h.apply hstale
  | confirm =>
    dsimp only [Composer.step, press]
    rw [Editor.handleConfirm]
    split_ifs with hshut hstale
    · exact h
    · exact h.cancel
    · exact h.apply hstale
  | cancel =>
    dsimp only [Composer.step]
    rw [Editor.handleCancel]
    split_ifs
    · exact h
    · exact h.cancel
  | up =>
    dsimp only [Composer.step]
    rw [Editor.selectUp]
    split_ifs <;> exact { h with }
  | down =>
    dsimp only [Composer.step]
    rw [Editor.selectDown]
    split_ifs <;> exact { h with }
  | tick ms =>
    dsimp only [Composer.step]
    rw [Editor.tickAutocompleteDebounce]
    cases composer.editor.debounceRemainingMs with
    | none => exact h
    | some remaining =>
      have hticked : ∀ remaining, Sound composer.record { composer.editor with
          debounceRemainingMs := remaining } := fun _ => { h with }
      dsimp only
      split_ifs
      · exact hticked _
      · exact (hticked none).start hattd _ _ _
  | dispatch =>
    dsimp only [Composer.step]
    cases hdisp : composer.editor.autocompleteDispatch with
    | none => exact h
    | some taken => exact h.dispatch hattd hdisp
  | complete i sugg =>
    dsimp only [Composer.step]
    cases hhanded : composer.record.dispatched[i]? with
    | none => exact h
    | some dispatch =>
      refine h.complete (fun pend hpend hid _ => ?_) sugg _ _
      exact (h.pending pend hpend).2.2 dispatch (List.mem_of_getElem? hhanded) hid.symm
  | poll sugg =>
    dsimp only [Composer.step]
    cases hpend : composer.editor.pending with
    | none => exact h
    | some pend =>
      dsimp only
      split_ifs
      · exact h
      · refine h.complete (fun other hoth _ hcur => ?_) sugg _ _
        obtain rfl := Option.some.inj (hpend.symm.trans hoth)
        exact ⟨rfl, hcur⟩

theorem Sound.run {events : List EditorEvent} (h : Sound composer.record composer.editor)
    (hattd : composer.AllAttended events) :
    Sound (composer.run events).record (composer.run events).editor := by
  induction events generalizing composer with
  | nil => exact h
  | cons event events ih => exact ih (h.step hattd.1) hattd.2

/-- **Completions never splice stale text.** As long as requests are handed out with the text they
were made for and numbers are not used again, an item is only put into the text and at the cursor
the provider found it for, a result for a request that is not outstanding is ignored, and the
result of each request is accepted at most once. -/
theorem completions_fresh (events : List EditorEvent) (hattended : new.AllAttended events) :
    (∀ splice ∈ (new.run events).record.spliced, Found (new.run events).record splice) ∧
    (∀ dispatch ∈ (new.run events).record.dispatched,
      (∀ pend ∈ (new.run events).editor.pending, pend.serial ≠ dispatch.serial) →
      ∀ suggestions, (new.run events).editor.completeAutocompleteRequest dispatch.requestId
        suggestions dispatch.force dispatch.explicitTab = none) ∧
    (new.run events).record.accepted.Nodup := by
  have hnew : Sound new.record new.editor := ⟨nofun, nofun, ⟨List.nodup_nil, nofun⟩, nofun, nofun⟩
  have h := hnew.run hattended
  refine ⟨h.spliced, fun dispatch hmem hother suggestions => ?_, h.accepted.1⟩
  cases hcomplete : (new.run events).editor.completeAutocompleteRequest dispatch.requestId
      suggestions dispatch.force dispatch.explicitTab with
  | none => rfl
  | some accepted =>
    obtain ⟨pend, hpend, hid, -⟩ := pending_of_complete hcomplete
    obtain ⟨-, -, hdispatched⟩ := h.pending pend hpend
    exact absurd (hdispatched dispatch hmem hid.symm).1.symm (hother pend hpend)

/-- A provider that completes every token to its item. -/
def wholeLine : AutocompleteProvider where
  triggerCharacters := []
  shouldTriggerFileCompletion _ := true
  applyCompletion _ item _ := ⟨[item.value], 0, item.value.length⟩

def foo : EditorState := ⟨[['f', 'o', 'o']], 0, 3⟩

/-- A result found for `foo`. -/
def forFoo : AutocompleteSuggestions := ⟨[⟨['f', 'o', 'o', '/']⟩], ['f', 'o', 'o']⟩

theorem completions_fresh_tab : ∃ splice ∈ (new.run [.replace foo, .provide (some wholeLine), .tab,
      .dispatch, .complete 0 (some forFoo)]).record.spliced,
    Found (new.run [.replace foo, .provide (some wholeLine), .tab, .dispatch,
      .complete 0 (some forFoo)]).record splice := by
  have hfound := (completions_fresh [.replace foo, .provide (some wholeLine), .tab, .dispatch,
    .complete 0 (some forFoo)] ⟨trivial, trivial, nofun, by
      rintro _ ⟨⟩ - -
      rfl, trivial, trivial⟩).1
  exact ⟨⟨foo.snapshot, ⟨['f', 'o', 'o', '/']⟩, ['f', 'o', 'o']⟩, by decide, hfound _ (by decide)⟩

/-- A request made for `foo` and handed out with `foox` has its result put into `foo`. -/
theorem foox_spliced_into_foo : ¬ ∀ events, ∀ splice ∈ (new.run events).record.spliced,
    Found (new.run events).record splice := by
  intro h
  obtain ⟨suggestions, hmem, -⟩ := h [.replace foo, .provide (some wholeLine), .tab,
    .insert ⟨[['f', 'o', 'o', 'x']], 0, 4⟩ 'x', .dispatch, .edit foo, .complete 0 (some forFoo)]
    ⟨foo.snapshot, ⟨['f', 'o', 'o', '/']⟩, ['f', 'o', 'o']⟩ (by decide)
  revert hmem
  have hanswered : (new.run [.replace foo, .provide (some wholeLine), .tab,
    .insert ⟨[['f', 'o', 'o', 'x']], 0, 4⟩ 'x', .dispatch, .edit foo,
    .complete 0 (some forFoo)]).record.answered =
      [(⟨['f', 'o', 'o', 'x'], 0, 3⟩, some forFoo)] := by decide
  rw [hanswered]
  intro hmem
  cases List.mem_singleton.1 hmem

end Composer

end PiOxidized.Screen
