/-
# The completion menu of the editor

A request for completions remembers the text and cursor it is made for.  It is handed out once, its
result comes back at any time, and the items shown remember what they were found for.
-/

import Mathlib.Algebra.Order.Ring.Nat
import Mathlib.Data.List.Infix
import PiOxidized.Math.Text

namespace PiOxidized.Screen

open Math

/-- Logical lines and a cursor, with columns in characters. -/
structure EditorState where
  lines : List (List Char)
  cursorLine : Nat
  cursorCol : Nat
  deriving DecidableEq

/-- A text and the cursor in it. -/
structure Snapshot where
  text : List Char
  line : Nat
  col : Nat
  deriving DecidableEq

structure AutocompleteItem where
  value : List Char
  deriving DecidableEq

structure AutocompleteSuggestions where
  items : List AutocompleteItem
  matched : List Char
  deriving DecidableEq

/-- What the editor asks of the provider itself; the suggestions come from outside. -/
structure AutocompleteProvider where
  triggerCharacters : List Char
  shouldTriggerFileCompletion : EditorState → Bool
  applyCompletion : EditorState → AutocompleteItem → List Char → EditorState

inductive AutocompleteUiState
  | regular
  | force
  deriving DecidableEq

/-- The request outstanding.  Its serial number tells it from all others and is not in the code. -/
structure AutocompleteRequest where
  serial : Nat
  requestId : Nat
  snapshot : Snapshot
  force : Bool
  explicitTab : Bool
  dispatched : Bool

/-- A request as it is handed out, with the lines and cursor to find suggestions for. -/
structure AutocompleteDispatch where
  serial : Nat
  requestId : Nat
  force : Bool
  explicitTab : Bool
  origin : EditorState

/-- A call of the provider to put an item into a text. -/
structure Splice where
  onto : Snapshot
  item : AutocompleteItem
  matched : List Char
  deriving DecidableEq

structure Editor where
  state : EditorState
  provider : Option AutocompleteProvider
  triggerCharacters : List Char
  uiState : Option AutocompleteUiState
  matched : List Char
  items : List AutocompleteItem
  selected : Nat
  itemsSnapshot : Option Snapshot
  startToken : Nat
  requestId : Nat
  pending : Option AutocompleteRequest
  debounceRemainingMs : Option Nat
  /-- How many requests were made, which is not in the code. -/
  requested : Nat

namespace EditorState

/-- The lines joined by newlines, with the cursor. -/
def snapshot (state : EditorState) : Snapshot :=
  ⟨List.intercalate ['\n'] state.lines, state.cursorLine, state.cursorCol⟩

/-- What stands before the cursor on its line. -/
def before (state : EditorState) : List Char :=
  (state.lines.getD state.cursorLine []).take state.cursorCol

def clampCursor (state : EditorState) : EditorState :=
  let lines := if state.lines = [] then [[]] else state.lines
  let line := min state.cursorLine (lines.length - 1)
  ⟨lines, line, min state.cursorCol (lines.getD line []).length⟩

end EditorState

def attachmentAutocompleteDebounceMs : Nat := 20

def defaultTriggerCharacters : List Char := ['@', '#']

namespace Editor

def new : Editor where
  state := ⟨[[]], 0, 0⟩
  provider := none
  triggerCharacters := defaultTriggerCharacters
  uiState := none
  matched := []
  items := []
  selected := 0
  itemsSnapshot := none
  startToken := 0
  requestId := 0
  pending := none
  debounceRemainingMs := none
  requested := 0

/-- The counters have 64 bits and wrap. -/
def wrappingSucc (n : Nat) : Nat := (n + 1) % 2 ^ 64

def cancelAutocompleteRequest (editor : Editor) : Editor := { editor with
    startToken := wrappingSucc editor.startToken
    debounceRemainingMs := none
    pending := none }

def cancelAutocomplete (editor : Editor) : Editor := { editor.cancelAutocompleteRequest with
    uiState := none
    items := []
    itemsSnapshot := none
    matched := []
    selected := 0 }

def setTriggerCharacters (editor : Editor) (extra : List Char) : Editor := { editor with
    triggerCharacters := extra.foldl (fun next ch =>
      if ch = '/' || isWhitespace ch || next.contains ch then next else next ++ [ch])
      defaultTriggerCharacters }

def setAutocompleteProvider (editor : Editor) (provider : Option AutocompleteProvider) : Editor :=
  let editor := editor.cancelAutocomplete
  { provider.elim editor (editor.setTriggerCharacters ·.triggerCharacters) with provider }

/-- The token before the cursor has a trigger character, the last of them at its start. -/
def triggerPatternMatches (editor : Editor) (before : List Char) : Bool :=
  match before.reverse.dropWhile fun ch =>
    !editor.triggerCharacters.contains ch && !isWhitespace ch with
  | [] => false
  | ch :: rest => editor.triggerCharacters.contains ch && rest.head?.all isWhitespace

def debouncePatternMatches (editor : Editor) (before : List Char) : Bool :=
  decide (['@', '"'] <:+: before) || before.getLast? = some '@' ||
    if editor.triggerCharacters.all (· = '@') then before.contains '@'
    else editor.triggerPatternMatches before

def isInSlashCommandContext (editor : Editor) (before : List Char) : Bool :=
  editor.state.cursorLine = 0 && (trimStart before).head? = some '/'

def isAtStartOfMessage (editor : Editor) : Bool :=
  editor.state.cursorLine = 0 && (trim editor.state.before = [] || trim editor.state.before = ['/'])

def startAutocompleteRequest (editor : Editor) (startToken : Nat) (force explicitTab : Bool) :
    Editor :=
  if startToken ≠ editor.startToken ∨ editor.provider.isNone then editor
  else
    let requestId := wrappingSucc editor.requestId
    { editor with
      requestId
      pending := editor.pending.map fun pending =>
        { pending with requestId, snapshot := editor.state.snapshot, force, explicitTab } }

def requestAutocomplete (editor : Editor) (force explicitTab : Bool) : Editor :=
  match editor.provider with
  | none => editor
  | some provider =>
    if force && !provider.shouldTriggerFileCompletion editor.state then editor
    else
      let editor := editor.cancelAutocompleteRequest
      let serial := editor.requested + 1
      let editor := { editor with
        startToken := wrappingSucc editor.startToken
        requested := serial
        pending := some ⟨serial, 0, editor.state.snapshot, force, explicitTab, false⟩ }
      if !explicitTab && !force && editor.debouncePatternMatches editor.state.before then
        { editor with debounceRemainingMs := some attachmentAutocompleteDebounceMs }
      else editor.startAutocompleteRequest editor.startToken force explicitTab

def tickAutocompleteDebounce (editor : Editor) (ms : Nat) : Editor :=
  match editor.debounceRemainingMs with
  | none => editor
  | some remaining =>
    if remaining > ms then { editor with debounceRemainingMs := some (remaining - ms) }
    else { editor with debounceRemainingMs := none }.startAutocompleteRequest editor.startToken
      (editor.pending.any AutocompleteRequest.force)
      (editor.pending.any AutocompleteRequest.explicitTab)

def updateAutocomplete (editor : Editor) : Editor := match editor.uiState with
  | none => editor
  | some state => editor.requestAutocomplete (state = .force) false

/-- Also what follows every move of the cursor and every replacement by history. -/
def refreshAutocompleteAfterNavigation (editor : Editor) : Editor := editor.updateAutocomplete

def refreshAutocompleteAfterEdit (editor : Editor) : Editor :=
  if editor.uiState.isSome then editor.updateAutocomplete
  else if editor.isInSlashCommandContext editor.state.before ||
      editor.triggerPatternMatches editor.state.before then
    editor.requestAutocomplete false false
  else editor

def maybeAutoTriggerAutocomplete (editor : Editor) (ch : Char) : Editor :=
  let before := editor.state.before
  if editor.uiState.isSome then editor.updateAutocomplete
  else if ch = '/' && editor.isAtStartOfMessage then editor.requestAutocomplete false false
  else if editor.triggerCharacters.contains ch then
    let charBefore := before.reverse[1]?
    if before.length = 1 || charBefore = some ' ' || charBefore = some '\t' then
      editor.requestAutocomplete false false
    else editor
  else if (ch.isAlphanum || ['.', '-', '_'].contains ch) &&
      (editor.isInSlashCommandContext before || editor.triggerPatternMatches before) then
    editor.requestAutocomplete false false
  else editor

def handleTabCompletion (editor : Editor) : Editor := let before := editor.state.before
  editor.requestAutocomplete
    (!(editor.isInSlashCommandContext before && !(trimStart before).contains ' ')) true

/-- The item that equals the prefix, or else the first one that starts with it. -/
def bestAutocompleteMatchIndex (items : List AutocompleteItem) (matched : List Char) : Option Nat :=
  if matched = [] then none
  else (items.findIdx? (·.value = matched)).or (items.findIdx? (matched.isPrefixOf ·.value))

def applyAutocompleteSuggestions (editor : Editor) (suggestions : AutocompleteSuggestions)
    (state : AutocompleteUiState) : Editor :=
  { editor with
    matched := suggestions.matched
    items := suggestions.items
    itemsSnapshot := some editor.state.snapshot
    selected := (bestAutocompleteMatchIndex suggestions.items suggestions.matched).getD 0
    uiState := some state }

/-- The provider puts an item into the text; without a provider nothing happens. -/
def applyCompletion (editor : Editor) (item : AutocompleteItem) (matched : List Char) :
    Option (Editor × Splice) :=
  editor.provider.map fun provider =>
    ({ editor with state := (provider.applyCompletion editor.state item matched).clampCursor },
      ⟨editor.state.snapshot, item, matched⟩)

/-- The result of a request: `none` where it is ignored, else with the item put into the text. -/
def completeAutocompleteRequest (editor : Editor) (requestId : Nat)
    (suggestions : Option AutocompleteSuggestions) (force explicitTab : Bool) :
    Option (Editor × Option Splice) :=
  match editor.pending with
  | none => none
  | some pending =>
    if pending.requestId ≠ requestId ∨ editor.state.snapshot ≠ pending.snapshot then none
    else
      let editor := { editor with pending := none }
      match suggestions with
      | none => some (editor.cancelAutocomplete, none)
      | some suggestions =>
        match suggestions.items, force && explicitTab with
        | [], _ => some (editor.cancelAutocomplete, none)
        | [item], true =>
          match editor.applyCompletion item suggestions.matched with
          | none => some (editor.cancelAutocomplete, none)
          | some (editor, splice) => some (editor.cancelAutocomplete, some splice)
        | _, _ =>
          some (editor.applyAutocompleteSuggestions suggestions
            (if force then .force else .regular), none)

def autocompleteDispatch (editor : Editor) : Option (Editor × AutocompleteDispatch) :=
  match editor.pending with
  | none => none
  | some pending =>
    if pending.dispatched || pending.requestId = 0 then none
    else some ({ editor with pending := some { pending with dispatched := true } },
      ⟨pending.serial, pending.requestId, pending.force, pending.explicitTab,
        editor.state.lines, pending.snapshot.line, pending.snapshot.col⟩)

def autocompleteItemsStale (editor : Editor) : Bool :=
  editor.itemsSnapshot ≠ some editor.state.snapshot

/-- The menu closes where the selected item is put into the text. -/
def applySelectedCompletion (editor : Editor) : Editor × Option Splice :=
  match editor.items[editor.selected]?.bind (editor.applyCompletion · editor.matched) with
  | none => (editor, none)
  | some (editor, splice) => (editor.cancelAutocomplete, some splice)

def handleTab (editor : Editor) : Editor × Option Splice :=
  if editor.uiState.isNone then (editor.handleTabCompletion, none)
  else if editor.autocompleteItemsStale then (editor.cancelAutocomplete.handleTabCompletion, none)
  else editor.applySelectedCompletion

/-- The text that is then submitted in some cases is another step. -/
def handleConfirm (editor : Editor) : Editor × Option Splice :=
  if editor.uiState.isNone then (editor, none)
  else if editor.autocompleteItemsStale then (editor.cancelAutocomplete, none)
  else editor.applySelectedCompletion

def handleCancel (editor : Editor) : Editor :=
  if editor.uiState.isNone then editor else editor.cancelAutocomplete

def selectUp (editor : Editor) : Editor := if editor.uiState.isNone ∨ editor.items = [] then editor
  else { editor with
    selected := if editor.selected = 0 then editor.items.length - 1 else editor.selected - 1 }

def selectDown (editor : Editor) : Editor :=
  if editor.uiState.isNone ∨ editor.items = [] then editor
  else { editor with selected := (editor.selected + 1) % editor.items.length }

end Editor

end PiOxidized.Screen
