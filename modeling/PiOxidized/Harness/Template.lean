/-
# Prompt templates

A template is run with arguments that take the places of its numbered placeholders.  Each argument
is put in by two replacements in the whole text, one for its index and one for its number from one,
so that a placeholder inside an argument is filled by a later one.
-/

import PiOxidized.Math.Substitution

namespace PiOxidized.Harness

open List Math

/-- One named prompt template resource. -/
structure PromptTemplate where
  name : String
  content : List Char
  deriving DecidableEq

/-- The placeholder of a number. -/
def placeholder (number : Nat) : List Char := '{' :: (Nat.toDigits 10 number ++ ['}'])

/-- All matches of a text replaced, from the left to the right. -/
def replace (text pattern argument : List Char) : List Char :=
  substitute [(pattern, argument)] 0 text

/-- The text of a template with its arguments. -/
def promptText (content : List Char) (args : List (List Char)) : List Char :=
  args.zipIdx.foldl (fun text (argument, index) =>
    replace (replace text (placeholder index) argument) (placeholder (index + 1)) argument) content

/-- The text a template operation runs with. -/
def acceptPromptTemplate (templates : List PromptTemplate) (name : String)
    (args : List (List Char)) : Except String (List Char) :=
  match templates.find? (·.name == name) with
  | none => .error ("prompt template " ++ name ++ " is not configured")
  | some template => .ok (promptText template.content args)

/-- The placeholder of an argument, where the numbers begin with one or with zero. -/
def ownPlaceholder (oneBased : Bool) (index : Nat) : List Char :=
  placeholder (if oneBased then index + 1 else index)

/-- A template with each of its placeholders replaced once, all at the same time. -/
def expanded (oneBased : Bool) (content : List Char) (args : List (List Char)) : List Char :=
  substitute (args.zipIdx.map fun (argument, index) => (ownPlaceholder oneBased index, argument)) 0
    content

/-- The replacements for an argument: one of the two is for its own placeholder. -/
def argumentPasses (oneBased : Bool) (argument : List Char) (index : Nat) : List (Pass Char) :=
  [⟨placeholder index, argument, !oneBased⟩, ⟨placeholder (index + 1), argument, oneBased⟩]

def argumentsPasses (oneBased : Bool) (args : List (List Char)) : List (Pass Char) :=
  args.zipIdx.flatMap fun (argument, index) => argumentPasses oneBased argument index

/-- Each placeholder of the template is replaced by the argument it denotes and nothing else is:
neither the other text of the template nor what an argument brings. -/
structure Verbatim (oneBased : Bool) (template : PromptTemplate) (args : List (List Char)) :
    Prop where
  text : ∀ templates : List PromptTemplate,
    templates.find? (·.name == template.name) = some template →
      acceptPromptTemplate templates template.name args =
        .ok (expanded oneBased template.content args)
  found : replaced template.content (argumentsPasses oneBased args) =
    (argumentsPasses oneBased args).map (Pass.expected template.content)

theorem placeholder_bracketed (number : Nat) : Bracketed '{' (placeholder number) := by
  refine ⟨_, rfl, fun hmem => ?_⟩
  rcases mem_append.mp hmem with hmem | hmem
  · exact absurd (Nat.isDigit_of_mem_toDigits (by decide) (by decide) hmem) (by decide)
  · exact absurd (mem_singleton.mp hmem) (by decide)

/-- No placeholder is the beginning of another one. -/
theorem eq_of_placeholder_prefix {i j : Nat} (h : placeholder i <+: placeholder j) : i = j := by
  obtain ⟨rest, hrest⟩ := h
  have hdigits : ∀ number (rest : List Char),
      (Nat.toDigits 10 number ++ '}' :: rest).takeWhile Char.isDigit = Nat.toDigits 10 number := by
    intro number rest
    rw [takeWhile_append_of_pos fun c => Nat.isDigit_of_mem_toDigits (by decide) (by decide)]
    exact append_nil _
  rw [placeholder, placeholder, cons_append, append_assoc] at hrest
  have heq := (hdigits i rest).symm.trans (congrArg _ (cons.inj hrest).2)
  have hvalue := congrArg (fun digits => Nat.ofDigitChars 10 digits 0) (heq.trans (hdigits j []))
  simpa only [Nat.ofDigitChars_toDigits (show 1 < 10 by decide) (Nat.le_refl 10)] using hvalue

theorem promptText_eq_runPasses (oneBased : Bool) (content : List Char) (args : List (List Char)) :
    promptText content args = runPasses content (argumentsPasses oneBased args) := by
  rw [runPasses, argumentsPasses, foldl_flatMap]
  rfl

theorem rules_argumentsPasses (oneBased : Bool) (args : List (List Char)) :
    (argumentsPasses oneBased args).flatMap Pass.rules =
      args.zipIdx.map fun (argument, i) => (ownPlaceholder oneBased i, argument) := by
  rw [argumentsPasses, flatMap_assoc, map_eq_flatMap]
  refine flatMap_congr fun argument _ => ?_
  cases oneBased <;> rfl

/-- The arguments are inserted verbatim when no placeholder occurs in the template with the
arguments before it inserted but those the template has. -/
theorem verbatim_iff (oneBased : Bool) (template : PromptTemplate) (args : List (List Char)) :
    Verbatim oneBased template args ↔
      undisturbed template.content [] (argumentsPasses oneBased args) = true := by
  have hpasses : ∀ pass ∈ argumentsPasses oneBased args, Bracketed '{' pass.pattern := by
    intro pass hmem
    obtain ⟨argument, -, hmem⟩ := List.mem_flatMap.mp hmem
    rcases List.mem_pair.mp hmem with rfl | rfl <;> exact placeholder_bracketed _
  have hapart : ([] ++ (argumentsPasses oneBased args).flatMap Pass.rules).Pairwise Unmixed := by
    rw [nil_append, rules_argumentsPasses, pairwise_map]
    have hnodup : (args.zipIdx.map Prod.snd).Nodup := by
      rw [zipIdx_map_snd]
      exact nodup_range'
    refine (List.pairwise_map.mp hnodup).imp fun hne => ?_
    constructor <;> intro hprefix <;> have heq := eq_of_placeholder_prefix hprefix <;>
      cases oneBased <;> simp at heq <;> omega
  obtain ⟨hiff, hrun⟩ := @replaced_eq_iff Char _ _ '{' template.content [] _ hpasses nofun hapart
  rw [substitute_nil] at hiff hrun
  rw [← hiff] at hrun ⊢
  refine ⟨Verbatim.found, fun h => ⟨fun templates hfind => ?_, h⟩⟩
  rw [acceptPromptTemplate, hfind]
  simp only [promptText_eq_runPasses oneBased, hrun h, rules_argumentsPasses]
  rfl

/-- Neither convention holds for an argument with a placeholder. -/
theorem not_verbatim_pasted : ¬ ∃ oneBased,
    Verbatim oneBased ⟨"two", "{1} {2}".toList⟩ ["{2}".toList, "x".toList] := by
  rintro ⟨oneBased, h⟩
  have htext := h.text [⟨"two", "{1} {2}".toList⟩] rfl
  revert htext
  cases oneBased <;> decide +kernel

end PiOxidized.Harness
