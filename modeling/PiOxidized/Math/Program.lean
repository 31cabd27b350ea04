/-
# Programs that ask

A program either is finished, has failed, or asks a question and goes on with the answer.
Nothing is said here about who answers: the same program runs alone, among others that
change what it asks about, or up to the moment its process dies.

What a program needs is stated by a rule for each question.  A rule turns what must hold
after the answer into what must hold before the question, over states of any kind; folded
over a program the rules give its weakest precondition.
-/

import Mathlib.Order.Basic

namespace PiOxidized.Math

universe u v w

/-- A computation whose questions `i : I` are answered in `X i`. -/
inductive Program (I : Type u) (X : I → Type v) (F R : Type w) : Type (max u v w)
  | done (result : R) : Program I X F R
  | fail (error : F) : Program I X F R
  | ask (question : I) (next : X question → Program I X F R) : Program I X F R

namespace Program

variable {I : Type u} {X : I → Type v} {F R U : Type w}

/-- Run a program and go on with its result; a failure skips the rest. -/
def bind : Program I X F R → (R → Program I X F U) → Program I X F U
  | done result, f => f result
  | fail error, _ => fail error
  | ask question next, f => ask question fun answer => (next answer).bind f

instance : Monad (Program I X F) where
  pure := done
  bind := bind

/-- A computation that asks nothing. -/
def ofExcept : Except F R → Program I X F R
  | .ok result => done result
  | .error error => fail error

/-- Ask one question. -/
def request {X : I → Type w} (question : I) : Program I X F (X question) := ask question done

/-! ## Weakest preconditions -/

variable {S : Type*}

/-- What a question needs before it is asked for a condition to hold of its answer. -/
abbrev Rules (I : Type u) (X : I → Type v) (S : Type*) :=
  (question : I) → (X question → S → Prop) → S → Prop

/-- Rules that ask for no more than others do, where no more is asked of the answers. -/
def Rules.Entails (W W' : Rules I X S) : Prop :=
  ∀ question (K K' : X question → S → Prop) s, (∀ a t, K a t → K' a t) →
    W question K s → W' question K' s

/-- What a program needs for `Q` of its result and `E` of its failure, each with the state
it leaves. -/
def wp (W : Rules I X S) (Q : R → S → Prop) (E : F → S → Prop) : Program I X F R → S → Prop
  | done result, s => Q result s
  | fail error, s => E error s
  | ask question next, s => W question (fun answer t => (next answer).wp W Q E t) s

variable {W : Rules I X S} {Q : R → S → Prop} {E : F → S → Prop} {s : S}

variable {p : Program I X F R}

/-- A sequence needs of its first program that it leave what the second needs. -/
theorem wp_bind (p : Program I X F R) (f : R → Program I X F U) (Q : U → S → Prop) :
    (p >>= f).wp W Q E = p.wp W (fun r => (f r).wp W Q E) E := by
  induction p with
  | done | fail => rfl
  | ask question next ih =>
    funext s
    have hnext : (fun a => (next a >>= f).wp W Q E) =
        fun a => (next a).wp W (fun r => (f r).wp W Q E) E := funext ih
    exact congrArg (fun K => W question K s) hnext

/-- What is enough for a result is enough for a weaker one, under weaker rules. -/
theorem wp_mono {W' : Rules I X S} (hW : W.Entails W') {Q' : R → S → Prop} {E' : F → S → Prop}
    (hQ : ∀ r t, Q r t → Q' r t) (hE : ∀ e t, E e t → E' e t) (h : p.wp W Q E s) :
    p.wp W' Q' E' s := by
  induction p generalizing s with
  | done result => exact hQ _ _ h
  | fail error => exact hE _ _ h
  | ask question next ih => exact hW question _ _ s (fun a t ha => ih a ha) h

/-! ## Properties of the questions

The rules that ask the same of a question in every state say which questions a program can
ask at all, whatever it is told. -/

/-- Every question the program can ask meets `P`, its results meet `Q`; answers are only
assumed to meet `A`. -/
def Asks (P : I → Prop) (A : (i : I) → X i → Prop) (Q : R → Prop) : Program I X F R → Prop
  | done result => Q result
  | fail _ => True
  | ask question next => P question ∧ ∀ answer, A question answer → (next answer).Asks P A Q

variable {P : I → Prop} {A : (i : I) → X i → Prop}

/-- A program that keeps rules asks only what the rules let pass. -/
theorem asks_of_wp {Q : R → Prop} (hW : ∀ question (K : X question → S → Prop) s,
      W question K s → P question ∧ ∀ a, A question a → ∃ t, K a t)
    (h : p.wp W (fun r _ => Q r) E s) : p.Asks P A Q := by
  induction p generalizing s with
  | done result => exact h
  | fail error => trivial
  | ask question next ih =>
    have hask := hW question _ s h
    refine ⟨hask.1, fun answer ha => ?_⟩
    obtain ⟨t, ht⟩ := hask.2 answer ha
    exact ih answer ht

end Program

end PiOxidized.Math
