import Mathlib.Logic.Relation
import Mathlib.Data.List.Induction

set_option relaxedAutoImplicit false
set_option autoImplicit false

/-!
# Runs of labelled transition systems

## Main definitions

* `Transition.Run` — a finite run of a labelled step relation, with its list of labels.

## Main results

* `Transition.Run.invariant` — what every step preserves, every run preserves.
* `Transition.forall_split_iff` — two properties of the steps of a history that agree as long as an
  invariant holds, where the second one keeps the invariant.
-/

namespace Transition

variable {σ ι : Type*} {step : σ → ι → σ → Prop}

/-- A finite run: the labels are the steps taken, in order. -/
inductive Run (step : σ → ι → σ → Prop) : σ → List ι → σ → Prop
  | nil (s : σ) : Run step s [] s
  | cons {s t u : σ} {i : ι} {is : List ι} : step s i t → Run step t is u → Run step s (i :: is) u

namespace Run

/-- What every step preserves, every run preserves. -/
theorem invariant {I : σ → Prop} (hstep : ∀ s i t, I s → step s i t → I t) {s t : σ}
    {is : List ι} (hrun : Run step s is t) (hs : I s) : I t := by
  induction hrun with
  | nil s => exact hs
  | cons hst _ ih => exact ih (hstep _ _ _ hs hst)

/-- Runs compose. -/
lemma append {s t u : σ} {is js : List ι} (h₁ : Run step s is t) (h₂ : Run step t js u) :
    Run step s (is ++ js) u := by
  induction h₁ with
  | nil s => exact h₂
  | cons hst _ ih => exact .cons hst (ih h₂)

end Run

/-- An invariant holds after every part of a history whose steps are good.

**Proof sketch.** Induction on the part, from its end. -/
lemma invariant_of_forall_split {A : List ι → Prop} {Q : List ι → ι → Prop} (h₀ : A [])
    (hstep : ∀ pre i, A pre → Q pre i → A (pre ++ [i])) {is : List ι} :
    ∀ pre post, is = pre ++ post → (∀ pre i post, is = pre ++ i :: post → A pre → Q pre i) →
      A pre := by
  intro pre
  induction pre using List.reverseRecOn with
  | nil => exact fun _ _ _ => h₀
  | append_singleton pre i ih =>
    intro post hsplit hgood
    have hsplit' : is = pre ++ i :: post := by simpa using hsplit
    have hpre := ih (i :: post) hsplit' hgood
    exact hstep pre i hpre (hgood pre i post hsplit' hpre)

/-- Two properties of the steps of a history are the same, if they agree as long as an invariant
holds and the second one keeps the invariant. -/
lemma forall_split_iff {A : List ι → Prop} {P Q : List ι → ι → Prop} (h₀ : A [])
    (hiff : ∀ pre i, A pre → (P pre i ↔ Q pre i))
    (hstep : ∀ pre i, A pre → Q pre i → A (pre ++ [i])) (is : List ι) :
    (∀ pre i post, is = pre ++ i :: post → P pre i) ↔
      ∀ pre i post, is = pre ++ i :: post → Q pre i := by
  constructor
  · intro h pre i post hsplit
    have hpre : A pre := invariant_of_forall_split h₀ hstep pre (i :: post) hsplit
      fun pre i post hs hA => (hiff pre i hA).1 (h pre i post hs)
    exact (hiff pre i hpre).1 (h pre i post hsplit)
  · intro h pre i post hsplit
    have hpre : A pre := invariant_of_forall_split h₀ hstep pre (i :: post) hsplit
      fun pre i post hs _ => h pre i post hs
    exact (hiff pre i hpre).2 (h pre i post hsplit)

end Transition
