import OneBase.Common.Types
import Mathlib.Data.List.Basic

set_option relaxedAutoImplicit false
set_option autoImplicit false

/-!
# What stops a computation

A computation may refuse its input with an exception, or misread it and have no defined behaviour.
Where a computation is a sequence only the first such fault matters.

## Main definitions

* `OneBase.Fault`, `OneBase.Cpp.StopsAt` — what stops a computation.

## Main results

* `OneBase.Cpp.StopsAt.bind` — the faults of a sequence.
-/

namespace OneBase

/-- What stops a computation: something that it refuses with an exception, or that it misreads. -/
inductive Fault
  | refused
  | misread
  deriving DecidableEq, Repr

/-- The computation throws if the first fault is refused, has no defined behaviour if it is misread,
and returns without faults. -/
def Cpp.StopsAt {α : Type} (x : Cpp α) : List Fault → Prop
  | [] => ∃ a, x = pure a
  | .refused :: _ => ∃ e, x = throw e
  | .misread :: _ => x = Cpp.undefined

/-- What is refused unless the condition holds. -/
def refusedUnless (b : Bool) : List Fault := if b then [] else [.refused]

/-- What is misread unless the condition holds. -/
def misreadUnless (b : Bool) : List Fault := if b then [] else [.misread]

section StopsAt

variable {α β : Type} {x : Cpp α} {f : α → Cpp β} {l l' : List Fault} {b : Bool}

/-- The faults of a sequence are those of its parts. -/
lemma Cpp.StopsAt.bind (hx : x.StopsAt l) (hf : ∀ a, x = pure a → (f a).StopsAt l') :
    (x >>= f).StopsAt (l ++ l') := by
  match l with
  | [] =>
    obtain ⟨a, ha⟩ := hx
    rw [ha, pure_bind]
    exact hf a ha
  | .refused :: _ =>
    obtain ⟨e, rfl⟩ := hx
    exact ⟨e, rfl⟩
  | .misread :: _ =>
    obtain rfl : x = Cpp.undefined := hx
    rfl

/-- A sequence whose second part has no faults. -/
lemma Cpp.StopsAt.map (hx : x.StopsAt l) (hf : ∀ a, ∃ b, f a = pure b) :
    (x >>= f).StopsAt l := by
  have h : (x >>= f).StopsAt (l ++ []) := hx.bind fun a _ => hf a
  rwa [List.append_nil] at h

/-- A check that refuses. -/
lemma Cpp.stopsAt_refusedUnless (hpos : b = true → ∃ a, x = pure a)
    (hneg : b = false → ∃ e, x = throw e) : x.StopsAt (refusedUnless b) := by
  unfold refusedUnless
  cases b with
  | false => exact hneg rfl
  | true => exact hpos rfl

/-- A check whose failure is not noticed. -/
lemma Cpp.stopsAt_misreadUnless (hpos : b = true → ∃ a, x = pure a)
    (hneg : b = false → x = Cpp.undefined) : x.StopsAt (misreadUnless b) := by
  unfold misreadUnless
  cases b with
  | false => exact hneg rfl
  | true => exact hpos rfl

/-- Two conditions that are misread. -/
lemma Cpp.StopsAt.misreadUnless_and {b' : Bool}
    (hx : x.StopsAt (misreadUnless b ++ misreadUnless b')) : x.StopsAt (misreadUnless (b && b')) := by
  cases b with
  | false => exact hx
  | true => exact hx

/-- A loop that collects results. -/
lemma Cpp.stopsAt_mapM {γ : Type} {g : γ → Cpp β} {faults : γ → List Fault} {xs : List γ}
    (h : ∀ c ∈ xs, (g c).StopsAt (faults c)) : (xs.mapM g).StopsAt (xs.flatMap faults) := by
  induction xs with
  | nil => exact ⟨[], List.mapM_nil⟩
  | cons c xs ih =>
    rw [List.mapM_cons, List.flatMap_cons]
    refine (h c List.mem_cons_self).bind fun _ _ => ?_
    exact (ih fun d hd => h d (List.mem_cons_of_mem c hd)).map fun _ => ⟨_, rfl⟩

/-- A loop with a state. -/
lemma Cpp.stopsAt_foldlM {γ : Type} {g : β → γ → Cpp β} {faults : γ → List Fault} {xs : List γ}
    {I : β → Prop} {s : β} (hstart : I s) (h : ∀ s, ∀ c ∈ xs, I s → (g s c).StopsAt (faults c))
    (hstep : ∀ s c s', I s → g s c = pure s' → I s') :
    (xs.foldlM g s).StopsAt (xs.flatMap faults) := by
  induction xs generalizing s with
  | nil => exact ⟨s, List.foldlM_nil⟩
  | cons c xs ih =>
    rw [List.foldlM_cons, List.flatMap_cons]
    refine (h s c List.mem_cons_self hstart).bind fun s' hs' => ?_
    exact ih (hstep s c s' hstart hs') fun t d hd => h t d (List.mem_cons_of_mem c hd)

end StopsAt

end OneBase
