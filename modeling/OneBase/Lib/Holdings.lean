import Mathlib.Algebra.BigOperators.Group.Finset.Basic
import Mathlib.Algebra.BigOperators.Group.Finset.Piecewise
import Mathlib.Algebra.Order.BigOperators.Group.Finset
import Mathlib.Algebra.Order.Group.Int
import Mathlib.Algebra.BigOperators.Pi
import Mathlib.Tactic.Abel

set_option relaxedAutoImplicit false
set_option autoImplicit false

/-!
# Holdings

Finitely many holders have each a holding, and a holding has a weight, for instance the resources
that it contains. What some of the holders have together follows their holdings through updates
and moves.

## Main definitions

* `Holdings.total` — the weight of the holdings of some holders.

## Main results

* `Holdings.total_update`, `Holdings.total_move` — one holder gets another holding, or that of
  another holder.
-/

namespace Holdings

section Total

variable {V X G : Type*} [DecidableEq V] [AddCommGroup G] {weight : X → G} {S : Finset V}
  {holding : V → X} {u v : V} {x : X}

/-- The weight of what the holders in `S` have together. -/
def total (weight : X → G) (S : Finset V) (holding : V → X) : G := ∑ v ∈ S, weight (holding v)

/-- A holder outside does not matter. -/
lemma total_update_of_notMem (h : v ∉ S) :
    total weight S (Function.update holding v x) = total weight S holding := by
  apply Finset.sum_congr rfl
  intro w hw
  rw [Function.update_of_ne]
  rintro rfl
  exact h hw

/-- A holder inside gives up its holding for another one. -/
lemma total_update_of_mem (h : v ∈ S) :
    total weight S (Function.update holding v x) =
      total weight S holding + (weight x - weight (holding v)) := by
  have hcomp : ∀ w, weight (Function.update holding v x w) =
      Function.update (weight ∘ holding) v (weight x) w := by
    intro w
    exact congrFun (Function.comp_update weight holding v x) w
  rw [total, total, Finset.sum_congr rfl fun w _ => hcomp w, Finset.sum_update_of_mem h,
    ← Finset.add_sum_erase S (fun w => weight (holding w)) h, Finset.erase_eq]
  simp only [Function.comp_apply]
  abel

/-- The update of one holding. -/
lemma total_update (S : Finset V) (holding : V → X) (v : V) (x : X) :
    total weight S (Function.update holding v x) =
      total weight S holding + if v ∈ S then weight x - weight (holding v) else 0 := by
  split
  · rename_i h
    exact total_update_of_mem h
  · rename_i h
    rw [total_update_of_notMem h, add_zero]

/-- A holding goes from `u` to `v`, which had none. -/
lemma total_move (hmem : v ∈ S ↔ u ∈ S) (hne : u ≠ v) {none : X} (hnone : weight none = 0)
    (hv : holding v = none) :
    total weight S (Function.update (Function.update holding v (holding u)) u none) =
      total weight S holding := by
  rw [total_update, total_update, Function.update_of_ne hne]
  by_cases hu : u ∈ S
  · rw [if_pos hu, if_pos (hmem.2 hu), hv, hnone]
    abel
  · rw [if_neg hu, if_neg fun h => hu (hmem.1 h), add_zero, add_zero]

end Total

/-- No holder has more than all of them. -/
lemma le_total {V X A : Type*} {weight : X → A → ℤ} (hnonneg : ∀ x a, 0 ≤ weight x a)
    {S : Finset V} {holding : V → X} {v : V} (h : v ∈ S) (a : A) :
    weight (holding v) a ≤ total weight S holding a := by
  rw [total, Finset.sum_apply]
  exact Finset.single_le_sum (f := fun w => weight (holding w) a) (fun w _ => hnonneg _ a) h

end Holdings
