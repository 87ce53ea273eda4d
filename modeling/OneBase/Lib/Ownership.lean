import Mathlib.Algebra.Group.Basic
import Mathlib.Algebra.Order.Group.Multiset
import Mathlib.Logic.Function.Basic

set_option relaxedAutoImplicit false
set_option autoImplicit false

/-!
# Ownership of the cells of a store

A store maps addresses to values. A program owns some of its addresses, each with an abstract
description of the value there, and nobody else touches them; what the other addresses contain is
the frame. The descriptions form a multiset, so that the cells of a data structure are written as
a sum, in any order, and what is not mentioned is framed off.

## Main definitions

* `Ownership.Owns` — the store consists of the cells that are owned and the frame.

## Main results

* `Ownership.Owns.update`, `alloc`, `free` — the three ways a store changes.
-/

namespace Ownership

variable {A X C : Type*} {shows : X → C → Prop} {content frame : A → Option X}
  {M : Multiset (A × C)} {a b : A} {c d : C} {x : X}

/-- The store `content` consists of the cells `M`, each with a value that its description `shows`,
and of the `frame`. -/
structure Owns (shows : X → C → Prop) (content frame : A → Option X) (M : Multiset (A × C)) :
    Prop where
  nodup : (M.map Prod.fst).Nodup
  shows_of_mem : ∀ a c, (a, c) ∈ M → ∃ x, content a = some x ∧ shows x c
  frame_eq : ∀ a, a ∉ M.map Prod.fst → content a = frame a
  frame_eq_none : ∀ a ∈ M.map Prod.fst, frame a = none

namespace Owns

/-- Who owns nothing sees the frame. -/
lemma zero (shows : X → C → Prop) (content : A → Option X) : Owns shows content content 0 where
  nodup := by simp
  shows_of_mem := by simp
  frame_eq := by simp
  frame_eq_none := by simp

/-- A cell of the store is at one of its addresses. -/
lemma mem_keys (h : (a, c) ∈ M) : a ∈ M.map Prod.fst := Multiset.mem_map_of_mem Prod.fst h

/-- The value of a cell that is owned. -/
lemma content_eq (h : Owns shows content frame ({(a, c)} + M)) :
    ∃ x, content a = some x ∧ shows x c :=
  h.shows_of_mem a c (by simp)

/-- The addresses of a cell and of others. -/
lemma map_fst_add (a : A) (c : C) (M : Multiset (A × C)) :
    ({(a, c)} + M).map Prod.fst = a ::ₘ M.map Prod.fst := by
  rw [Multiset.singleton_add, Multiset.map_cons]

/-- A cell is owned once. -/
lemma notMem (h : Owns shows content frame ({(a, c)} + M)) : a ∉ M.map Prod.fst := by
  have hnodup := h.nodup
  rw [map_fst_add, Multiset.nodup_cons] at hnodup
  exact hnodup.1

/-- The addresses of two cells differ. -/
lemma ne (h : Owns shows content frame ({(a, c)} + M)) (hb : (b, d) ∈ M) : b ≠ a := by
  intro hba
  subst hba
  exact h.notMem (mem_keys hb)

/-- What the store contains is owned or in the frame. -/
lemma content_ne_none (h : Owns shows content frame M) (a : A) :
    content a ≠ none ↔ a ∈ M.map Prod.fst ∨ frame a ≠ none := by
  by_cases ha : a ∈ M.map Prod.fst
  · obtain ⟨⟨_, c⟩, hc, rfl⟩ := Multiset.mem_map.1 ha
    obtain ⟨x, hx, -⟩ := h.shows_of_mem _ c hc
    simp [hx, ha]
  · simp [ha, h.frame_eq a ha]

variable [DecidableEq A]

/-- The value of a cell that is owned may be replaced. -/
lemma update (h : Owns shows content frame ({(a, c)} + M)) (hx : shows x d) :
    Owns shows (Function.update content a (some x)) frame ({(a, d)} + M) := by
  have hkeys : ({(a, d)} + M).map Prod.fst = ({(a, c)} + M).map Prod.fst := by
    rw [map_fst_add, map_fst_add]
  constructor
  · rw [hkeys]
    exact h.nodup
  · intro b e hb
    rcases Multiset.mem_add.1 hb with hb | hb
    · obtain ⟨rfl, rfl⟩ : b = a ∧ e = d := by simpa using hb
      exact ⟨x, Function.update_self .., hx⟩
    · rw [Function.update_of_ne (h.ne hb)]
      exact h.shows_of_mem b e (Multiset.mem_add.2 (.inr hb))
  · intro b hb
    rw [hkeys] at hb
    have hne : b ≠ a := by
      rintro rfl
      exact hb (by simp)
    rw [Function.update_of_ne hne]
    exact h.frame_eq b hb
  · intro b hb
    rw [hkeys] at hb
    exact h.frame_eq_none b hb

/-- A new cell at an empty address is owned. -/
lemma alloc (h : Owns shows content frame M) (ha : content a = none) (hx : shows x c) :
    Owns shows (Function.update content a (some x)) frame ({(a, c)} + M) := by
  have hfresh : ¬ (a ∈ M.map Prod.fst ∨ frame a ≠ none) :=
    fun hor => (h.content_ne_none a).2 hor ha
  rw [not_or, not_not] at hfresh
  constructor
  · rw [map_fst_add, Multiset.nodup_cons]
    exact ⟨hfresh.1, h.nodup⟩
  · intro b e hb
    rcases Multiset.mem_add.1 hb with hb | hb
    · obtain ⟨rfl, rfl⟩ : b = a ∧ e = c := by simpa using hb
      exact ⟨x, Function.update_self .., hx⟩
    · have hne : b ≠ a := fun hba => hfresh.1 (hba ▸ mem_keys hb)
      rw [Function.update_of_ne hne]
      exact h.shows_of_mem b e hb
  · intro b hb
    rw [map_fst_add, Multiset.mem_cons, not_or] at hb
    rw [Function.update_of_ne hb.1]
    exact h.frame_eq b hb.2
  · intro b hb
    rw [map_fst_add, Multiset.mem_cons] at hb
    rcases hb with rfl | hb
    · exact hfresh.2
    · exact h.frame_eq_none b hb

/-- A cell that is owned may be given up. -/
lemma free (h : Owns shows content frame ({(a, c)} + M)) :
    Owns shows (Function.update content a none) frame M := by
  have hnodup := h.nodup
  rw [map_fst_add, Multiset.nodup_cons] at hnodup
  constructor
  · exact hnodup.2
  · intro b e hb
    rw [Function.update_of_ne (h.ne hb)]
    exact h.shows_of_mem b e (Multiset.mem_add.2 (.inr hb))
  · intro b hb
    by_cases hba : b = a
    · subst hba
      rw [Function.update_self]
      exact (h.frame_eq_none b (by simp)).symm
    · rw [Function.update_of_ne hba]
      apply h.frame_eq b
      rw [map_fst_add, Multiset.mem_cons, not_or]
      exact ⟨hba, hb⟩
  · intro b hb
    apply h.frame_eq_none b
    rw [map_fst_add, Multiset.mem_cons]
    exact .inr hb

end Owns

end Ownership
