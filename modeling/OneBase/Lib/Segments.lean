import Mathlib.Order.WithBot
import Mathlib.Data.List.Basic

set_option relaxedAutoImplicit false
set_option autoImplicit false

/-!
# Lists of adjacent segments

A list of items, each with the lower end of its segment, cuts an interval into adjacent segments:
the upper end of a segment is the lower end of the next one.

## Main definitions

* `Segments.start` — where a list of segments begins.
* `Segments.Segmented` — every item fits its segment, and no segment is empty.

## Main results

* `Segments.segmented_append` — lists of segments are cut and joined freely.
* `Segments.Segmented.bounds` — the segments lie within the interval.
* `Segments.Segmented.exists_cut` — a point of the interval lies in one of them.
-/

namespace Segments

variable {α T S : Type*}

/-- The lower end of the first segment, or the upper end of the interval if there is none. -/
def start (l : List (α × T)) (hi : WithTop α) : WithTop α :=
  match l with
  | [] => hi
  | (a, _) :: _ => a

/-- Every item of the list satisfies `P` with the two ends of its segment. -/
def Segmented [LT α] (P : α → WithTop α → T → Prop) : List (α × T) → WithTop α → Prop
  | [], _ => True
  | (a, x) :: l, hi => (a : WithTop α) < start l hi ∧ P a (start l hi) x ∧ Segmented P l hi

/-- Without segments the interval starts at its end. -/
@[simp] lemma start_nil (hi : WithTop α) : start ([] : List (α × T)) hi = hi := rfl

/-- The interval starts with its first segment. -/
@[simp] lemma start_cons (a : α) (x : T) (l : List (α × T)) (hi : WithTop α) :
    start ((a, x) :: l) hi = a := rfl

/-- The segments of two lists. -/
@[simp] lemma start_append (l m : List (α × T)) (hi : WithTop α) :
    start (l ++ m) hi = start l (start m hi) := by
  cases l <;> rfl

section LT

variable [LT α] {P : α → WithTop α → T → Prop}

/-- There is nothing to satisfy without segments. -/
@[simp] lemma segmented_nil (hi : WithTop α) : Segmented P [] hi := trivial

/-- The first segment ends where the second one starts. -/
lemma segmented_cons {a : α} {x : T} {l : List (α × T)} {hi : WithTop α} :
    Segmented P ((a, x) :: l) hi ↔
      (a : WithTop α) < start l hi ∧ P a (start l hi) x ∧ Segmented P l hi := Iff.rfl

/-- A list of segments is cut anywhere. -/
lemma segmented_append {l m : List (α × T)} {hi : WithTop α} :
    Segmented P (l ++ m) hi ↔ Segmented P l (start m hi) ∧ Segmented P m hi := by
  induction l with
  | nil => simp
  | cons y l ih =>
    obtain ⟨a, x⟩ := y
    simp only [List.cons_append, segmented_cons, start_append, ih]
    tauto

end LT

variable [LinearOrder α] {P : α → WithTop α → T → Prop} {l : List (α × T)} {hi : WithTop α}

/-- No segment ends before it starts. -/
lemma Segmented.start_le (h : Segmented P l hi) : start l hi ≤ hi := by
  induction l with
  | nil => exact le_refl hi
  | cons y l ih =>
    obtain ⟨a, x⟩ := y
    have hlt := h.1
    have hle := ih h.2.2
    exact (hlt.trans_le hle).le

/-- A segment lies in the interval. -/
lemma Segmented.bounds (h : Segmented P l hi) {a : α} {x : T} (hmem : (a, x) ∈ l) :
    ∃ b, P a b x ∧ start l hi ≤ a ∧ (a : WithTop α) < b ∧ b ≤ hi := by
  obtain ⟨l₁, l₂, rfl⟩ := List.append_of_mem hmem
  rw [segmented_append, segmented_cons] at h
  obtain ⟨h₁, hlt, hP, h₂⟩ := h
  refine ⟨start l₂ hi, hP, ?_, hlt, h₂.start_le⟩
  rw [start_append]
  exact h₁.start_le

/-- The lower ends are strictly increasing. -/
lemma Segmented.pairwise (h : Segmented P l hi) : l.Pairwise fun x y => x.1 < y.1 := by
  induction l with
  | nil => exact .nil
  | cons y l ih =>
    obtain ⟨a, x⟩ := y
    obtain ⟨hlt, -, hl⟩ := h
    refine .cons ?_ (ih hl)
    intro z hz
    obtain ⟨b, -, hstart, -, -⟩ := hl.bounds hz
    exact WithTop.coe_lt_coe.1 (hlt.trans_le hstart)

/-- A point of the interval lies in one segment. -/
lemma Segmented.exists_cut (h : Segmented P l hi) {x : α} (hstart : start l ⊤ ≤ (x : WithTop α))
    (hx : (x : WithTop α) < hi) :
    ∃ l₁ a y l₂, l = l₁ ++ (a, y) :: l₂ ∧ (∀ z ∈ l₁, z.1 ≤ x) ∧ a ≤ x ∧
      (x : WithTop α) < start l₂ hi ∧ ∀ z ∈ l₂, x < z.1 := by
  induction l with
  | nil => exact absurd (lt_of_le_of_lt hstart (WithTop.coe_lt_top x)) (lt_irrefl _)
  | cons y l ih =>
    obtain ⟨a, y⟩ := y
    have ha : a ≤ x := WithTop.coe_le_coe.1 hstart
    rcases lt_or_ge (x : WithTop α) (start l hi) with hlt | hge
    · refine ⟨[], a, y, l, rfl, by simp, ha, hlt, ?_⟩
      intro z hz
      obtain ⟨b, -, hle, -, -⟩ := h.2.2.bounds hz
      exact WithTop.coe_lt_coe.1 (hlt.trans_le hle)
    · have hl : start l ⊤ ≤ (x : WithTop α) := by
        cases l with
        | nil => exact absurd (lt_of_lt_of_le hx hge) (lt_irrefl _)
        | cons z l => exact hge
      obtain ⟨l₁, b, w, l₂, rfl, hl₁, hb, hstart₂, hl₂⟩ := ih h.2.2 hl
      refine ⟨(a, y) :: l₁, b, w, l₂, rfl, ?_, hb, hstart₂, hl₂⟩
      intro z hz
      rcases List.mem_cons.1 hz with rfl | hz
      · exact ha
      · exact hl₁ z hz

end Segments
