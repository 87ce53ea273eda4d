import Mathlib.Algebra.Order.BigOperators.Group.List
import Mathlib.Algebra.Order.Ring.Nat
import Mathlib.Data.List.Forall2
import Mathlib.Data.Nat.Notation

set_option relaxedAutoImplicit false
set_option autoImplicit false

/-!
# Joins and products of lists of rows

Joins on a condition, with the rows that have no partner added or not, and cartesian products.

## Main definitions

* `OneBase.Joins.pairs`, `OneBase.Joins.outer` — the pairs that satisfy a condition, and those with
  the rows that have no partner.
* `OneBase.Joins.product` — the cartesian product of lists of rows.

## Main results

* `OneBase.Joins.pairs_perm_outer_iff` — when an inner join on one condition has the rows of an
  outer join on another.
* `OneBase.Joins.product_eq_nil_iff`, `OneBase.Joins.length_of_mem_product` — the rows of a product.
-/

namespace OneBase.Joins

section Pairs

variable {α β γ : Type} {on on' : α → β → Bool} {pair : α → β → γ} {leftOnly : α → γ}
  {rightOnly : β → γ} {ls : List α} {rs : List β} {keepLeft keepRight : Bool} {x : γ}

/-- The pairs of rows that satisfy the condition. -/
def pairs (on : α → β → Bool) (pair : α → β → γ) (ls : List α) (rs : List β) : List γ :=
  ls.flatMap fun l => (rs.filter (on l)).map (pair l)

/-- The left rows without a partner. -/
def leftAlone (on : α → β → Bool) (ls : List α) (rs : List β) : List α :=
  ls.filter fun l => !rs.any (on l)

/-- The right rows without a partner. -/
def rightAlone (on : α → β → Bool) (ls : List α) (rs : List β) : List β :=
  rs.filter fun r => !ls.any fun l => on l r

/-- The pairs, with the rows of either side that have no partner if they are kept. -/
def outer (keepLeft keepRight : Bool) (on : α → β → Bool) (pair : α → β → γ) (leftOnly : α → γ)
    (rightOnly : β → γ) (ls : List α) (rs : List β) : List γ :=
  pairs on pair ls rs ++
    ((if keepLeft then (leftAlone on ls rs).map leftOnly else []) ++
      if keepRight then (rightAlone on ls rs).map rightOnly else [])

/-- The pairs of the first row come first. -/
lemma pairs_cons (on : α → β → Bool) (pair : α → β → γ) (l : α) (ls : List α) (rs : List β) :
    pairs on pair (l :: ls) rs = (rs.filter (on l)).map (pair l) ++ pairs on pair ls rs :=
  List.flatMap_cons

/-- A function of the pairs. -/
lemma map_pairs {δ : Type} (f : γ → δ) (on : α → β → Bool) (pair : α → β → γ) (ls : List α)
    (rs : List β) :
    (pairs on pair ls rs).map f = pairs on (fun l r => f (pair l r)) ls rs := by
  unfold pairs
  rw [List.map_flatMap]
  simp only [List.map_map, Function.comp_def]

/-- The function matters for pairs of rows of the two lists only. -/
lemma pairs_congr {pair' : α → β → γ} (h : ∀ l ∈ ls, ∀ r ∈ rs, pair l r = pair' l r) :
    pairs on pair ls rs = pairs on pair' ls rs := by
  unfold pairs
  refine List.flatMap_congr fun l hl => ?_
  refine List.map_congr_left fun r hr => ?_
  exact h l hl r (List.mem_filter.1 hr).1

/-- A pair joins a row of each list that the condition relates. -/
lemma mem_pairs : x ∈ pairs on pair ls rs ↔ ∃ l ∈ ls, ∃ r ∈ rs, on l r = true ∧ pair l r = x := by
  unfold pairs
  rw [List.mem_flatMap]
  constructor
  · rintro ⟨l, hl, hx⟩
    obtain ⟨r, hr, rfl⟩ := List.mem_map.1 hx
    exact ⟨l, hl, r, (List.mem_filter.1 hr).1, (List.mem_filter.1 hr).2, rfl⟩
  · rintro ⟨l, hl, r, hr, hon, rfl⟩
    exact ⟨l, hl, List.mem_map.2 ⟨r, List.mem_filter.2 ⟨hr, hon⟩, rfl⟩⟩

/-- There are no pairs if the condition relates no rows. -/
lemma pairs_eq_nil_iff : pairs on pair ls rs = [] ↔ ∀ l ∈ ls, ∀ r ∈ rs, on l r = false := by
  rw [List.eq_nil_iff_forall_not_mem]
  constructor
  · intro h l hl r hr
    by_contra hon
    exact h (pair l r) (mem_pairs.2 ⟨l, hl, r, hr, by simpa using hon, rfl⟩)
  · intro h x hx
    obtain ⟨l, hl, r, hr, hon, -⟩ := mem_pairs.1 hx
    rw [h l hl r hr] at hon
    cases hon

/-- Pairs with one row are alike, so conditions that admit the same rows admit the same pairs. -/
lemma of_mem_pairs {on : α → β → Bool} {l : α} {r : β} (hl : l ∈ ls) (hr : r ∈ rs)
    (halike : ∀ l ∈ ls, ∀ r ∈ rs, ∀ a ∈ ls, ∀ b ∈ rs, pair a b = pair l r → on a b = on l r)
    (h : pair l r ∈ pairs on pair ls rs) : on l r = true := by
  obtain ⟨a, ha, b, hb, hon, hsame⟩ := mem_pairs.1 h
  rw [← halike l hl r hr a ha b hb hsame, hon]

/-- An inner join on one condition has the rows of an outer join on another iff the conditions admit
the same pairs and no row that is kept is without a partner. Both conditions look at no more of a
pair than at its row, and a row without a partner looks like no pair.

**Proof sketch.** A row of the outer join that stems from a row without a partner would be a pair.
So there are none, and two conditions with the same rows admit the same pairs: a pair has its row
under either condition iff the condition admits it. -/
theorem pairs_perm_outer_iff
    (halike : ∀ l ∈ ls, ∀ r ∈ rs, ∀ a ∈ ls, ∀ b ∈ rs, pair a b = pair l r → on a b = on l r)
    (halike' : ∀ l ∈ ls, ∀ r ∈ rs, ∀ a ∈ ls, ∀ b ∈ rs, pair a b = pair l r → on' a b = on' l r)
    (hleft : ∀ l ∈ ls, ∀ a ∈ ls, ∀ b ∈ rs, pair a b ≠ leftOnly l)
    (hright : ∀ r ∈ rs, ∀ a ∈ ls, ∀ b ∈ rs, pair a b ≠ rightOnly r) :
    (pairs on pair ls rs).Perm (outer keepLeft keepRight on' pair leftOnly rightOnly ls rs) ↔
      (∀ l ∈ ls, ∀ r ∈ rs, on l r = on' l r) ∧
        (keepLeft = true → leftAlone on' ls rs = []) ∧
        (keepRight = true → rightAlone on' ls rs = []) := by
  have hextra : (keepLeft = true → leftAlone on' ls rs = []) →
      (keepRight = true → rightAlone on' ls rs = []) →
      outer keepLeft keepRight on' pair leftOnly rightOnly ls rs = pairs on' pair ls rs := by
    intro hleftNil hrightNil
    unfold outer
    cases keepLeft <;> cases keepRight <;> simp_all
  constructor
  · intro hperm
    have hmem : ∀ x ∈ (if keepLeft then (leftAlone on' ls rs).map leftOnly else []) ++
        (if keepRight then (rightAlone on' ls rs).map rightOnly else []),
        ∃ a ∈ ls, ∃ b ∈ rs, pair a b = x := by
      intro x hx
      obtain ⟨a, ha, b, hb, -, hab⟩ := mem_pairs.1
        (hperm.mem_iff.2 (List.mem_append.2 (.inr hx)))
      exact ⟨a, ha, b, hb, hab⟩
    have hleftNil : keepLeft = true → leftAlone on' ls rs = [] := by
      rintro rfl
      refine List.eq_nil_iff_forall_not_mem.2 fun l hl => ?_
      obtain ⟨a, ha, b, hb, hab⟩ := hmem (leftOnly l)
        (List.mem_append.2 (.inl (List.mem_map.2 ⟨l, hl, rfl⟩)))
      exact hleft l (List.mem_filter.1 hl).1 a ha b hb hab
    have hrightNil : keepRight = true → rightAlone on' ls rs = [] := by
      rintro rfl
      refine List.eq_nil_iff_forall_not_mem.2 fun r hr => ?_
      obtain ⟨a, ha, b, hb, hab⟩ := hmem (rightOnly r)
        (List.mem_append.2 (.inr (List.mem_map.2 ⟨r, hr, rfl⟩)))
      exact hright r (List.mem_filter.1 hr).1 a ha b hb hab
    rw [hextra hleftNil hrightNil] at hperm
    refine ⟨fun l hl r hr => ?_, hleftNil, hrightNil⟩
    rw [Bool.eq_iff_iff]
    constructor
    · exact fun hon => of_mem_pairs hl hr halike'
        (hperm.mem_iff.1 (mem_pairs.2 ⟨l, hl, r, hr, hon, rfl⟩))
    · exact fun hon => of_mem_pairs hl hr halike
        (hperm.mem_iff.2 (mem_pairs.2 ⟨l, hl, r, hr, hon, rfl⟩))
  · rintro ⟨hsame, hleftNil, hrightNil⟩
    rw [hextra hleftNil hrightNil]
    have hpairs : pairs on pair ls rs = pairs on' pair ls rs := by
      unfold pairs
      refine List.flatMap_congr fun l hl => ?_
      congr 1
      exact List.filter_congr fun r hr => hsame l hl r hr
    rw [hpairs]

end Pairs

section Product

variable {δ : Type} {rows : List (List δ)} {factors : List (List (List δ))}

/-- The cartesian product, where a row of it is a row of each factor. -/
def product : List (List (List δ)) → List (List δ)
  | [] => [[]]
  | rows :: factors => rows.flatMap fun row => (product factors).map (row ++ ·)

/-- The product of one list is this list. -/
lemma product_singleton (rows : List (List δ)) : product [rows] = rows := by
  simp [product]

/-- A product has no rows iff one of its factors has none. -/
lemma product_eq_nil_iff : product factors = [] ↔ [] ∈ factors := by
  induction factors with
  | nil => simp [product]
  | cons rows factors ih =>
    rw [product, List.flatMap_eq_nil_iff, List.mem_cons, ← ih]
    constructor
    · intro h
      rcases rows with _ | ⟨row, rows⟩
      · exact .inl rfl
      · exact .inr (List.map_eq_nil_iff.1 (h row List.mem_cons_self))
    · rintro (hnil | hnil) row hrow
      · rw [← hnil] at hrow
        cases hrow
      · rw [hnil, List.map_nil]

/-- The rows of a product are as long as those of its factors together. -/
lemma length_of_mem_product {widths : List ℕ}
    (h : List.Forall₂ (fun rows width => ∀ row ∈ rows, row.length = width) factors widths) :
    ∀ row ∈ product factors, row.length = widths.sum := by
  induction h with
  | nil =>
    intro row hrow
    obtain rfl := List.mem_singleton.1 hrow
    rfl
  | cons hrows _ ih =>
    intro row hrow
    obtain ⟨first, hfirst, hrest⟩ := List.mem_flatMap.1 hrow
    obtain ⟨rest, hmem, rfl⟩ := List.mem_map.1 hrest
    rw [List.length_append, hrows first hfirst, ih rest hmem, List.sum_cons]

end Product

end OneBase.Joins
