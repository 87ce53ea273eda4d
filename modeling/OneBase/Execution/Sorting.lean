import OneBase.Execution.Executors
import Mathlib.Data.List.Perm.Basic

set_option relaxedAutoImplicit false
set_option autoImplicit false

/-!
# Sorting

What `std::sort` does with a comparison that goes by a rank, and what it does with short vectors:
there it inserts one element after the other, and throws if a comparison throws.

## Main definitions

* `OneBase.insertionSort` — the sort of short vectors.
* `OneBase.insertingLibrary` — a standard library that sorts in this way.
* `OneBase.arrangingLibrary` — one that only sorts what the standard tells it to.

## Main results

* `OneBase.exists_sorted` — sorting the images of a list by a rank of its elements.
* `OneBase.exists_sort_eq` — a sort may leave the elements in any sorted order.
-/

namespace OneBase

/-! ## Images of lists -/

section Images

variable {α β : Type} {lt lt' : α → α → Cpp Bool} {l l₁ : List α} {l' : List β} {f : α → β}

/-- A permutation of the images of a list consists of the images of a permutation. -/
lemma exists_map_of_perm (h : l'.Perm (l.map f)) : ∃ l₁ : List α, l₁.Perm l ∧ l' = l₁.map f := by
  have hmap : Relation.Comp (List.Forall₂ fun (a : α) (x : β) => f a = x) List.Perm l l' := by
    have hforall : List.Forall₂ (fun (a : α) (x : β) => f a = x) l (l.map f) := by
      rw [List.forall₂_map_right_iff, List.forall₂_same]
      exact fun _ _ => rfl
    exact ⟨_, hforall, h.symm⟩
  rw [List.forall₂_comp_perm_eq_perm_comp_forall₂] at hmap
  obtain ⟨l₁, hl₁, hforall⟩ := hmap
  refine ⟨l₁, hl₁.symm, ?_⟩
  clear hl₁ h
  induction hforall with
  | nil => rfl
  | cons hax _ ih => rw [List.map_cons, hax, ih]

/-- A comparison that is a strict weak order on a list is so on lists of its elements. -/
lemma StrictWeakOrderOn.of_mem (h : StrictWeakOrderOn l lt) (hmem : ∀ a ∈ l₁, a ∈ l) :
    StrictWeakOrderOn l₁ lt where
  returns := fun a ha b hb => h.returns a (hmem a ha) b (hmem b hb)
  irrefl := fun a ha => h.irrefl a (hmem a ha)
  trans := fun a ha b hb c hc => h.trans a (hmem a ha) b (hmem b hb) c (hmem c hc)
  incomparable := fun a ha b hb c hc => h.incomparable a (hmem a ha) b (hmem b hb) c (hmem c hc)

/-- Where nothing comes before anything else, all elements are alike. -/
lemma strictWeakOrderOn_of_false (h : ∀ a ∈ l, ∀ b ∈ l, lt a b = pure false) :
    StrictWeakOrderOn l lt where
  returns := fun a ha b hb => ⟨false, h a ha b hb⟩
  irrefl := fun a ha => h a ha a ha
  trans := by
    intro a ha b hb c hc hab
    rw [h a ha b hb] at hab
    cases hab
  incomparable := fun a ha b _ c hc _ _ _ _ => h a ha c hc

/-- Comparisons of the elements and of their images. -/
lemma strictWeakOrderOn_map_iff {lt' : β → β → Cpp Bool}
    (h : ∀ a ∈ l, ∀ b ∈ l, lt' (f a) (f b) = lt a b) :
    StrictWeakOrderOn (l.map f) lt' ↔ StrictWeakOrderOn l lt := by
  constructor
  · intro hweak
    have hmem : ∀ a ∈ l, f a ∈ l.map f := fun a ha => List.mem_map_of_mem ha
    exact
      { returns := fun a ha b hb => h a ha b hb ▸ hweak.returns _ (hmem a ha) _ (hmem b hb)
        irrefl := fun a ha => h a ha a ha ▸ hweak.irrefl _ (hmem a ha)
        trans := by
          intro a ha b hb c hc
          rw [← h a ha b hb, ← h b hb c hc, ← h a ha c hc]
          exact hweak.trans _ (hmem a ha) _ (hmem b hb) _ (hmem c hc)
        incomparable := by
          intro a ha b hb c hc
          rw [← h a ha b hb, ← h b hb a ha, ← h b hb c hc, ← h c hc b hb, ← h a ha c hc]
          exact hweak.incomparable _ (hmem a ha) _ (hmem b hb) _ (hmem c hc) }
  · intro hweak
    exact
      { returns := by
          rintro x hx y hy
          obtain ⟨a, ha, rfl⟩ := List.mem_map.1 hx
          obtain ⟨b, hb, rfl⟩ := List.mem_map.1 hy
          rw [h a ha b hb]
          exact hweak.returns a ha b hb
        irrefl := by
          rintro x hx
          obtain ⟨a, ha, rfl⟩ := List.mem_map.1 hx
          rw [h a ha a ha]
          exact hweak.irrefl a ha
        trans := by
          rintro x hx y hy z hz
          obtain ⟨a, ha, rfl⟩ := List.mem_map.1 hx
          obtain ⟨b, hb, rfl⟩ := List.mem_map.1 hy
          obtain ⟨c, hc, rfl⟩ := List.mem_map.1 hz
          rw [h a ha b hb, h b hb c hc, h a ha c hc]
          exact hweak.trans a ha b hb c hc
        incomparable := by
          rintro x hx y hy z hz
          obtain ⟨a, ha, rfl⟩ := List.mem_map.1 hx
          obtain ⟨b, hb, rfl⟩ := List.mem_map.1 hy
          obtain ⟨c, hc, rfl⟩ := List.mem_map.1 hz
          rw [h a ha b hb, h b hb a ha, h b hb c hc, h c hc b hb, h a ha c hc]
          exact hweak.incomparable a ha b hb c hc }

end Images

/-! ## Ranks -/

section Ranks

variable {α β ρ : Type} [LinearOrder ρ] {lt : β → β → Cpp Bool} {l : List α} {f : α → β}
  {rank : α → ρ}

/-- A comparison by rank is a strict weak order. -/
lemma strictWeakOrderOn_of_rank
    (h : ∀ a ∈ l, ∀ b ∈ l, lt (f a) (f b) = pure (decide (rank a < rank b))) :
    StrictWeakOrderOn (l.map f) lt where
  returns := by
    intro x hx y hy
    obtain ⟨a, ha, rfl⟩ := List.mem_map.1 hx
    obtain ⟨b, hb, rfl⟩ := List.mem_map.1 hy
    exact ⟨_, h a ha b hb⟩
  irrefl := by
    intro x hx
    obtain ⟨a, ha, rfl⟩ := List.mem_map.1 hx
    rw [h a ha a ha, decide_eq_false (lt_irrefl _)]
  trans := by
    intro x hx y hy z hz hxy hyz
    obtain ⟨a, ha, rfl⟩ := List.mem_map.1 hx
    obtain ⟨b, hb, rfl⟩ := List.mem_map.1 hy
    obtain ⟨c, hc, rfl⟩ := List.mem_map.1 hz
    rw [h a ha b hb] at hxy
    rw [h b hb c hc] at hyz
    have hab := of_decide_eq_true (Except.ok.inj (Option.some.inj hxy))
    have hbc := of_decide_eq_true (Except.ok.inj (Option.some.inj hyz))
    rw [h a ha c hc, decide_eq_true (hab.trans hbc)]
  incomparable := by
    intro x hx y hy z hz hxy _ hyz _
    obtain ⟨a, ha, rfl⟩ := List.mem_map.1 hx
    obtain ⟨b, hb, rfl⟩ := List.mem_map.1 hy
    obtain ⟨c, hc, rfl⟩ := List.mem_map.1 hz
    rw [h a ha b hb] at hxy
    rw [h b hb c hc] at hyz
    have hba := not_lt.1 (of_decide_eq_false (Except.ok.inj (Option.some.inj hxy)))
    have hcb := not_lt.1 (of_decide_eq_false (Except.ok.inj (Option.some.inj hyz)))
    rw [h a ha c hc, decide_eq_false (not_lt.2 (hcb.trans hba))]

/-- `std::sort` on the images of a list, with a comparison by rank. -/
lemma exists_sorted (std : StandardLibrary)
    (h : ∀ a ∈ l, ∀ b ∈ l, lt (f a) (f b) = pure (decide (rank a < rank b))) :
    ∃ sorted : List α, sorted.Perm l ∧ sorted.Pairwise (fun a b => rank a ≤ rank b) ∧
      std.sort lt (l.map f) = pure (sorted.map f) := by
  obtain ⟨l', hsort, hperm, hpairwise⟩ := std.sort_spec lt _ (strictWeakOrderOn_of_rank h)
  obtain ⟨sorted, hsorted, rfl⟩ := exists_map_of_perm hperm
  refine ⟨sorted, hsorted, ?_, hsort⟩
  rw [List.pairwise_map] at hpairwise
  refine hpairwise.imp_of_mem fun {a b} ha hb hab => ?_
  rw [h b (hsorted.subset hb) a (hsorted.subset ha)] at hab
  exact not_lt.1 (of_decide_eq_false (Except.ok.inj (Option.some.inj hab)))

end Ranks

/-! ## Insertion -/

section Insertion

variable {α : Type} {lt : α → α → Cpp Bool} {l : List α}

/-- The insertion of an element before the first one that it precedes. -/
def insertInto (lt : α → α → Cpp Bool) (a : α) : List α → Cpp (List α)
  | [] => pure [a]
  | b :: bs => do
    if ← lt a b then pure (a :: b :: bs)
    else
      let rest ← insertInto lt a bs
      pure (b :: rest)

/-- The sort of short vectors. -/
def insertionSort (lt : α → α → Cpp Bool) (l : List α) : Cpp (List α) :=
  l.foldlM (fun sorted a => insertInto lt a sorted) []

/-- Inserting into a sorted list. -/
lemma insertInto_spec (h : StrictWeakOrderOn l lt) {a : α} {sorted : List α}
    (hmem : ∀ x ∈ a :: sorted, x ∈ l) (hsorted : sorted.Pairwise fun x y => lt y x = pure false) :
    ∃ sorted', insertInto lt a sorted = pure sorted' ∧ sorted'.Perm (a :: sorted) ∧
      sorted'.Pairwise fun x y => lt y x = pure false := by
  have ha := hmem a List.mem_cons_self
  induction sorted with
  | nil => exact ⟨[a], rfl, .refl _, List.pairwise_singleton _ _⟩
  | cons b bs ih =>
    have hb := hmem b (by simp)
    obtain ⟨hfirst, hrest⟩ := List.pairwise_cons.1 hsorted
    obtain ⟨r, hr⟩ := h.returns a ha b hb
    rw [insertInto, hr, pure_bind]
    cases r with
    | true =>
      refine ⟨a :: b :: bs, rfl, .refl _, List.pairwise_cons.2 ⟨fun x hx => ?_, hsorted⟩⟩
      have hx' := hmem x (List.mem_cons_of_mem a hx)
      obtain ⟨s, hs⟩ := h.returns x hx' a ha
      cases s with
      | false => exact hs
      | true =>
        have hxb := h.trans x hx' a ha b hb hs hr
        rcases List.mem_cons.1 hx with rfl | hx
        · rw [h.irrefl x hx'] at hxb
          cases hxb
        · rw [hfirst x hx] at hxb
          cases hxb
    | false =>
      have hmem' : ∀ x ∈ a :: bs, x ∈ l := by
        intro x hx
        refine hmem x ?_
        rcases List.mem_cons.1 hx with rfl | hx <;> simp [*]
      obtain ⟨rest, hinsert, hperm, hpairwise⟩ := ih hmem' hrest
      refine ⟨b :: rest, by rw [hinsert]; rfl, (hperm.cons b).trans (List.Perm.swap a b bs),
        List.pairwise_cons.2 ⟨fun x hx => ?_, hpairwise⟩⟩
      rcases List.mem_cons.1 (hperm.subset hx) with rfl | hx
      · exact hr
      · exact hfirst x hx

/-- Inserting all elements of a list. -/
lemma insertionSort_spec (h : StrictWeakOrderOn l lt) :
    ∃ sorted, insertionSort lt l = pure sorted ∧ sorted.Perm l ∧
      sorted.Pairwise fun x y => lt y x = pure false := by
  have hfold : ∀ rest sorted : List α, (∀ x ∈ rest ++ sorted, x ∈ l) →
      sorted.Pairwise (fun x y => lt y x = pure false) →
      ∃ sorted', rest.foldlM (fun sorted a => insertInto lt a sorted) sorted = pure sorted' ∧
        sorted'.Perm (rest ++ sorted) ∧ sorted'.Pairwise fun x y => lt y x = pure false := by
    intro rest
    induction rest with
    | nil => exact fun sorted _ hsorted => ⟨sorted, rfl, .refl _, hsorted⟩
    | cons a rest ih =>
      intro sorted hmem hsorted
      obtain ⟨s, hinsert, hperm, hs⟩ := insertInto_spec h (a := a) (by
        intro x hx
        refine hmem x ?_
        rcases List.mem_cons.1 hx with rfl | hx <;> simp [*]) hsorted
      obtain ⟨s', hfold, hperm', hs'⟩ := ih s (by
        intro x hx
        refine hmem x ?_
        rcases List.mem_append.1 hx with hx | hx
        · simp [hx]
        · rcases List.mem_cons.1 (hperm.subset hx) with rfl | hx <;> simp [*]) hs
      refine ⟨s', by rw [List.foldlM_cons, hinsert, pure_bind]; exact hfold, ?_, hs'⟩
      exact hperm'.trans ((hperm.append_left rest).trans List.perm_middle)
  obtain ⟨sorted, hsorted, hperm, hpairwise⟩ := hfold l [] (by simp) .nil
  rw [List.append_nil] at hperm
  exact ⟨sorted, hsorted, hperm, hpairwise⟩

end Insertion

/-- A standard library that sorts by insertion, with hash tables in the order of insertion. -/
def insertingLibrary : StandardLibrary where
  sort := insertionSort
  buckets := fun l => l
  sort_spec := fun _ _ => insertionSort_spec
  buckets_perm := fun l => .refl l

/-! ## What the standard allows -/

section Arrangements

variable {α : Type} {lt : α → α → Cpp Bool} {l l' : List α} {order : List ℕ}

/-- Inserting an element that precedes none. -/
lemma insertInto_last {a : α} (h : ∀ b ∈ l, lt a b = pure false) :
    insertInto lt a l = pure (l ++ [a]) := by
  induction l with
  | nil => rfl
  | cons b l ih =>
    rw [insertInto, h b List.mem_cons_self, pure_bind, if_neg Bool.false_ne_true,
      ih fun c hc => h c (List.mem_cons_of_mem b hc)]
    rfl

/-- A sorted list stays as it is. -/
lemma insertionSort_sorted (h : l.Pairwise fun a b => lt b a = pure false) :
    insertionSort lt l = pure l := by
  have hfold : ∀ rest done : List α, (done ++ rest).Pairwise (fun a b => lt b a = pure false) →
      rest.foldlM (fun sorted a => insertInto lt a sorted) done = pure (done ++ rest) := by
    intro rest
    induction rest with
    | nil => exact fun done _ => by rw [List.append_nil]; rfl
    | cons a rest ih =>
      intro done hsorted
      have hlast : ∀ b ∈ done, lt a b = pure false := fun b hb =>
        (List.pairwise_append.1 hsorted).2.2 b hb a List.mem_cons_self
      rw [List.foldlM_cons, insertInto_last hlast, pure_bind, ih (done ++ [a]) (by simpa using hsorted)]
      simp
  exact hfold l [] h

/-- The elements at these positions, if each position occurs once. -/
def rearranged (order : List ℕ) (l : List α) : List α :=
  if order.Perm (List.range l.length) then order.filterMap fun i => l[i]? else l

/-- A list is made of the elements at its places. -/
lemma filterMap_range (l : List α) : ((List.range l.length).filterMap fun i => l[i]?) = l := by
  induction l with
  | nil => rfl
  | cons a l ih =>
    have hhead : (fun i => (a :: l)[i]?) 0 = some a := rfl
    rw [List.length_cons, List.range_succ_eq_map, List.filterMap_cons_some hhead,
      List.filterMap_map]
    exact congrArg (a :: ·) ih

/-- Rearranging a list by the order of its places is a permutation. -/
lemma rearranged_perm (order : List ℕ) (l : List α) : (rearranged order l).Perm l := by
  unfold rearranged
  split_ifs with h
  · have hperm := h.filterMap fun i => l[i]?
    rwa [filterMap_range] at hperm
  · exact .refl l

/-- Every permutation is such an arrangement. -/
lemma exists_rearranged (h : l'.Perm l) : ∃ order, rearranged order l = l' := by
  have hcomp : Relation.Comp (List.Forall₂ fun (i : ℕ) (a : α) => l[i]? = some a) List.Perm
      (List.range l.length) l' := by
    refine ⟨l, ?_, h.symm⟩
    rw [List.forall₂_iff_get]
    refine ⟨List.length_range, fun i hi hi' => ?_⟩
    rw [List.get_eq_getElem, List.get_eq_getElem, List.getElem_range]
    exact List.getElem?_eq_getElem hi'
  rw [List.forall₂_comp_perm_eq_perm_comp_forall₂] at hcomp
  obtain ⟨order, horder, hforall⟩ := hcomp
  refine ⟨order, ?_⟩
  rw [rearranged, if_pos horder.symm]
  clear horder h
  induction hforall with
  | nil => rfl
  | cons hget _ ih => rw [List.filterMap_cons_some hget, ih]

open Classical in
/-- A standard library whose sort starts from this arrangement of the elements, and is undefined
for a comparison that is not a strict weak order. -/
noncomputable def arrangingLibrary (order : List ℕ) : StandardLibrary where
  sort := fun lt l =>
    if StrictWeakOrderOn l lt then insertionSort lt (rearranged order l) else Cpp.undefined
  buckets := fun l => l
  sort_spec := by
    intro α lt l h
    have hperm := rearranged_perm order l
    have hweak : StrictWeakOrderOn (rearranged order l) lt :=
      h.of_mem fun a ha => hperm.subset ha
    obtain ⟨sorted, hsort, hsorted, hpairwise⟩ := insertionSort_spec hweak
    exact ⟨sorted, by rw [if_pos h, hsort], hsorted.trans hperm, hpairwise⟩
  buckets_perm := fun l => .refl l

/-- There, a sort that returns has a strict weak order. -/
lemma strictWeakOrderOn_of_sort (h : (arrangingLibrary order).sort lt l = pure l') :
    StrictWeakOrderOn l lt := by
  by_contra hnot
  have hundefined : (arrangingLibrary order).sort lt l = Cpp.undefined := if_neg hnot
  rw [hundefined] at h
  cases h

/-- Every sorted permutation is what some sort leaves. -/
lemma exists_sort_eq (hweak : StrictWeakOrderOn l lt) (hperm : l'.Perm l)
    (hsorted : l'.Pairwise fun a b => lt b a = pure false) :
    ∃ order, (arrangingLibrary order).sort lt l = pure l' := by
  obtain ⟨order, horder⟩ := exists_rearranged hperm
  refine ⟨order, ?_⟩
  have hsort : (arrangingLibrary order).sort lt l = insertionSort lt (rearranged order l) :=
    if_pos hweak
  rw [hsort, horder, insertionSort_sorted hsorted]

end Arrangements

end OneBase
