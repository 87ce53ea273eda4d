import OneBase.Storage.Page.BPlusTreePage
import Mathlib.Order.WithBot
import Mathlib.Data.List.Basic

set_option relaxedAutoImplicit false
set_option autoImplicit false

/-!
# The pages of a B+ tree as lists

A leaf is the list of its entries. An internal page is the list of its children, each with the
lower bound of the keys below it: the key of its slot, except for the first child, whose key the
code ignores and whose bound is ghost state. With it, splitting, merging and balancing pages of
either kind is cutting and appending lists.

## Main definitions

* `OneBase.BPlusTreeLeafPage.Holds`, `OneBase.BPlusTreeInternalPage.Holds` — the list in a page.

## Main results

One lemma for each method: the list that it leaves, and which slots it needs.
-/

namespace OneBase

/-- The slots below `n` lie in the page. -/
def FitsBelow (fits : ℕ → Bool) (n : ℕ) : Prop := ∀ i < n, fits i = true

/-- If the slots below `n` fit on the page, so do those below `m`. -/
lemma FitsBelow.mono {fits : ℕ → Bool} {m n : ℕ} (h : FitsBelow fits n) (hmn : m ≤ n) :
    FitsBelow fits m :=
  fun i hi => h i (by omega)

/-- A list is cut at any of its elements. -/
lemma exists_append_cons {α : Type} {l : List α} {i : ℕ} (hi : i < l.length) :
    ∃ xs y ys, l = xs ++ y :: ys ∧ xs.length = i := by
  refine ⟨l.take i, l[i], l.drop (i + 1), ?_, ?_⟩
  · rw [← List.drop_eq_getElem_cons hi, List.take_append_drop]
  · rw [List.length_take]
    omega

/-! ## Leaf pages -/

namespace BPlusTreeLeafPage

variable {K V : Type} {f : ℕ → Bool} {p r : BPlusTreeLeafPage K V} {es l m A B : List (K × V)}

/-- The page holds the entries `es`, in this order. -/
structure Holds (p : BPlusTreeLeafPage K V) (es : List (K × V)) : Prop where
  size_eq : p.size = es.length
  array_eq : ∀ i x, es[i]? = some x → p.array i = x

/-- The slots of a leaf contain its entries. -/
lemma Holds.array_getElem (hp : p.Holds es) {i : ℕ} (hi : i < es.length) : p.array i = es[i] :=
  hp.array_eq i _ (List.getElem?_eq_getElem hi)

/-- The key in a slot. -/
lemma Holds.keyAt_eq (hp : p.Holds es) (hfits : FitsBelow f es.length) {i : ℕ}
    (hi : i < es.length) : p.keyAt f i = some es[i].1 := by
  simp [keyAt, Slots.get_eq (hfits i hi), hp.array_getElem hi]

/-- The value in a slot. -/
lemma Holds.valueAt_eq (hp : p.Holds es) (hfits : FitsBelow f es.length) {i : ℕ}
    (hi : i < es.length) : p.valueAt f i = some es[i].2 := by
  simp [valueAt, Slots.get_eq (hfits i hi), hp.array_getElem hi]

/-- `MoveHalfTo` cuts the list in two. -/
lemma Holds.moveHalfTo (hp : p.Holds es) (hfits : FitsBelow f es.length) :
    ∃ a, p.moveHalfTo f r =
        some ({ p with size := es.length / 2 },
          { r with array := a, size := es.length - es.length / 2 }) ∧
      Holds { p with size := es.length / 2 } (es.take (es.length / 2)) ∧
      Holds { r with array := a, size := es.length - es.length / 2 } (es.drop (es.length / 2)) := by
  have hsize := hp.size_eq
  obtain ⟨a, ha, hin, -⟩ := Slots.copyTo_eq f p.array r.array (es.length / 2) 0
    (es.length - es.length / 2) (fun i hi => hfits _ (by omega)) fun i hi => hfits _ (by omega)
  refine ⟨a, ?_, ⟨?_, ?_⟩, ?_, ?_⟩
  · simp [BPlusTreeLeafPage.moveHalfTo, hsize, ha]
  · simp only [List.length_take]
    omega
  · intro i x hx
    rw [List.getElem?_take] at hx
    split_ifs at hx with hi
    exact hp.array_eq i x hx
  · simp
  · intro i x hx
    rw [List.getElem?_drop] at hx
    have hi : es.length / 2 + i < es.length := (List.getElem?_eq_some_iff.1 hx).1
    have hcopy := hin i (by omega)
    rw [Nat.zero_add] at hcopy
    exact hcopy.trans (hp.array_eq _ x hx)

/-- `MoveAllTo` appends the list to that of the recipient. -/
lemma Holds.moveAllTo (hp : p.Holds l) (hr : r.Holds m)
    (hfits : FitsBelow f (m.length + l.length)) :
    ∃ a, p.moveAllTo f r =
        some ({ p with size := 0 },
          { r with array := a, size := m.length + l.length, nextPageId := p.nextPageId }) ∧
      Holds { r with array := a, size := m.length + l.length, nextPageId := p.nextPageId }
        (m ++ l) := by
  obtain ⟨a, ha, hin, hout⟩ := Slots.copyTo_eq f p.array r.array 0 m.length l.length
    (fun i hi => hfits _ (by omega)) fun i hi => hfits _ (by omega)
  refine ⟨a, ?_, ?_, ?_⟩
  · simp [BPlusTreeLeafPage.moveAllTo, hp.size_eq, hr.size_eq, ha]
  · simp
  · intro i x hx
    rcases lt_or_ge i m.length with hi | hi
    · rw [List.getElem?_append_left hi] at hx
      exact (hout i (.inl hi)).trans (hr.array_eq i x hx)
    · rw [List.getElem?_append_right hi] at hx
      have hlt : i - m.length < l.length := (List.getElem?_eq_some_iff.1 hx).1
      have hcopy := hin (i - m.length) hlt
      rw [Nat.add_sub_cancel' hi, Nat.zero_add] at hcopy
      exact hcopy.trans (hp.array_eq _ x hx)

/-- `MoveFirstToEndOf` moves the first entry behind those of the recipient. -/
lemma Holds.moveFirstToEndOf {x : K × V} (hp : p.Holds (x :: l)) (hr : r.Holds m)
    (hfits : FitsBelow f (l.length + 1)) (hfitsr : FitsBelow f (m.length + 1)) :
    ∃ a b, p.moveFirstToEndOf f r =
        some ({ p with array := a, size := l.length },
          { r with array := b, size := m.length + 1 }) ∧
      Holds { p with array := a, size := l.length } l ∧
      Holds { r with array := b, size := m.length + 1 } (m ++ [x]) := by
  have hsize : p.size = l.length + 1 := by simpa using hp.size_eq
  obtain ⟨a, ha, hin, -⟩ := Slots.shiftLeft_eq f p.array 0 l.length
    fun i _ hi => hfits i (by omega)
  refine ⟨a, Function.update r.array m.length (p.array 0), ?_, ⟨rfl, ?_⟩, ?_, ?_⟩
  · simp [BPlusTreeLeafPage.moveFirstToEndOf, hsize, hr.size_eq, ha,
      Slots.get_eq (hfits 0 (by omega)), Slots.set_eq (hfitsr m.length (by omega))]
  · intro i y hy
    have hi : i < l.length := (List.getElem?_eq_some_iff.1 hy).1
    exact (hin i (by omega) (by omega)).trans (hp.array_eq (i + 1) y (by simpa using hy))
  · simp
  · intro i y hy
    rcases lt_trichotomy i m.length with hi | rfl | hi
    · rw [List.getElem?_append_left hi] at hy
      exact (Function.update_of_ne (by omega) ..).trans (hr.array_eq i y hy)
    · have hxy : x = y := by simpa using hy
      exact (Function.update_self ..).trans (hp.array_eq 0 y (by simp [hxy]))
    · have hnone : (m ++ [x])[i]? = none := List.getElem?_eq_none (by simp; omega)
      rw [hnone] at hy
      cases hy

/-- `MoveLastToFrontOf` moves the last entry in front of those of the recipient. -/
lemma Holds.moveLastToFrontOf {x : K × V} (hp : p.Holds (l ++ [x])) (hr : r.Holds m)
    (hfits : FitsBelow f (l.length + 1)) (hfitsr : FitsBelow f (m.length + 1)) :
    ∃ b, p.moveLastToFrontOf f r =
        some ({ p with size := l.length }, { r with array := b, size := m.length + 1 }) ∧
      Holds { p with size := l.length } l ∧
      Holds { r with array := b, size := m.length + 1 } (x :: m) := by
  have hsize : p.size = l.length + 1 := by simpa using hp.size_eq
  obtain ⟨b, hb, hin, -⟩ := Slots.shiftRight_eq f r.array 0 m.length
    fun i _ hi => hfitsr i (by omega)
  refine ⟨Function.update b 0 (p.array l.length), ?_, ⟨rfl, ?_⟩, ?_, ?_⟩
  · simp [BPlusTreeLeafPage.moveLastToFrontOf, hsize, hr.size_eq, hb,
      Slots.get_eq (hfits l.length (by omega)), Slots.set_eq (hfitsr 0 (by omega))]
  · intro i y hy
    have hi : i < l.length := (List.getElem?_eq_some_iff.1 hy).1
    exact hp.array_eq i y (by rw [List.getElem?_append_left hi, hy])
  · simp
  · intro i y hy
    cases i with
    | zero =>
      have hxy : x = y := by simpa using hy
      calc Function.update b 0 (p.array l.length) 0
          = p.array l.length := Function.update_self ..
        _ = y := hp.array_eq l.length y (by simp [hxy])
    | succ i =>
      have hy' : m[i]? = some y := by simpa using hy
      have hi : i < m.length := (List.getElem?_eq_some_iff.1 hy').1
      calc Function.update b 0 (p.array l.length) (i + 1)
          = b (i + 1) := Function.update_of_ne (by omega) ..
        _ = r.array i := hin i (by omega) (by omega)
        _ = y := hr.array_eq i y hy'

/-! ### The search in a leaf -/

variable [LinearOrder K] {key : K}

/-- The loop of `KeyIndex` narrows down to the boundary between the smaller and the other keys. -/
lemma Holds.keyIndexLoop_eq (hp : p.Holds (A ++ B)) (hfits : FitsBelow f (A ++ B).length)
    (hA : ∀ x ∈ A, x.1 < key) (hB : ∀ x ∈ B, key ≤ x.1) (low high : ℤ) (hlow : 0 ≤ low)
    (hlowA : low ≤ A.length) (hAhigh : A.length ≤ high + 1) (hhigh : high < (A ++ B).length) :
    p.keyIndexLoop f key low high = some A.length := by
  induction low, high using keyIndexLoop.induct with
  | case1 low high hle mid ih₁ ih₂ =>
    have hmid : low ≤ mid ∧ mid ≤ high := by omega
    have hlt : mid.toNat < (A ++ B).length := by omega
    rw [keyIndexLoop, dif_pos hle]
    change (p.keyAt f mid.toNat).bind (fun k => if k < key then p.keyIndexLoop f key (mid + 1)
      high else p.keyIndexLoop f key low (mid - 1)) = some A.length
    rw [hp.keyAt_eq hfits hlt, Option.bind_some]
    rcases lt_or_ge mid.toNat A.length with hi | hi
    · rw [List.getElem_append_left hi, if_pos (hA _ (List.getElem_mem hi))]
      exact ih₁ (by omega) (by omega) hAhigh hhigh
    · rw [List.getElem_append_right hi, if_neg (not_lt.2 (hB _ (List.getElem_mem _)))]
      exact ih₂ hlow hlowA (by omega) (by omega)
  | case2 low high hgt =>
    rw [keyIndexLoop, dif_neg hgt]
    congr
    omega

/-- `KeyIndex` is the number of smaller keys. -/
lemma Holds.keyIndex_eq (hp : p.Holds (A ++ B)) (hfits : FitsBelow f (A ++ B).length)
    (hA : ∀ x ∈ A, x.1 < key) (hB : ∀ x ∈ B, key ≤ x.1) : p.keyIndex f key = some A.length := by
  have hsize := hp.size_eq
  rw [List.length_append] at hsize
  apply hp.keyIndexLoop_eq hfits hA hB
  · exact le_refl 0
  · omega
  · omega
  · rw [List.length_append]
    omega

/-- A sorted list is cut at a key. -/
lemma exists_cut (hes : es.Pairwise fun x y => x.1 < y.1) (key : K) :
    ∃ A B, es = A ++ B ∧ (∀ x ∈ A, x.1 < key) ∧ ∀ x ∈ B, key ≤ x.1 := by
  induction es with
  | nil => exact ⟨[], [], rfl, by simp, by simp⟩
  | cons y es ih =>
    rw [List.pairwise_cons] at hes
    rcases lt_or_ge y.1 key with hlt | hge
    · obtain ⟨A, B, rfl, hA, hB⟩ := ih hes.2
      refine ⟨y :: A, B, rfl, ?_, hB⟩
      intro x hx
      rcases List.mem_cons.1 hx with rfl | hx
      · exact hlt
      · exact hA x hx
    · refine ⟨[], y :: es, rfl, by simp, ?_⟩
      intro x hx
      rcases List.mem_cons.1 hx with rfl | hx
      · exact hge
      · exact (hge.trans_lt (hes.1 x hx)).le

/-- A sorted list has an entry for the key, or a place for it. -/
lemma cut_cases (hes : es.Pairwise fun x y => x.1 < y.1) (key : K) :
    (∃ A v B, es = A ++ (key, v) :: B ∧ (∀ x ∈ A, x.1 < key) ∧ ∀ x ∈ B, key < x.1) ∨
    ∃ A B, es = A ++ B ∧ (∀ x ∈ A, x.1 < key) ∧ ∀ x ∈ B, key < x.1 := by
  obtain ⟨A, B, rfl, hA, hB⟩ := exists_cut hes key
  cases B with
  | nil => exact .inr ⟨A, [], rfl, hA, by simp⟩
  | cons y B =>
    have hsorted := (List.pairwise_append.1 hes).2.1
    rw [List.pairwise_cons] at hsorted
    rcases (hB y (by simp)).lt_or_eq with hlt | heq
    · refine .inr ⟨A, y :: B, rfl, hA, ?_⟩
      intro x hx
      rcases List.mem_cons.1 hx with rfl | hx
      · exact hlt
      · exact hlt.trans (hsorted.1 x hx)
    · obtain ⟨k, v⟩ := y
      obtain rfl : key = k := heq
      exact .inl ⟨A, v, B, rfl, hA, fun x hx => hsorted.1 x hx⟩

/-- The key is in the leaf. -/
lemma Holds.holdsKey_of_eq {v : V} (hp : p.Holds (A ++ (key, v) :: B))
    (hfits : FitsBelow f (A ++ (key, v) :: B).length) :
    p.holdsKey f key A.length = some true := by
  have hsize := hp.size_eq
  have hlt : A.length < (A ++ (key, v) :: B).length := by simp
  rw [holdsKey, if_pos (by omega), hp.keyAt_eq hfits hlt]
  simp

/-- The key is not in the leaf. -/
lemma Holds.holdsKey_of_lt (hp : p.Holds (A ++ B)) (hfits : FitsBelow f (A ++ B).length)
    (hB : ∀ x ∈ B, key < x.1) : p.holdsKey f key A.length = some false := by
  have hsize := hp.size_eq
  cases B with
  | nil =>
    rw [holdsKey, if_neg]
    rw [hsize, List.append_nil]
    exact lt_irrefl _
  | cons y B =>
    have hlt : A.length < (A ++ y :: B).length := by simp
    have hy : key < y.1 := hB y (by simp)
    rw [holdsKey, if_pos (by omega), hp.keyAt_eq hfits hlt]
    simp [hy]

/-- `Lookup` of a key in the leaf. -/
lemma Holds.lookup_of_eq {v : V} (hp : p.Holds (A ++ (key, v) :: B))
    (hfits : FitsBelow f (A ++ (key, v) :: B).length) (hA : ∀ x ∈ A, x.1 < key)
    (hB : ∀ x ∈ B, key < x.1) : p.lookup f key = some (some v) := by
  have hB' : ∀ x ∈ (key, v) :: B, key ≤ x.1 := by
    simpa using fun a b hab => (hB (a, b) hab).le
  have hlt : A.length < (A ++ (key, v) :: B).length := by simp
  simp [lookup, hp.keyIndex_eq hfits hA hB', hp.holdsKey_of_eq hfits, hp.valueAt_eq hfits hlt]

/-- `Lookup` of a key that is not in the leaf. -/
lemma Holds.lookup_of_lt (hp : p.Holds (A ++ B)) (hfits : FitsBelow f (A ++ B).length)
    (hA : ∀ x ∈ A, x.1 < key) (hB : ∀ x ∈ B, key < x.1) : p.lookup f key = some none := by
  simp [lookup, hp.keyIndex_eq hfits hA fun x hx => (hB x hx).le, hp.holdsKey_of_lt hfits hB]

/-- `Insert` of a key in the leaf changes nothing. -/
lemma Holds.insert_of_eq {v : V} (hp : p.Holds (A ++ (key, v) :: B))
    (hfits : FitsBelow f (A ++ (key, v) :: B).length) (hA : ∀ x ∈ A, x.1 < key)
    (hB : ∀ x ∈ B, key < x.1) (value : V) : p.insert f key value = some p := by
  have hB' : ∀ x ∈ (key, v) :: B, key ≤ x.1 := by
    simpa using fun a b hab => (hB (a, b) hab).le
  simp [insert, hp.keyIndex_eq hfits hA hB', hp.holdsKey_of_eq hfits]

/-- `Insert` of a new key puts it in its place. -/
lemma Holds.insert_of_lt (hp : p.Holds (A ++ B)) (hfits : FitsBelow f ((A ++ B).length + 1))
    (hA : ∀ x ∈ A, x.1 < key) (hB : ∀ x ∈ B, key < x.1) (value : V) :
    ∃ a, p.insert f key value = some { p with array := a, size := (A ++ B).length + 1 } ∧
      Holds { p with array := a, size := (A ++ B).length + 1 } (A ++ (key, value) :: B) := by
  have hfits' := hfits.mono (Nat.le_succ _)
  have hsize := hp.size_eq
  have hlen : (A ++ B).length = A.length + B.length := List.length_append
  obtain ⟨b, hb, hin, hout⟩ := Slots.shiftRight_eq f p.array A.length
    B.length fun i _ hi => hfits i (by omega)
  refine ⟨Function.update b A.length (key, value), ?_, ?_, ?_⟩
  · simp [insert, hp.keyIndex_eq hfits' hA fun x hx => (hB x hx).le, hp.holdsKey_of_lt hfits' hB,
      hb, Slots.set_eq (hfits A.length (by omega)), hsize, hlen]
  · simp
    omega
  · intro i x hx
    rcases lt_trichotomy i A.length with hi | rfl | hi
    · rw [List.getElem?_append_left hi] at hx
      calc Function.update b A.length (key, value) i
          = b i := Function.update_of_ne (by omega) ..
        _ = p.array i := hout i (.inl (by omega))
        _ = x := hp.array_eq i x (by rw [List.getElem?_append_left hi, hx])
    · have hx' : (key, value) = x := by simpa using hx
      exact (Function.update_self ..).trans hx'
    · obtain ⟨j, rfl⟩ : ∃ j, i = A.length + j + 1 := ⟨i - A.length - 1, by omega⟩
      have hx' : B[j]? = some x := by
        rw [List.getElem?_append_right (by omega)] at hx
        simpa [show A.length + j + 1 - A.length = j + 1 by omega] using hx
      have hj : j < B.length := (List.getElem?_eq_some_iff.1 hx').1
      calc Function.update b A.length (key, value) (A.length + j + 1)
          = b (A.length + j + 1) := Function.update_of_ne (by omega) ..
        _ = p.array (A.length + j) := hin _ (by omega) (by omega)
        _ = x := hp.array_eq _ x (by rw [List.getElem?_append_right (by omega)]; simpa using hx')

/-- `Insert` of a new key touches the slot behind the last entry. -/
lemma Holds.insert_eq_none (hp : p.Holds (A ++ B)) (hfits : FitsBelow f (A ++ B).length)
    (hA : ∀ x ∈ A, x.1 < key) (hB : ∀ x ∈ B, key < x.1) (hfull : f (A ++ B).length = false)
    (value : V) : p.insert f key value = none := by
  have hsize := hp.size_eq
  have hlen : (A ++ B).length = A.length + B.length := List.length_append
  have hindex := hp.keyIndex_eq hfits hA fun x hx => (hB x hx).le
  have hholds := hp.holdsKey_of_lt hfits hB
  have harray : ∀ a, Slots.shiftRight f p.array A.length B.length = some a →
      Slots.set f a A.length (key, value) = none := by
    intro a ha
    rw [hlen] at hfull
    cases B with
    | nil => exact Slots.set_eq_none hfull _
    | cons x B =>
      have hlast : f (A.length + B.length + 1) = false := hfull
      cases hget : Slots.get f p.array (A.length + B.length) with
      | none => simp [Slots.shiftRight, hget] at ha
      | some e => simp [Slots.shiftRight, hget, Slots.set_eq_none hlast] at ha
  cases ha : Slots.shiftRight f p.array A.length B.length with
  | none => simp [insert, hindex, hholds, hsize, ha]
  | some a => simp [insert, hindex, hholds, hsize, ha, harray a ha]

/-- `RemoveAndDeleteRecord` of a key in the leaf takes its entry out. -/
lemma Holds.removeAndDeleteRecord_of_eq {v : V} (hp : p.Holds (A ++ (key, v) :: B))
    (hfits : FitsBelow f (A ++ (key, v) :: B).length) (hA : ∀ x ∈ A, x.1 < key)
    (hB : ∀ x ∈ B, key < x.1) :
    ∃ a, p.removeAndDeleteRecord f key =
        some { p with array := a, size := (A ++ B).length } ∧
      Holds { p with array := a, size := (A ++ B).length } (A ++ B) := by
  have hB' : ∀ x ∈ (key, v) :: B, key ≤ x.1 := by
    simpa using fun a b hab => (hB (a, b) hab).le
  have hsize : p.size = A.length + B.length + 1 := by
    rw [hp.size_eq]
    simp
    omega
  have hlen : (A ++ (key, v) :: B).length = A.length + B.length + 1 := by
    simp
    omega
  obtain ⟨b, hb, hin, hout⟩ := Slots.shiftLeft_eq f p.array A.length
    B.length fun i _ hi => hfits i (by omega)
  refine ⟨b, ?_, rfl, ?_⟩
  · simp [removeAndDeleteRecord, hp.keyIndex_eq hfits hA hB', hp.holdsKey_of_eq hfits, hsize, hb]
  · intro i x hx
    rcases lt_or_ge i A.length with hi | hi
    · rw [List.getElem?_append_left hi] at hx
      exact (hout i (.inl hi)).trans (hp.array_eq i x (by rw [List.getElem?_append_left hi, hx]))
    · obtain ⟨j, rfl⟩ := Nat.exists_eq_add_of_le hi
      have hx' : B[j]? = some x := by
        rw [List.getElem?_append_right (by omega)] at hx
        simpa using hx
      have hj : j < B.length := (List.getElem?_eq_some_iff.1 hx').1
      refine (hin _ (by omega) (by omega)).trans (hp.array_eq _ x ?_)
      rw [List.getElem?_append_right (by omega), show A.length + j + 1 - A.length = j + 1 by omega,
        List.getElem?_cons_succ, hx']

/-- `RemoveAndDeleteRecord` of a key that is not in the leaf changes nothing. -/
lemma Holds.removeAndDeleteRecord_of_lt (hp : p.Holds (A ++ B))
    (hfits : FitsBelow f (A ++ B).length) (hA : ∀ x ∈ A, x.1 < key)
    (hB : ∀ x ∈ B, key < x.1) : p.removeAndDeleteRecord f key = some p := by
  simp [removeAndDeleteRecord, hp.keyIndex_eq hfits hA fun x hx => (hB x hx).le,
    hp.holdsKey_of_lt hfits hB]

end BPlusTreeLeafPage

/-! ## Internal pages -/

namespace BPlusTreeInternalPage

variable {K : Type} {f : ℕ → Bool} {p r : BPlusTreeInternalPage K}
  {cs l m A B : List (WithBot K × PageId)} {g g' : WithBot K} {c d : PageId} {key : K}

/-- Slot `i` contains a child with the lower bound of its keys; slot `0` does not have the bound. -/
def Slot (i : ℕ) (e : K × PageId) (x : WithBot K × PageId) : Prop :=
  e.2 = x.2 ∧ (0 < i → (e.1 : WithBot K) = x.1)

/-- A slot may be moved, but not from the front to a place behind it. -/
lemma Slot.move {i j : ℕ} {e : K × PageId} {x : WithBot K × PageId} (h : Slot i e x)
    (hij : 0 < j → 0 < i) : Slot j e x :=
  ⟨h.1, fun hj => h.2 (hij hj)⟩

/-- A slot with a key has it as its lower bound. -/
lemma slot_coe (i : ℕ) (key : K) (c : PageId) : Slot i (key, c) ((key : WithBot K), c) :=
  ⟨rfl, fun _ => rfl⟩

/-- The first slot has any lower bound: its key is not looked at. -/
lemma slot_zero (key : K) (g : WithBot K) (c : PageId) : Slot 0 (key, c) (g, c) :=
  ⟨rfl, fun h => absurd h (lt_irrefl 0)⟩

/-- The page holds the children `cs`, in this order, each with the lower bound of its keys. The
bound of the first child is not in the page. -/
structure Holds (p : BPlusTreeInternalPage K) (cs : List (WithBot K × PageId)) : Prop where
  size_eq : p.size = cs.length
  array_eq : ∀ i x, cs[i]? = some x → Slot i (p.array i) x

/-- The child in a slot. -/
lemma Holds.valueAt_eq (hp : p.Holds cs) (hfits : FitsBelow f cs.length) {i : ℕ}
    (hi : i < cs.length) : p.valueAt f i = some cs[i].2 := by
  simp [valueAt, Slots.get_eq (hfits i hi), (hp.array_eq i _ (List.getElem?_eq_getElem hi)).1]

/-- The key in a slot behind the first one, if this slot fits on the page. -/
lemma Holds.keyAt_of_fits (hp : p.Holds cs) {i : ℕ} (hfits : f i = true) (hi : i < cs.length)
    (hpos : 0 < i) : ∃ k : K, p.keyAt f i = some k ∧ (k : WithBot K) = cs[i].1 :=
  ⟨(p.array i).1, by simp [keyAt, Slots.get_eq hfits],
    (hp.array_eq i _ (List.getElem?_eq_getElem hi)).2 hpos⟩

/-- The key in a slot behind the first one. -/
lemma Holds.keyAt_eq (hp : p.Holds cs) (hfits : FitsBelow f cs.length) {i : ℕ}
    (hi : i < cs.length) (hpos : 0 < i) :
    ∃ k : K, p.keyAt f i = some k ∧ (k : WithBot K) = cs[i].1 :=
  hp.keyAt_of_fits (hfits i hi) hi hpos

/-- The bound of the first child is free. -/
lemma Holds.head (hp : p.Holds ((g, c) :: l)) (g' : WithBot K) : p.Holds ((g', c) :: l) where
  size_eq := hp.size_eq
  array_eq := by
    intro i x hx
    cases i with
    | zero =>
      obtain rfl : (g', c) = x := by simpa using hx
      exact ⟨(hp.array_eq 0 (g, c) rfl).1, fun h => absurd h (lt_irrefl 0)⟩
    | succ i => exact hp.array_eq (i + 1) x (by simpa using hx)

/-- `ValueIndex` of a child that the page lists. -/
lemma Holds.valueIndex_eq (hp : p.Holds (A ++ (g, c) :: B))
    (hfits : FitsBelow f (A ++ (g, c) :: B).length) (hA : ∀ x ∈ A, x.2 ≠ c) :
    p.valueIndex f c = some (some A.length) := by
  have hloop : ∀ n i, i ≤ A.length → A.length < i + n →
      p.valueIndexLoop f c i n = some (some A.length) := by
    intro n
    induction n with
    | zero => omega
    | succ n ih =>
      intro i hi hn
      have hlt : i < (A ++ (g, c) :: B).length := by
        simp
        omega
      rw [valueIndexLoop, hp.valueAt_eq hfits hlt]
      rcases Nat.lt_or_eq_of_le hi with hi | rfl
      · rw [List.getElem_append_left hi]
        simp only [Option.bind_eq_bind, Option.bind_some, if_neg (hA _ (List.getElem_mem hi))]
        exact ih (i + 1) hi (by omega)
      · simp
  apply hloop
  · exact Nat.zero_le _
  · rw [hp.size_eq]
    simp

/-- `PopulateNewRoot`. -/
lemma populateNewRoot_holds (hfits : FitsBelow f 2) (g : WithBot K) (key : K) :
    ∃ a, p.populateNewRoot f c key d = some { p with array := a, size := 2 } ∧
      Holds { p with array := a, size := 2 } [(g, c), ((key : WithBot K), d)] := by
  have h0 := hfits 0 (by omega)
  have h1 := hfits 1 (by omega)
  refine ⟨_, by simp [populateNewRoot, setValueAt, setKeyAt, Slots.set_eq h0,
    Slots.set_eq h1]; rfl, rfl, ?_⟩
  intro i x hx
  match i, hx with
  | 0, hx =>
    obtain rfl : (g, c) = x := by simpa using hx
    simpa using slot_zero _ g c
  | 1, hx =>
    obtain rfl : ((key : WithBot K), d) = x := by simpa using hx
    simpa using slot_coe 1 key d

/-- `SetKeyAt`, of a slot other than the first. -/
lemma Holds.setKeyAt (hp : p.Holds (A ++ (g, c) :: B))
    (hfits : FitsBelow f (A ++ (g, c) :: B).length) (key : K) :
    ∃ a, p.setKeyAt f A.length key = some { p with array := a } ∧
      Holds { p with array := a } (A ++ ((key : WithBot K), c) :: B) := by
  have hlt : A.length < (A ++ (g, c) :: B).length := by simp
  have hc : (p.array A.length).2 = c := (hp.array_eq A.length (g, c) (by simp)).1
  refine ⟨Function.update p.array A.length (key, c), ?_, ?_, ?_⟩
  · simp [BPlusTreeInternalPage.setKeyAt, Slots.set_eq (hfits _ hlt), hc]
  · simpa using hp.size_eq
  · intro i x hx
    dsimp only
    by_cases hi : i = A.length
    · subst hi
      obtain rfl : ((key : WithBot K), c) = x := by simpa using hx
      simpa using slot_coe A.length key c
    · rw [Function.update_of_ne hi]
      refine hp.array_eq i x ?_
      rcases lt_or_gt_of_ne hi with hlt | hgt
      · rwa [List.getElem?_append_left hlt] at hx ⊢
      · obtain ⟨j, rfl⟩ : ∃ j, i = A.length + (j + 1) := ⟨i - A.length - 1, by omega⟩
        simpa [List.getElem?_append_right] using hx

/-- `InsertNodeAfter` lists the new child behind the old one. -/
lemma Holds.insertNodeAfter (hp : p.Holds (A ++ (g, c) :: B))
    (hfits : FitsBelow f ((A ++ (g, c) :: B).length + 1)) (hA : ∀ x ∈ A, x.2 ≠ c) (key : K) :
    ∃ a, p.insertNodeAfter f c key d =
        some { p with array := a, size := (A ++ (g, c) :: B).length + 1 } ∧
      Holds { p with array := a, size := (A ++ (g, c) :: B).length + 1 }
        (A ++ (g, c) :: ((key : WithBot K), d) :: B) := by
  have hlen : (A ++ (g, c) :: B).length = A.length + B.length + 1 := by
    simp
    omega
  have hsize : p.size = A.length + B.length + 1 := hp.size_eq.trans hlen
  have hidx := hp.valueIndex_eq (hfits.mono (Nat.le_succ _)) hA
  obtain ⟨b, hb, hin, hout⟩ := Slots.shiftRight_eq f p.array (A.length + 1)
    B.length fun i _ hi => hfits i (by omega)
  have hsub : A.length + B.length + 1 - (A.length + 1) = B.length := by omega
  refine ⟨Function.update b (A.length + 1) (key, d), ?_, ?_, ?_⟩
  · simp [BPlusTreeInternalPage.insertNodeAfter, hidx, hsize, hsub, hb, setValueAt,
      BPlusTreeInternalPage.setKeyAt, Slots.set_eq (hfits (A.length + 1) (by omega)), hlen]
  · simp
    omega
  · intro i x hx
    dsimp only
    rcases lt_trichotomy i (A.length + 1) with hi | rfl | hi
    · rw [Function.update_of_ne (by omega), hout i (.inl (by omega))]
      refine hp.array_eq i x ?_
      rcases Nat.lt_or_eq_of_le (Nat.le_of_lt_succ hi) with hi | rfl
      · rwa [List.getElem?_append_left hi] at hx ⊢
      · simpa using hx
    · obtain rfl : ((key : WithBot K), d) = x := by simpa using hx
      simpa using slot_coe (A.length + 1) key d
    · obtain ⟨j, rfl⟩ : ∃ j, i = A.length + (j + 1 + 1) := ⟨i - A.length - 2, by omega⟩
      have hx' : B[j]? = some x := by simpa [List.getElem?_append_right] using hx
      have hj : j < B.length := (List.getElem?_eq_some_iff.1 hx').1
      have hshift := hin (A.length + (j + 1)) (by omega) (by omega)
      rw [Function.update_of_ne (by omega), ← Nat.add_assoc, hshift]
      have hslot : Slot (A.length + (j + 1)) (p.array (A.length + (j + 1))) x :=
        hp.array_eq _ x (by simpa [List.getElem?_append_right] using hx')
      exact hslot.move fun _ => by omega

/-- `Remove` takes a child out, unless it is the first. -/
lemma Holds.remove (hp : p.Holds (A ++ (g, c) :: B))
    (hfits : FitsBelow f (A ++ (g, c) :: B).length) (hA : A ≠ []) :
    ∃ a, p.remove f A.length = some { p with array := a, size := (A ++ B).length } ∧
      Holds { p with array := a, size := (A ++ B).length } (A ++ B) := by
  have hpos := List.length_pos_iff.2 hA
  have hlen : (A ++ (g, c) :: B).length = A.length + B.length + 1 := by
    simp
    omega
  have hsize : p.size = A.length + B.length + 1 := hp.size_eq.trans hlen
  obtain ⟨b, hb, hin, hout⟩ := Slots.shiftLeft_eq f p.array A.length
    B.length fun i _ hi => hfits i (by omega)
  refine ⟨b, ?_, rfl, ?_⟩
  · simp [BPlusTreeInternalPage.remove, hsize, hb]
  · intro i x hx
    rcases lt_or_ge i A.length with hi | hi
    · have hslot := hp.array_eq i x (by rwa [List.getElem?_append_left hi] at hx ⊢)
      rwa [← hout i (.inl hi)] at hslot
    · obtain ⟨j, rfl⟩ := Nat.exists_eq_add_of_le hi
      have hx' : B[j]? = some x := by simpa [List.getElem?_append_right] using hx
      have hj : j < B.length := (List.getElem?_eq_some_iff.1 hx').1
      have hslot : Slot (A.length + (j + 1)) (p.array (A.length + (j + 1))) x :=
        hp.array_eq _ x (by simpa [List.getElem?_append_right] using hx')
      rw [← Nat.add_assoc, ← hin _ (by omega) (by omega)] at hslot
      exact hslot.move fun _ => by omega

/-- `RemoveAndReturnOnlyChild`. -/
lemma Holds.removeAndReturnOnlyChild (hp : p.Holds [(g, c)]) (hfits : FitsBelow f 1) :
    p.removeAndReturnOnlyChild f = some (c, { p with size := 0 }) := by
  have hvalue : p.valueAt f 0 = some c := hp.valueAt_eq hfits (by simp)
  simp [BPlusTreeInternalPage.removeAndReturnOnlyChild, hp.size_eq, hvalue]

/-- `MoveAllTo` with the bound of the first child appends the list to that of the recipient. -/
lemma Holds.moveAllTo (hp : p.Holds (((key : WithBot K), c) :: l)) (hr : r.Holds m)
    (hfits : FitsBelow f (m.length + (l.length + 1))) :
    ∃ a, p.moveAllTo f r key =
        some ({ p with size := 0 }, { r with array := a, size := m.length + (l.length + 1) }) ∧
      Holds { r with array := a, size := m.length + (l.length + 1) }
        (m ++ ((key : WithBot K), c) :: l) := by
  have hsize : p.size = l.length + 1 := by simpa using hp.size_eq
  have hvalue := hp.valueAt_eq (hfits.mono (by simp)) (i := 0) (by simp)
  have hm := hfits m.length (by omega)
  obtain ⟨a, ha, hin, hout⟩ := Slots.copyTo_eq f p.array
    (Function.update r.array m.length (key, c)) 1 (m.length + 1) l.length
    (fun i hi => hfits _ (by omega)) fun i hi => hfits _ (by omega)
  refine ⟨a, ?_, ?_, ?_⟩
  · simp [BPlusTreeInternalPage.moveAllTo, BPlusTreeInternalPage.setKeyAt, setValueAt, hsize,
      hr.size_eq, hvalue, Slots.set_eq hm, ha]
  · simp
  · intro i x hx
    dsimp only
    rcases lt_trichotomy i m.length with hi | rfl | hi
    · rw [List.getElem?_append_left hi] at hx
      rw [hout i (.inl (by omega)), Function.update_of_ne (by omega)]
      exact hr.array_eq i x hx
    · obtain rfl : ((key : WithBot K), c) = x := by simpa using hx
      rw [hout _ (.inl (by omega)), Function.update_self]
      exact slot_coe _ key c
    · obtain ⟨j, rfl⟩ : ∃ j, i = m.length + (j + 1) := ⟨i - m.length - 1, by omega⟩
      have hx' : l[j]? = some x := by simpa [List.getElem?_append_right] using hx
      have hj : j < l.length := (List.getElem?_eq_some_iff.1 hx').1
      have hslot : Slot (1 + j) (p.array (1 + j)) x :=
        hp.array_eq _ x (by rw [Nat.add_comm, List.getElem?_cons_succ, hx'])
      rw [show m.length + (j + 1) = m.length + 1 + j by omega, hin j hj]
      exact hslot.move fun _ => by omega

/-- `MoveHalfTo` an empty page cuts the list in two. -/
lemma Holds.moveHalfTo (hp : p.Holds cs) (hr : r.size = 0) (hfits : FitsBelow f cs.length)
    (key : K) :
    ∃ a, p.moveHalfTo f r key =
        some ({ p with size := cs.length / 2 },
          { r with array := a, size := cs.length - cs.length / 2 }) ∧
      Holds { p with size := cs.length / 2 } (cs.take (cs.length / 2)) ∧
      Holds { r with array := a, size := cs.length - cs.length / 2 } (cs.drop (cs.length / 2)) := by
  have hsize := hp.size_eq
  obtain ⟨a, ha, hin, -⟩ := Slots.copyTo_eq f p.array r.array (cs.length / 2) 0
    (cs.length - cs.length / 2) (fun i hi => hfits _ (by omega)) fun i hi => hfits _ (by omega)
  have hsub : cs.length - (cs.length - cs.length / 2) = cs.length / 2 := by omega
  refine ⟨a, ?_, ⟨?_, ?_⟩, ?_, ?_⟩
  · simp [BPlusTreeInternalPage.moveHalfTo, hsize, hr, ha, hsub]
  · simp only [List.length_take]
    omega
  · intro i x hx
    rw [List.getElem?_take] at hx
    split_ifs at hx with hi
    exact hp.array_eq i x hx
  · simp
  · intro i x hx
    rw [List.getElem?_drop] at hx
    have hi : cs.length / 2 + i < cs.length := (List.getElem?_eq_some_iff.1 hx).1
    have hcopy := hin i (by omega)
    rw [Nat.zero_add] at hcopy
    dsimp only
    rw [hcopy]
    exact (hp.array_eq _ x hx).move fun _ => by omega

/-- `MoveFirstToEndOf` with the bound of the first child moves it behind those of the
recipient. -/
lemma Holds.moveFirstToEndOf {x : WithBot K × PageId}
    (hp : p.Holds (((key : WithBot K), c) :: x :: l)) (hr : r.Holds m)
    (hfits : FitsBelow f (l.length + 2)) (hfitsr : FitsBelow f (m.length + 1)) :
    ∃ a b, p.moveFirstToEndOf f r key =
        some ({ p with array := a, size := l.length + 1 },
          { r with array := b, size := m.length + 1 }) ∧
      Holds { p with array := a, size := l.length + 1 } (x :: l) ∧
      Holds { r with array := b, size := m.length + 1 } (m ++ [((key : WithBot K), c)]) := by
  have hsize : p.size = l.length + 2 := by simpa using hp.size_eq
  have hvalue := hp.valueAt_eq hfits (i := 0) (by simp)
  have hvalue' := hp.valueAt_eq hfits (i := 1) (by simp)
  have h0 := hfits 0 (by omega)
  have hm := hfitsr m.length (by omega)
  obtain ⟨a, ha, hin, hout⟩ := Slots.shiftLeft_eq f
    (Function.update p.array 0 ((p.array 0).1, x.2)) 1 l.length fun i _ hi => hfits i (by omega)
  refine ⟨a, Function.update r.array m.length (key, c), ?_, ⟨rfl, ?_⟩, ?_, ?_⟩
  · simp [BPlusTreeInternalPage.moveFirstToEndOf, BPlusTreeInternalPage.setKeyAt, setValueAt,
      hsize, hr.size_eq, hvalue, hvalue', Slots.set_eq h0, Slots.set_eq hm, ha]
  · intro i y hy
    dsimp only
    cases i with
    | zero =>
      obtain rfl : x = y := by simpa using hy
      rw [hout 0 (.inl (by omega)), Function.update_self]
      exact slot_zero _ _ _
    | succ i =>
      have hi : i < l.length := (List.getElem?_eq_some_iff.1 (by simpa using hy)).1
      rw [hin (i + 1) (by omega) (by omega), Function.update_of_ne (by omega)]
      exact (hp.array_eq (i + 1 + 1) y (by simpa using hy)).move fun _ => by omega
  · simp
  · intro i y hy
    dsimp only
    rcases lt_trichotomy i m.length with hi | rfl | hi
    · rw [List.getElem?_append_left hi] at hy
      rw [Function.update_of_ne (by omega)]
      exact hr.array_eq i y hy
    · obtain rfl : ((key : WithBot K), c) = y := by simpa using hy
      rw [Function.update_self]
      exact slot_coe _ key c
    · have hnone : (m ++ [((key : WithBot K), c)])[i]? = none :=
        List.getElem?_eq_none (by simp; omega)
      rw [hnone] at hy
      cases hy

/-- `MoveLastToFrontOf` with the bound of the first child of the recipient moves the last child
in front of it. -/
lemma Holds.moveLastToFrontOf {x : WithBot K × PageId} (hp : p.Holds (l ++ [x]))
    (hr : r.Holds (((key : WithBot K), c) :: m)) (hfits : FitsBelow f (l.length + 1))
    (hfitsr : FitsBelow f (m.length + 2)) :
    ∃ b, p.moveLastToFrontOf f r key =
        some ({ p with size := l.length }, { r with array := b, size := m.length + 2 }) ∧
      Holds { p with size := l.length } l ∧
      Holds { r with array := b, size := m.length + 2 } (x :: ((key : WithBot K), c) :: m) := by
  have hsize : p.size = l.length + 1 := by simpa using hp.size_eq
  have hsizer : r.size = m.length + 1 := by simpa using hr.size_eq
  have hvalue : p.valueAt f l.length = some x.2 := by
    simpa using hp.valueAt_eq (by simpa using hfits) (i := l.length) (by simp)
  have h0 := hfitsr 0 (by omega)
  have h1 := hfitsr 1 (by omega)
  obtain ⟨b, hb, hin, hout⟩ := Slots.shiftRight_eq f r.array 0 (m.length + 1)
    fun i _ hi => hfitsr i (by omega)
  have hc : (b 1).2 = c := by
    rw [hin 0 (by omega) (by omega)]
    exact (hr.array_eq 0 _ rfl).1
  refine ⟨Function.update (Function.update b 0 ((b 0).1, x.2)) 1 (key, c), ?_, ⟨rfl, ?_⟩, ?_, ?_⟩
  · simp [BPlusTreeInternalPage.moveLastToFrontOf, BPlusTreeInternalPage.setKeyAt, setValueAt,
      hsize, hsizer, hb, hvalue, Slots.set_eq h0, Slots.set_eq h1, hc]
  · intro i y hy
    dsimp only
    have hi : i < l.length := (List.getElem?_eq_some_iff.1 hy).1
    exact hp.array_eq i y (by rw [List.getElem?_append_left hi, hy])
  · simp
  · intro i y hy
    dsimp only
    match i, hy with
    | 0, hy =>
      obtain rfl : x = y := by simpa using hy
      rw [Function.update_of_ne (by omega), Function.update_self]
      exact slot_zero _ _ _
    | 1, hy =>
      obtain rfl : ((key : WithBot K), c) = y := by simpa using hy
      rw [Function.update_self]
      exact slot_coe 1 key c
    | i + 2, hy =>
      have hi : i < m.length := (List.getElem?_eq_some_iff.1 (by simpa using hy)).1
      rw [Function.update_of_ne (by omega), Function.update_of_ne (by omega),
        hin (i + 1) (by omega) (by omega)]
      exact (hr.array_eq (i + 1) y (by simpa using hy)).move fun _ => by omega

/-! ### The search in an internal page -/

variable [LinearOrder K]

/-- The loop of `Lookup` narrows down to the last child whose bound is not above the key. -/
lemma Holds.lookupLoop_eq (hp : p.Holds (A ++ (g, c) :: B))
    (hfits : ∀ i < (A ++ (g, c) :: B).length, 0 < i → f i = true)
    (hA : ∀ x ∈ A, x.1 ≤ (key : WithBot K))
    (hg : g ≤ (key : WithBot K)) (hB : ∀ x ∈ B, (key : WithBot K) < x.1) (low high : ℤ) (index : ℕ)
    (hlow : low = index + 1) (hindex : index ≤ A.length) (hAhigh : A.length ≤ high)
    (hhigh : high < (A ++ (g, c) :: B).length) :
    p.lookupLoop f key low high index = some A.length := by
  induction low, high, index using lookupLoop.induct with
  | case1 low high index hle mid ih₁ ih₂ =>
    have hmid : low ≤ mid ∧ mid ≤ high := by omega
    have hlt : mid.toNat < (A ++ (g, c) :: B).length := by omega
    obtain ⟨k, hk, hkeq⟩ := hp.keyAt_of_fits (hfits _ hlt (by omega)) hlt (by omega)
    rw [lookupLoop, dif_pos hle]
    change (p.keyAt f mid.toNat).bind (fun k => if key < k then p.lookupLoop f key low
      (mid - 1) index else p.lookupLoop f key (mid + 1) high mid.toNat) = some A.length
    rw [hk, Option.bind_some]
    rcases Nat.lt_or_ge A.length mid.toNat with hi | hi
    · have hk' : key < k := by
        have hmem : (A ++ (g, c) :: B)[mid.toNat] ∈ B := by
          obtain ⟨j, hj⟩ : ∃ j, mid.toNat = A.length + (j + 1) := ⟨mid.toNat - A.length - 1, by omega⟩
          simp [hj, List.getElem_append_right]
        have hlt := hB _ hmem
        rw [← hkeq] at hlt
        exact WithBot.coe_lt_coe.1 hlt
      rw [if_pos hk']
      exact ih₁ hlow hindex (by omega) (by omega)
    · have hk' : k ≤ key := by
        have hle : (A ++ (g, c) :: B)[mid.toNat].1 ≤ (key : WithBot K) := by
          rcases Nat.lt_or_eq_of_le hi with hi | hi
          · rw [List.getElem_append_left hi]
            exact hA _ (List.getElem_mem hi)
          · simpa [hi] using hg
        rw [← hkeq] at hle
        exact WithBot.coe_le_coe.1 hle
      rw [if_neg (not_lt.2 hk')]
      exact ih₂ (by omega) hi hAhigh hhigh
  | case2 low high index hgt =>
    rw [lookupLoop, dif_neg hgt]
    congr
    omega

/-- `Lookup` is the last child whose bound is not above the key. -/
lemma Holds.lookup_eq (hp : p.Holds (A ++ (g, c) :: B))
    (hfits : FitsBelow f (A ++ (g, c) :: B).length) (hA : ∀ x ∈ A, x.1 ≤ (key : WithBot K))
    (hg : g ≤ (key : WithBot K)) (hB : ∀ x ∈ B, (key : WithBot K) < x.1) :
    p.lookup f key = some c := by
  have hsize := hp.size_eq
  have hlen : A.length < (A ++ (g, c) :: B).length := by simp
  have hloop := hp.lookupLoop_eq (fun i hi _ => hfits i hi) hA hg hB 1 (p.size - 1) 0 (by simp)
    (Nat.zero_le _)
    (by omega) (by omega)
  have hvalue := hp.valueAt_eq hfits hlen
  simpa [lookup, hloop] using hvalue

end BPlusTreeInternalPage

end OneBase
