import OneBase.Storage.Page.BPlusTreePageSpec
import Mathlib.Data.Nat.Find
import Mathlib.Order.Bounds.Defs

set_option relaxedAutoImplicit false
set_option autoImplicit false

/-!
# The contents of the pages of a B+ tree

A leaf read as the list of its entries, and an internal page as the sequence of its children with
the keys between them, whatever stands in the slots. Splitting, merging and balancing two pages moves
the cut between their contents, and the binary searches find the right place in them.

## Main definitions

* `OneBase.BPlusTreeLeafPage.entries`, `OneBase.BPlusTreeInternalPage.sequence` — the contents.
* `OneBase.slotsBelow` — the slots that a method may touch.

## Main results

* `OneBase.moves_keep_contents` — nothing is lost or reordered between two pages.
* `OneBase.page_searches_exact` — what the searches find, and what `Insert` and
  `RemoveAndDeleteRecord` make of a leaf.
-/

namespace OneBase

/-- Only the slots below `n` may be touched. -/
def slotsBelow (n i : ℕ) : Bool := decide (i < n)

/-- A page of `n` slots has room for up to `n` of them. -/
lemma fitsBelow_slotsBelow {m n : ℕ} (hmn : m ≤ n) : FitsBelow (slotsBelow n) m :=
  fun i hi => decide_eq_true (by omega)

/-! ## Leaf pages -/

namespace BPlusTreeLeafPage

variable {K V : Type} {p : BPlusTreeLeafPage K V} {es : List (K × V)}

/-- The entries, in the order of the slots. -/
def entries (p : BPlusTreeLeafPage K V) : List (K × V) := (List.range p.size).map p.array

/-- A leaf has as many entries as it counts. -/
@[simp] lemma length_entries (p : BPlusTreeLeafPage K V) : p.entries.length = p.size := by
  simp [entries]

/-- Every page holds its entries. -/
lemma holds_entries (p : BPlusTreeLeafPage K V) : p.Holds p.entries where
  size_eq := by simp
  array_eq := by
    intro i x hx
    rw [entries, List.getElem?_map, Option.map_eq_some_iff] at hx
    obtain ⟨j, hj, rfl⟩ := hx
    obtain ⟨-, rfl⟩ := List.getElem?_eq_some_iff.1 hj
    rw [List.getElem_range]

/-- The entries are what the page holds. -/
lemma Holds.entries_eq (h : p.Holds es) : p.entries = es := by
  refine List.ext_getElem (by simp [h.size_eq]) fun i hi hi' => ?_
  simp [entries, h.array_getElem hi']

/-! ### Moving entries -/

section Moves

variable {r : BPlusTreeLeafPage K V}

/-- `MoveHalfTo` moves entries to the empty page behind. -/
lemma moveHalfTo_entries (p : BPlusTreeLeafPage K V) (hr : r.size = 0) :
    ∃ p' r', p.moveHalfTo (slotsBelow p.size) r = some (p', r') ∧
      p'.entries ++ r'.entries = p.entries ++ r.entries := by
  obtain ⟨a, ha, hleft, hright⟩ := p.holds_entries.moveHalfTo (r := r)
    (fitsBelow_slotsBelow p.length_entries.le)
  have hnil : r.entries = [] := List.length_eq_zero_iff.1 (by simp [hr])
  refine ⟨_, _, ha, ?_⟩
  rw [hleft.entries_eq, hright.entries_eq, List.take_append_drop, hnil, List.append_nil]

/-- `MoveAllTo` moves all entries to the page before. -/
lemma moveAllTo_entries (p r : BPlusTreeLeafPage K V) :
    ∃ p' r', p.moveAllTo (slotsBelow (r.size + p.size)) r = some (p', r') ∧
      r'.entries ++ p'.entries = r.entries ++ p.entries := by
  obtain ⟨a, ha, hright⟩ := p.holds_entries.moveAllTo (f := slotsBelow (r.size + p.size))
    r.holds_entries (fitsBelow_slotsBelow (by simp))
  refine ⟨_, _, ha, ?_⟩
  rw [hright.entries_eq]
  exact List.append_nil _

/-- `MoveFirstToEndOf` moves an entry to the page before. -/
lemma moveFirstToEndOf_entries (hp : 1 ≤ p.size) (r : BPlusTreeLeafPage K V) :
    ∃ p' r', p.moveFirstToEndOf (slotsBelow (max p.size (r.size + 1))) r = some (p', r') ∧
      r'.entries ++ p'.entries = r.entries ++ p.entries := by
  obtain ⟨x, l, hl⟩ := List.exists_cons_of_length_pos (hp.trans_eq p.length_entries.symm)
  have hlen : l.length + 1 = p.size := by
    rw [← p.length_entries, hl]
    rfl
  have hholds := p.holds_entries
  rw [hl] at hholds
  obtain ⟨a, b, hab, hright, hleft⟩ := hholds.moveFirstToEndOf
    (f := slotsBelow (max p.size (r.size + 1))) r.holds_entries
    (fitsBelow_slotsBelow (by omega)) (fitsBelow_slotsBelow (by simp))
  refine ⟨_, _, hab, ?_⟩
  rw [hleft.entries_eq, hright.entries_eq, hl]
  simp

/-- `MoveLastToFrontOf` moves an entry to the page behind. -/
lemma moveLastToFrontOf_entries (hp : 1 ≤ p.size) (r : BPlusTreeLeafPage K V) :
    ∃ p' r', p.moveLastToFrontOf (slotsBelow (max p.size (r.size + 1))) r = some (p', r') ∧
      p'.entries ++ r'.entries = p.entries ++ r.entries := by
  obtain ⟨l, x, hl⟩ := (List.eq_nil_or_concat' p.entries).resolve_left
    (List.ne_nil_of_length_pos (hp.trans_eq p.length_entries.symm))
  have hlen : l.length + 1 = p.size := by
    rw [← p.length_entries, hl]
    simp
  have hholds := p.holds_entries
  rw [hl] at hholds
  obtain ⟨b, hb, hleft, hright⟩ := hholds.moveLastToFrontOf
    (f := slotsBelow (max p.size (r.size + 1))) r.holds_entries
    (fitsBelow_slotsBelow (by omega)) (fitsBelow_slotsBelow (by simp))
  refine ⟨_, _, hb, ?_⟩
  rw [hleft.entries_eq, hright.entries_eq, hl]
  simp

end Moves

/-! ### The search in a leaf -/

section Searches

variable [LinearOrder K] {key : K}

/-- `KeyIndex` reads the slots of the leaf only, and counts the smaller keys. -/
lemma keyIndex_eq_countP (hp : p.entries.Pairwise fun x y => x.1 < y.1) (key : K) :
    p.keyIndex (slotsBelow p.size) key =
      some (p.entries.countP fun e => decide (e.1 < key)) := by
  obtain ⟨A, B, hcut, hA, hB⟩ := exists_cut hp key
  have hholds := p.holds_entries
  have hlen := p.length_entries
  rw [hcut] at hholds hlen ⊢
  have hcountA : A.countP (fun e => decide (e.1 < key)) = A.length :=
    List.countP_eq_length.2 fun e he => decide_eq_true (hA e he)
  have hcountB : B.countP (fun e => decide (e.1 < key)) = 0 :=
    List.countP_eq_zero.2 fun e he => by simpa using hB e he
  rw [hholds.keyIndex_eq (fitsBelow_slotsBelow hlen.le) hA hB, List.countP_append, hcountA, hcountB,
    Nat.add_zero]

/-- What stands for a key that is in the leaf. -/
lemma mem_cut_iff {A B : List (K × V)} {v : V} (hA : ∀ x ∈ A, x.1 < key) (hB : ∀ x ∈ B, key < x.1)
    (v' : V) : (key, v') ∈ A ++ (key, v) :: B ↔ v' = v := by
  rw [List.mem_append, List.mem_cons]
  constructor
  · rintro (hmem | heq | hmem)
    · exact absurd (hA _ hmem) (lt_irrefl key)
    · exact (Prod.mk.inj heq).2
    · exact absurd (hB _ hmem) (lt_irrefl key)
  · rintro rfl
    exact .inr (.inl rfl)

/-- Nothing stands for a key that is not in the leaf. -/
lemma notMem_cut {A B : List (K × V)} (hA : ∀ x ∈ A, x.1 < key) (hB : ∀ x ∈ B, key < x.1) (v : V) :
    (key, v) ∉ A ++ B := by
  intro hmem
  rcases List.mem_append.1 hmem with hmem | hmem
  · exact lt_irrefl key (hA _ hmem)
  · exact lt_irrefl key (hB _ hmem)

/-- `Lookup` finds the value of the key, if there is one. -/
lemma exists_lookup (hp : p.entries.Pairwise fun x y => x.1 < y.1) (key : K) :
    ∃ r, p.lookup (slotsBelow p.size) key = some r ∧ ∀ v, r = some v ↔ (key, v) ∈ p.entries := by
  have hholds := p.holds_entries
  have hfits := fitsBelow_slotsBelow p.length_entries.le
  rcases cut_cases hp key with ⟨A, v, B, hcut, hA, hB⟩ | ⟨A, B, hcut, hA, hB⟩
  · rw [hcut] at hholds hfits ⊢
    refine ⟨some v, hholds.lookup_of_eq hfits hA hB, fun v' => ?_⟩
    rw [mem_cut_iff hA hB, Option.some.injEq]
    exact eq_comm
  · rw [hcut] at hholds hfits ⊢
    refine ⟨none, hholds.lookup_of_lt hfits hA hB, fun v => ?_⟩
    exact ⟨fun h => (by cases h), fun h => absurd h (notMem_cut hA hB v)⟩

/-- `Insert` changes nothing if the key is there, and puts the entry in its place otherwise. -/
lemma exists_insert (hp : p.entries.Pairwise fun x y => x.1 < y.1) (key : K) (value : V) :
    ∃ q, p.insert (slotsBelow (p.size + 1)) key value = some q ∧
      q.entries.Pairwise (fun x y => x.1 < y.1) ∧
      ((∃ v, (key, v) ∈ p.entries) → q = p) ∧
      ((∀ v, (key, v) ∉ p.entries) →
        ∃ A B, p.entries = A ++ B ∧ q.entries = A ++ (key, value) :: B) := by
  have hholds := p.holds_entries
  have hlen := p.length_entries
  rcases cut_cases hp key with ⟨A, v, B, hcut, hA, hB⟩ | ⟨A, B, hcut, hA, hB⟩
  · have hmem : (key, v) ∈ p.entries := by
      rw [hcut]
      exact (mem_cut_iff hA hB v).2 rfl
    refine ⟨p, ?_, hp, fun _ => rfl, fun hnot => absurd hmem (hnot v)⟩
    rw [hcut] at hholds hlen
    exact hholds.insert_of_eq (fitsBelow_slotsBelow (hlen.le.trans (Nat.le_succ _))) hA hB value
  · have hnot : ∀ v, (key, v) ∉ p.entries := by
      rw [hcut]
      exact notMem_cut hA hB
    rw [hcut] at hholds hlen
    obtain ⟨a, ha, hq⟩ := hholds.insert_of_lt
      (fitsBelow_slotsBelow (Nat.succ_le_succ hlen.le)) hA hB value
    refine ⟨_, ha, ?_, fun ⟨v, hmem⟩ => absurd hmem (hnot v), fun _ => ⟨A, B, hcut, hq.entries_eq⟩⟩
    rw [hq.entries_eq]
    rw [hcut, List.pairwise_append] at hp
    refine List.pairwise_append.2 ⟨hp.1, hp.2.1.cons hB, fun x hx y hy => ?_⟩
    rcases List.mem_cons.1 hy with rfl | hy
    · exact hA x hx
    · exact hp.2.2 x hx y hy

/-- `RemoveAndDeleteRecord` takes out the entry of the key. -/
lemma exists_removeAndDeleteRecord (hp : p.entries.Pairwise fun x y => x.1 < y.1) (key : K) :
    ∃ q, p.removeAndDeleteRecord (slotsBelow p.size) key = some q ∧
      q.entries = p.entries.filter fun e => decide (e.1 ≠ key) := by
  have hholds := p.holds_entries
  have hfits := fitsBelow_slotsBelow p.length_entries.le
  have hkeep : ∀ {l : List (K × V)}, (∀ x ∈ l, x.1 ≠ key) →
      l.filter (fun e => decide (e.1 ≠ key)) = l := fun hl =>
    List.filter_eq_self.2 fun x hx => decide_eq_true (hl x hx)
  rcases cut_cases hp key with ⟨A, v, B, hcut, hA, hB⟩ | ⟨A, B, hcut, hA, hB⟩
  · rw [hcut] at hholds hfits ⊢
    obtain ⟨a, ha, hq⟩ := hholds.removeAndDeleteRecord_of_eq hfits hA hB
    refine ⟨_, ha, ?_⟩
    rw [hq.entries_eq, List.filter_append, List.filter_cons_of_neg (by simp),
      hkeep fun x hx => (hA x hx).ne, hkeep fun x hx => (hB x hx).ne']
  · rw [hcut] at hholds hfits
    refine ⟨p, hholds.removeAndDeleteRecord_of_lt hfits hA hB, ?_⟩
    rw [hcut, List.filter_append, hkeep fun x hx => (hA x hx).ne, hkeep fun x hx => (hB x hx).ne']

end Searches

end BPlusTreeLeafPage

/-! ## Internal pages -/

namespace BPlusTreeInternalPage

variable {K : Type} {p : BPlusTreeInternalPage K} {g : WithBot K} {c : PageId}
  {l m : List (K × PageId)}

/-- The children with the keys between them; slot `0` has no key. -/
def sequence (p : BPlusTreeInternalPage K) : List (PageId ⊕ K) :=
  (List.range p.size).flatMap fun i =>
    if i = 0 then [.inl (p.array i).2] else [.inr (p.array i).1, .inl (p.array i).2]

/-- The slots behind the first one, as bounds of children. -/
def bounds (l : List (K × PageId)) : List (WithBot K × PageId) := l.map fun e => (↑e.1, e.2)

/-- The slots behind the first one, as keys and children in turn. -/
def steps (l : List (K × PageId)) : List (PageId ⊕ K) := l.flatMap fun e => [.inr e.1, .inl e.2]

/-- There are as many bounds as slots. -/
@[simp] lemma length_bounds : (bounds l).length = l.length := List.length_map _

/-- The bound of the first slot comes first. -/
@[simp] lemma bounds_cons (e : K × PageId) : bounds (e :: l) = (↑e.1, e.2) :: bounds l := rfl

/-- The bounds of two rows of slots. -/
@[simp] lemma bounds_append : bounds (l ++ m) = bounds l ++ bounds m := List.map_append

/-- No slots, no keys and children. -/
@[simp] lemma steps_nil : steps ([] : List (K × PageId)) = [] := rfl

/-- The first key and the first child come first. -/
@[simp] lemma steps_cons (e : K × PageId) : steps (e :: l) = .inr e.1 :: .inl e.2 :: steps l := rfl

/-- The keys and children of two rows of slots. -/
@[simp] lemma steps_append : steps (l ++ m) = steps l ++ steps m := List.flatMap_append

/-- The sequence of the children that a page holds. -/
lemma Holds.sequence_eq (h : p.Holds ((g, c) :: bounds l)) : p.sequence = .inl c :: steps l := by
  have hsize : p.size = l.length + 1 := by simpa using h.size_eq
  have hfirst : (p.array 0).2 = c := (h.array_eq 0 (g, c) rfl).1
  have hslots : (List.range l.length).map (fun i => p.array (i + 1)) = l := by
    refine List.ext_getElem (by simp) fun i hi hi' => ?_
    have hslot := h.array_eq (i + 1) (↑l[i].1, l[i].2) (by simp [bounds, hi'])
    rw [List.getElem_map, List.getElem_range]
    exact Prod.ext (WithBot.coe_inj.1 (hslot.2 (Nat.succ_pos i))) hslot.1
  rw [sequence, hsize, List.range_succ_eq_map, List.flatMap_cons, List.flatMap_map, if_pos rfl, hfirst]
  unfold steps
  rw [← hslots, List.flatMap_map]
  simp

/-- A page that is not empty has a first child, and holds its slots. -/
lemma exists_holds (hp : 1 ≤ p.size) : ∃ c l, p.size = List.length l + 1 ∧
    p.sequence = .inl c :: steps l ∧ ∀ g, p.Holds ((g, c) :: bounds l) := by
  have hholds : ∀ g, p.Holds ((g, (p.array 0).2) ::
      bounds ((List.range (p.size - 1)).map fun i => p.array (i + 1))) := by
    intro g
    refine ⟨by simp; omega, ?_⟩
    intro i x hx
    cases i with
    | zero =>
      obtain rfl : (g, (p.array 0).2) = x := by simpa using hx
      exact ⟨rfl, fun h => absurd h (lt_irrefl 0)⟩
    | succ i =>
      simp only [bounds, List.map_map, List.getElem?_cons_succ, List.getElem?_map,
        Option.map_eq_some_iff] at hx
      obtain ⟨j, hj, rfl⟩ := hx
      obtain ⟨-, rfl⟩ := List.getElem?_eq_some_iff.1 hj
      rw [List.getElem_range]
      exact ⟨rfl, fun _ => rfl⟩
  exact ⟨_, _, by simp; omega, (hholds ⊥).sequence_eq, hholds⟩

/-! ### Moving children -/

section Moves

variable {r : BPlusTreeInternalPage K}

/-- The key that goes up stands between the two halves. -/
lemma moveHalfTo_sequence (hp : 2 ≤ p.size) (hr : r.size = 0) :
    ∃ key p' r', p.keyAt (slotsBelow p.size) (p.size / 2) = some key ∧
      p.moveHalfTo (slotsBelow p.size) r key = some (p', r') ∧
      p'.sequence ++ .inr key :: r'.sequence = p.sequence := by
  obtain ⟨c, l, hsize, hseq, hholds⟩ := exists_holds (p := p) (by omega)
  obtain ⟨n, hn⟩ : ∃ n, p.size / 2 = n + 1 := ⟨p.size / 2 - 1, by omega⟩
  obtain ⟨xs, ⟨key, d⟩, ys, rfl, rfl⟩ := exists_append_cons (l := l) (i := n) (by omega)
  have hlen : ((⊥, c) :: bounds (xs ++ (key, d) :: ys)).length = p.size := by simp [hsize]
  have hfits := fitsBelow_slotsBelow hlen.le
  obtain ⟨k, hk, hkey⟩ := (hholds ⊥).keyAt_eq hfits (i := p.size / 2) (by omega) (by omega)
  obtain rfl : k = key := by
    rw [← WithBot.coe_inj, hkey]
    simp [hn, bounds]
  obtain ⟨a, ha, hleft, hright⟩ := (hholds ⊥).moveHalfTo hr hfits k
  rw [hlen, hn] at ha hleft hright
  have htake : ((⊥, c) :: bounds (xs ++ (k, d) :: ys)).take (xs.length + 1) =
      (⊥, c) :: bounds xs := by
    simp [bounds]
  have hdrop : ((⊥, c) :: bounds (xs ++ (k, d) :: ys)).drop (xs.length + 1) =
      (↑k, d) :: bounds ys := by
    simp [bounds]
  rw [htake] at hleft
  rw [hdrop] at hright
  refine ⟨k, _, _, hk, ha, ?_⟩
  rw [hleft.sequence_eq, hright.sequence_eq, hseq]
  simp

/-- The separator stands between the two pages. -/
lemma moveAllTo_sequence (hp : 1 ≤ p.size) (hr : 1 ≤ r.size) (key : K) :
    ∃ p' r', p.moveAllTo (slotsBelow (r.size + p.size)) r key = some (p', r') ∧ p'.size = 0 ∧
      r'.sequence = r.sequence ++ .inr key :: p.sequence := by
  obtain ⟨c, l, hsize, hseq, hholds⟩ := exists_holds hp
  obtain ⟨d, m, hsizer, hseqr, hholdsr⟩ := exists_holds hr
  obtain ⟨a, ha, hleft⟩ := (hholds (key : WithBot K)).moveAllTo
    (f := slotsBelow (r.size + p.size)) (hholdsr ⊥) (fitsBelow_slotsBelow (by simp; omega))
  rw [List.cons_append, ← bounds_cons (key, c), ← bounds_append] at hleft
  refine ⟨_, _, ha, rfl, ?_⟩
  rw [hleft.sequence_eq, hseq, hseqr]
  simp

/-- The key that goes up takes the place of the separator. -/
lemma moveFirstToEndOf_sequence (hp : 2 ≤ p.size) (hr : 1 ≤ r.size) (key : K) :
    ∃ key' p' r', p.keyAt (slotsBelow (max p.size (r.size + 1))) 1 = some key' ∧
      p.moveFirstToEndOf (slotsBelow (max p.size (r.size + 1))) r key = some (p', r') ∧
      r'.sequence ++ .inr key' :: p'.sequence = r.sequence ++ .inr key :: p.sequence := by
  obtain ⟨c, l, hsize, hseq, hholds⟩ := exists_holds (p := p) (by omega)
  obtain ⟨d, m, hsizer, hseqr, hholdsr⟩ := exists_holds hr
  obtain ⟨⟨key', c'⟩, l, rfl⟩ := List.exists_cons_of_length_pos (l := l) (by omega)
  rw [List.length_cons] at hsize
  have hfits := fitsBelow_slotsBelow (le_max_left p.size (r.size + 1))
  obtain ⟨k, hk, hkey⟩ :=
    (hholds ⊥).keyAt_eq (i := 1) (hfits.mono (by simp; omega)) (by simp) (by omega)
  obtain rfl : k = key' := by
    rw [← WithBot.coe_inj, hkey]
    rfl
  obtain ⟨a, b, hab, hright, hleft⟩ := (hholds (key : WithBot K)).moveFirstToEndOf (hholdsr ⊥)
    (hfits.mono (by simp; omega)) (fitsBelow_slotsBelow (by simp; omega))
  rw [List.cons_append, show [((key : WithBot K), c)] = bounds [(key, c)] from rfl,
    ← bounds_append] at hleft
  refine ⟨k, _, _, hk, hab, ?_⟩
  rw [hleft.sequence_eq, hright.sequence_eq, hseq, hseqr]
  simp

/-- The same, in the other direction. -/
lemma moveLastToFrontOf_sequence (hp : 2 ≤ p.size) (hr : 1 ≤ r.size) (key : K) :
    ∃ key' p' r', p.keyAt (slotsBelow (max p.size (r.size + 1))) (p.size - 1) = some key' ∧
      p.moveLastToFrontOf (slotsBelow (max p.size (r.size + 1))) r key = some (p', r') ∧
      p'.sequence ++ .inr key' :: r'.sequence = p.sequence ++ .inr key :: r.sequence := by
  obtain ⟨c, l, hsize, hseq, hholds⟩ := exists_holds (p := p) (by omega)
  obtain ⟨d, m, hsizer, hseqr, hholdsr⟩ := exists_holds hr
  obtain ⟨l, ⟨key', c'⟩, rfl⟩ := (List.eq_nil_or_concat' l).resolve_left
    (List.ne_nil_of_length_pos (by omega))
  rw [List.length_append, List.length_singleton] at hsize
  have hfits := fitsBelow_slotsBelow (le_max_left p.size (r.size + 1))
  obtain ⟨k, hk, hkey⟩ := (hholds ⊥).keyAt_eq (i := p.size - 1) (hfits.mono (by simp; omega))
    (by simp; omega) (by omega)
  obtain rfl : k = key' := by
    rw [← WithBot.coe_inj, hkey]
    simp [hsize]
  have hlist : (⊥, c) :: bounds (l ++ [(k, c')]) = ((⊥, c) :: bounds l) ++ [((k : WithBot K), c')] := by
    simp [bounds]
  have hholds' := hholds ⊥
  rw [hlist] at hholds'
  obtain ⟨b, hb, hleft, hright⟩ := hholds'.moveLastToFrontOf (hholdsr (key : WithBot K))
    (hfits.mono (by simp; omega)) (fitsBelow_slotsBelow (by simp; omega))
  refine ⟨k, _, _, hk, hb, ?_⟩
  rw [← bounds_cons (key, d)] at hright
  rw [hleft.sequence_eq, hright.sequence_eq, hseq, hseqr]
  simp

end Moves

/-! ### The search in an internal page -/

section Searches

variable [LinearOrder K] {key : K}

/-- The child of a key: the last one whose key is not above it. -/
lemma exists_isGreatest (hp : 1 ≤ p.size) (key : K) :
    ∃ i, IsGreatest {i | i < p.size ∧ (i = 0 ∨ (p.array i).1 ≤ key)} i := by
  let below : ℕ → Prop := fun i => i = 0 ∨ (p.array i).1 ≤ key
  have hspec : below (Nat.findGreatest below (p.size - 1)) :=
    Nat.findGreatest_spec (Nat.zero_le _) (.inl rfl)
  have hle := Nat.findGreatest_le (P := below) (p.size - 1)
  refine ⟨_, ⟨by omega, hspec⟩, fun i hi => Nat.le_findGreatest ?_ hi.2⟩
  have hlt := hi.1
  omega

/-- `Lookup` finds the child of the key. Its loop reads the keys `1, ..., n - 1` only. -/
lemma lookup_isGreatest (hp : 1 ≤ p.size)
    (hkeys : ∀ i j, 1 ≤ i → i < j → j < p.size → (p.array i).1 < (p.array j).1) (key : K) :
    ∃ i, IsGreatest {i | i < p.size ∧ (i = 0 ∨ (p.array i).1 ≤ key)} i ∧
      p.lookupLoop (fun j => decide (1 ≤ j) && slotsBelow p.size j) key 1 (p.size - 1) 0 = some i ∧
      p.lookup (slotsBelow p.size) key = some (p.array i).2 := by
  obtain ⟨c, l, hsize, -, hholds⟩ := exists_holds hp
  have hholds := hholds ⊥
  obtain ⟨i, ⟨hi, hkey⟩, hgreatest⟩ := exists_isGreatest hp key
  have hlen : ((⊥, c) :: bounds l).length = p.size := by simp [hsize]
  -- the bounds of the children are their keys, and `⊥` for the first one
  have hbound : ∀ j x, ((⊥, c) :: bounds l)[j]? = some x →
      j = 0 ∧ x.1 = ⊥ ∨ 0 < j ∧ j < p.size ∧ x.1 = ((p.array j).1 : WithBot K) := by
    intro j x hx
    have hj := (List.getElem?_eq_some_iff.1 hx).1
    rcases Nat.eq_zero_or_pos j with rfl | hpos
    · obtain rfl : ((⊥ : WithBot K), c) = x := by simpa using hx
      exact .inl ⟨rfl, rfl⟩
    · exact .inr ⟨hpos, by omega, ((hholds.array_eq j x hx).2 hpos).symm⟩
  obtain ⟨A, ⟨g, d⟩, B, hcut, hA⟩ := exists_append_cons (l := (⊥, c) :: bounds l) (i := i) (by omega)
  have hleft : ∀ x ∈ A, x.1 ≤ (key : WithBot K) := by
    intro x hx
    obtain ⟨j, hj, rfl⟩ := List.mem_iff_getElem.1 hx
    rcases hbound j A[j] (by rw [hcut, List.getElem?_append_left hj, List.getElem?_eq_getElem hj])
      with ⟨-, hbot⟩ | ⟨hpos, -, heq⟩
    · rw [hbot]
      exact bot_le
    · have hlt := hkeys j i hpos (by omega) hi
      rw [heq]
      exact WithBot.coe_le_coe.2 (hlt.le.trans (hkey.resolve_left (by omega)))
  have hmid : g ≤ (key : WithBot K) := by
    rcases hbound i (g, d) (by rw [hcut]; simp [hA]) with ⟨-, hbot⟩ | ⟨hpos, -, heq⟩
    · exact hbot.trans_le bot_le
    · exact heq.trans_le (WithBot.coe_le_coe.2 (hkey.resolve_left (by omega)))
  have hright : ∀ x ∈ B, (key : WithBot K) < x.1 := by
    intro x hx
    obtain ⟨j, hj, rfl⟩ := List.mem_iff_getElem.1 hx
    have hget : ((⊥, c) :: bounds l)[i + (j + 1)]? = some B[j] := by
      rw [hcut, ← hA, List.getElem?_append_right (by omega)]
      simp [hj]
    obtain ⟨-, hlt, heq⟩ := (hbound _ _ hget).resolve_left fun hzero => by omega
    rw [heq]
    refine WithBot.coe_lt_coe.2 (lt_of_not_ge fun hle => ?_)
    have hge := hgreatest ⟨hlt, .inr hle⟩
    omega
  rw [hcut] at hholds hlen
  refine ⟨i, ⟨⟨hi, hkey⟩, hgreatest⟩, ?_, ?_⟩
  · rw [← hA]
    refine hholds.lookupLoop_eq (fun j hj hpos => ?_) hleft hmid hright 1 (p.size - 1) 0 rfl
      (Nat.zero_le _) (by omega) (by omega)
    have hlt : j < p.size := by omega
    simp [slotsBelow, hlt]
    omega
  · rw [hholds.lookup_eq (fitsBelow_slotsBelow hlen.le) hleft hmid hright, ← hA]
    rw [(hholds.array_eq A.length (g, d) (by simp)).1]

end Searches

end BPlusTreeInternalPage

/-! ## Both kinds of pages -/

/-- **Moving between pages.** Whatever stands in the pages, the methods that move entries or children
from one page to another keep what the two pages contain, and its order. A page that gives its first
or last one away has one, an internal page one more, and internal pages that take one in are not
empty; the slots that are touched are those of the two pages. -/
theorem moves_keep_contents (K V : Type) :
    (∀ p r : BPlusTreeLeafPage K V, r.size = 0 →
      ∃ p' r', p.moveHalfTo (slotsBelow p.size) r = some (p', r') ∧
        p'.entries ++ r'.entries = p.entries ++ r.entries) ∧
    (∀ p r : BPlusTreeLeafPage K V,
      ∃ p' r', p.moveAllTo (slotsBelow (r.size + p.size)) r = some (p', r') ∧
        r'.entries ++ p'.entries = r.entries ++ p.entries) ∧
    (∀ p r : BPlusTreeLeafPage K V, 1 ≤ p.size →
      ∃ p' r', p.moveFirstToEndOf (slotsBelow (max p.size (r.size + 1))) r = some (p', r') ∧
        r'.entries ++ p'.entries = r.entries ++ p.entries) ∧
    (∀ p r : BPlusTreeLeafPage K V, 1 ≤ p.size →
      ∃ p' r', p.moveLastToFrontOf (slotsBelow (max p.size (r.size + 1))) r = some (p', r') ∧
        p'.entries ++ r'.entries = p.entries ++ r.entries) ∧
    (∀ p r : BPlusTreeInternalPage K, 2 ≤ p.size → r.size = 0 →
      ∃ key p' r', p.keyAt (slotsBelow p.size) (p.size / 2) = some key ∧
        p.moveHalfTo (slotsBelow p.size) r key = some (p', r') ∧
        p'.sequence ++ .inr key :: r'.sequence = p.sequence) ∧
    (∀ p r : BPlusTreeInternalPage K, 1 ≤ p.size → 1 ≤ r.size → ∀ m : K,
      ∃ p' r', p.moveAllTo (slotsBelow (r.size + p.size)) r m = some (p', r') ∧ p'.size = 0 ∧
        r'.sequence = r.sequence ++ .inr m :: p.sequence) ∧
    (∀ p r : BPlusTreeInternalPage K, 2 ≤ p.size → 1 ≤ r.size → ∀ m : K,
      ∃ m' p' r', p.keyAt (slotsBelow (max p.size (r.size + 1))) 1 = some m' ∧
        p.moveFirstToEndOf (slotsBelow (max p.size (r.size + 1))) r m = some (p', r') ∧
        r'.sequence ++ .inr m' :: p'.sequence = r.sequence ++ .inr m :: p.sequence) ∧
    (∀ p r : BPlusTreeInternalPage K, 2 ≤ p.size → 1 ≤ r.size → ∀ m : K,
      ∃ m' p' r', p.keyAt (slotsBelow (max p.size (r.size + 1))) (p.size - 1) = some m' ∧
        p.moveLastToFrontOf (slotsBelow (max p.size (r.size + 1))) r m = some (p', r') ∧
        p'.sequence ++ .inr m' :: r'.sequence = p.sequence ++ .inr m :: r.sequence) := by
  refine ⟨?_, ?_, ?_, ?_, ?_, ?_, ?_, ?_⟩
  · exact fun p r hr => BPlusTreeLeafPage.moveHalfTo_entries p hr
  · exact fun p r => BPlusTreeLeafPage.moveAllTo_entries p r
  · exact fun p r hp => BPlusTreeLeafPage.moveFirstToEndOf_entries hp r
  · exact fun p r hp => BPlusTreeLeafPage.moveLastToFrontOf_entries hp r
  · exact fun p r hp hr => BPlusTreeInternalPage.moveHalfTo_sequence hp hr
  · exact fun p r hp hr => BPlusTreeInternalPage.moveAllTo_sequence hp hr
  · exact fun p r hp hr => BPlusTreeInternalPage.moveFirstToEndOf_sequence hp hr
  · exact fun p r hp hr => BPlusTreeInternalPage.moveLastToFrontOf_sequence hp hr

/-- The page with the children `10`, `11` and `12` gives its first one to the page with the child
`9`; the separator is `5`. -/
theorem moves_keep_contents_three :
    ∃ m' p' r',
      BPlusTreeInternalPage.keyAt (slotsBelow 3) ⟨3, 3, 0, fun i => ((i : ℤ) + 6, (i : ℤ) + 10)⟩ 1 =
        some m' ∧
      BPlusTreeInternalPage.moveFirstToEndOf (slotsBelow 3)
        ⟨3, 3, 0, fun i => ((i : ℤ) + 6, (i : ℤ) + 10)⟩ ⟨1, 3, 0, fun _ => (0, 9)⟩ 5 =
          some (p', r') ∧
      r'.sequence ++ .inr m' :: p'.sequence =
        [.inl 9, .inr 5, .inl 10, .inr 7, .inl 11, .inr 8, .inl 12] :=
  (moves_keep_contents ℤ ℕ).2.2.2.2.2.2.1 ⟨3, 3, 0, fun i => ((i : ℤ) + 6, (i : ℤ) + 10)⟩
    ⟨1, 3, 0, fun _ => (0, 9)⟩ (by decide) (by decide) 5

/-- **Searching in pages.** In a leaf with strictly increasing keys the search counts the smaller
keys and reads the slots of the leaf only; `Lookup`, `Insert` and `RemoveAndDeleteRecord` do what
they should. In an internal page with strictly increasing keys behind the first slot the search finds
the last child whose key is not above the key, and its loop does not read the first key. -/
theorem page_searches_exact (K V : Type) [LinearOrder K] :
    (∀ (p : BPlusTreeLeafPage K V) (key : K), p.entries.Pairwise (fun x y => x.1 < y.1) →
      p.keyIndex (slotsBelow p.size) key =
        some (p.entries.countP fun e => decide (e.1 < key)) ∧
      (∃ r, p.lookup (slotsBelow p.size) key = some r ∧ ∀ v, r = some v ↔ (key, v) ∈ p.entries) ∧
      (∀ value, ∃ q, p.insert (slotsBelow (p.size + 1)) key value = some q ∧
        q.entries.Pairwise (fun x y => x.1 < y.1) ∧
        ((∃ v, (key, v) ∈ p.entries) → q = p) ∧
        ((∀ v, (key, v) ∉ p.entries) →
          ∃ A B, p.entries = A ++ B ∧ q.entries = A ++ (key, value) :: B)) ∧
      ∃ q, p.removeAndDeleteRecord (slotsBelow p.size) key = some q ∧
        q.entries = p.entries.filter fun e => decide (e.1 ≠ key)) ∧
    ∀ (p : BPlusTreeInternalPage K) (key : K), 1 ≤ p.size →
      (∀ i j, 1 ≤ i → i < j → j < p.size → (p.array i).1 < (p.array j).1) →
      ∃ i, IsGreatest {i | i < p.size ∧ (i = 0 ∨ (p.array i).1 ≤ key)} i ∧
        p.lookupLoop (fun j => decide (1 ≤ j) && slotsBelow p.size j) key 1 (p.size - 1) 0 =
          some i ∧
        p.lookup (slotsBelow p.size) key = some (p.array i).2 := by
  constructor
  · intro p key hp
    exact ⟨BPlusTreeLeafPage.keyIndex_eq_countP hp key, BPlusTreeLeafPage.exists_lookup hp key,
      BPlusTreeLeafPage.exists_insert hp key, BPlusTreeLeafPage.exists_removeAndDeleteRecord hp key⟩
  · intro p key hp hkeys
    exact BPlusTreeInternalPage.lookup_isGreatest hp hkeys key

/-- The key `5` in a leaf with the keys `1`, `4` and `7`, and in an internal page with the keys `1`,
`4` and `7` behind its first child. -/
theorem page_searches_exact_five :
    BPlusTreeLeafPage.keyIndex (slotsBelow 3)
        (⟨3, 3, 0, -1, fun i => (3 * (i : ℤ) + 1, i)⟩ : BPlusTreeLeafPage ℤ ℕ) 5 = some 2 ∧
      ∃ i, IsGreatest {i : ℕ | i < 4 ∧ (i = 0 ∨ 3 * (i : ℤ) - 2 ≤ 5)} i ∧
        BPlusTreeInternalPage.lookup (slotsBelow 4)
          ⟨4, 4, 0, fun i => (3 * (i : ℤ) - 2, (i : ℤ) + 10)⟩ 5 = some ((i : ℤ) + 10) := by
  obtain ⟨hleaf, hinternal⟩ := page_searches_exact ℤ ℕ
  obtain ⟨i, hi, -, hlookup⟩ := hinternal ⟨4, 4, 0, fun i => (3 * (i : ℤ) - 2, (i : ℤ) + 10)⟩ 5
    (by decide) (fun i j _ _ _ => by dsimp only; lia)
  exact ⟨(hleaf ⟨3, 3, 0, -1, fun i => (3 * (i : ℤ) + 1, i)⟩ 5 (by decide)).1, i, hi, hlookup⟩

end OneBase
