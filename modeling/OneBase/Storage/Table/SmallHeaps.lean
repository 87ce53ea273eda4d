import OneBase.Storage.Table.HeapUpdates

set_option relaxedAutoImplicit false
set_option autoImplicit false

/-!
# Small and uniform heaps

A database of heaps that have a page each: the page `k` holds the rows of the heap `k`. And a
database of one heap, all of whose pages hold the same rows.

## Main definitions

* `OneBase.TablePage.ofRows` — the page after these rows were inserted.
* `OneBase.storeOf` — the database with these heaps.
* `OneBase.chainOf` — the database with one heap of equal pages.

## Main results

* `OneBase.holds_storeOf` — the heap `k` holds its rows, as far as they fit on a page.
* `OneBase.holds_chainOf` — every page of the chain holds the rows.
-/

namespace OneBase

open TableHeap

/-- The page after these rows were inserted. -/
def TablePage.ofRows (rows : List (List UInt8)) : TablePage :=
  rows.foldl (fun page data => (page.insertTuple data).2) freshPage

/-- The room that these rows take on a page, with their slots. -/
def roomOf (rows : List (List UInt8)) : ℕ :=
  (rows.map fun data => data.length + TablePage.sizeTupleSlot).sum

/-- The database with these heaps. -/
def storeOf (tables : List (List (List UInt8))) : PageStore TablePage where
  content q := if 0 ≤ q then (tables[q.toNat]?).map TablePage.ofRows else none
  nextPageId := tables.length

/-- The page `q` in a chain of `n` pages that all hold these rows. -/
def linkedPage (n : ℕ) (rows : List (List UInt8)) (q : PageId) : TablePage :=
  (TablePage.ofRows rows).setNextPageId (if q + 1 < n then q + 1 else invalidPageId)

/-- The database with one heap, a chain of `n` pages that all hold these rows. -/
def chainOf (n : ℕ) (rows : List (List UInt8)) : PageStore TablePage where
  content q := if 0 ≤ q ∧ q < n then some (linkedPage n rows q) else none
  nextPageId := n

/-- The pages of this heap from the page `k` on. -/
def chainPages (rows : List (List UInt8)) (k n : ℕ) : Pages :=
  (List.range' k n).map fun i : ℕ => ((i : ℤ), rows.map some)

section Small

variable {rows : List (List UInt8)} {tables : List (List (List UInt8))} {k n : ℕ}

/-- A page holds the rows that were inserted, as long as there was room. -/
lemma TablePage.ofRows_spec (hroom : roomOf rows + 16 ≤ pageSize) :
    (TablePage.ofRows rows).Intact (rows.map some) ∧
      (TablePage.ofRows rows).getNextPageId = invalidPageId ∧
      (TablePage.ofRows rows).getFreeSpaceRemaining = pageSize - 16 - roomOf rows := by
  induction rows using List.reverseRecOn with
  | nil =>
    exact ⟨intact_freshPage, TablePage.getNextPageId_init _, getFreeSpaceRemaining_freshPage⟩
  | append_singleton rows data ih =>
    have hsum : roomOf (rows ++ [data]) = roomOf rows + (data.length + sizeTupleSlot) := by
      simp [roomOf]
    rw [hsum] at hroom ⊢
    obtain ⟨hintact, hlink, hfree⟩ := ih (by omega)
    have hfits : ¬ Full (TablePage.ofRows rows) data.length := by
      unfold Full
      rw [hfree]
      omega
    obtain ⟨-, hintact', hlink', hfree'⟩ := insertTuple_page hintact hfits
    unfold TablePage.ofRows at *
    rw [List.foldl_append, List.foldl_cons, List.foldl_nil, List.map_append, List.map_cons,
      List.map_nil]
    refine ⟨hintact', hlink'.trans hlink, ?_⟩
    rw [hfree', hfree]
    omega

/-- The page `k` holds the rows of the table `k`. -/
lemma content_storeOf (tables : List (List (List UInt8))) (k : ℕ) :
    (storeOf tables).content (k : ℤ) = (tables[k]?).map TablePage.ofRows := by
  simp [storeOf]

/-- Nobody uses the database. -/
lemma ready_storeOf (tables : List (List (List UInt8))) : Ready (storeOf tables) where
  pins_eq := rfl
  allocated := by
    intro q hq
    by_cases hneg : 0 ≤ q
    · refine ⟨hneg, ?_⟩
      obtain ⟨k, rfl⟩ := Int.eq_ofNat_of_zero_le hneg
      rw [content_storeOf] at hq
      by_contra hge
      apply hq
      have hlen : tables.length ≤ k := by
        have hge' : ¬ (k : ℤ) < (tables.length : ℤ) := hge
        omega
      rw [List.getElem?_eq_none hlen, Option.map_none]
    · simp [storeOf, hneg] at hq
  next_nonneg := Int.natCast_nonneg _

/-- A heap of the database holds its rows. -/
lemma holds_storeOf (hrows : tables[k]? = some rows) (hroom : roomOf rows + 16 ≤ pageSize) :
    Holds (storeOf tables).content ⟨k⟩ [((k : ℤ), rows.map some)] where
  chain := by
    obtain ⟨hintact, hlink, -⟩ := TablePage.ofRows_spec hroom
    refine ⟨rfl, ?_, TablePage.ofRows rows, ?_, hintact, hlink⟩
    · show (k : ℤ) ≠ -1
      omega
    · rw [content_storeOf, hrows, Option.map_some]
  nodup := List.nodup_singleton _
  nonempty := by simp

/-- Nobody uses the database. -/
lemma ready_chainOf (n : ℕ) (rows : List (List UInt8)) : Ready (chainOf n rows) where
  pins_eq := rfl
  allocated := by
    intro q hq
    by_contra hout
    exact hq (if_neg hout)
  next_nonneg := Int.natCast_nonneg _

/-- The chain from the page `k` on. -/
lemma chain_chainOf {m : ℕ} (hroom : roomOf rows + 16 ≤ pageSize) (hn : n ≤ 2 ^ 31)
    (hm : k + m = n) :
    Chain (chainOf n rows).content (chainPages rows k m)
      (if (k : ℤ) < n then (k : ℤ) else invalidPageId) := by
  induction m generalizing k with
  | zero =>
    have hend : ¬ (k : ℤ) < n := by omega
    rw [if_neg hend]
    rfl
  | succ m ih =>
    have hlt : (k : ℤ) < n := by omega
    have hpage : (chainOf n rows).content k = some (linkedPage n rows k) :=
      if_pos ⟨Int.natCast_nonneg k, hlt⟩
    have hintact : (linkedPage n rows k).Intact (rows.map some) :=
      (TablePage.ofRows_spec hroom).1.setNextPageId _
    have hlink : (linkedPage n rows k).getNextPageId =
        if (k : ℤ) + 1 < n then (k : ℤ) + 1 else invalidPageId := by
      unfold linkedPage
      have hbounds : (-2 ^ 31 : ℤ) ≤ k + 1 ∧ ((k : ℤ) + 1 < n → (k : ℤ) + 1 < 2 ^ 31) := by
        omega
      apply TablePage.getNextPageId_setNextPageId
      · split_ifs
        · exact hbounds.1
        · decide
      · split_ifs with hnext
        · exact hbounds.2 hnext
        · decide
    rw [if_pos hlt]
    refine ⟨rfl, ?_, _, hpage, hintact, ?_⟩
    · show (k : ℤ) ≠ -1
      omega
    · rw [hlink]
      exact ih (k := k + 1) (by omega)

/-- The heap holds the rows on all its pages. -/
lemma holds_chainOf (hroom : roomOf rows + 16 ≤ pageSize) (hpos : 0 < n) (hn : n ≤ 2 ^ 31) :
    Holds (chainOf n rows).content ⟨0⟩ (chainPages rows 0 n) where
  chain := by
    have hchain := chain_chainOf (k := 0) hroom hn (Nat.zero_add n)
    rwa [if_pos (by exact_mod_cast hpos)] at hchain
  nodup := by
    rw [chainPages, List.map_map]
    refine List.Nodup.map ?_ (List.nodup_range' 1 (by decide))
    intro i j hij
    exact Int.ofNat_inj.1 hij
  nonempty := by
    intro hnil
    have hlen := congrArg List.length hnil
    rw [chainPages, List.length_map, List.length_range', List.length_nil] at hlen
    omega

/-- The number of the rows in the chain. -/
lemma length_liveRows_chainPages (hrows : ∀ b ∈ rows, b ≠ []) :
    (liveRows (chainPages rows k n)).length = n * rows.length := by
  have hslots : ∀ (p : PageId) (j : ℕ), (slotRows p j (rows.map some)).length = rows.length := by
    intro p
    induction rows with
    | nil => exact fun j => rfl
    | cons b rows ih =>
      intro j
      have hb : b ≠ [] := hrows b List.mem_cons_self
      rw [List.map_cons, slotRows_cons, Option.getD_some, if_neg hb, List.length_append,
        ih (fun b' hb' => hrows b' (List.mem_cons_of_mem b hb')), List.length_singleton,
        List.length_cons, Nat.add_comm]
  unfold liveRows chainPages
  rw [List.length_flatMap, List.map_map]
  have hconst : ∀ i ∈ List.range' k n,
      ((fun x : PageId × List (Option (List UInt8)) => (slotRows x.1 0 x.2).length) ∘
        fun i : ℕ => ((i : ℤ), rows.map some)) i = rows.length := fun i _ => hslots _ 0
  rw [List.map_congr_left hconst, List.map_const', List.length_range', List.sum_replicate_nat]

end Small

end OneBase
