import OneBase.Storage.Index.SearchTree
import Mathlib.Data.Finset.Card
import Mathlib.Data.List.MinMax

set_option relaxedAutoImplicit false
set_option autoImplicit false

/-!
# The frames that an insertion needs

`Insert` holds up to three pins at a time. A page that others have pinned needs no further frame,
and a page that `NewPage` returns is none of these.

## Main definitions

* `OneBase.SearchTree.Context.searchFrames` — the frames for the search from the root to a page.
* `OneBase.SearchTree.Context.splitFrames` — the frames for the loop that goes up after a split.
* `OneBase.BPlusTree.insertFrames` — the frames for `Insert` at a leaf.

## Main results

* `OneBase.SearchTree.Context.splitFrames_empty_le` — three frames are enough where nobody else
  holds pins.
-/

namespace OneBase

open SearchTree

/-- The largest number of a list is at most `m` if all of them are. -/
lemma foldr_max_le_iff {l : List ℕ} {m : ℕ} : l.foldr max 0 ≤ m ↔ ∀ x ∈ l, x ≤ m := by
  constructor
  · intro h x hx
    exact (List.le_max_of_le hx (le_refl x)).trans h
  · exact List.max_le_of_forall_le l m

/-- A new page `r` next to `l`. -/
lemma card_union_pair {others : Finset PageId} {l r : PageId} (hr : r ∉ others) (hne : r ≠ l) :
    (others ∪ ({l} ∪ {r})).card = (insert l others).card + 1 := by
  have hinsert : others ∪ ({l} ∪ {r}) = insert r (insert l others) := by
    ext x
    simp only [Finset.mem_union, Finset.mem_singleton, Finset.mem_insert]
    tauto
  rw [hinsert, Finset.card_insert_of_notMem]
  simp [hr, hne]

/-- The same, with another page `q`. -/
lemma card_insert_union_pair {others : Finset PageId} {l q r : PageId} (hr : r ∉ others)
    (hne : r ≠ l) (hq : q ≠ r) :
    (insert q (others ∪ ({r} ∪ {l}))).card = (insert q (insert l others)).card + 1 := by
  have hinsert : insert q (others ∪ ({r} ∪ {l})) = insert r (insert q (insert l others)) := by
    ext x
    simp only [Finset.mem_union, Finset.mem_singleton, Finset.mem_insert]
    tauto
  rw [hinsert, Finset.card_insert_of_notMem]
  simp [hr, hne, hq.symm]

namespace SearchTree.Context

variable {K V : Type} {n : ℕ}

/-- The frames that the search from the root to the page `p` in the hole needs, in a pool where
others have pinned the pages `others`. One page is pinned at a time. -/
def searchFrames (others : Finset PageId) : {n : ℕ} → Context K V n → (p : PageId) → ℕ
  | _, .root, p => (insert p others).card
  | _, .node q _ _ _ up, p => max (up.searchFrames others q) (insert p others).card

/-- The frames that the loop over the children of a new page needs, one after another, with the
node `q` and the new page pinned. The children are the right half of those of `q`, among them `l`
and the page that `l` was split from. -/
def adoptFrames (others : Finset PageId) (q l : PageId)
    (before after : List (WithBot K × SearchTree K V n)) : ℕ :=
  ((before.map (fun c => (insert c.2.pid (insert q others)).card + 1) ++
    ((insert l (insert q others)).card + 1) :: ((insert q others).card + 2) ::
      after.map fun c => (insert c.2.pid (insert q others)).card + 1).drop
    ((before.length + 1 + after.length + 1) / 2)).foldr max 0

/-- The children of a node that has taken in `r`, which no one else has pinned. -/
lemma adoptFrames_le_iff {others : Finset PageId} {q : PageId} {l r : SearchTree K V n}
    {before after cs : List (WithBot K × SearchTree K V n)} {key key' : WithBot K} {frames : ℕ}
    (hcs : cs = before ++ (key, l) :: (key', r) :: after) (hr : r.pid ∉ insert q others) :
    adoptFrames others q l.pid before after ≤ frames ↔
      ∀ c ∈ cs.drop (cs.length / 2), (insert c.2.pid (insert q others)).card + 1 ≤ frames := by
  have hlen : before.length + 1 + after.length + 1 = cs.length := by
    rw [hcs]
    simp only [List.length_append, List.length_cons]
    omega
  have hcosts : before.map (fun c => (insert c.2.pid (insert q others)).card + 1) ++
      ((insert l.pid (insert q others)).card + 1) :: ((insert q others).card + 2) ::
        after.map (fun c => (insert c.2.pid (insert q others)).card + 1) =
      cs.map fun c => (insert c.2.pid (insert q others)).card + 1 := by
    rw [hcs, List.map_append, List.map_cons, List.map_cons, Finset.card_insert_of_notMem hr]
  rw [adoptFrames, hcosts, hlen, ← List.map_drop, foldr_max_le_iff, List.forall_mem_map]

/-- The frames that the loop after a split needs, from the two halves in the hole: the page `l` and
a new one. -/
def splitFrames (tree : BPlusTree) (others : Finset PageId) :
    {n : ℕ} → Context K V n → (l : PageId) → ℕ
  | _, .root, l => (insert l others).card + 2
  | _, .node q before _ after up, l =>
    max ((insert q (insert l others)).card + 1)
      (if before.length + 1 + after.length + 1 ≤ tree.internalMaxSize then 0
      else max ((insert q others).card + 1)
        (max (adoptFrames others q l before after) (up.splitFrames tree others q)))

/-- The frames that the split of the leaf `p` needs. -/
def splitLeafFrames (tree : BPlusTree) (others : Finset PageId) (ctx : Context K V 0)
    (p : PageId) : ℕ :=
  max ((insert p others).card + 1) (ctx.splitFrames tree others p)

/-- Without foreign pins the way down to a leaf needs one frame at a time. -/
lemma searchFrames_empty_le (ctx : Context K V n) (p : PageId) : ctx.searchFrames ∅ p ≤ 1 := by
  induction ctx generalizing p with
  | root => exact (Finset.card_singleton p).le
  | node q before key after up ih => exact max_le (ih q) (Finset.card_singleton p).le

/-- Without foreign pins, telling the children of a new node their parent needs three frames: the
two nodes and the child. -/
lemma adoptFrames_empty_le (q l : PageId) (before after : List (WithBot K × SearchTree K V n)) :
    adoptFrames ∅ q l before after ≤ 3 := by
  refine foldr_max_le_iff.2 fun x hx => ?_
  have hpair : ∀ c : PageId, (insert c (insert q (∅ : Finset PageId))).card + 1 ≤ 3 := fun c =>
    Nat.succ_le_succ (Finset.card_le_two (a := c) (b := q))
  rcases List.mem_append.1 (List.mem_of_mem_drop hx) with hx | hx
  · obtain ⟨c, -, rfl⟩ := List.mem_map.1 hx
    exact hpair c.2.pid
  rcases List.mem_cons.1 hx with rfl | hx
  · exact hpair l
  rcases List.mem_cons.1 hx with rfl | hx
  · exact (congrArg (· + 2) (Finset.card_singleton q)).le
  · obtain ⟨c, -, rfl⟩ := List.mem_map.1 hx
    exact hpair c.2.pid

/-- Where nobody else holds pins, three frames are enough. -/
lemma splitFrames_empty_le (tree : BPlusTree) (ctx : Context K V n) (l : PageId) :
    ctx.splitFrames tree ∅ l ≤ 3 := by
  induction ctx generalizing l with
  | root => exact (congrArg (· + 2) (Finset.card_singleton l)).le
  | node q before key after up ih =>
    refine max_le (Nat.succ_le_succ (Finset.card_le_two (a := q) (b := l))) ?_
    split_ifs
    · exact Nat.zero_le 3
    · refine max_le ?_ (max_le (adoptFrames_empty_le q l before after) (ih q))
      exact (congrArg (· + 1) (Finset.card_singleton q)).le.trans (by decide)

/-- Without foreign pins a split of a leaf needs three frames. -/
lemma splitLeafFrames_empty_le (tree : BPlusTree) (ctx : Context K V 0) (p : PageId) :
    ctx.splitLeafFrames tree ∅ p ≤ 3 :=
  max_le ((congrArg (· + 1) (Finset.card_singleton p)).trans_le (Nat.le_succ 2))
    (ctx.splitFrames_empty_le tree p)

end SearchTree.Context

namespace BPlusTree

variable {K V : Type} [LinearOrder K]

/-- The frames that `Insert` needs, where the leaf for the key is the page `p` with the entries
`es`. -/
def insertFrames (tree : BPlusTree) (others : Finset PageId) (ctx : Context K V 0) (p : PageId)
    (es : List (K × V)) (key : K) : ℕ :=
  max (ctx.searchFrames others p)
    (if key ∈ es.map Prod.fst ∨ es.length < tree.leafMaxSize then 0
    else ctx.splitLeafFrames tree others p)

-- a full leaf that is the root: the leaf, the new leaf and the new root
example : (init 2 3).insertFrames ∅ (.root : Context ℕ ℕ 0) 0 [(1, 1), (2, 2)] 3 = 3 := by decide

-- others have pinned the leaf and two pages more
example : (init 2 3).insertFrames {0, 7, 8} (.root : Context ℕ ℕ 0) 0 [(1, 1), (2, 2)] 3 = 5 := by
  decide

/-- Without foreign pins `Insert` needs three frames. -/
lemma insertFrames_empty_le (tree : BPlusTree) (ctx : Context K V 0) (p : PageId)
    (es : List (K × V)) (key : K) : tree.insertFrames ∅ ctx p es key ≤ 3 := by
  refine max_le ((ctx.searchFrames_empty_le p).trans (by decide)) ?_
  split_ifs
  · exact Nat.zero_le 3
  · exact ctx.splitLeafFrames_empty_le tree p

end BPlusTree

end OneBase
