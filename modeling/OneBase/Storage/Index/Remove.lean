import OneBase.Storage.Index.Insert

set_option relaxedAutoImplicit false
set_option autoImplicit false

/-!
# Removal from a B+ tree

`Remove` takes the entry out of a leaf. A node that has become too small takes a child from a
sibling, or is joined with it, and then its parent may be too small, up to the root, which goes when
it has a single child.

## Main definitions

* `OneBase.SearchTree.Siblings` — two adjacent children in a hole, which may be balanced.

## Main results

* `OneBase.PageStore.Owned.shrinkRoot`, `balanceNodes` — the parts of a round of the loop.
* `OneBase.PageStore.Owned.mergeLoop` — the loop that goes up, from a node that is too small.
* `OneBase.PageStore.Owned.balanceLeaf` — a leaf that is too small.
* `OneBase.BPlusTree.Represents.remove` — what `Remove` does.
-/

namespace OneBase

open Effect Effect.Program Segments SearchTree BPlusTree

namespace BPlusTree

open PageClient

variable {K V : Type} (tree : BPlusTree)

/-- The part of `mergeLoop` for a root: it goes when it has a single child. -/
def shrinkRoot (root page : PageId) (node : BPlusTreeInternalPage K) :
    Program (PoolCall (BPlusTreePage K V)) PageId := do
  if node.size = 1 then
    let (child, node) ← ofOption (node.removeAndReturnOnlyChild tree.internalFits)
    write page (.internal node)
    fetch child
    setParent child invalidPageId
    unpin child true
    unpin page true
    delete page
    pure child
  else
    unpin page true
    pure root

/-- The part of `mergeLoop` for the two children `left` and `right` of `parent`. -/
def balanceNodes (root : PageId) (fuel : ℕ) (parent : PageId)
    (parentNode : BPlusTreeInternalPage K) (left right : PageId) (rightIndex : ℕ)
    (rightUnderflow : Bool) : Program (PoolCall (BPlusTreePage K V)) PageId := do
  let leftNode ← readInternal left
  let rightNode ← readInternal right
  let middleKey ← ofOption (parentNode.keyAt tree.internalFits rightIndex)
  if leftNode.getMinSize < leftNode.size ∨ rightNode.getMinSize < rightNode.size then
    tree.borrowInternal left right parent rightIndex rightUnderflow leftNode rightNode
      parentNode middleKey
    pure root
  else
    let parentNode ←
      tree.joinInternal left right parent rightIndex leftNode rightNode parentNode middleKey
    if parentNode.getMinSize ≤ parentNode.size then
      unpin parent true
      pure root
    else
      tree.mergeLoop root fuel parent

/-- A round of the loop, in its parts. -/
lemma mergeLoop_succ (root : PageId) (fuel : ℕ) (page : PageId) :
    (tree.mergeLoop root (fuel + 1) page : Program (PoolCall (BPlusTreePage K V)) PageId) =
      readInternal page >>= fun node =>
        if node.isRootPage then tree.shrinkRoot root page node
        else fetch node.parentPageId >>= fun _ =>
          readInternal node.parentPageId >>= fun parentNode =>
            tree.fetchSibling parentNode page >>= fun found =>
              tree.balanceNodes root fuel node.parentPageId parentNode found.1 found.2.1
                found.2.2.1 found.2.2.2 :=
  rfl

end BPlusTree

namespace SearchTree

variable {K V : Type} {n : ℕ}

/-- The pages around two adjacent children of the node `q`, which is in the hole of `up`, apart
from that of `q`; `first` is the page of the leftmost leaf of the two. -/
def around (q : PageId) (up : Context K V (n + 1)) (xs ys : List (WithBot K × SearchTree K V n))
    (first : PageId) : Multiset (PageId × Cell K V) :=
  (cellsOf xs q first + cellsOf ys q up.next) + up.cells q (firstLeafs xs first)

namespace Context

/-- The page of the parent, pinned, around a hole that is filled with a tree with the root `pid`. -/
def held : {n : ℕ} → Context K V n → (pid : PageId) → Bool → Multiset (PageId × Cell K V × Bool)
  | _, .root, _, _ => 0
  | _, .node q before key after up, pid, b =>
    {(q, .internal (slots before ++ (key, pid) :: slots after) up.parent, b)}

/-- The other pages. -/
def rest : {n : ℕ} → Context K V n → (first : PageId) → Multiset (PageId × Cell K V)
  | _, .root, _ => 0
  | _, .node q before _ after up, first => around q up before after first

end Context

variable [LinearOrder K] {tree : BPlusTree}

/-- The children `l` and `r` are adjacent in a node in the hole of `up`, and apart from their sizes
everything is as it should be. -/
structure Siblings (tree : BPlusTree) (up : Context K V (n + 1))
    (xs : List (WithBot K × SearchTree K V n)) (a : WithBot K) (l : SearchTree K V n)
    (m : WithBot K) (r : SearchTree K V n) (ys : List (WithBot K × SearchTree K V n)) : Prop where
  up_wellFormed : up.WellFormed tree
  size_ge : up.minSize tree ≤ xs.length + ys.length + 2
  size_le : xs.length + ys.length + 2 ≤ tree.internalMaxSize
  start_eq : start xs a = (up.lo : WithTop (WithBot K))
  before : Segmented (Fit tree) xs a
  lo_lt : a < m
  left : l.Shaped tree a m
  lt_hi : (m : WithTop (WithBot K)) < start ys up.hi
  right : r.Shaped tree m (start ys up.hi)
  after : Segmented (Fit tree) ys up.hi

namespace Siblings

variable {up : Context K V (n + 1)} {xs ys : List (WithBot K × SearchTree K V n)}
  {a m : WithBot K} {l r l' r' u : SearchTree K V n} {q : PageId}

/-- A child with its left sibling. -/
lemma of_right (h : (Context.node q (xs ++ [(a, l)]) m ys up).WellFormed tree)
    (hr : r.Shaped tree m (start ys up.hi)) :
    Siblings tree up xs a l m r ys ∧ tree.minSize n ≤ l.size ∧ l.size ≤ tree.maxSize n := by
  obtain ⟨⟨hmin, hmax⟩, hstart, hbefore, hm, hafter, hup⟩ := h
  rw [segmented_append, segmented_cons] at hbefore
  obtain ⟨hxs, ha, hl, -⟩ := hbefore
  simp only [List.length_append, List.length_singleton] at hmin hmax
  refine ⟨⟨hup, by omega, ?_, ?_, hxs, WithTop.coe_lt_coe.1 ha, hl.2, hm, hr, hafter⟩, hl.1⟩
  · change _ ≤ tree.internalMaxSize at hmax
    omega
  · rwa [start_append] at hstart

/-- A first child with its right sibling. -/
lemma of_left (h : (Context.node q [] a ((m, r) :: ys) up).WellFormed tree)
    (hl : l.Shaped tree a m) :
    Siblings tree up [] a l m r ys ∧ tree.minSize n ≤ r.size ∧ r.size ≤ tree.maxSize n := by
  obtain ⟨⟨hmin, hmax⟩, hstart, -, ha, hafter, hup⟩ := h
  obtain ⟨hm, hr, hys⟩ := hafter
  simp only [List.length_nil, List.length_cons] at hmin hmax
  refine ⟨⟨hup, ?_, ?_, hstart, trivial, WithTop.coe_lt_coe.1 ha, hl, hm, hr.2, hys⟩, hr.1⟩
  · simp only [List.length_nil]
    omega
  · change _ ≤ tree.internalMaxSize at hmax
    simp only [List.length_nil]
    omega

/-- The parent of two children that have been balanced. -/
lemma admits (h : Siblings tree up xs a l m r ys) {k : K} (hl : l'.Fit tree a (k : WithBot K))
    (hr : r'.Fit tree k (start ys up.hi)) (hlo : a < k)
    (hhi : ((k : WithBot K) : WithTop (WithBot K)) < start ys up.hi) (q : PageId) :
    up.Admits tree (.node q (xs ++ (a, l') :: ((k : WithBot K), r') :: ys)) := by
  have hge := h.size_ge
  have hle := h.size_le
  refine ⟨⟨?_, ?_⟩, shaped_node.2 ⟨?_, ?_⟩⟩
  · simp only [size_node, List.length_append, List.length_cons]
    omega
  · change _ ≤ tree.internalMaxSize
    simp only [size_node, List.length_append, List.length_cons]
    omega
  · rw [start_append, start_cons, h.start_eq]
  · rw [segmented_append, segmented_cons, segmented_cons]
    exact ⟨h.before, WithTop.coe_lt_coe.2 hlo, hl, hhi, hr, h.after⟩

/-- The parent of two children that have been joined. -/
lemma shaped_join (h : Siblings tree up xs a l m r ys) (hu : u.Fit tree a (start ys up.hi))
    (q : PageId) : (node q (xs ++ (a, u) :: ys)).Shaped tree up.lo up.hi := by
  refine shaped_node.2 ⟨?_, ?_⟩
  · rw [start_append, start_cons, h.start_eq]
  · rw [segmented_append, segmented_cons]
    exact ⟨h.before, (WithTop.coe_lt_coe.2 h.lo_lt).trans h.lt_hi, hu, h.after⟩

/-- A child that is too small by one with the sibling that is chosen for it. -/
lemma of_cases {before after : List (WithBot K × SearchTree K V n)} {key : WithBot K}
    {t : SearchTree K V n} {b : Bool} (h : (Context.node q before key after up).WellFormed tree)
    (ht : t.Shaped tree key (start after up.hi)) (hsize : t.size + 1 = tree.minSize n)
    (hcases : (b = true ∧ before = xs ++ [(a, l)] ∧ key = m ∧ t = r ∧ after = ys) ∨
      (b = false ∧ before = [] ∧ xs = [] ∧ key = a ∧ t = l ∧ after = (m, r) :: ys)) :
    Siblings tree up xs a l m r ys ∧
      ((b = true ∧ r.size + 1 = tree.minSize n ∧ tree.minSize n ≤ l.size ∧
          l.size ≤ tree.maxSize n) ∨
        (b = false ∧ l.size + 1 = tree.minSize n ∧ tree.minSize n ≤ r.size ∧
          r.size ≤ tree.maxSize n)) := by
  rcases hcases with ⟨rfl, rfl, rfl, rfl, rfl⟩ | ⟨rfl, rfl, rfl, rfl, rfl, rfl⟩
  · obtain ⟨hs, hl⟩ := of_right h ht
    exact ⟨hs, .inl ⟨rfl, hsize, hl⟩⟩
  · obtain ⟨hs, hr⟩ := of_left h ht
    exact ⟨hs, .inr ⟨rfl, hsize, hr⟩⟩

/-- Two sibling leaves may be cut elsewhere. -/
lemma recut_leaf {up : Context K V 1} {xs ys : List (WithBot K × SearchTree K V 0)}
    {pl pr : PageId} {A B A' B' : List (K × V)} {k : K} {v : V}
    (hs : Siblings tree up xs a (leaf pl A) m (leaf pr B) ys) (hcut : A ++ B = A' ++ (k, v) :: B')
    (hne : A' ≠ []) (hA : tree.leafMaxSize / 2 ≤ A'.length ∧ A'.length ≤ tree.leafMaxSize)
    (hB : tree.leafMaxSize / 2 ≤ B'.length + 1 ∧ B'.length + 1 ≤ tree.leafMaxSize) (q : PageId) :
    up.Admits tree
      (.node q (xs ++ (a, leaf pl A') :: ((k : WithBot K), leaf pr ((k, v) :: B')) :: ys)) := by
  have hjoin := shaped_leaf_join hs.left hs.right hs.lo_lt.le hs.lt_hi.le pl
  rw [hcut] at hjoin
  obtain ⟨hlo, hhi, hshapedl, hshapedr⟩ := shaped_leaf_cut hjoin hne pl pr
  have hfitl : (leaf pl A').Fit tree a (k : WithBot K) := ⟨hA, hshapedl⟩
  have hfitr : (leaf pr ((k, v) :: B')).Fit tree k (start ys up.hi) := ⟨hB, hshapedr⟩
  exact hs.admits hfitl hfitr hlo hhi q

/-- Two sibling internal nodes may be cut elsewhere. -/
lemma recut_node {up : Context K V (n + 2)} {xs ys : List (WithBot K × SearchTree K V (n + 1))}
    {pl pr : PageId} {A B A' B' : List (WithBot K × SearchTree K V n)} {k : WithBot K}
    {c : SearchTree K V n} (hs : Siblings tree up xs a (.node pl A) m (.node pr B) ys)
    (hcut : A ++ B = A' ++ (k, c) :: B') (hne : A' ≠ [])
    (hA : (tree.internalMaxSize + 1) / 2 ≤ A'.length ∧ A'.length ≤ tree.internalMaxSize)
    (hB : (tree.internalMaxSize + 1) / 2 ≤ B'.length + 1 ∧ B'.length + 1 ≤ tree.internalMaxSize)
    (q : PageId) :
    ∃ k' : K, k = k' ∧ up.Admits tree (.node q
      (xs ++ (a, .node pl A') ::
        ((k' : WithBot K), .node pr (((k' : WithBot K), c) :: B')) :: ys)) := by
  have hjoin := shaped_node_join hs.left hs.right pl
  rw [hcut] at hjoin
  obtain ⟨k, rfl, hlo, hhi, hshapedl, hshapedr⟩ := shaped_node_cut hjoin hne pl pr
  have hfitl : (SearchTree.node pl A').Fit tree a (k : WithBot K) := ⟨hA, hshapedl⟩
  have hfitr : (SearchTree.node pr (((k : WithBot K), c) :: B')).Fit tree k (start ys up.hi) :=
    ⟨hB, hshapedr⟩
  exact ⟨k, rfl, hs.admits hfitl hfitr hlo hhi q⟩

/-- The first child of the right one of two siblings has the key of the parent as its bound. -/
lemma exists_head {up : Context K V (n + 2)} {xs ys : List (WithBot K × SearchTree K V (n + 1))}
    {l : SearchTree K V (n + 1)} {pr : PageId} {B : List (WithBot K × SearchTree K V n)}
    (hs : Siblings tree up xs a l m (.node pr B) ys) : ∃ d B₀, B = (m, d) :: B₀ := by
  obtain ⟨hstart, -⟩ := shaped_node.1 hs.right
  cases B with
  | nil => cases hstart
  | cons x B₀ =>
    obtain ⟨y, d⟩ := x
    obtain rfl : y = m := WithTop.coe_inj.1 hstart
    exact ⟨d, B₀, rfl⟩

end Siblings

end SearchTree

namespace PageStore.Owned

variable {K V : Type} {tree : BPlusTree} {frame : PageId → Option (BPlusTreePage K V)}
  {s : PageStore (BPlusTreePage K V)} {p q parent next : PageId} {b b' : Bool} {frames : ℕ∞} {n : ℕ}

/-- The parent, if there is one, is pinned. -/
lemma fetchParent {held : Multiset (PageId × Cell K V × Bool)} {ctx : Context K V n}
    {pid first : PageId} (h : tree.Owned frame held (ctx.cells pid first) s)
    (hcard : (Multiset.card held : ℕ∞) < frames) :
    wp (PageStore.handler frames) (ifValid ctx.parent (PageClient.fetch ctx.parent))
      (fun _ s' => tree.Owned frame (ctx.held pid false + held) (ctx.rest first) s') s := by
  cases ctx with
  | root =>
    rw [ifValid, if_neg (by simp)]
    exact (wp_pure ..).2 (h.perm (zero_add _).symm rfl)
  | node q before key after up =>
    rw [Context.cells_node, add_assoc] at h
    have hq : q ≠ invalidPageId :=
      h.ne_invalid (c := .internal (slots before ++ (key, pid) :: slots after) up.parent) (by simp)
    rw [ifValid, Context.parent_node, if_pos hq]
    exact h.fetch hcard

/-- The parent, if there is one, is unpinned. -/
lemma unpinParent {held : Multiset (PageId × Cell K V × Bool)} {free : Multiset (PageId × Cell K V)}
    {ctx : Context K V n} {pid first : PageId} {isDirty : Bool}
    (h : tree.Owned frame (ctx.held pid b + held) (ctx.rest first + free) s)
    (hb : b = true → isDirty = true) :
    wp (PageStore.handler frames) (ifValid ctx.parent (PageClient.unpin ctx.parent isDirty))
      (fun _ s' => tree.Owned frame held (ctx.cells pid first + free) s') s := by
  cases ctx with
  | root =>
    rw [ifValid, if_neg (by simp)]
    exact (wp_pure ..).2 (h.perm (zero_add _) rfl)
  | node q before key after up =>
    have hq : q ≠ invalidPageId :=
      h.ne_invalid (c := .internal (slots before ++ (key, pid) :: slots after) up.parent)
        (by simp [Context.held])
    rw [ifValid, Context.parent_node, if_pos hq]
    refine wp_mono (h.unpin hb) ?_
    intro _ s₁ h
    refine h.perm rfl ?_
    simp only [Context.rest, around, Context.cells_node]
    abel

/-- The choice of the sibling: it is pinned, and the two children are adjacent. -/
lemma fetchSibling (hframes : ((4 : ℕ) : ℕ∞) ≤ frames) {up : Context K V (n + 1)}
    {before after : List (WithBot K × SearchTree K V n)} {key : WithBot K} {t : SearchTree K V n}
    {page : BPlusTreeInternalPage K}
    (hpage : page.Holds (slots (before ++ (key, t) :: after)))
    (hfits : FitsBelow tree.internalFits (before ++ (key, t) :: after).length)
    (htwo : 2 ≤ (before ++ (key, t) :: after).length)
    (h : tree.Owned frame
      ({(q, .internal (slots (before ++ (key, t) :: after)) up.parent, b)} +
        {(t.pid, t.rootCell q (firstLeafs after up.next), b')})
      (t.below (firstLeafs after up.next) +
        around q up before after (t.firstLeaf (firstLeafs after up.next))) s) :
    wp (PageStore.handler frames) (tree.fetchSibling page t.pid)
      (fun x s' => ∃ xs a l m r ys bl br,
        before ++ (key, t) :: after = xs ++ (a, l) :: (m, r) :: ys ∧
        x = (l.pid, r.pid, xs.length + 1, x.2.2.2) ∧
        ((x.2.2.2 = true ∧ before = xs ++ [(a, l)] ∧ key = m ∧ t = r ∧ after = ys) ∨
          (x.2.2.2 = false ∧ before = [] ∧ xs = [] ∧ key = a ∧ t = l ∧ after = (m, r) :: ys)) ∧
        tree.Owned frame
          ({(l.pid, l.rootCell q (r.firstLeaf (firstLeafs ys up.next)), bl)} +
            ({(r.pid, r.rootCell q (firstLeafs ys up.next), br)} +
              {(q, .internal (slots (before ++ (key, t) :: after)) up.parent, b)}))
          (l.below (r.firstLeaf (firstLeafs ys up.next)) + r.below (firstLeafs ys up.next) +
            around q up xs ys (l.firstLeaf (r.firstLeaf (firstLeafs ys up.next)))) s') s := by
  have hne : ∀ x ∈ slots before, x.2 ≠ t.pid := by
    intro x hx
    obtain ⟨c, hc, rfl⟩ := List.mem_map.1 hx
    obtain ⟨cell, hcell⟩ := pid_mem_cellsOf hc q (t.firstLeaf (firstLeafs after up.next))
    exact (h.perm (add_comm ..) rfl).ne_of_mem_free (d := cell) (by simp [around, hcell])
  have hslots : slots (before ++ (key, t) :: after) =
      slots before ++ (key, t.pid) :: slots after := by simp
  have hindex : page.valueIndex tree.internalFits t.pid = some (some before.length) := by
    rw [hslots] at hpage
    have hvalue := hpage.valueIndex_eq (f := tree.internalFits)
      (by rwa [← hslots, length_slots]) hne
    rwa [length_slots] at hvalue
  refine (wp_bind ..).2 ((wp_ofOption ..).2 ⟨_, hindex, ?_⟩)
  rcases List.eq_nil_or_concat before with rfl | ⟨xs, ⟨a, l⟩, rfl⟩
  · cases after with
    | nil => simp at htwo
    | cons c ys =>
      obtain ⟨m, r⟩ := c
      have hvalue : page.valueAt tree.internalFits 1 = some r.pid :=
        hpage.valueAt_eq (by rwa [length_slots]) (by simp)
      refine (wp_bind ..).2 ((wp_ofOption ..).2 ⟨_, hvalue, ?_⟩)
      have h : tree.Owned frame
          ({(q, .internal (slots ([] ++ (key, t) :: (m, r) :: ys)) up.parent, b)} +
            {(t.pid, t.rootCell q (r.firstLeaf (firstLeafs ys up.next)), b')})
          ({(r.pid, r.rootCell q (firstLeafs ys up.next))} +
            (t.below (r.firstLeaf (firstLeafs ys up.next)) + r.below (firstLeafs ys up.next) +
              around q up [] ys (t.firstLeaf (r.firstLeaf (firstLeafs ys up.next))))) s := by
        refine h.perm rfl ?_
        simp only [around, cellsOf_cons, firstLeafs_cons, cells_eq r]
        abel
      refine wp_seq (h.fetch (lt_frames hframes (by simp))) ?_
      intro _ s₁ h
      refine (wp_pure ..).2 ⟨[], key, t, m, r, ys, b', false, rfl, rfl,
        .inr ⟨rfl, rfl, rfl, rfl, rfl, rfl⟩, h.perm ?_ rfl⟩
      abel
  · have hlen : (xs.concat (a, l)).length = xs.length + 1 := by simp
    have hvalue : page.valueAt tree.internalFits xs.length = some l.pid := by
      rw [hpage.valueAt_eq (by rwa [length_slots]) (by simp)]
      simp [slots]
    rw [hlen]
    refine (wp_bind ..).2 ((wp_ofOption ..).2 ⟨_, hvalue, ?_⟩)
    have h : tree.Owned frame
        ({(q, .internal (slots (xs.concat (a, l) ++ (key, t) :: after)) up.parent, b)} +
          {(t.pid, t.rootCell q (firstLeafs after up.next), b')})
        ({(l.pid, l.rootCell q (t.firstLeaf (firstLeafs after up.next)))} +
          (l.below (t.firstLeaf (firstLeafs after up.next)) + t.below (firstLeafs after up.next) +
            around q up xs after (l.firstLeaf (t.firstLeaf (firstLeafs after up.next))))) s := by
      refine h.perm rfl ?_
      simp only [around, List.concat_eq_append, cellsOf_append, cellsOf_cons, cellsOf_nil,
        firstLeafs_append, firstLeafs_cons, firstLeafs_nil, cells_eq l]
      abel
    refine wp_seq (h.fetch (lt_frames hframes (by simp))) ?_
    intro _ s₁ h
    refine (wp_pure ..).2 ⟨xs, a, l, key, t, after, false, b', by simp, rfl,
      .inl ⟨rfl, by simp, rfl, rfl, rfl⟩, h.perm ?_ rfl⟩
    abel

/-! ### The parent of two siblings -/

section Parent

variable {xs ys : List (WithBot K × SearchTree K V n)} {a m : WithBot K} {l r : SearchTree K V n}
  {page : BPlusTreeInternalPage K}

/-- The slots around two neighbouring children. -/
lemma slots_siblings (xs ys : List (WithBot K × SearchTree K V n)) (a m : WithBot K)
    (l r : SearchTree K V n) : slots (xs ++ (a, l) :: (m, r) :: ys) =
      slots (xs ++ [(a, l)]) ++ (m, r.pid) :: slots ys := by
  simp

/-- `KeyAt` of the right one of two siblings. -/
lemma keyAt_right (hpage : tree.Shows (.internal page : BPlusTreePage K V)
      (.internal (slots (xs ++ (a, l) :: (m, r) :: ys)) parent))
    (hfits : FitsBelow tree.internalFits (xs.length + ys.length + 2)) :
    ∃ k : K, page.keyAt tree.internalFits (xs.length + 1) = some k ∧ (k : WithBot K) = m := by
  have hlen : (slots (xs ++ (a, l) :: (m, r) :: ys)).length = xs.length + ys.length + 2 := by
    simp
    omega
  obtain ⟨k, hk, hkm⟩ := hpage.1.keyAt_eq (f := tree.internalFits) (i := xs.length + 1)
    (by rwa [hlen]) (by omega) (by omega)
  refine ⟨k, hk, ?_⟩
  rw [hkm]
  simp [slots]

/-- `SetKeyAt` of the right one of two siblings. -/
lemma setKeyAt_right (hpage : tree.Shows (.internal page : BPlusTreePage K V)
      (.internal (slots (xs ++ (a, l) :: (m, r) :: ys)) parent))
    (hfits : FitsBelow tree.internalFits (xs.length + ys.length + 2)) (k : K) :
    ∃ page', page.setKeyAt tree.internalFits (xs.length + 1) k = some page' ∧
      tree.Shows (.internal page' : BPlusTreePage K V)
        (.internal (slots (xs ++ (a, l) :: ((k : WithBot K), r) :: ys)) parent) := by
  obtain ⟨hholds, hmax, hparent⟩ := hpage
  rw [slots_siblings] at hholds
  have hlen : (slots (xs ++ [(a, l)])).length = xs.length + 1 := by simp
  obtain ⟨arr, harr, hholds'⟩ := hholds.setKeyAt (f := tree.internalFits)
    (hfits.mono (by simp; omega)) k
  rw [hlen] at harr
  refine ⟨_, harr, ?_, hmax, hparent⟩
  rw [slots_siblings]
  exact hholds'

/-- `Remove` of the right one of two siblings. -/
lemma remove_right (hpage : tree.Shows (.internal page : BPlusTreePage K V)
      (.internal (slots (xs ++ (a, l) :: (m, r) :: ys)) parent))
    (hfits : FitsBelow tree.internalFits (xs.length + ys.length + 2)) :
    ∃ page', page.remove tree.internalFits (xs.length + 1) = some page' ∧
      tree.Shows (.internal page' : BPlusTreePage K V)
        (.internal (slots (xs ++ (a, l) :: ys)) parent) := by
  obtain ⟨hholds, hmax, hparent⟩ := hpage
  rw [slots_siblings] at hholds
  have hlen : (slots (xs ++ [(a, l)])).length = xs.length + 1 := by simp
  obtain ⟨arr, harr, hholds'⟩ := hholds.remove (f := tree.internalFits)
    (hfits.mono (by simp; omega)) (by simp)
  rw [hlen] at harr
  refine ⟨_, harr, ?_, hmax, hparent⟩
  have hslots : slots (xs ++ (a, l) :: ys) = slots (xs ++ [(a, l)]) ++ slots ys := by simp
  rw [hslots]
  exact hholds'

end Parent

/-- One of two nodes with `a` and `b` slots is too small by one, and the other can spare a slot. -/
def Borrows (rightUnderflow : Bool) (min max a b : ℕ) : Prop :=
  (rightUnderflow = true ∧ b + 1 = min ∧ min < a ∧ a ≤ max) ∨
  (rightUnderflow = false ∧ a + 1 = min ∧ min < b ∧ b ≤ max)

/-! ### Leaves that are too small -/

section Leaf

variable {left right : BPlusTreeLeafPage K V} {A B : List (K × V)} {rightUnderflow : Bool}

/-- Moving an entry to the leaf that is too small, whichever it is. -/
lemma exists_borrow_leaf (hv : tree.Sound) {nextl nextr : PageId}
    (hsize : Borrows rightUnderflow (tree.leafMaxSize / 2) tree.leafMaxSize A.length B.length)
    (hleft : tree.Shows (.leaf left) (.leaf A parent nextl))
    (hright : tree.Shows (.leaf right) (.leaf B parent nextr)) :
    ∃ left' right' A' k v B',
      (if rightUnderflow then left.moveLastToFrontOf tree.leafFits right
        else (right.moveFirstToEndOf tree.leafFits left).map Prod.swap) = some (left', right') ∧
      tree.Shows (.leaf left') (.leaf A' parent nextl) ∧
      tree.Shows (.leaf right') (.leaf ((k, v) :: B') parent nextr) ∧
      A ++ B = A' ++ (k, v) :: B' ∧ A' ≠ [] ∧
      (tree.leafMaxSize / 2 ≤ A'.length ∧ A'.length ≤ tree.leafMaxSize) ∧
      (tree.leafMaxSize / 2 ≤ B'.length + 1 ∧ B'.length + 1 ≤ tree.leafMaxSize) := by
  have hmax := hv.two_le_leafMaxSize
  obtain ⟨hleft, hleft'⟩ := hleft
  obtain ⟨hright, hright'⟩ := hright
  rcases hsize with ⟨rfl, hB, hA, hAmax⟩ | ⟨rfl, hA, hB, hBmax⟩
  · rcases List.eq_nil_or_concat A with rfl | ⟨A', ⟨k, v⟩, rfl⟩
    · simp at hA
    · rw [List.concat_eq_append] at *
      simp only [List.length_append, List.length_singleton] at hA hAmax
      obtain ⟨arr, harr, hl, hr⟩ := hleft.moveLastToFrontOf hright (f := tree.leafFits)
        (hv.leafFits.mono (by omega)) (hv.leafFits.mono (by omega))
      refine ⟨_, _, A', k, v, B, harr, ⟨hl, hleft'⟩, ⟨hr, hright'⟩, by simp, ?_, ?_, ?_⟩
      · rintro rfl
        simp only [List.length_nil] at hA
        omega
      · omega
      · omega
  · match B with
    | [] => simp at hB
    | [_] =>
      simp only [List.length_singleton] at hB
      omega
    | x :: (k, v) :: B' =>
      simp only [List.length_cons] at hB hBmax
      obtain ⟨arr, arr', harr, hr, hl⟩ := hright.moveFirstToEndOf hleft (f := tree.leafFits)
        (hv.leafFits.mono (by simp only [List.length_cons]; omega)) (hv.leafFits.mono (by omega))
      refine ⟨_, _, A ++ [x], k, v, B', ?_, ⟨hl, hleft'⟩, ⟨hr, hright'⟩, by simp, by simp, ?_, ?_⟩
      · simp [harr]
      · simp only [List.length_append, List.length_singleton]
        omega
      · omega

variable [LinearOrder K] {up : Context K V 1} {xs ys : List (WithBot K × SearchTree K V 0)}
  {a m : WithBot K} {pl pr : PageId} {node : BPlusTreeInternalPage K} {bl br bq : Bool}

/-- The part of `Remove` in which a leaf borrows an entry. -/
lemma borrowLeaf (hv : tree.Sound) (hs : Siblings tree up xs a (leaf pl A) m (leaf pr B) ys)
    (hsize : Borrows rightUnderflow (tree.leafMaxSize / 2) tree.leafMaxSize A.length B.length)
    (hleft : tree.Shows (.leaf left) (.leaf A q pr))
    (hright : tree.Shows (.leaf right) (.leaf B q (firstLeafs ys up.next)))
    (hnode : tree.Shows (.internal node : BPlusTreePage K V)
      (.internal (slots (xs ++ (a, leaf pl A) :: (m, leaf pr B) :: ys)) up.parent))
    (h : tree.Owned frame
      ({(pl, .leaf A q pr, bl)} + ({(pr, .leaf B q (firstLeafs ys up.next), br)} +
        {(q, .internal (slots (xs ++ (a, leaf pl A) :: (m, leaf pr B) :: ys)) up.parent, bq)}))
      (around q up xs ys pl) s) :
    wp (PageStore.handler frames)
      (tree.borrowLeaf pl pr q (xs.length + 1) rightUnderflow left right node)
      (fun _ s' => ∃ cs : List (WithBot K × SearchTree K V 0),
        entriesOf cs = entriesOf xs ++ (A ++ B) ++ entriesOf ys ∧
        up.Admits tree (.node q cs) ∧
        tree.Owned frame 0 ((SearchTree.node q cs).cells up.parent up.next +
          up.cells q (firstLeafs cs up.next)) s') s := by
  have hle := hs.size_le
  obtain ⟨left', right', A', k, v, B', hmove, hleft', hright', hAB, hne, hsizel, hsizer⟩ :=
    exists_borrow_leaf hv hsize hleft hright
  refine (wp_bind ..).2 ((wp_ofOption ..).2 ⟨_, hmove, ?_⟩)
  refine wp_seq (h.write hleft') ?_
  intro _ s₁ h
  refine wp_seq ((h.perm (add_left_comm ..) rfl).write hright') ?_
  intro _ s₂ h
  have hkey := hright'.1.keyAt_eq (f := tree.leafFits) (i := 0)
    (hv.leafFits.mono (by simp only [List.length_cons]; omega)) (by simp)
  refine (wp_bind ..).2 ((wp_ofOption ..).2 ⟨_, hkey, ?_⟩)
  obtain ⟨node', hset, hnode'⟩ := setKeyAt_right hnode (hv.internalFits.mono (by omega)) k
  refine (wp_bind ..).2 ((wp_ofOption ..).2 ⟨_, hset, ?_⟩)
  have h : tree.Owned frame
      ({(q, .internal (slots (xs ++ (a, leaf pl A) :: (m, leaf pr B) :: ys)) up.parent, bq)} +
        ({(pl, .leaf A' q pr, true)} +
          {(pr, .leaf ((k, v) :: B') q (firstLeafs ys up.next), true)})) _ s₂ :=
    h.perm (by abel) rfl
  refine wp_seq (h.write hnode') ?_
  intro _ s₃ h
  refine wp_seq ((h.perm (add_left_comm ..) rfl).unpin fun _ => rfl) ?_
  intro _ s₄ h
  refine wp_seq ((h.perm (add_comm ..) rfl).unpin fun _ => rfl) ?_
  intro _ s₅ h
  refine wp_mono ((h.perm (add_zero _).symm rfl).unpin fun _ => rfl) ?_
  intro _ s₆ h
  refine ⟨xs ++ (a, leaf pl A') :: ((k : WithBot K), leaf pr ((k, v) :: B')) :: ys, ?_,
    hs.recut_leaf hAB hne hsizel hsizer q, h.perm rfl ?_⟩
  · rw [hAB]
    simp
  · simp only [around, cells_eq (.node _ _), pid_node, rootCell_node, below_node, slots_append,
      slots_cons, cellsOf_append, cellsOf_cons, firstLeafs_append, firstLeafs_cons,
      cells_eq (leaf _ _), pid_leaf, rootCell_leaf, below_leaf, firstLeaf_leaf, add_zero]
    abel

omit [LinearOrder K] in
/-- The part of `Remove` in which two leaves are merged. -/
lemma joinLeaf (hv : tree.Sound) (hle : xs.length + ys.length + 2 ≤ tree.internalMaxSize)
    (hsize : A.length + B.length ≤ tree.leafMaxSize)
    (hleft : tree.Shows (.leaf left) (.leaf A q pr))
    (hright : tree.Shows (.leaf right) (.leaf B q (firstLeafs ys up.next)))
    (hnode : tree.Shows (.internal node : BPlusTreePage K V)
      (.internal (slots (xs ++ (a, leaf pl A) :: (m, leaf pr B) :: ys)) up.parent))
    (h : tree.Owned frame
      ({(pl, .leaf A q pr, bl)} + ({(pr, .leaf B q (firstLeafs ys up.next), br)} +
        {(q, .internal (slots (xs ++ (a, leaf pl A) :: (m, leaf pr B) :: ys)) up.parent, bq)}))
      (around q up xs ys pl) s) :
    wp (PageStore.handler frames) (tree.joinLeaf pl pr q (xs.length + 1) left right node)
      (fun node' s' => ∃ cs, cs = xs ++ (a, leaf pl (A ++ B)) :: ys ∧
        tree.Shows (.internal node' : BPlusTreePage K V) (.internal (slots cs) up.parent) ∧
        tree.Owned frame ({(q, .internal (slots cs) up.parent, true)} + 0)
          (cellsOf cs q up.next + up.cells q (firstLeafs cs up.next)) s') s := by
  obtain ⟨arr, harr, hholds⟩ := hright.1.moveAllTo hleft.1 (hv.leafFits.mono (by omega))
  refine (wp_bind ..).2 ((wp_ofOption ..).2 ⟨_, harr, ?_⟩)
  have hright' : tree.Shows (.leaf { right with size := 0 })
      (.leaf [] q (firstLeafs ys up.next)) := ⟨⟨rfl, by simp⟩, hright.2⟩
  have hleft' : tree.Shows (.leaf { left with
      array := arr, size := A.length + B.length, nextPageId := right.nextPageId })
      (.leaf (A ++ B) q (firstLeafs ys up.next)) :=
    ⟨hholds, hleft.2.1, hleft.2.2.1, hright.2.2.2⟩
  refine wp_seq ((h.perm (add_left_comm ..) rfl).write hright') ?_
  intro _ s₁ h
  refine wp_seq ((h.perm (add_left_comm ..) rfl).write hleft') ?_
  intro _ s₂ h
  obtain ⟨node', hremove, hnode'⟩ := remove_right hnode (hv.internalFits.mono (by omega))
  refine (wp_bind ..).2 ((wp_ofOption ..).2 ⟨_, hremove, ?_⟩)
  have h : tree.Owned frame
      ({(q, .internal (slots (xs ++ (a, leaf pl A) :: (m, leaf pr B) :: ys)) up.parent, bq)} +
        ({(pl, .leaf (A ++ B) q (firstLeafs ys up.next), true)} +
          {(pr, .leaf [] q (firstLeafs ys up.next), true)})) _ s₂ :=
    h.perm (by abel) rfl
  refine wp_seq (h.write hnode') ?_
  intro _ s₃ h
  refine wp_seq ((h.perm (add_left_comm ..) rfl).unpin fun _ => rfl) ?_
  intro _ s₄ h
  refine wp_seq ((h.perm (add_comm ..) rfl).unpin fun _ => rfl) ?_
  intro _ s₅ h
  refine wp_seq h.delete ?_
  intro _ s₆ h
  refine (wp_pure ..).2 ⟨_, rfl, by simpa using hnode', h.perm ?_ ?_⟩
  · simp
  · simp only [around, cellsOf_append, cellsOf_cons, firstLeafs_append, firstLeafs_cons,
      cells_eq (leaf _ _), pid_leaf, rootCell_leaf, below_leaf, firstLeaf_leaf, add_zero]
    abel

end Leaf

/-! ### Internal pages that are too small -/

section Internal

variable {left right node : BPlusTreeInternalPage K} {A B : List (WithBot K × SearchTree K V n)}
  {xs ys : List (WithBot K × SearchTree K V (n + 1))} {up : Context K V (n + 2)} {a : WithBot K}
  {m : K} {pl pr : PageId} {bl br bq : Bool} [LinearOrder K]

/-- The three pages that are pinned when internal pages are balanced: `left` with the children `A`,
`right` with the children `B`, and their parent. -/
def InternalPair (tree : BPlusTree) (frame : PageId → Option (BPlusTreePage K V))
    (q pl pr : PageId) (up : Context K V (n + 2)) (xs ys : List (WithBot K × SearchTree K V (n + 1)))
    (a m : WithBot K) (A B : List (WithBot K × SearchTree K V n)) (bl br bq : Bool)
    (s : PageStore (BPlusTreePage K V)) : Prop :=
  tree.Owned frame
    ({(pl, .internal (slots A) q, bl)} + ({(pr, .internal (slots B) q, br)} +
      {(q, .internal (slots (xs ++ (a, .node pl A) :: (m, .node pr B) :: ys)) up.parent, bq)}))
    (cellsOf A pl (firstLeafs B (firstLeafs ys up.next)) + cellsOf B pr (firstLeafs ys up.next) +
      around q up xs ys (firstLeafs A (firstLeafs B (firstLeafs ys up.next)))) s

/-- The part of `Remove` in which `right` takes the last child of `left`. -/
lemma borrowFromLeft (hv : tree.Sound) (hframes : ((4 : ℕ) : ℕ∞) ≤ frames)
    (hs : Siblings tree up xs a (.node pl A) m (.node pr B) ys)
    (hB : B.length + 1 = (tree.internalMaxSize + 1) / 2)
    (hA : (tree.internalMaxSize + 1) / 2 < A.length) (hAmax : A.length ≤ tree.internalMaxSize)
    (hleft : tree.Shows (.internal left : BPlusTreePage K V) (.internal (slots A) q))
    (hright : tree.Shows (.internal right : BPlusTreePage K V) (.internal (slots B) q))
    (hnode : tree.Shows (.internal node : BPlusTreePage K V)
      (.internal (slots (xs ++ (a, .node pl A) :: ((m : WithBot K), .node pr B) :: ys)) up.parent))
    (h : InternalPair tree frame q pl pr up xs ys a m A B bl br bq s) :
    wp (PageStore.handler frames)
      (tree.borrowFromLeft pl pr q (xs.length + 1) left right node m)
      (fun _ s' => ∃ (A' B' : List (WithBot K × SearchTree K V n)) (k : K),
        A' ++ B' = A ++ B ∧
        up.Admits tree (.node q (xs ++ (a, .node pl A') :: ((k : WithBot K), .node pr B') :: ys)) ∧
        InternalPair tree frame q pl pr up xs ys a k A' B' true true true s') s := by
  have hmax := hv.three_le_internalMaxSize
  have hle := hs.size_le
  rcases List.eq_nil_or_concat A with rfl | ⟨A', ⟨k, c⟩, rfl⟩
  · simp at hA
  rw [List.concat_eq_append] at *
  simp only [List.length_append, List.length_singleton] at hA hAmax
  have hne : A' ≠ [] := by
    rintro rfl
    simp only [List.length_nil] at hA
    omega
  have hcut : A' ++ [(k, c)] ++ B = A' ++ (k, c) :: B := by simp
  obtain ⟨k, rfl, hadmits⟩ := hs.recut_node hcut hne (by omega) (by omega) q
  obtain ⟨d, B₀, rfl⟩ := hs.exists_head
  simp only [List.length_cons] at hB
  have hleft' := hleft.1
  rw [slots_append, slots_cons, slots_nil] at hleft'
  have hright' := hright.1
  rw [slots_cons] at hright'
  -- the key of the child that moves goes up
  have hlenl : left.size - 1 = A'.length := by
    rw [hleft.1.size_eq]
    simp
  obtain ⟨k', hk', hkk⟩ := hleft.1.keyAt_eq (f := tree.internalFits) (i := A'.length)
    (hv.internalFits.mono (by simp; omega)) (by simp) (by omega)
  obtain rfl : k' = k := by
    rw [← WithBot.coe_inj, hkk]
    simp [slots]
  rw [BPlusTree.borrowFromLeft, hlenl]
  refine (wp_bind ..).2 ((wp_ofOption ..).2 ⟨_, hk', ?_⟩)
  obtain ⟨arr, harr, hmovedl, hmovedr⟩ := hleft'.moveLastToFrontOf hright'
    (f := tree.internalFits) (hv.internalFits.mono (by simp; omega))
    (hv.internalFits.mono (by simp; omega))
  refine (wp_bind ..).2 ((wp_ofOption ..).2 ⟨_, harr, ?_⟩)
  have hshowl : tree.Shows (.internal { left with size := (slots A').length } : BPlusTreePage K V)
      (.internal (slots A') q) := ⟨hmovedl, hleft.2⟩
  have hshowr : tree.Shows (.internal { right with
      array := arr, size := (slots B₀).length + 2 } : BPlusTreePage K V)
      (.internal (slots (((k' : WithBot K), c) :: ((m : WithBot K), d) :: B₀)) q) :=
    ⟨hmovedr, hright.2⟩
  refine wp_seq (PageStore.Owned.write h hshowl) ?_
  intro _ s₁ h
  refine wp_seq ((h.perm (add_left_comm ..) rfl).write hshowr) ?_
  intro _ s₂ h
  obtain ⟨node', hset, hnode'⟩ := setKeyAt_right hnode (hv.internalFits.mono (by omega)) k'
  refine (wp_bind ..).2 ((wp_ofOption ..).2 ⟨_, hset, ?_⟩)
  have h : tree.Owned frame
      ({(q, .internal (slots (xs ++ (a, .node pl (A' ++ [((k' : WithBot K), c)])) ::
          ((m : WithBot K), .node pr (((m : WithBot K), d) :: B₀)) :: ys)) up.parent, bq)} +
        ({(pl, .internal (slots A') q, true)} +
          {(pr, .internal (slots (((k' : WithBot K), c) :: ((m : WithBot K), d) :: B₀)) q, true)}))
      _ s₂ := h.perm (by abel) rfl
  refine wp_seq (h.write hnode') ?_
  intro _ s₃ h
  -- the child that moves gets its new parent
  have hchild := hmovedr.valueAt_eq (f := tree.internalFits) (i := 0)
    (hv.internalFits.mono (by simp; omega)) (by simp)
  refine (wp_bind ..).2 ((wp_ofOption ..).2 ⟨_, hchild, ?_⟩)
  have h : tree.Owned frame
      ({(q, .internal (slots (xs ++ (a, .node pl (A' ++ [((k' : WithBot K), c)])) ::
          ((k' : WithBot K), .node pr (((m : WithBot K), d) :: B₀)) :: ys)) up.parent, true)} +
        ({(pl, .internal (slots A') q, true)} +
          {(pr, .internal (slots (((k' : WithBot K), c) :: ((m : WithBot K), d) :: B₀)) q, true)}))
      ({(c.pid, c.rootCell pl (firstLeafs (((m : WithBot K), d) :: B₀) (firstLeafs ys up.next)))} +
        (c.below (firstLeafs (((m : WithBot K), d) :: B₀) (firstLeafs ys up.next)) +
          (cellsOf A' pl
            (firstLeafs (((k' : WithBot K), c) :: ((m : WithBot K), d) :: B₀)
              (firstLeafs ys up.next)) +
            cellsOf (((m : WithBot K), d) :: B₀) pr (firstLeafs ys up.next) +
            around q up xs ys (firstLeafs A'
              (firstLeafs (((k' : WithBot K), c) :: ((m : WithBot K), d) :: B₀)
                (firstLeafs ys up.next)))))) s₃ := by
    refine h.perm rfl ?_
    simp only [cellsOf_append, cellsOf_cons, cellsOf_nil, firstLeafs_append, firstLeafs_cons,
      firstLeafs_nil, cells_eq c]
    abel
  refine wp_seq (h.fetch (lt_frames hframes (by simp))) ?_
  intro _ s₄ h
  refine wp_seq (h.setParent pr) ?_
  intro _ s₅ h
  refine wp_mono (h.unpin fun _ => rfl) ?_
  intro _ s₆ h
  refine ⟨A', ((k' : WithBot K), c) :: ((m : WithBot K), d) :: B₀, k', by simp, hadmits,
    h.perm ?_ ?_⟩
  · simp only [slots_append, slots_cons, pid_node]
    abel
  · simp only [cellsOf_cons, cells_eq c]
    abel

/-- The part of `Remove` in which `left` takes the first child of `right`. -/
lemma borrowFromRight (hv : tree.Sound) (hframes : ((4 : ℕ) : ℕ∞) ≤ frames)
    (hs : Siblings tree up xs a (.node pl A) m (.node pr B) ys)
    (hA : A.length + 1 = (tree.internalMaxSize + 1) / 2)
    (hB : (tree.internalMaxSize + 1) / 2 < B.length) (hBmax : B.length ≤ tree.internalMaxSize)
    (hleft : tree.Shows (.internal left : BPlusTreePage K V) (.internal (slots A) q))
    (hright : tree.Shows (.internal right : BPlusTreePage K V) (.internal (slots B) q))
    (hnode : tree.Shows (.internal node : BPlusTreePage K V)
      (.internal (slots (xs ++ (a, .node pl A) :: ((m : WithBot K), .node pr B) :: ys)) up.parent))
    (h : InternalPair tree frame q pl pr up xs ys a m A B bl br bq s) :
    wp (PageStore.handler frames)
      (tree.borrowFromRight pl pr q (xs.length + 1) left right node m)
      (fun _ s' => ∃ (A' B' : List (WithBot K × SearchTree K V n)) (k : K),
        A' ++ B' = A ++ B ∧
        up.Admits tree (.node q (xs ++ (a, .node pl A') :: ((k : WithBot K), .node pr B') :: ys)) ∧
        InternalPair tree frame q pl pr up xs ys a k A' B' true true true s') s := by
  have hmax := hv.three_le_internalMaxSize
  have hle := hs.size_le
  obtain ⟨c, B₀, rfl⟩ := hs.exists_head
  match B₀ with
  | [] =>
    simp only [List.length_singleton] at hB
    omega
  | (k, d) :: B₁ =>
  simp only [List.length_cons] at hB hBmax
  have hcut : A ++ ((m : WithBot K), c) :: (k, d) :: B₁ =
      (A ++ [((m : WithBot K), c)]) ++ (k, d) :: B₁ := by simp
  obtain ⟨k, rfl, hadmits⟩ := hs.recut_node hcut (by simp) (by simp; omega) (by omega) q
  have hright' := hright.1
  rw [slots_cons, slots_cons] at hright'
  -- the key of the child behind the one that moves goes up
  obtain ⟨k', hk', hkk⟩ := hright'.keyAt_eq (f := tree.internalFits) (i := 1)
    (hv.internalFits.mono (by simp; omega)) (by simp) (by omega)
  obtain rfl : k' = k := by
    rw [← WithBot.coe_inj, hkk]
    simp
  refine (wp_bind ..).2 ((wp_ofOption ..).2 ⟨_, hk', ?_⟩)
  obtain ⟨arr, arr', harr, hmovedr, hmovedl⟩ := hright'.moveFirstToEndOf hleft.1
    (f := tree.internalFits) (hv.internalFits.mono (by simp; omega))
    (hv.internalFits.mono (by simp; omega))
  refine (wp_bind ..).2 ((wp_ofOption ..).2 ⟨_, harr, ?_⟩)
  have hslotsA : slots A ++ [((m : WithBot K), c.pid)] = slots (A ++ [((m : WithBot K), c)]) := by
    simp
  rw [hslotsA] at hmovedl
  have hshowr : tree.Shows (.internal { right with
      array := arr, size := (slots B₁).length + 1 } : BPlusTreePage K V)
      (.internal (slots (((k' : WithBot K), d) :: B₁)) q) := ⟨hmovedr, hright.2⟩
  have hshowl : tree.Shows (.internal { left with
      array := arr', size := (slots A).length + 1 } : BPlusTreePage K V)
      (.internal (slots (A ++ [((m : WithBot K), c)])) q) := ⟨hmovedl, hleft.2⟩
  refine wp_seq (PageStore.Owned.write (h.perm (add_left_comm ..) rfl) hshowr) ?_
  intro _ s₁ h
  refine wp_seq ((h.perm (add_left_comm ..) rfl).write hshowl) ?_
  intro _ s₂ h
  obtain ⟨node', hset, hnode'⟩ := setKeyAt_right hnode (hv.internalFits.mono (by omega)) k'
  refine (wp_bind ..).2 ((wp_ofOption ..).2 ⟨_, hset, ?_⟩)
  have h : tree.Owned frame
      ({(q, .internal (slots (xs ++ (a, .node pl A) :: ((m : WithBot K),
          .node pr (((m : WithBot K), c) :: ((k' : WithBot K), d) :: B₁)) :: ys)) up.parent, bq)} +
        ({(pl, .internal (slots (A ++ [((m : WithBot K), c)])) q, true)} +
          {(pr, .internal (slots (((k' : WithBot K), d) :: B₁)) q, true)}))
      _ s₂ := h.perm (by abel) rfl
  refine wp_seq (h.write hnode') ?_
  intro _ s₃ h
  -- the child that moves gets its new parent
  have hchild := hmovedl.valueAt_eq (f := tree.internalFits) (i := (slots A).length)
    (hv.internalFits.mono (by simp; omega)) (by simp)
  have hchild' : BPlusTreeInternalPage.valueAt tree.internalFits
      { left with array := arr', size := (slots A).length + 1 } ((slots A).length + 1 - 1) =
        some c.pid := by
    rw [Nat.add_sub_cancel, hchild]
    simp [slots]
  refine (wp_bind ..).2 ((wp_ofOption ..).2 ⟨_, hchild', ?_⟩)
  have h : tree.Owned frame
      ({(q, .internal (slots (xs ++ (a, .node pl A) :: ((k' : WithBot K),
          .node pr (((m : WithBot K), c) :: ((k' : WithBot K), d) :: B₁)) :: ys)) up.parent, true)} +
        ({(pl, .internal (slots (A ++ [((m : WithBot K), c)])) q, true)} +
          {(pr, .internal (slots (((k' : WithBot K), d) :: B₁)) q, true)}))
      ({(c.pid, c.rootCell pr (firstLeafs (((k' : WithBot K), d) :: B₁) (firstLeafs ys up.next)))} +
        (c.below (firstLeafs (((k' : WithBot K), d) :: B₁) (firstLeafs ys up.next)) +
          (cellsOf A pl (firstLeafs (((m : WithBot K), c) :: ((k' : WithBot K), d) :: B₁)
              (firstLeafs ys up.next)) +
            cellsOf (((k' : WithBot K), d) :: B₁) pr (firstLeafs ys up.next) +
            around q up xs ys (firstLeafs A
              (firstLeafs (((m : WithBot K), c) :: ((k' : WithBot K), d) :: B₁)
                (firstLeafs ys up.next)))))) s₃ := by
    refine h.perm rfl ?_
    simp only [cellsOf_cons, firstLeafs_cons, cells_eq c]
    abel
  refine wp_seq (h.fetch (lt_frames hframes (by simp))) ?_
  intro _ s₄ h
  refine wp_seq (h.setParent pl) ?_
  intro _ s₅ h
  refine wp_mono (h.unpin fun _ => rfl) ?_
  intro _ s₆ h
  refine ⟨A ++ [((m : WithBot K), c)], ((k' : WithBot K), d) :: B₁, k', by simp, hadmits,
    h.perm ?_ ?_⟩
  · simp only [slots_append, slots_cons, pid_node]
    abel
  · simp only [cellsOf_append, cellsOf_cons, cellsOf_nil, firstLeafs_append, firstLeafs_cons,
      firstLeafs_nil, cells_eq c]
    abel

/-- The part of `Remove` in which an internal page borrows a child. -/
lemma borrowInternal (hv : tree.Sound) (hframes : ((4 : ℕ) : ℕ∞) ≤ frames)
    {rightUnderflow : Bool} (hs : Siblings tree up xs a (.node pl A) m (.node pr B) ys)
    (hsize : Borrows rightUnderflow ((tree.internalMaxSize + 1) / 2) tree.internalMaxSize A.length
      B.length)
    (hleft : tree.Shows (.internal left : BPlusTreePage K V) (.internal (slots A) q))
    (hright : tree.Shows (.internal right : BPlusTreePage K V) (.internal (slots B) q))
    (hnode : tree.Shows (.internal node : BPlusTreePage K V)
      (.internal (slots (xs ++ (a, .node pl A) :: ((m : WithBot K), .node pr B) :: ys)) up.parent))
    (h : InternalPair tree frame q pl pr up xs ys a m A B bl br bq s) :
    wp (PageStore.handler frames)
      (tree.borrowInternal pl pr q (xs.length + 1) rightUnderflow left right node m)
      (fun _ s' => ∃ cs : List (WithBot K × SearchTree K V (n + 1)),
        entriesOf cs = entriesOf xs ++ (entriesOf A ++ entriesOf B) ++ entriesOf ys ∧
        up.Admits tree (.node q cs) ∧
        tree.Owned frame 0 ((SearchTree.node q cs).cells up.parent up.next +
          up.cells q (firstLeafs cs up.next)) s') s := by
  have hmove : wp (PageStore.handler frames)
      (if rightUnderflow then tree.borrowFromLeft pl pr q (xs.length + 1) left right node m
        else tree.borrowFromRight pl pr q (xs.length + 1) left right node m)
      (fun _ s' => ∃ (A' B' : List (WithBot K × SearchTree K V n)) (k : K),
        A' ++ B' = A ++ B ∧
        up.Admits tree (.node q (xs ++ (a, .node pl A') :: ((k : WithBot K), .node pr B') :: ys)) ∧
        InternalPair tree frame q pl pr up xs ys a k A' B' true true true s') s := by
    rcases hsize with ⟨rfl, hB, hA, hAmax⟩ | ⟨rfl, hA, hB, hBmax⟩
    · exact borrowFromLeft hv hframes hs hB hA hAmax hleft hright hnode h
    · exact borrowFromRight hv hframes hs hA hB hBmax hleft hright hnode h
  refine wp_seq hmove ?_
  intro _ s₁ hmoved
  obtain ⟨A', B', k, hAB, hadmits, h⟩ := hmoved
  have h : tree.Owned frame
      ({(q, .internal (slots (xs ++ (a, .node pl A') :: ((k : WithBot K), .node pr B') :: ys))
          up.parent, true)} +
        ({(pl, .internal (slots A') q, true)} + {(pr, .internal (slots B') q, true)})) _ s₁ :=
    PageStore.Owned.perm h (by abel) rfl
  refine wp_seq (h.unpin fun _ => rfl) ?_
  intro _ s₂ h
  refine wp_seq (h.unpin fun _ => rfl) ?_
  intro _ s₃ h
  refine wp_mono ((h.perm (add_zero _).symm rfl).unpin fun _ => rfl) ?_
  intro _ s₄ h
  refine ⟨_, ?_, hadmits, h.perm rfl ?_⟩
  · rw [← entriesOf_append A, ← hAB]
    simp
  · simp only [around, cells_eq (.node _ _), pid_node, rootCell_node, below_node, slots_append,
      slots_cons, cellsOf_append, cellsOf_cons, firstLeafs_append, firstLeafs_cons, firstLeaf_node]
    abel

/-- The part of `Remove` in which two internal pages are merged. -/
lemma joinInternal (hv : tree.Sound) (hframes : ((4 : ℕ) : ℕ∞) ≤ frames)
    (hs : Siblings tree up xs a (.node pl A) m (.node pr B) ys)
    (hsize : A.length + B.length ≤ tree.internalMaxSize)
    (hleft : tree.Shows (.internal left : BPlusTreePage K V) (.internal (slots A) q))
    (hright : tree.Shows (.internal right : BPlusTreePage K V) (.internal (slots B) q))
    (hnode : tree.Shows (.internal node : BPlusTreePage K V)
      (.internal (slots (xs ++ (a, .node pl A) :: ((m : WithBot K), .node pr B) :: ys)) up.parent))
    (h : InternalPair tree frame q pl pr up xs ys a m A B bl br bq s) :
    wp (PageStore.handler frames) (tree.joinInternal pl pr q (xs.length + 1) left right node m)
      (fun node' s' => ∃ cs, cs = xs ++ (a, .node pl (A ++ B)) :: ys ∧
        tree.Shows (.internal node' : BPlusTreePage K V) (.internal (slots cs) up.parent) ∧
        tree.Owned frame ({(q, .internal (slots cs) up.parent, true)} + 0)
          (cellsOf cs q up.next + up.cells q (firstLeafs cs up.next)) s') s := by
  have hle := hs.size_le
  obtain ⟨d, B₀, rfl⟩ := hs.exists_head
  simp only [List.length_cons] at hsize
  have hright' := hright.1
  rw [slots_cons] at hright'
  obtain ⟨arr, harr, hholds⟩ := hright'.moveAllTo hleft.1 (f := tree.internalFits)
    (hv.internalFits.mono (by simp; omega))
  refine (wp_bind ..).2 ((wp_ofOption ..).2 ⟨_, harr, ?_⟩)
  have hslots : slots A ++ ((m : WithBot K), d.pid) :: slots B₀ =
      slots (A ++ ((m : WithBot K), d) :: B₀) := by simp
  rw [hslots] at hholds
  have hshowr : tree.Shows (.internal { right with size := 0 } : BPlusTreePage K V)
      (.internal [] q) := ⟨⟨rfl, by simp⟩, hright.2⟩
  have hshowl : tree.Shows (.internal { left with
      array := arr, size := (slots A).length + ((slots B₀).length + 1) } : BPlusTreePage K V)
      (.internal (slots (A ++ ((m : WithBot K), d) :: B₀)) q) := ⟨hholds, hleft.2⟩
  refine wp_seq (PageStore.Owned.write (h.perm (add_left_comm ..) rfl) hshowr) ?_
  intro _ s₁ h
  refine wp_seq ((h.perm (add_left_comm ..) rfl).write hshowl) ?_
  intro _ s₂ h
  have h : tree.Owned frame
      ({(q, .internal (slots (xs ++ (a, .node pl A) ::
          ((m : WithBot K), .node pr (((m : WithBot K), d) :: B₀)) :: ys)) up.parent, bq)} +
        ({(pl, .internal (slots (A ++ ((m : WithBot K), d) :: B₀)) q, true)} +
          {(pr, .internal [] q, true)}))
      (cellsOf A pl (firstLeafs (((m : WithBot K), d) :: B₀) (firstLeafs ys up.next)) +
        (cellsOf (((m : WithBot K), d) :: B₀) pr (firstLeafs ys up.next) +
          around q up xs ys (firstLeafs A (firstLeafs (((m : WithBot K), d) :: B₀)
            (firstLeafs ys up.next))))) s₂ := h.perm (by abel) (by abel)
  -- all children get `left` as their parent, first those of `left` itself
  have hcount : (slots A).length + ((slots B₀).length + 1) =
      A.length + (((m : WithBot K), d) :: B₀).length := by simp
  rw [hcount] at hholds
  rw [hcount]
  refine wp_seq (h.adoptChildren_append (q := pl) (lt_frames hframes (by simp)) hholds
    (hv.internalFits.mono (by simp; omega))) ?_
  intro _ s₃ h
  obtain ⟨node', hremove, hnode'⟩ := remove_right hnode (hv.internalFits.mono (by omega))
  refine (wp_bind ..).2 ((wp_ofOption ..).2 ⟨_, hremove, ?_⟩)
  refine wp_seq (h.write hnode') ?_
  intro _ s₄ h
  have h : tree.Owned frame
      ({(pr, .internal [] q, true)} +
        ({(pl, .internal (slots (A ++ ((m : WithBot K), d) :: B₀)) q, true)} +
          {(q, .internal (slots (xs ++ (a, .node pl A) :: ys)) up.parent, true)})) _ s₄ :=
    h.perm (by abel) rfl
  refine wp_seq (h.unpin fun _ => rfl) ?_
  intro _ s₅ h
  refine wp_seq h.delete ?_
  intro _ s₆ h
  refine wp_seq (h.unpin fun _ => rfl) ?_
  intro _ s₇ h
  refine (wp_pure ..).2 ⟨_, rfl, by simpa using hnode', h.perm ?_ ?_⟩
  · simp
  · simp only [around, cellsOf_append, cellsOf_cons, firstLeafs_append, firstLeafs_cons,
      cells_eq (.node _ _), pid_node, rootCell_node, below_node, firstLeaf_node]
    abel

end Internal

/-! ### Going up -/

section Loop

variable {fuel : ℕ}

/-- Below a root, the least size is no less than that of a root. -/
lemma minSize_le (hv : tree.Sound) (ctx : Context K V n) : ctx.minSize tree ≤ tree.minSize n := by
  have hleaf := hv.two_le_leafMaxSize
  have hinternal := hv.three_le_internalMaxSize
  cases ctx with
  | root =>
    cases n with
    | zero =>
      change 1 ≤ tree.leafMaxSize / 2
      omega
    | succ n =>
      change 2 ≤ (tree.internalMaxSize + 1) / 2
      omega
  | node q before key after up => exact le_refl _

/-- An internal node has two children at least. -/
lemma two_le_minSize (hv : tree.Sound) (ctx : Context K V (n + 1)) : 2 ≤ ctx.minSize tree := by
  have hinternal := hv.three_le_internalMaxSize
  cases ctx with
  | root => exact le_refl 2
  | node q before key after up =>
    change 2 ≤ (tree.internalMaxSize + 1) / 2
    omega

variable [LinearOrder K]

/-- The end of a round of `Remove` at the parent `q` of two children that have been merged: either
it is large enough, or the loop goes on there. -/
lemma joined (hv : tree.Sound) {up : Context K V (n + 1)}
    {cs : List (WithBot K × SearchTree K V n)} {node : BPlusTreeInternalPage K}
    (hup : up.WellFormed tree) (hshaped : (SearchTree.node q cs).Shaped tree up.lo up.hi)
    (hmax : cs.length ≤ tree.internalMaxSize)
    (hnode : tree.Shows (.internal node : BPlusTreePage K V) (.internal (slots cs) up.parent))
    (h : tree.Owned frame ({(q, .internal (slots cs) up.parent, true)} + 0)
      (cellsOf cs q up.next + up.cells q (firstLeafs cs up.next)) s)
    (hloop : cs.length < (tree.internalMaxSize + 1) / 2 →
      wp (PageStore.handler frames) (tree.mergeLoop (up.rootPage q) fuel q)
        (fun root s' => ∃ T, tree.Represents frame (some T) root s' ∧
          T.2.entries = up.left ++ entriesOf cs ++ up.right ∧ T.1 ≤ n + 1 + up.depth) s) :
    wp (PageStore.handler frames)
      (if node.getMinSize ≤ node.size then do
        PageClient.unpin q true
        pure (up.rootPage q)
      else tree.mergeLoop (up.rootPage q) fuel q)
      (fun root s' => ∃ T, tree.Represents frame (some T) root s' ∧
        T.2.entries = up.left ++ entriesOf cs ++ up.right ∧ T.1 ≤ n + 1 + up.depth) s := by
  obtain ⟨hholds, hmaxSize, -⟩ := hnode
  have hmin : node.getMinSize = (tree.internalMaxSize + 1) / 2 := by
    rw [BPlusTreeInternalPage.getMinSize, hmaxSize]
  have hsize : node.size = cs.length := by rw [hholds.size_eq, length_slots]
  rw [hmin, hsize]
  by_cases hle : (tree.internalMaxSize + 1) / 2 ≤ cs.length
  · rw [if_pos hle]
    refine wp_seq (h.unpin fun _ => rfl) ?_
    intro _ s₁ h
    have hadmits : up.Admits tree (.node q cs) := ⟨⟨(minSize_le hv up).trans hle, hmax⟩, hshaped⟩
    refine (wp_pure ..).2 ⟨up.plug (.node q cs), represents_plug hup hadmits (h.perm rfl ?_), ?_, ?_⟩
    · rw [cells_eq (.node q cs), add_assoc]
      rfl
    · rw [Context.entries_plug, entries_node]
    · rw [Context.height_plug]
  · rw [if_neg hle]
    exact hloop (by omega)

/-- A root that is too small, or not: it goes when it has a single child, and then this child is the
root.

**Proof sketch.** With a single child the node is written without it, the child loses its parent, and
the old root is given up and deleted: what remains is the child, whose size is enough for a root.
With more children nothing changes, and the node is a root as it stands. -/
lemma shrinkRoot (hv : tree.Sound) (hframes : ((4 : ℕ) : ℕ∞) ≤ frames)
    {cs : List (WithBot K × SearchTree K V n)} {node : BPlusTreeInternalPage K}
    (hshaped : (SearchTree.node q cs).Shaped tree
      (Context.root : Context K V (n + 1)).lo (Context.root : Context K V (n + 1)).hi)
    (hmin : 1 ≤ cs.length) (hmax : cs.length ≤ tree.internalMaxSize)
    (hnode : tree.Shows (.internal node : BPlusTreePage K V)
      (.internal (slots cs) invalidPageId))
    (h : tree.Owned frame ({(q, .internal (slots cs) invalidPageId, b)} + 0)
      (cellsOf cs q invalidPageId) s) :
    wp (PageStore.handler frames) (tree.shrinkRoot q q node)
      (fun root s' => ∃ T, tree.Represents frame (some T) root s' ∧
        T.2.entries = entriesOf cs ∧ T.1 ≤ n + 1) s := by
  have hinternal := hv.three_le_internalMaxSize
  have hsize : node.size = cs.length := by rw [hnode.1.size_eq, length_slots]
  rw [BPlusTree.shrinkRoot, hsize]
  by_cases hone : cs.length = 1
  · rw [if_pos hone]
    obtain ⟨⟨k, c⟩, rfl⟩ := List.length_eq_one_iff.1 hone
    obtain ⟨hstart, -, hfit, -⟩ := shaped_node.1 hshaped
    obtain rfl : k = ⊥ := WithTop.coe_inj.1 hstart
    have hchild := hnode.1.removeAndReturnOnlyChild (f := tree.internalFits)
      (hv.internalFits.mono (by omega))
    refine (wp_bind ..).2 ((wp_ofOption ..).2 ⟨_, hchild, ?_⟩)
    have hempty : tree.Shows (.internal { node with size := 0 } : BPlusTreePage K V)
        (.internal [] invalidPageId) := ⟨⟨rfl, by simp⟩, hnode.2⟩
    refine wp_seq (h.write hempty) ?_
    intro _ s₂ h
    have h : tree.Owned frame ({(q, .internal [] invalidPageId, true)} + 0)
        ({(c.pid, c.rootCell q invalidPageId)} + c.below invalidPageId) s₂ := by
      refine h.perm rfl ?_
      simp [cells_eq c]
    refine wp_seq (h.fetch (lt_frames hframes (by simp))) ?_
    intro _ s₃ h
    refine wp_seq (h.setParent invalidPageId) ?_
    intro _ s₄ h
    refine wp_seq (h.unpin fun _ => rfl) ?_
    intro _ s₅ h
    refine wp_seq (h.unpin fun _ => rfl) ?_
    intro _ s₆ h
    refine wp_seq h.delete ?_
    intro _ s₇ h
    refine (wp_pure ..).2 ⟨⟨n, c⟩, ⟨⟨⟨?_, hfit.1.2⟩, hfit.2⟩, rfl, h.perm rfl ?_⟩, ?_, ?_⟩
    · exact (minSize_le hv (.root : Context K V n)).trans hfit.1.1
    · exact (cells_eq c ..).symm
    · simp
    · simp
  · rw [if_neg hone]
    refine wp_seq (h.unpin fun _ => rfl) ?_
    intro _ s₂ h
    have hadmits : (Context.root : Context K V (n + 1)).Admits tree (.node q cs) := by
      refine ⟨⟨?_, hmax⟩, hshaped⟩
      change 2 ≤ cs.length
      omega
    have hroot : (Context.root : Context K V (n + 1)).WellFormed tree := trivial
    refine (wp_pure ..).2 ⟨⟨n + 1, .node q cs⟩, represents_plug hroot hadmits
      (h.perm rfl ?_), by simp, by simp⟩
    simp [cells_eq (.node q cs)]

/-- Two adjacent internal children, one of which is too small: they are balanced, and the loop goes
on at their parent when it has become too small.

**Proof sketch.** If one of the two has a child to spare, it moves over (`borrowInternal`), and the
loop is over. If not, both have at most one child more than half of the largest size between them, so
that they fit on one page: they are merged (`joinInternal`), and the rest is lemma `joined`. -/
lemma balanceNodes (hv : tree.Sound) (hframes : ((4 : ℕ) : ℕ∞) ≤ frames)
    {up : Context K V (n + 2)} {xs ys : List (WithBot K × SearchTree K V (n + 1))}
    {a m : WithBot K} {A B : List (WithBot K × SearchTree K V n)} {pl pr : PageId}
    {parentNode : BPlusTreeInternalPage K} {bl br rightUnderflow : Bool}
    (hs : Siblings tree up xs a (.node pl A) m (.node pr B) ys)
    (hsize : (rightUnderflow = true ∧ B.length + 1 = (tree.internalMaxSize + 1) / 2 ∧
        (tree.internalMaxSize + 1) / 2 ≤ A.length ∧ A.length ≤ tree.internalMaxSize) ∨
      (rightUnderflow = false ∧ A.length + 1 = (tree.internalMaxSize + 1) / 2 ∧
        (tree.internalMaxSize + 1) / 2 ≤ B.length ∧ B.length ≤ tree.internalMaxSize))
    (hparentNode : tree.Shows (.internal parentNode : BPlusTreePage K V)
      (.internal (slots (xs ++ (a, .node pl A) :: (m, .node pr B) :: ys)) up.parent))
    (hpair : InternalPair tree frame q pl pr up xs ys a m A B bl br false s)
    (hloop : ∀ {cs : List (WithBot K × SearchTree K V (n + 1))} {s' : PageStore (BPlusTreePage K V)},
      (SearchTree.node q cs).Shaped tree up.lo up.hi → up.minSize tree ≤ cs.length + 1 →
      cs.length < (tree.internalMaxSize + 1) / 2 →
      tree.Owned frame ({(q, .internal (slots cs) up.parent, true)} + 0)
        (cellsOf cs q up.next + up.cells q (firstLeafs cs up.next)) s' →
      wp (PageStore.handler frames) (tree.mergeLoop (up.rootPage q) fuel q)
        (fun root s'' => ∃ T, tree.Represents frame (some T) root s'' ∧
          T.2.entries = up.left ++ entriesOf cs ++ up.right ∧ T.1 ≤ n + 2 + up.depth) s') :
    wp (PageStore.handler frames)
      (tree.balanceNodes (up.rootPage q) fuel q parentNode pl pr (xs.length + 1) rightUnderflow)
      (fun root s' => ∃ T, tree.Represents frame (some T) root s' ∧
        T.2.entries = up.left ++ entriesOf xs ++ entriesOf A ++ entriesOf B ++ entriesOf ys ++
          up.right ∧ T.1 ≤ n + 2 + up.depth) s := by
  have hinternal := hv.three_le_internalMaxSize
  refine wp_seq (PageStore.Owned.readInternal hpair) ?_
  intro leftNode s₅ hread
  obtain ⟨hleft, h⟩ := hread
  refine wp_seq (h.perm (add_left_comm ..) rfl).readInternal ?_
  intro rightNode s₆ hread
  obtain ⟨hright, h⟩ := hread
  obtain ⟨m, hm, rfl⟩ := keyAt_right hparentNode
    (hv.internalFits.mono (by have hle := hs.size_le; omega))
  refine (wp_bind ..).2 ((wp_ofOption ..).2 ⟨_, hm, ?_⟩)
  have hpair : InternalPair tree frame q pl pr up xs ys a m A B bl br false s₆ :=
    h.perm (add_left_comm ..) rfl
  have hminl : leftNode.getMinSize = (tree.internalMaxSize + 1) / 2 := by
    rw [BPlusTreeInternalPage.getMinSize, hleft.2.1]
  have hminr : rightNode.getMinSize = (tree.internalMaxSize + 1) / 2 := by
    rw [BPlusTreeInternalPage.getMinSize, hright.2.1]
  have hsizel : leftNode.size = A.length := by rw [hleft.1.size_eq, length_slots]
  have hsizer : rightNode.size = B.length := by rw [hright.1.size_eq, length_slots]
  rw [hminl, hminr, hsizel, hsizer]
  by_cases hborrow : (tree.internalMaxSize + 1) / 2 < A.length ∨
      (tree.internalMaxSize + 1) / 2 < B.length
  · rw [if_pos hborrow]
    have hborrows : Borrows rightUnderflow ((tree.internalMaxSize + 1) / 2)
        tree.internalMaxSize A.length B.length := by
      rcases hsize with ⟨hb, hB, -, hA⟩ | ⟨hb, hA, -, hB⟩
      · exact .inl ⟨hb, hB, by omega, hA⟩
      · exact .inr ⟨hb, hA, by omega, hB⟩
    refine wp_seq (borrowInternal hv hframes hs hborrows hleft hright hparentNode hpair) ?_
    intro _ s₇ hborrowed
    obtain ⟨cs', hentries', hadmits, h⟩ := hborrowed
    refine (wp_pure ..).2 ⟨up.plug (.node q cs'),
      represents_plug hs.up_wellFormed hadmits h, ?_, ?_⟩
    · rw [Context.entries_plug, entries_node, hentries']
      simp
    · rw [Context.height_plug]
  · rw [if_neg hborrow]
    have hsum : A.length + B.length ≤ tree.internalMaxSize := by omega
    have hfit : (SearchTree.node pl (A ++ B)).Fit tree a (start ys up.hi) := by
      refine ⟨⟨?_, ?_⟩, shaped_node_join hs.left hs.right pl⟩
      · change (tree.internalMaxSize + 1) / 2 ≤ (A ++ B).length
        rw [List.length_append]
        omega
      · change (A ++ B).length ≤ tree.internalMaxSize
        rw [List.length_append]
        exact hsum
    refine wp_seq (joinInternal hv hframes hs hsum hleft hright hparentNode hpair) ?_
    intro parentNode' s₇ hjoined
    obtain ⟨cs', rfl, hnode', h⟩ := hjoined
    have hge := hs.size_ge
    have hle := hs.size_le
    have hlen' : (xs ++ (a, SearchTree.node pl (A ++ B)) :: ys).length =
        xs.length + ys.length + 1 := by
      simp
      omega
    have hshaped' := hs.shaped_join hfit q
    refine wp_mono (joined hv hs.up_wellFormed hshaped' (by omega) hnode' h fun hlt' =>
      hloop hshaped' (by omega) hlt' h) ?_
    intro root s' hT
    obtain ⟨T, hT, hentriesT, hheight⟩ := hT
    refine ⟨T, hT, ?_, hheight⟩
    rw [hentriesT]
    simp

/-- The loop of `Remove`, from an internal page in a hole that is too small.

**Proof sketch.** Induction on the fuel, which is enough for the depth of the hole. At the root the
loop is over (`shrinkRoot`). Elsewhere the parent and a sibling are fetched: the node and its sibling
are adjacent children (`Siblings`) that are balanced (`balanceNodes`), and where that leaves the parent
too small, the loop goes on one level up. -/
lemma mergeLoop (hv : tree.Sound) (hframes : ((4 : ℕ) : ℕ∞) ≤ frames) {ctx : Context K V (n + 1)}
    {cs : List (WithBot K × SearchTree K V n)} (hfuel : ctx.depth < fuel)
    (hctx : ctx.WellFormed tree) (hshaped : (SearchTree.node q cs).Shaped tree ctx.lo ctx.hi)
    (hmin : ctx.minSize tree ≤ cs.length + 1) (hlt : cs.length < (tree.internalMaxSize + 1) / 2)
    (h : tree.Owned frame ({(q, .internal (slots cs) ctx.parent, b)} + 0)
      (cellsOf cs q ctx.next + ctx.cells q (firstLeafs cs ctx.next)) s) :
    wp (PageStore.handler frames) (tree.mergeLoop (ctx.rootPage q) fuel q)
      (fun root s' => ∃ T, tree.Represents frame (some T) root s' ∧
        T.2.entries = ctx.left ++ entriesOf cs ++ ctx.right ∧ T.1 ≤ n + 1 + ctx.depth) s := by
  have hinternal := hv.three_le_internalMaxSize
  induction fuel generalizing n q b s with
  | zero => omega
  | succ fuel ih =>
    rw [mergeLoop_succ]
    refine wp_seq h.readInternal ?_
    intro node s₁ hread
    obtain ⟨hnode, h⟩ := hread
    have hparent : node.parentPageId = ctx.parent := hnode.2.2
    cases ctx with
    | root =>
      have hroot : node.isRootPage = true := by
        rw [BPlusTreeInternalPage.isRootPage, hparent]
        rfl
      rw [if_pos hroot]
      change 2 ≤ cs.length + 1 at hmin
      refine wp_mono (shrinkRoot hv hframes hshaped (by omega) (by omega) hnode
        (h.perm rfl (by simp))) ?_
      intro root s' hT
      obtain ⟨T, hT, hentriesT, hheight⟩ := hT
      exact ⟨T, hT, by simpa using hentriesT, by simpa using hheight⟩
    | node q' before key after up =>
      simp only [Context.parent_node, Context.next_node, Context.cells_node] at h hparent
      have hq' : q' ≠ invalidPageId :=
        h.ne_invalid (c := .internal (slots before ++ (key, q) :: slots after) up.parent) (by simp)
      have hroot : ¬ node.isRootPage = true := by
        simp [BPlusTreeInternalPage.isRootPage, hparent, hq']
      rw [if_neg hroot, hparent]
      have hlen : (before ++ (key, SearchTree.node q cs) :: after).length =
          before.length + 1 + after.length := by
        simp
        omega
      have htwo := two_le_minSize hv up
      have hlow : up.minSize tree ≤ before.length + 1 + after.length := hctx.1.1
      have hhigh : before.length + 1 + after.length ≤ tree.internalMaxSize := hctx.1.2
      have hcslen : cs.length + 1 = (tree.internalMaxSize + 1) / 2 := by
        change (tree.internalMaxSize + 1) / 2 ≤ cs.length + 1 at hmin
        omega
      -- the parent and the sibling are fetched
      have h : tree.Owned frame
          ({((SearchTree.node q cs).pid,
            (SearchTree.node q cs).rootCell q' (firstLeafs after up.next), b)} + 0)
          ({(q', .internal (slots (before ++ (key, SearchTree.node q cs) :: after)) up.parent)} +
            ((SearchTree.node q cs).below (firstLeafs after up.next) +
              around q' up before after
                ((SearchTree.node q cs).firstLeaf (firstLeafs after up.next)))) s₁ := by
        refine h.perm rfl ?_
        simp only [around, slots_append, slots_cons, pid_node, below_node, firstLeaf_node]
        abel
      refine wp_seq (h.fetch (lt_frames hframes (by simp))) ?_
      intro _ s₂ h
      refine wp_seq h.readInternal ?_
      intro parentNode s₃ hread
      obtain ⟨hparentNode, h⟩ := hread
      refine wp_seq (fetchSibling hframes hparentNode.1 (hv.internalFits.mono (by omega))
        (by omega) (h.perm (by rw [add_zero]) rfl)) ?_
      intro x s₄ hsibling
      obtain ⟨xs, a, l, m, r, ys, bl, br, hcs, hx, hcases, h⟩ := hsibling
      obtain ⟨left, right, rightIndex, rightUnderflow⟩ := x
      simp only [Prod.mk.injEq, and_true] at hx hcases
      obtain ⟨rfl, rfl, rfl⟩ := hx
      obtain ⟨hs, hsize⟩ := Siblings.of_cases hctx hshaped hcslen hcases
      obtain ⟨pl, A, rfl⟩ := l.exists_node
      obtain ⟨pr, B, rfl⟩ := r.exists_node
      rw [hcs] at hparentNode h
      have hentries : entriesOf before ++ (entriesOf cs ++ (entriesOf after ++ up.right)) =
          entriesOf xs ++ (entriesOf A ++ (entriesOf B ++ (entriesOf ys ++ up.right))) := by
        have hcs' := congrArg (fun l => entriesOf l ++ up.right) hcs
        simpa using hcs'
      rw [Context.depth_node] at hfuel
      refine wp_mono (balanceNodes hv hframes hs hsize hparentNode h fun hshaped' hmin' hlt' h' =>
        ih (by omega) hs.up_wellFormed hshaped' hmin' hlt' h') ?_
      intro root s' hT
      obtain ⟨T, hT, hentriesT, hheight⟩ := hT
      refine ⟨T, hT, ?_, ?_⟩
      · rw [hentriesT, Context.left_node, Context.right_node]
        simp [hentries]
      · rw [Context.depth_node]
        omega

/-- `Remove` at a leaf in a hole that is too small and has a parent. -/
lemma balanceLeaf (hv : tree.Sound) (hframes : ((4 : ℕ) : ℕ∞) ≤ frames) {up : Context K V 1}
    {before after : List (WithBot K × SearchTree K V 0)} {key : WithBot K} {es : List (K × V)}
    (hfuel : up.depth < fuel) (hctx : (Context.node q before key after up).WellFormed tree)
    (hshaped : (leaf p es).Shaped tree key (start after up.hi))
    (hsize : es.length + 1 = tree.leafMaxSize / 2)
    (h : tree.Owned frame
      ({(q, .internal (slots (before ++ (key, leaf p es) :: after)) up.parent, b)} +
        {(p, .leaf es q (firstLeafs after up.next), b')}) (around q up before after p) s) :
    wp (PageStore.handler frames) (tree.balanceLeaf fuel (up.rootPage q) p q)
      (fun root s' => ∃ T, tree.Represents frame (some T) root s' ∧
        T.2.entries = up.left ++ entriesOf before ++ es ++ entriesOf after ++ up.right ∧
        T.1 ≤ 1 + up.depth) s := by
  have hlen : (before ++ (key, leaf p es) :: after).length = before.length + 1 + after.length := by
    simp
    omega
  have htwo := two_le_minSize hv up
  have hlow : up.minSize tree ≤ before.length + 1 + after.length := hctx.1.1
  have hhigh : before.length + 1 + after.length ≤ tree.internalMaxSize := hctx.1.2
  refine wp_seq h.readInternal ?_
  intro parentNode s₁ hread
  obtain ⟨hparentNode, h⟩ := hread
  have h : tree.Owned frame
      ({(q, .internal (slots (before ++ (key, leaf p es) :: after)) up.parent, b)} +
        {((leaf p es).pid, (leaf p es).rootCell q (firstLeafs after up.next), b')})
      ((leaf p es).below (firstLeafs after up.next) +
        around q up before after ((leaf p es).firstLeaf (firstLeafs after up.next))) s₁ :=
    h.perm rfl (by simp)
  refine wp_seq (fetchSibling hframes hparentNode.1 (hv.internalFits.mono (by omega))
    (by omega) h) ?_
  intro x s₂ hsibling
  obtain ⟨xs, a, l, m, r, ys, bl, br, hcs, hx, hcases, h⟩ := hsibling
  obtain ⟨left, right, rightIndex, rightUnderflow⟩ := x
  simp only [Prod.mk.injEq, and_true] at hx hcases
  obtain ⟨rfl, rfl, rfl⟩ := hx
  obtain ⟨hs, hsizes⟩ := Siblings.of_cases hctx hshaped hsize hcases
  obtain ⟨pl, A, rfl⟩ := l.exists_leaf
  obtain ⟨pr, B, rfl⟩ := r.exists_leaf
  rw [hcs] at hparentNode h
  have hentries : ∀ es', entriesOf before ++ (es ++ (entriesOf after ++ es')) =
      entriesOf xs ++ (A ++ (B ++ (entriesOf ys ++ es'))) := by
    intro es'
    have hcs' := congrArg (fun l => entriesOf l ++ es') hcs
    simpa using hcs'
  have h : tree.Owned frame
      ({(pl, .leaf A q pr, bl)} + ({(pr, .leaf B q (firstLeafs ys up.next), br)} +
        {(q, .internal (slots (xs ++ (a, leaf pl A) :: (m, leaf pr B) :: ys)) up.parent, b)}))
      (around q up xs ys pl) s₂ := h.perm rfl (by simp)
  refine wp_seq h.readLeaf ?_
  intro leftLeaf s₃ hread
  obtain ⟨hleft, h⟩ := hread
  refine wp_seq (h.perm (add_left_comm ..) rfl).readLeaf ?_
  intro rightLeaf s₄ hread
  obtain ⟨hright, h⟩ := hread
  have h : tree.Owned frame
      ({(pl, .leaf A q pr, bl)} + ({(pr, .leaf B q (firstLeafs ys up.next), br)} +
        {(q, .internal (slots (xs ++ (a, leaf pl A) :: (m, leaf pr B) :: ys)) up.parent, b)}))
      (around q up xs ys pl) s₄ := h.perm (add_left_comm ..) rfl
  have hminl : leftLeaf.getMinSize = tree.leafMaxSize / 2 := by
    rw [BPlusTreeLeafPage.getMinSize, hleft.2.1]
  have hminr : rightLeaf.getMinSize = tree.leafMaxSize / 2 := by
    rw [BPlusTreeLeafPage.getMinSize, hright.2.1]
  rw [hminl, hminr, hleft.1.size_eq, hright.1.size_eq]
  have hsizes : (rightUnderflow = true ∧ B.length + 1 = tree.leafMaxSize / 2 ∧
        tree.leafMaxSize / 2 ≤ A.length ∧ A.length ≤ tree.leafMaxSize) ∨
      (rightUnderflow = false ∧ A.length + 1 = tree.leafMaxSize / 2 ∧
        tree.leafMaxSize / 2 ≤ B.length ∧ B.length ≤ tree.leafMaxSize) := hsizes
  by_cases hborrow : tree.leafMaxSize / 2 < A.length ∨ tree.leafMaxSize / 2 < B.length
  · rw [if_pos hborrow]
    have hborrows : Borrows rightUnderflow (tree.leafMaxSize / 2) tree.leafMaxSize A.length
        B.length := by
      rcases hsizes with ⟨hb, hB, -, hA⟩ | ⟨hb, hA, -, hB⟩
      · exact .inl ⟨hb, hB, by omega, hA⟩
      · exact .inr ⟨hb, hA, by omega, hB⟩
    refine wp_seq (borrowLeaf hv hs hborrows hleft hright hparentNode h) ?_
    intro _ s₅ hborrowed
    obtain ⟨cs, hentries', hadmits, h⟩ := hborrowed
    refine (wp_pure ..).2 ⟨up.plug (.node q cs), represents_plug hs.up_wellFormed hadmits h, ?_, ?_⟩
    · rw [Context.entries_plug, entries_node, hentries']
      simp [hentries]
    · rw [Context.height_plug]
  · rw [if_neg hborrow]
    have hsum : A.length + B.length ≤ tree.leafMaxSize := by omega
    have hmax := hv.two_le_leafMaxSize
    have hfit : (leaf pl (A ++ B)).Fit tree a (start ys up.hi) := by
      refine ⟨⟨?_, ?_⟩, shaped_leaf_join hs.left hs.right hs.lo_lt.le hs.lt_hi.le pl⟩
      · change tree.leafMaxSize / 2 ≤ (A ++ B).length
        rw [List.length_append]
        omega
      · change (A ++ B).length ≤ tree.leafMaxSize
        rw [List.length_append]
        exact hsum
    refine wp_seq (joinLeaf hv hs.size_le hsum hleft hright hparentNode h) ?_
    intro parentNode' s₅ hjoined
    obtain ⟨cs, rfl, hnode', h⟩ := hjoined
    have hge := hs.size_ge
    have hle := hs.size_le
    have hlen' : (xs ++ (a, leaf pl (A ++ B)) :: ys).length = xs.length + ys.length + 1 := by
      simp
      omega
    have hshaped' := hs.shaped_join hfit q
    refine wp_mono (joined hv hs.up_wellFormed hshaped' (by omega) hnode' h fun hlt =>
      mergeLoop hv hframes hfuel hs.up_wellFormed hshaped' (by omega) hlt h) ?_
    intro root s' hT
    obtain ⟨T, hT, hentriesT, hheight⟩ := hT
    refine ⟨T, hT, ?_, by omega⟩
    rw [hentriesT]
    simp [hentries]

/-- A leaf without one of its entries. -/
lemma shaped_remove {A B : List (K × V)} {lo : WithBot K} {hi : WithTop (WithBot K)}
    {x : K × V} (h : (leaf p (A ++ x :: B)).Shaped tree lo hi) :
    (leaf p (A ++ B)).Shaped tree lo hi := by
  obtain ⟨hsorted, hbounds⟩ := shaped_leaf.1 h
  have hsub : (A ++ B).Sublist (A ++ x :: B) :=
    List.Sublist.append_left (List.sublist_cons_self x B) A
  exact shaped_leaf.2 ⟨hsorted.sublist hsub, fun y hy => hbounds y (hsub.subset hy)⟩

/-- `Remove` at the root, a leaf that has become too small. -/
lemma removeAtRoot {es : List (K × V)} {page : BPlusTreeLeafPage K V}
    (hshaped : (leaf p es).Shaped tree ⊥ ⊤) (hlt : es.length < tree.leafMaxSize / 2)
    (hpage : page.size = es.length)
    (h : tree.Owned frame ({(p, .leaf es invalidPageId invalidPageId, b)} + 0) 0 s) :
    wp (PageStore.handler frames)
      (do
        if page.size = 0 then
          PageClient.unpin p true
          PageClient.delete p
          pure invalidPageId
        else
          PageClient.unpin p true
          pure p)
      (fun root s' => ∃ T : Whole K V, tree.Represents frame T root s' ∧ T.levels ≤ 1 ∧
        T.entries = es) s := by
  rw [hpage]
  by_cases hempty : es.length = 0
  · obtain rfl : es = [] := List.length_eq_zero_iff.1 hempty
    rw [if_pos List.length_nil]
    refine wp_seq (h.unpin fun _ => rfl) ?_
    intro _ s₁ h
    refine wp_seq h.delete ?_
    intro _ s₂ h
    exact (wp_pure ..).2 ⟨none, ⟨trivial, rfl, h⟩, Nat.zero_le _, rfl⟩
  · rw [if_neg hempty]
    refine wp_seq (h.unpin fun _ => rfl) ?_
    intro _ s₁ h
    have hadmits : (Context.root : Context K V 0).Admits tree (leaf p es) := by
      refine ⟨⟨Nat.one_le_iff_ne_zero.2 hempty, ?_⟩, hshaped⟩
      change es.length ≤ tree.leafMaxSize
      omega
    have hroot : (Context.root : Context K V 0).WellFormed tree := trivial
    refine (wp_pure ..).2 ⟨some ((Context.root : Context K V 0).plug (leaf p es)),
      represents_plug hroot hadmits h, le_refl 1, rfl⟩

/-- `Remove` from a leaf in a hole, of a key that it has. -/
lemma removeFromLeaf [Inhabited V] {ctx : Context K V 0} {A B : List (K × V)} {v : V} {key : K}
    (hv : tree.Sound) (hframes : ((4 : ℕ) : ℕ∞) ≤ frames) (hfuel : ctx.depth < fuel)
    (hctx : ctx.WellFormed tree) (hadmits : ctx.Admits tree (leaf p (A ++ (key, v) :: B)))
    (hA : ∀ x ∈ A, x.1 < key) (hB : ∀ x ∈ B, key < x.1)
    (h : tree.Owned frame ({(p, .leaf (A ++ (key, v) :: B) ctx.parent ctx.next, false)} + 0)
      (ctx.cells p p) s) :
    wp (PageStore.handler frames) (tree.removeFromLeaf fuel (ctx.rootPage p) p key)
      (fun root s' => ∃ T : Whole K V, tree.Represents frame T root s' ∧ T.levels ≤ ctx.depth + 1 ∧
        T.entries = ctx.left ++ (A ++ B) ++ ctx.right) s := by
  have hmax := hv.two_le_leafMaxSize
  have hsize : (A ++ (key, v) :: B).length ≤ tree.leafMaxSize := hadmits.1.2
  have hlow : ctx.minSize tree ≤ (A ++ (key, v) :: B).length := hadmits.1.1
  have hlen : (A ++ (key, v) :: B).length = (A ++ B).length + 1 := by
    simp
    omega
  have hshaped : (leaf p (A ++ B)).Shaped tree ctx.lo ctx.hi := shaped_remove hadmits.2
  refine wp_seq h.readLeaf ?_
  intro page s₁ hread
  obtain ⟨hpage, h⟩ := hread
  have hparent : page.parentPageId = ctx.parent := hpage.2.2.1
  rw [hparent]
  refine wp_seq (fetchParent h (lt_frames hframes (by simp))) ?_
  intro _ s₂ h
  obtain ⟨arr, harr, hholds⟩ := hpage.1.removeAndDeleteRecord_of_eq (hv.leafFits.mono (by omega))
    hA hB
  refine (wp_bind ..).2 ((wp_ofOption ..).2 ⟨_, harr, ?_⟩)
  rw [if_neg (by rw [hpage.1.size_eq, hlen]; simp)]
  have hpage' : tree.Shows (.leaf { page with array := arr, size := (A ++ B).length })
      (.leaf (A ++ B) ctx.parent ctx.next) := ⟨hholds, hpage.2⟩
  have h : tree.Owned frame
      ({(p, .leaf (A ++ (key, v) :: B) ctx.parent ctx.next, false)} + (ctx.held p false + 0))
      (ctx.rest p) s₂ := h.perm (add_left_comm ..) rfl
  refine wp_seq (h.write hpage') ?_
  intro _ s₃ h
  have hmin : BPlusTreeLeafPage.getMinSize
      { page with array := arr, size := (A ++ B).length } = tree.leafMaxSize / 2 := by
    rw [BPlusTreeLeafPage.getMinSize, hpage.2.1]
  rw [hmin]
  by_cases hle : tree.leafMaxSize / 2 ≤ (A ++ B).length
  · -- the leaf is large enough
    rw [if_pos hle]
    refine wp_seq (h.unpin fun _ => rfl) ?_
    intro _ s₄ h
    refine wp_seq (unpinParent (h.perm rfl (add_comm ..)) fun _ => rfl) ?_
    intro _ s₅ h
    have hadmits' : ctx.Admits tree (leaf p (A ++ B)) := by
      refine ⟨⟨(minSize_le hv ctx).trans hle, ?_⟩, hshaped⟩
      change (A ++ B).length ≤ tree.leafMaxSize
      omega
    refine (wp_pure ..).2 ⟨some (ctx.plug (leaf p (A ++ B))),
      represents_plug hctx hadmits' (h.perm rfl ?_), ?_, ?_⟩
    · rw [cells_eq, add_comm]
      rfl
    · simp only [Whole.levels, Context.height_plug]
      omega
    · simp only [Whole.entries, Context.entries_plug, entries_leaf]
  · rw [if_neg hle]
    cases ctx with
    | root =>
      have hroot : BPlusTreeLeafPage.isRootPage
          { page with array := arr, size := (A ++ B).length } = true := by
        simp [BPlusTreeLeafPage.isRootPage, hparent]
      rw [if_pos hroot]
      refine wp_mono (removeAtRoot hshaped (by omega) rfl h) ?_
      intro root s' hT
      simpa using hT
    | node q before k after up =>
      have hq : q ≠ invalidPageId :=
        h.ne_invalid (c := .internal (slots before ++ (k, p) :: slots after) up.parent)
          (by simp [Context.held])
      have hroot : ¬ BPlusTreeLeafPage.isRootPage
          { page with array := arr, size := (A ++ B).length } = true := by
        simp [BPlusTreeLeafPage.isRootPage, hparent, hq]
      rw [if_neg hroot]
      have hone : (A ++ B).length + 1 = tree.leafMaxSize / 2 := by
        change tree.leafMaxSize / 2 ≤ (A ++ (key, v) :: B).length at hlow
        omega
      rw [Context.depth_node] at hfuel
      have h : tree.Owned frame
          ({(q, .internal (slots (before ++ (k, leaf p (A ++ B)) :: after)) up.parent, false)} +
            {(p, .leaf (A ++ B) q (firstLeafs after up.next), true)})
          (around q up before after p) s₃ := by
        refine h.perm ?_ rfl
        simp only [Context.held, Context.parent_node, Context.next_node, slots_append, slots_cons,
          pid_leaf, add_zero]
        exact add_comm ..
      refine wp_mono (balanceLeaf hv hframes (by omega) hctx hshaped hone h) ?_
      intro root s' hT
      obtain ⟨T, hT, hentries, hheight⟩ := hT
      refine ⟨some T, hT, ?_, ?_⟩
      · change T.1 + 1 ≤ up.depth + 1 + 1
        omega
      · change T.2.entries = _
        rw [hentries, Context.left_node, Context.right_node]
        simp

/-- `Remove` from a leaf in a hole, of a key that it does not have. -/
lemma removeFromLeaf_of_lt [Inhabited V] {ctx : Context K V 0} {A B : List (K × V)} {key : K}
    (hv : tree.Sound) (hframes : ((4 : ℕ) : ℕ∞) ≤ frames) (hsize : (A ++ B).length ≤ tree.leafMaxSize)
    (hA : ∀ x ∈ A, x.1 < key) (hB : ∀ x ∈ B, key < x.1)
    (h : tree.Owned frame ({(p, .leaf (A ++ B) ctx.parent ctx.next, false)} + 0)
      (ctx.cells p p) s) :
    wp (PageStore.handler frames) (tree.removeFromLeaf fuel (ctx.rootPage p) p key)
      (fun root s' => root = ctx.rootPage p ∧
        tree.Owned frame 0 ({(p, .leaf (A ++ B) ctx.parent ctx.next)} + ctx.cells p p) s') s := by
  refine wp_seq h.readLeaf ?_
  intro page s₁ hread
  obtain ⟨hpage, h⟩ := hread
  have hparent : page.parentPageId = ctx.parent := hpage.2.2.1
  rw [hparent]
  refine wp_seq (fetchParent h (lt_frames hframes (by simp))) ?_
  intro _ s₂ h
  have hremove := hpage.1.removeAndDeleteRecord_of_lt (hv.leafFits.mono (by omega)) hA hB
  refine (wp_bind ..).2 ((wp_ofOption ..).2 ⟨_, hremove, ?_⟩)
  rw [if_pos rfl]
  have h : tree.Owned frame
      ({(p, .leaf (A ++ B) ctx.parent ctx.next, false)} + (ctx.held p false + 0))
      (ctx.rest p) s₂ := h.perm (add_left_comm ..) rfl
  refine wp_seq (h.unpin fun h => h) ?_
  intro _ s₃ h
  refine wp_seq (unpinParent (h.perm rfl (add_comm ..)) fun h => h) ?_
  intro _ s₄ h
  exact (wp_pure ..).2 ⟨rfl, h.perm rfl (add_comm ..)⟩

end Loop

end PageStore.Owned

namespace BPlusTree

/-- What remains without the only entry of a key. -/
lemma mem_without {K V : Type} {L M : List (K × V)} {key : K} (h : ∀ x ∈ L ++ M, x.1 ≠ key) (v : V)
    (x : K × V) :
    x ∈ L ++ M ↔ x ∈ L ++ (key, v) :: M ∧ x.1 ≠ key := by
  constructor
  · intro hx
    refine ⟨?_, h x hx⟩
    rw [List.mem_append, List.mem_cons]
    rcases List.mem_append.1 hx with hx | hx
    · exact .inl hx
    · exact .inr (.inr hx)
  · intro hx
    obtain ⟨hx, hne⟩ := hx
    rw [List.mem_append, List.mem_cons] at hx
    rcases hx with hx | rfl | hx
    · exact List.mem_append_left _ hx
    · exact absurd rfl hne
    · exact List.mem_append_right _ hx

variable {K V : Type} [LinearOrder K] {tree : BPlusTree}
  {frame : PageId → Option (BPlusTreePage K V)} {s : PageStore (BPlusTreePage K V)} {root : PageId}
  {T : Whole K V} {frames : ℕ∞} {fuel : ℕ}

/-- The entries around a hole have other keys than those that belong there. -/
lemma key_ne_of_mem {n : ℕ} {ctx : Context K V n} {key : K} (hctx : ctx.WellFormed tree)
    (hlo : ctx.lo ≤ key) (hhi : ((key : WithBot K) : WithTop (WithBot K)) < ctx.hi) {A B : List (K × V)}
    (hA : ∀ x ∈ A, x.1 < key) (hB : ∀ x ∈ B, key < x.1) :
    ∀ x ∈ (ctx.left ++ A) ++ (B ++ ctx.right), x.1 ≠ key := by
  intro x hx hkey
  rcases List.mem_append.1 hx with hx | hx <;> rcases List.mem_append.1 hx with hx | hx
  · have hlt := hctx.left_lt x hx
    rw [hkey] at hlt
    exact not_lt.2 hlo hlt
  · exact (hA x hx).ne hkey
  · exact (hB x hx).ne' hkey
  · have hle := hctx.le_right x hx
    rw [hkey] at hle
    exact not_le.2 hhi hle

variable [Inhabited V]

/-- `Remove` takes the entry of the key out, if there is one, and changes nothing otherwise. -/
theorem Represents.remove (hv : tree.Sound) (hframes : ((4 : ℕ) : ℕ∞) ≤ frames)
    (h : tree.Represents frame T root s) (hfuel : T.levels ≤ fuel) (key : K) :
    wp (PageStore.handler frames) (tree.remove fuel root key)
      (fun root' s' => ∃ T', tree.Represents frame T' root' s' ∧ T'.levels ≤ T.levels ∧
        ∀ x, x ∈ T'.entries ↔ x ∈ T.entries ∧ x.1 ≠ key) s := by
  rcases h.cases with ⟨rfl, hroot⟩ | ⟨n, t, rfl, hroot, hne⟩
  · rw [BPlusTree.remove, if_pos hroot]
    exact (wp_pure ..).2 ⟨none, h, le_refl _, by simp [Whole.entries]⟩
  rw [BPlusTree.remove, if_neg hne, hroot]
  refine wp_seq (h.owned.findLeaf_lookup (n := n) (t := t) hv
    (lt_of_lt_of_le (by simp) hframes) hfuel h.wellFormed key) ?_
  intro p s₁ hleaf
  obtain ⟨ctx, es, hplug, ⟨hlo, hhi⟩, hctx, hadmits, howned⟩ := hleaf
  obtain ⟨hentries, hroot', hdepth⟩ := Context.of_plug_eq hplug
  rw [pid_leaf] at hroot'
  rw [Nat.zero_add] at hdepth
  rw [entries_leaf] at hentries
  rw [hroot']
  rcases BPlusTreeLeafPage.cut_cases hadmits.2.1 key with ⟨A, v, B, hes, hA, hB⟩ | ⟨A, B, hes, hA, hB⟩
  · change es = _ at hes
    subst hes
    refine wp_mono (howned.removeFromLeaf hv hframes (by simp only [Whole.levels] at hfuel; omega)
      hctx hadmits hA hB) ?_
    intro root' s' hT
    obtain ⟨T', hrep, hlevels, hT'⟩ := hT
    refine ⟨T', hrep, ?_, ?_⟩
    · simp only [Whole.levels] at hlevels ⊢
      omega
    · intro x
      rw [hT', Whole.entries, hentries]
      simpa using mem_without (key_ne_of_mem hctx hlo hhi hA hB) v x
  · change es = _ at hes
    subst hes
    refine wp_mono (howned.removeFromLeaf_of_lt hv hframes hadmits.1.2 hA hB) ?_
    intro root' s' hr
    obtain ⟨rfl, howned⟩ := hr
    refine ⟨_, ?_, le_refl _, ?_⟩
    · rw [← hroot', ← hroot]
      exact h.of_leaf hplug howned
    · intro x
      have hne := key_ne_of_mem hctx hlo hhi hA hB x
      have hassoc : t.entries = (ctx.left ++ A) ++ (B ++ ctx.right) := by simp [hentries]
      rw [← hassoc] at hne
      exact ⟨fun hx => ⟨hx, hne hx⟩, fun hx => hx.1⟩

end BPlusTree

end OneBase
