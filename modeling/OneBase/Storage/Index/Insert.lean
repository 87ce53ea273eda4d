import OneBase.Storage.Index.Search

set_option relaxedAutoImplicit false
set_option autoImplicit false

/-!
# Insertion into a B+ tree

`Insert` puts the entry into a leaf. A node that has become too large is cut in two, and the right
half is listed in the parent, up to a new root.

## Main results

* `OneBase.PageStore.Shared.growRoot`, `listInParent`, `halve` — the parts of a round of the loop.
* `OneBase.PageStore.Shared.splitLoop` — the loop that goes up, from two halves in a hole.
* `OneBase.BPlusTree.Represents.insert` — what `Insert` does.
-/

namespace OneBase

open Effect Effect.Program Segments SearchTree BPlusTree

/-! ## The parts of the loop -/

namespace BPlusTree

open PageClient

variable {K V : Type} [Inhabited K] (tree : BPlusTree)

/-- The part of `splitLoop` for a root: a new root above the two halves. -/
def growRoot (left : PageId) (middleKey : K) (right : PageId) :
    Program (PoolCall (BPlusTreePage K V)) PageId := do
  let parent ← new
  let node : BPlusTreeInternalPage K := .init tree.internalMaxSize
  let node ← ofOption (node.populateNewRoot tree.internalFits left middleKey right)
  write parent (.internal node)
  setParent left parent
  setParent right parent
  unpin parent true
  unpin left true
  unpin right true
  pure parent

/-- The part of `splitLoop` that lists the new page in the parent, which it returns. -/
def listInParent (left : PageId) (middleKey : K) (right parent : PageId) :
    Program (PoolCall (BPlusTreePage K V)) (BPlusTreeInternalPage K) := do
  setParent right parent
  fetch parent
  let node ← readInternal parent
  let node ← ofOption (node.insertNodeAfter tree.internalFits left middleKey right)
  write parent (.internal node)
  unpin left true
  unpin right true
  pure node

/-- The part of `splitLoop` that cuts a parent in two. It returns the first key of the new page, and
this page. -/
def halve (parent : PageId) (node : BPlusTreeInternalPage K) :
    Program (PoolCall (BPlusTreePage K V)) (K × PageId) := do
  let right ← new
  let newNode : BPlusTreeInternalPage K :=
    { BPlusTreeInternalPage.init tree.internalMaxSize with parentPageId := node.parentPageId }
  let newMiddleKey ← ofOption (node.keyAt tree.internalFits (node.size / 2))
  let (node, newNode) ← ofOption (node.moveHalfTo tree.internalFits newNode newMiddleKey)
  write parent (.internal node)
  write right (.internal newNode)
  tree.adoptChildren newNode right 0 newNode.size
  pure (newMiddleKey, right)

/-- A round of the loop, in its parts. -/
lemma splitLoop_succ (root : PageId) (fuel : ℕ) (left : PageId) (middleKey : K) (right : PageId) :
    (tree.splitLoop root (fuel + 1) left middleKey right :
      Program (PoolCall (BPlusTreePage K V)) PageId) =
      read left >>= fun leftPage =>
        if leftPage.isRootPage then tree.growRoot left middleKey right
        else tree.listInParent left middleKey right leftPage.parentPageId >>= fun node =>
          if node.size ≤ node.maxSize then
            unpin leftPage.parentPageId true >>= fun _ => pure root
          else tree.halve leftPage.parentPageId node >>= fun half =>
            tree.splitLoop root fuel leftPage.parentPageId half.1 half.2 := by
  simp only [splitLoop, growRoot, listInParent, halve, Program.bind_assoc]
  rfl

end BPlusTree

namespace SearchTree

variable {K V : Type} {n : ℕ}

/-- The root of a tree among others is one of their pages. -/
lemma pid_mem_cellsOf {cs : List (WithBot K × SearchTree K V n)} {c : WithBot K × SearchTree K V n}
    (hc : c ∈ cs) (parent next : PageId) :
    ∃ cell, (c.2.pid, cell) ∈ cellsOf cs parent next := by
  obtain ⟨before, after, rfl⟩ := List.append_of_mem hc
  refine ⟨c.2.rootCell parent (firstLeafs after next), ?_⟩
  rw [cellsOf_append, cellsOf_cons, cells_eq]
  simp

variable [LinearOrder K] {tree : BPlusTree}

/-- The children of a node that is too large by one are cut in two, at the key that goes up. -/
lemma exists_split (hv : tree.Valid) {cs : List (WithBot K × SearchTree K V n)} {lo : WithBot K}
    {hi : WithTop (WithBot K)} (hstart : start cs ⊤ = lo) (hcs : Segmented (Fit tree) cs hi)
    (hsize : cs.length = tree.internalMaxSize + 1) :
    ∃ (xs : List (WithBot K × SearchTree K V n)) (m : K) (c : SearchTree K V n)
      (ys : List (WithBot K × SearchTree K V n)),
      cs = xs ++ ((m : WithBot K), c) :: ys ∧ xs.length = cs.length / 2 ∧
      lo < m ∧ ((m : WithBot K) : WithTop (WithBot K)) < hi ∧
      (∀ q, (SearchTree.node q xs).Fit tree lo (m : WithBot K)) ∧
      ∀ q, (SearchTree.node q (((m : WithBot K), c) :: ys)).Fit tree m hi := by
  have hmax := hv.three_le_internalMaxSize
  obtain ⟨xs, ⟨k, c⟩, ys, hcut, hlenx⟩ := exists_append_cons (l := cs) (i := cs.length / 2) (by omega)
  have hleny : xs.length + (ys.length + 1) = cs.length := by rw [hcut]; simp
  have hxs : xs ≠ [] := by
    rintro rfl
    simp only [List.length_nil] at hlenx
    omega
  have hshaped : (SearchTree.node 0 (xs ++ (k, c) :: ys)).Shaped tree lo hi := by
    rw [← hcut]
    exact shaped_node.2 ⟨hstart, hcs⟩
  obtain ⟨m, rfl, hlo, hhi, hleft, hright⟩ := shaped_node_cut hshaped hxs 0 0
  refine ⟨xs, m, c, ys, hcut, hlenx, hlo, hhi, fun q => ⟨⟨?_, ?_⟩, hleft⟩,
    fun q => ⟨⟨?_, ?_⟩, hright⟩⟩
  · change (tree.internalMaxSize + 1) / 2 ≤ xs.length
    omega
  · change xs.length ≤ tree.internalMaxSize
    omega
  · change (tree.internalMaxSize + 1) / 2 ≤ ys.length + 1
    omega
  · change ys.length + 1 ≤ tree.internalMaxSize
    omega

/-- The entries of a leaf that is too large by one are cut in two, at the key that goes up. -/
lemma exists_split_leaf (hv : tree.Valid) {es : List (K × V)} {lo : WithBot K}
    {hi : WithTop (WithBot K)} {p : PageId} (hes : (leaf p es).Shaped tree lo hi)
    (hsize : es.length = tree.leafMaxSize + 1) :
    ∃ (xs : List (K × V)) (m : K) (v : V) (ys : List (K × V)),
      es = xs ++ (m, v) :: ys ∧ xs.length = es.length / 2 ∧
      lo < m ∧ ((m : WithBot K) : WithTop (WithBot K)) < hi ∧
      (∀ q, (leaf q xs).Fit tree lo (m : WithBot K)) ∧
      ∀ q, (leaf q ((m, v) :: ys)).Fit tree m hi := by
  have hmax := hv.two_le_leafMaxSize
  obtain ⟨xs, ⟨m, v⟩, ys, hcut, hlenx⟩ := exists_append_cons (l := es) (i := es.length / 2) (by omega)
  have hleny : xs.length + (ys.length + 1) = es.length := by rw [hcut]; simp
  have hxs : xs ≠ [] := by
    rintro rfl
    simp only [List.length_nil] at hlenx
    omega
  rw [hcut] at hes
  obtain ⟨hlo, hhi, hleft, hright⟩ := shaped_leaf_cut hes hxs 0 0
  refine ⟨xs, m, v, ys, hcut, hlenx, hlo, hhi, fun q => ⟨⟨?_, ?_⟩, hleft⟩,
    fun q => ⟨⟨?_, ?_⟩, hright⟩⟩
  · change tree.leafMaxSize / 2 ≤ xs.length
    omega
  · change xs.length ≤ tree.leafMaxSize
    omega
  · change tree.leafMaxSize / 2 ≤ ys.length + 1
    omega
  · change ys.length + 1 ≤ tree.leafMaxSize
    omega

end SearchTree

/-- There is a frame for another pin. -/
lemma lt_frames {frames : ℕ∞} {k m : ℕ} (hframes : (k : ℕ∞) ≤ frames) (hm : m < k) :
    (m : ℕ∞) < frames :=
  lt_of_lt_of_le (Nat.cast_lt.2 hm) hframes

namespace PageStore.Owned

variable {K V : Type} {tree : BPlusTree} {frame : PageId → Option (BPlusTreePage K V)}
  {held : Multiset (PageId × Cell K V × Bool)} {free : Multiset (PageId × Cell K V)}
  {s : PageStore (BPlusTreePage K V)} {p q parent next : PageId} {b : Bool} {frames : ℕ∞} {n : ℕ}

/-- A page that shows the root of a tree has the parent of the tree. -/
lemma parentPageId_of_shows {page : BPlusTreePage K V} {t : SearchTree K V n}
    (h : tree.Shows page (t.rootCell parent next)) : page.parentPageId = parent := by
  cases n with
  | zero =>
    obtain ⟨p, es, rfl⟩ := t.exists_leaf
    match page, h with
    | .leaf page, h => exact h.2.2.1
  | succ n =>
    obtain ⟨p, cs, rfl⟩ := t.exists_node
    match page, h with
    | .internal page, h => exact h.2.2

/-- A pinned page is not another one. -/
lemma ne_of_mem_held {c d : Cell K V} {b' : Bool}
    (h : tree.Owned frame ({(p, c, b)} + held) free s) (hq : (q, d, b') ∈ held) : q ≠ p :=
  h.owns_held.ne (Multiset.mem_add.2 (.inl (Multiset.mem_map.2 ⟨_, hq, rfl⟩)))

/-- A pinned page is not one of those that are not pinned. -/
lemma ne_of_mem_free {c d : Cell K V} (h : tree.Owned frame ({(p, c, b)} + held) free s)
    (hq : (q, d) ∈ free) : q ≠ p :=
  h.owns_held.ne (Multiset.mem_add.2 (.inr hq))

end PageStore.Owned

namespace PageStore.Shared

open SearchTree.Context PageStore.Owned

variable {K V : Type} [Inhabited K] [LinearOrder K] {tree : BPlusTree} {others : Finset PageId}
  {frame : PageId → Option (BPlusTreePage K V)} {s : PageStore (BPlusTreePage K V)} {p : PageId}
  {b : Bool} {frames n fuel : ℕ}

/-- The new root above two halves needs two frames besides the one of the left half.

**Proof sketch.** The new page is populated and written while both halves are pinned, then all three
pages are given up. The halves fit under the new root because each is of the right shape on its side
of the key. -/
lemma growRoot (hv : tree.Valid) {l r : SearchTree K V n} {m : K} {old : PageId} {b b' : Bool}
    (hl : l.Fit tree ⊥ (m : WithBot K)) (hr : r.Fit tree m ⊤) (hfresh : r.pid ∉ others)
    (h : tree.Shared others frame
      ({(l.pid, l.rootCell invalidPageId (r.firstLeaf invalidPageId), b)} +
        {(r.pid, r.rootCell old invalidPageId, b')})
      (l.below (r.firstLeaf invalidPageId) + r.below invalidPageId) s) :
    (tree.growRoot l.pid m r.pid).HingesOn (sharedHandler others frames) PoolCall.IsNull
      ((insert l.pid others).card + 2 ≤ frames)
      (fun root s' => tree.Represents frame
        (some ⟨n + 1, .node root [(⊥, l), ((m : WithBot K), r)]⟩) root s') s := by
  have hblank : tree.Shows (default : BPlusTreePage K V) .blank := trivial
  have hmax := hv.three_le_internalMaxSize
  have hne : r.pid ≠ l.pid := h.owned.ne_of_mem_held (Multiset.mem_singleton_self _)
  refine .congr (.seq (h.new ?_ hblank) ?_) (and_iff_left trivial).symm
  · rw [pages_add, pages_singleton, pages_singleton]
    exact congrArg (· + 1) (card_union_pair hfresh hne)
  intro p s₁ hnew
  obtain ⟨-, h⟩ := hnew
  obtain ⟨a, ha, hholds⟩ := BPlusTreeInternalPage.populateNewRoot_holds
    (p := .init tree.internalMaxSize) (c := l.pid) (d := r.pid)
    (hv.internalFits.mono (show 2 ≤ tree.internalMaxSize + 1 by omega)) ⊥ m
  refine .of_some ha ?_
  have hnode : tree.Shows (.internal { BPlusTreeInternalPage.init tree.internalMaxSize with
      array := a, size := 2 } : BPlusTreePage K V)
      (.internal (slots [(⊥, l), ((m : WithBot K), r)]) invalidPageId) := ⟨hholds, rfl, rfl⟩
  refine .step (h.write hnode) ?_
  intro _ s₂ h
  refine .step ((h.perm (add_left_comm ..) rfl).setParent p) ?_
  intro _ s₃ h
  have h : tree.Shared others frame ({(r.pid, r.rootCell old invalidPageId, b')} +
      ({(p, .internal (slots [(⊥, l), ((m : WithBot K), r)]) invalidPageId, true)} +
        {(l.pid, l.rootCell p (r.firstLeaf invalidPageId), true)}))
      (l.below (r.firstLeaf invalidPageId) + r.below invalidPageId) s₃ :=
    h.perm (by abel) rfl
  refine .step (h.setParent p) ?_
  intro _ s₄ h
  refine .step ((h.perm (add_left_comm ..) rfl).unpin fun _ => rfl) ?_
  intro _ s₅ h
  refine .step ((h.perm (add_comm ..) rfl).unpin fun _ => rfl) ?_
  intro _ s₆ h
  refine .step ((h.perm (add_zero _).symm rfl).unpin fun _ => rfl) ?_
  intro _ s₇ h
  refine .of_clean trivial (.ret ⟨?_, rfl, ?_⟩)
  · have hsize : 2 ≤ tree.internalMaxSize := by omega
    refine ⟨⟨le_refl 2, hsize⟩, shaped_node.2 ⟨rfl, ?_⟩⟩
    exact ⟨WithTop.coe_lt_coe.2 (WithBot.bot_lt_coe m), hl, WithTop.coe_lt_top _, hr, trivial⟩
  · refine h.owned.perm rfl ?_
    simp only [Whole.cells, cells_eq (.node _ _), pid_node, rootCell_node, below_node,
      cellsOf_cons, cellsOf_nil, firstLeafs_cons, firstLeafs_nil, cells_eq l, cells_eq r]
    abel

omit [Inhabited K] [LinearOrder K] in
/-- Listing the right half behind the left one in their parent needs a frame for the parent, with
both halves pinned. It leaves the parent pinned.

**Proof sketch.** The new page knows its parent before it is listed there. The parent lists the left
half once, since the pages of a tree are all different, so that the new one is listed behind it. -/
lemma listInParent (hv : tree.Valid) {q parent next : PageId}
    {before after : List (WithBot K × SearchTree K V n)} {key : WithBot K}
    {l r : SearchTree K V n} {m : K} {old : PageId} {b b' : Bool}
    {free : Multiset (PageId × Cell K V)} (hfresh : r.pid ∉ others)
    (hsize : before.length + 1 + after.length ≤ tree.internalMaxSize)
    (h : tree.Shared others frame
      ({(l.pid, l.rootCell q (r.firstLeaf (firstLeafs after next)), b)} +
        {(r.pid, r.rootCell old (firstLeafs after next), b')})
      ({(q, .internal (slots before ++ (key, l.pid) :: slots after) parent)} +
        (l.below (r.firstLeaf (firstLeafs after next)) + r.below (firstLeafs after next) +
          (cellsOf before q (l.firstLeaf (r.firstLeaf (firstLeafs after next))) +
            cellsOf after q next) + free)) s) :
    (tree.listInParent l.pid m r.pid q).HingesOn (sharedHandler others frames) PoolCall.IsNull
      ((insert q (insert l.pid others)).card + 1 ≤ frames)
      (fun node s' =>
        tree.Shows (.internal node : BPlusTreePage K V)
          (.internal (slots (before ++ (key, l) :: ((m : WithBot K), r) :: after)) parent) ∧
        tree.Shared others frame
          ({(q, .internal (slots (before ++ (key, l) :: ((m : WithBot K), r) :: after)) parent,
            true)} + 0)
          (cellsOf (before ++ (key, l) :: ((m : WithBot K), r) :: after) q next + free) s') s := by
  refine .step ((h.perm (add_comm ..) rfl).setParent q) ?_
  intro _ s₁ h
  have hne : r.pid ≠ l.pid :=
    (h.perm (add_comm ..) rfl).owned.ne_of_mem_held (Multiset.mem_singleton_self _)
  have hqr : q ≠ r.pid :=
    h.owned.ne_of_mem_free (Multiset.mem_add.2 (.inl (Multiset.mem_singleton_self _)))
  refine .congr (.seq (h.fetch ?_) ?_) (and_iff_left trivial).symm
  · rw [pages_add, pages_singleton, pages_singleton]
    exact card_insert_union_pair hfresh hne hqr
  intro _ s₂ h
  refine .step h.readInternal ?_
  intro node s₃ hread
  obtain ⟨hnode, h⟩ := hread
  have hbefore : ∀ x ∈ slots before, x.2 ≠ l.pid := by
    intro x hx
    obtain ⟨c, hc, rfl⟩ := List.mem_map.1 hx
    obtain ⟨cell, hcell⟩ := pid_mem_cellsOf hc q (l.firstLeaf (r.firstLeaf (firstLeafs after next)))
    have h' : tree.Shared others frame
        ({(l.pid, l.rootCell q (r.firstLeaf (firstLeafs after next)), b)} +
          ({(q, .internal (slots before ++ (key, l.pid) :: slots after) parent, false)} +
            {(r.pid, r.rootCell q (firstLeafs after next), true)})) _ s₃ := h.perm (by abel) rfl
    exact h'.owned.ne_of_mem_free (d := cell) (by simp [hcell])
  have hlen : (slots before ++ (key, l.pid) :: slots after).length =
      before.length + 1 + after.length := by
    simp
    omega
  obtain ⟨a, ha, hholds⟩ := hnode.1.insertNodeAfter (d := r.pid)
    (hv.internalFits.mono (by omega)) hbefore m
  refine .of_some ha ?_
  have hslots : slots before ++ (key, l.pid) :: ((m : WithBot K), r.pid) :: slots after =
      slots (before ++ (key, l) :: ((m : WithBot K), r) :: after) := by simp
  rw [hslots] at hholds
  have hshows : tree.Shows (.internal { node with
      array := a, size := (slots before ++ (key, l.pid) :: slots after).length + 1 } :
      BPlusTreePage K V)
      (.internal (slots (before ++ (key, l) :: ((m : WithBot K), r) :: after)) parent) :=
    ⟨hholds, hnode.2.1, hnode.2.2⟩
  refine .step (h.write hshows) ?_
  intro _ s₄ h
  have h : tree.Shared others frame
      ({(l.pid, l.rootCell q (r.firstLeaf (firstLeafs after next)), b)} +
      ({(r.pid, r.rootCell q (firstLeafs after next), true)} +
        {(q, .internal (slots (before ++ (key, l) :: ((m : WithBot K), r) :: after)) parent,
          true)})) _ s₄ := h.perm (by abel) rfl
  refine .step (h.unpin fun _ => rfl) ?_
  intro _ s₅ h
  refine .step (h.unpin fun _ => rfl) ?_
  intro _ s₆ h
  refine .of_clean trivial (.ret ⟨hshows, h.perm (add_zero _).symm ?_⟩)
  simp only [cellsOf_append, cellsOf_cons, firstLeafs_cons, cells_eq l, cells_eq r]
  abel

/-- Cutting a node that is too large by one in two needs a frame for the new page, and one for each
of its children. It leaves both halves pinned.

**Proof sketch.** The key in the middle goes up: it bounds the left half from above and the right one
from below (`exists_split`). The right half moves to the new page, and its children are told their
new parent. -/
lemma halve (hv : tree.Valid) {node : BPlusTreeInternalPage K} {q parent next : PageId}
    {cs : List (WithBot K × SearchTree K V n)} {lo : WithBot K} {hi : WithTop (WithBot K)}
    {free : Multiset (PageId × Cell K V)}
    (hshows : tree.Shows (.internal node : BPlusTreePage K V) (.internal (slots cs) parent))
    (hstart : start cs ⊤ = lo) (hseg : Segmented (Fit tree) cs hi)
    (hsize : cs.length = tree.internalMaxSize + 1)
    (h : tree.Shared others frame ({(q, .internal (slots cs) parent, true)} + 0)
      (cellsOf cs q next + free) s) :
    (tree.halve q node).HingesOn (sharedHandler others frames) PoolCall.IsNull
      ((insert q others).card + 1 ≤ frames ∧
        ∀ x ∈ cs.drop (cs.length / 2), (insert x.2.pid (insert q others)).card + 1 ≤ frames)
      (fun half s' => ∃ xs c ys, cs = xs ++ ((half.1 : WithBot K), c) :: ys ∧ lo < half.1 ∧
        ((half.1 : WithBot K) : WithTop (WithBot K)) < hi ∧
        (SearchTree.node q xs).Fit tree lo (half.1 : WithBot K) ∧
        (SearchTree.node half.2 (((half.1 : WithBot K), c) :: ys)).Fit tree half.1 hi ∧
        half.2 ∉ others ∧
        tree.Shared others frame
          ({(q, .internal (slots xs) parent, true)} +
            {(half.2, .internal (slots (((half.1 : WithBot K), c) :: ys)) parent, true)})
          (cellsOf xs q (firstLeafs (((half.1 : WithBot K), c) :: ys) next) +
            cellsOf (((half.1 : WithBot K), c) :: ys) half.2 next + free) s') s := by
  have hblank : tree.Shows (default : BPlusTreePage K V) .blank := trivial
  obtain ⟨hholds, hmaxSize, hparent⟩ := hshows
  have hnodeSize : node.size = cs.length := by rw [hholds.size_eq, length_slots]
  obtain ⟨xs, m, c, ys, hcut, hxs, hlo, hhi, hfitl, hfitr⟩ := exists_split hv hstart hseg hsize
  refine .seq (h.new ?_ hblank) ?_
  · simp
  intro p s₁ hnew
  obtain ⟨hp, h⟩ := hnew
  have hqp : q ≠ p :=
    h.owned.ne_of_mem_held (Multiset.mem_add.2 (.inl (Multiset.mem_singleton_self _)))
  have hcsp : ∀ x ∈ cs, x.2.pid ≠ p := by
    intro x hx
    obtain ⟨cell, hcell⟩ := pid_mem_cellsOf hx q next
    exact h.owned.ne_of_mem_free (Multiset.mem_add.2 (.inl hcell))
  have hfits : FitsBelow tree.internalFits (slots cs).length :=
    hv.internalFits.mono (by rw [length_slots]; omega)
  have hslots : slots cs = slots xs ++ ((m : WithBot K), c.pid) :: slots ys := by
    rw [hcut]
    simp
  have hlenxs : (slots xs).length = cs.length / 2 := by rw [length_slots, hxs]
  have hmax := hv.three_le_internalMaxSize
  -- the key in the middle
  obtain ⟨k, hk, hkm⟩ := hholds.keyAt_eq hfits (i := cs.length / 2)
    (by rw [length_slots]; omega) (by omega)
  obtain rfl : k = m := by
    rw [← WithBot.coe_inj, hkm]
    simp [hslots, ← hlenxs]
  rw [← hnodeSize] at hk
  refine .of_some hk ?_
  -- the halves
  obtain ⟨a, ha, hleft, hright⟩ := hholds.moveHalfTo
    (r := { (.init tree.internalMaxSize : BPlusTreeInternalPage K) with
      parentPageId := node.parentPageId }) rfl hfits k
  rw [length_slots, ← hxs] at ha hleft hright
  rw [hslots, ← length_slots xs, List.take_left, length_slots] at hleft
  rw [hslots, ← length_slots xs, List.drop_left, length_slots] at hright
  refine .of_some ha ?_
  have hshowl : tree.Shows (.internal { node with size := xs.length } : BPlusTreePage K V)
      (.internal (slots xs) parent) := ⟨hleft, hmaxSize, hparent⟩
  have hshowr : tree.Shows (.internal { (.init tree.internalMaxSize : BPlusTreeInternalPage K) with
      parentPageId := node.parentPageId, array := a, size := cs.length - xs.length } :
      BPlusTreePage K V) (.internal (slots (((k : WithBot K), c) :: ys)) parent) :=
    ⟨hright, rfl, hparent⟩
  refine .step ((h.perm (add_left_comm ..) rfl).write hshowl) ?_
  intro _ s₂ h
  refine .step ((h.perm (add_left_comm ..) rfl).write hshowr) ?_
  intro _ s₃ h
  have h : tree.Shared others frame
      ({(p, .internal (slots (((k : WithBot K), c) :: ys)) parent, true)} +
        ({(q, .internal (slots xs) parent, true)} + 0))
      (cellsOf (((k : WithBot K), c) :: ys) q next +
        (cellsOf xs q (firstLeafs (((k : WithBot K), c) :: ys) next) + free)) s₃ := by
    refine h.perm rfl ?_
    rw [hcut, cellsOf_append]
    abel
  have hlenys : cs.length - xs.length = (((k : WithBot K), c) :: ys).length := by
    rw [hcut]
    simp
  rw [hlenys] at hright
  rw [hlenys]
  have hall : ((k : WithBot K), c) :: ys = [] ++ (((k : WithBot K), c) :: ys ++ []) := by simp
  -- the frames for the children of the new page
  have hadopt : (∀ x ∈ cs.drop (cs.length / 2), (insert x.2.pid (insert q others)).card + 1 ≤ frames) ↔
      ∀ x ∈ ((k : WithBot K), c) :: ys, (insert x.2.pid (others ∪ pages
        ({(p, .internal (slots (((k : WithBot K), c) :: ys)) parent, true)} +
          ({(q, Cell.internal (V := V) (slots xs) parent, true)} + 0)))).card ≤ frames := by
    have hdrop : cs.drop (cs.length / 2) = ((k : WithBot K), c) :: ys := by
      rw [← hxs, hcut, List.drop_left]
    rw [hdrop]
    refine forall₂_congr fun x hx => ?_
    have hx : x ∈ cs := by
      rw [hcut]
      exact List.mem_append.2 (.inr hx)
    rw [pages_add, pages_add, pages_singleton, pages_singleton, pages_zero,
      Finset.union_empty, card_insert_union_pair hp hqp.symm (hcsp x hx)]
  refine .congr (.seq (h.adoptChildren (q := p) hall hright
    (hv.internalFits.mono (by rw [← hlenys]; omega))) ?_) (hadopt.trans (and_iff_left trivial).symm)
  intro _ s₄ h
  refine .of_clean trivial (.ret ⟨xs, c, ys, hcut, hlo, hhi, hfitl q, hfitr p, hp, h.perm ?_ ?_⟩)
  · rw [add_zero, add_comm]
  · abel

/-- The loop after a split, from the two halves in a hole up to the node that takes the new page
in.

**Proof sketch.** Induction on the hole. At the root the loop makes a new one (`growRoot`). Elsewhere
it lists the right half in the parent (`listInParent`), and is over if the parent has room for it. If
not, the parent is cut in two (`halve`), and the loop goes on with its halves, one level up. -/
lemma splitLoop (hv : tree.Valid) {ctx : Context K V n}
    {l r : SearchTree K V n} {m : K} {old : PageId} {b b' : Bool} (hfuel : ctx.depth < fuel)
    (hctx : ctx.WellFormed tree) (hl : l.Fit tree ctx.lo (m : WithBot K))
    (hr : r.Fit tree m ctx.hi) (hlo : ctx.lo < m)
    (hhi : ((m : WithBot K) : WithTop (WithBot K)) < ctx.hi) (hfresh : r.pid ∉ others)
    (h : tree.Shared others frame
      ({(l.pid, l.rootCell ctx.parent (r.firstLeaf ctx.next), b)} +
        {(r.pid, r.rootCell old ctx.next, b')})
      (l.below (r.firstLeaf ctx.next) + r.below ctx.next +
        ctx.cells l.pid (l.firstLeaf (r.firstLeaf ctx.next))) s) :
    (tree.splitLoop (ctx.rootPage l.pid) fuel l.pid m r.pid).HingesOn
      (sharedHandler others frames) PoolCall.IsNull (ctx.splitFrames tree others l.pid ≤ frames)
      (fun root s' => ∃ T, tree.Represents frame (some T) root s' ∧
        T.2.entries = ctx.left ++ l.entries ++ r.entries ++ ctx.right ∧
        T.1 ≤ n + ctx.depth + 1) s := by
  induction ctx generalizing fuel s m old b b' with
  | @root n =>
    obtain ⟨fuel, rfl⟩ : ∃ f, fuel = f + 1 := ⟨fuel - 1, by omega⟩
    rw [splitLoop_succ]
    refine .step h.read ?_
    intro page s₁ hread
    obtain ⟨hshows, h⟩ := hread
    have hroot : page.isRootPage = true := by
      rw [BPlusTreePage.isRootPage, parentPageId_of_shows hshows]
      rfl
    rw [if_pos hroot]
    have h : tree.Shared others frame
        ({(l.pid, l.rootCell invalidPageId (r.firstLeaf invalidPageId), b)} +
          {(r.pid, r.rootCell old invalidPageId, b')})
        (l.below (r.firstLeaf invalidPageId) + r.below invalidPageId) s₁ :=
      h.perm rfl (by simp)
    refine (h.growRoot hv hl hr hfresh).mono ?_
    intro root s' hrep
    exact ⟨_, hrep, by simp, by simp⟩
  | @node n q before key after up ih =>
    obtain ⟨fuel, rfl⟩ : ∃ f, fuel = f + 1 := ⟨fuel - 1, by omega⟩
    rw [splitLoop_succ]
    refine .step h.read ?_
    intro page s₁ hread
    obtain ⟨hshows, h⟩ := hread
    have hparent : page.parentPageId = q := parentPageId_of_shows hshows
    simp only [Context.parent_node, Context.next_node, Context.cells_node] at h
    have hq : q ≠ invalidPageId :=
      h.owned.ne_invalid (c := .internal (slots before ++ (key, l.pid) :: slots after) up.parent)
        (by simp)
    have hroot : ¬ page.isRootPage = true := by simp [BPlusTreePage.isRootPage, hparent, hq]
    rw [if_neg hroot, hparent]
    have hsize : before.length + 1 + after.length ≤ tree.internalMaxSize := hctx.1.2
    obtain ⟨⟨hmin, -⟩, hstart, hbseg, -, haseg, hup⟩ := hctx
    -- the children with the new one
    obtain ⟨cs, hcs⟩ : ∃ cs, cs = before ++ (key, l) :: ((m : WithBot K), r) :: after := ⟨_, rfl⟩
    have hcsstart : start cs ⊤ = up.lo := by rw [hcs, start_append, start_cons, hstart]
    have hcsseg : Segmented (Fit tree) cs up.hi := by
      rw [hcs, segmented_append, segmented_cons, segmented_cons]
      exact ⟨hbseg, WithTop.coe_lt_coe.2 hlo, hl, hhi, hr, haseg⟩
    have hcslen : cs.length = before.length + 1 + after.length + 1 := by
      rw [hcs]
      simp
      omega
    have hcsentries : entriesOf cs =
        entriesOf before ++ l.entries ++ r.entries ++ entriesOf after := by
      rw [hcs]
      simp
    have h : tree.Shared others frame
        ({(l.pid, l.rootCell q (r.firstLeaf (firstLeafs after up.next)), b)} +
          {(r.pid, r.rootCell old (firstLeafs after up.next), b')})
        ({(q, .internal (slots before ++ (key, l.pid) :: slots after) up.parent)} +
          (l.below (r.firstLeaf (firstLeafs after up.next)) + r.below (firstLeafs after up.next) +
            (cellsOf before q (l.firstLeaf (r.firstLeaf (firstLeafs after up.next))) +
              cellsOf after q up.next) +
            up.cells q (firstLeafs cs up.next))) s₁ := by
      refine h.perm rfl ?_
      rw [hcs, firstLeafs_append, firstLeafs_cons, firstLeafs_cons]
      abel
    have hqr : q ≠ r.pid := (h.perm (add_comm ..) rfl).owned.ne_of_mem_free
      (Multiset.mem_add.2 (.inl (Multiset.mem_singleton_self _)))
    refine .congr (.seq (h.listInParent hv (m := m) hfresh hsize) ?_) max_le_iff
    intro node s₂ hlisted
    obtain ⟨hshows, h⟩ := hlisted
    rw [← hcs] at hshows h
    have hmax : node.maxSize = tree.internalMaxSize := hshows.2.1
    have hnodeSize : node.size = cs.length := by rw [hshows.1.size_eq, length_slots]
    by_cases hfull : cs.length ≤ tree.internalMaxSize
    · rw [if_pos (show node.size ≤ node.maxSize by rw [hmax, hnodeSize]; exact hfull)]
      refine .of_clean (by rw [if_pos (hcslen ▸ hfull)]; exact Nat.zero_le _)
        (.seq (h.unpin fun _ => rfl) ?_)
      intro _ s₈ h
      have hadmits : up.Admits tree (.node q cs) :=
        ⟨⟨hmin.trans (by rw [size_node]; omega), hfull⟩, shaped_node.2 ⟨hcsstart, hcsseg⟩⟩
      refine .ret ⟨up.plug (.node q cs), represents_plug hup hadmits ?_, ?_, ?_⟩
      · refine h.owned.perm rfl ?_
        rw [cells_eq (.node q cs), add_assoc]
        rfl
      · rw [Context.entries_plug, entries_node, hcsentries]
        simp
      · rw [Context.height_plug, Context.depth_node]
        omega
    · rw [if_neg (show ¬ node.size ≤ node.maxSize by rw [hmax, hnodeSize]; exact hfull),
        if_neg (hcslen ▸ hfull)]
      have hadopt : adoptFrames others q l.pid before after ≤ frames ↔
          ∀ c ∈ cs.drop (cs.length / 2), (insert c.2.pid (insert q others)).card + 1 ≤ frames :=
        adoptFrames_le_iff hcs (by simp [hfresh, hqr.symm])
      refine .congr (.seq (h.halve hv hshows hcsstart hcsseg (by omega)) ?_)
        (max_le_iff.trans (by rw [max_le_iff, hadopt, and_assoc]))
      rintro ⟨k, p⟩ s₃ ⟨xs, c, ys, hcut, hlo', hhi', hfitl, hfitr, hp, h⟩
      have h : tree.Shared others frame
          ({((SearchTree.node q xs).pid, (SearchTree.node q xs).rootCell up.parent
              ((SearchTree.node p (((k : WithBot K), c) :: ys)).firstLeaf up.next), true)} +
            {((SearchTree.node p (((k : WithBot K), c) :: ys)).pid,
              (SearchTree.node p (((k : WithBot K), c) :: ys)).rootCell up.parent up.next, true)})
          ((SearchTree.node q xs).below
              ((SearchTree.node p (((k : WithBot K), c) :: ys)).firstLeaf up.next) +
            (SearchTree.node p (((k : WithBot K), c) :: ys)).below up.next +
            up.cells q ((SearchTree.node q xs).firstLeaf
              ((SearchTree.node p (((k : WithBot K), c) :: ys)).firstLeaf up.next))) s₃ := by
        refine h.perm rfl ?_
        simp only [below_node, firstLeaf_node, hcut, firstLeafs_append]
      have hdepth : up.depth < fuel := by
        rw [Context.depth_node] at hfuel
        omega
      refine (ih hdepth hup hfitl hfitr hlo' hhi' hp h).mono ?_
      intro root s' hT
      obtain ⟨T, hT, hentries, hheight⟩ := hT
      refine ⟨T, hT, ?_, ?_⟩
      · rw [hentries, entries_node, entries_node, Context.left_node, Context.right_node,
          List.append_assoc up.left, ← entriesOf_append, ← hcut, hcsentries]
        simp
      · rw [Context.depth_node]
        omega

/-- The part of `Insert` that splits a leaf in a hole. -/
lemma splitLeaf [Inhabited V] (hv : tree.Valid) {ctx : Context K V 0} {es : List (K × V)}
    {page : BPlusTreeLeafPage K V} (hfuel : ctx.depth < fuel) (hctx : ctx.WellFormed tree)
    (hes : (leaf p es).Shaped tree ctx.lo ctx.hi) (hsize : es.length = tree.leafMaxSize + 1)
    (hpage : tree.Shows (.leaf page) (.leaf es ctx.parent ctx.next))
    (h : tree.Shared others frame ({(p, .leaf es ctx.parent ctx.next, b)} + 0) (ctx.cells p p) s) :
    (tree.splitLeaf fuel (ctx.rootPage p) p page).HingesOn (sharedHandler others frames)
      PoolCall.IsNull (ctx.splitLeafFrames tree others p ≤ frames)
      (fun root s' => ∃ T, tree.Represents frame (some T) root s' ∧
        T.2.entries = ctx.left ++ es ++ ctx.right ∧ T.1 ≤ ctx.depth + 1) s := by
  have hblank : tree.Shows (default : BPlusTreePage K V) .blank := trivial
  obtain ⟨hholds, hmax, hparent, hnext⟩ := hpage
  obtain ⟨xs, m, v, ys, hcut, hxs, hlo, hhi, hfitl, hfitr⟩ := exists_split_leaf hv hes hsize
  have hleaf := hfitr p
  refine .congr (.seq (h.new ?_ hblank) ?_) max_le_iff
  · simp
  intro r s₁ hnew
  obtain ⟨hr, h⟩ := hnew
  have hfits : FitsBelow tree.leafFits es.length := hv.leafFits.mono (by omega)
  have hholds' : { page with nextPageId := r }.Holds es := ⟨hholds.size_eq, hholds.array_eq⟩
  obtain ⟨a, ha, hleft, hright⟩ := hholds'.moveHalfTo hfits
    (r := { (.init tree.leafMaxSize : BPlusTreeLeafPage K V) with
      parentPageId := page.parentPageId, nextPageId := page.nextPageId })
  rw [← hxs] at ha hleft hright
  rw [hcut, List.take_left] at hleft
  rw [hcut, List.drop_left] at hright
  refine .of_some ha ?_
  have hshowl : tree.Shows (.leaf { page with nextPageId := r, size := xs.length })
      (.leaf xs ctx.parent r) := ⟨hleft, hmax, hparent, rfl⟩
  have hlenys : es.length - xs.length = (xs ++ (m, v) :: ys).length - xs.length := by rw [← hcut]
  rw [← hlenys] at hright
  have hshowr : tree.Shows (.leaf { (.init tree.leafMaxSize : BPlusTreeLeafPage K V) with
      parentPageId := page.parentPageId, nextPageId := page.nextPageId, array := a,
      size := es.length - xs.length }) (.leaf ((m, v) :: ys) ctx.parent ctx.next) :=
    ⟨hright, rfl, hparent, hnext⟩
  refine .step ((h.perm (add_left_comm ..) rfl).write hshowl) ?_
  intro _ s₂ h
  refine .step ((h.perm (add_left_comm ..) rfl).write hshowr) ?_
  intro _ s₃ h
  have hkey := hright.keyAt_eq (f := tree.leafFits) (i := 0)
    (hfits.mono (by rw [hcut]; simp)) (by simp)
  refine .of_some hkey ?_
  have h : tree.Shared others frame
      ({((leaf p xs).pid, (leaf p xs).rootCell ctx.parent ((leaf r ((m, v) :: ys)).firstLeaf ctx.next),
          true)} +
        {((leaf r ((m, v) :: ys)).pid, (leaf r ((m, v) :: ys)).rootCell ctx.parent ctx.next, true)})
      ((leaf p xs).below ((leaf r ((m, v) :: ys)).firstLeaf ctx.next) +
        (leaf r ((m, v) :: ys)).below ctx.next +
        ctx.cells (leaf p xs).pid
          ((leaf p xs).firstLeaf ((leaf r ((m, v) :: ys)).firstLeaf ctx.next))) s₃ := by
    refine h.perm ?_ ?_
    · simp only [pid_leaf, rootCell_leaf, firstLeaf_leaf, add_zero]
      abel
    · simp
  refine (splitLoop hv hfuel hctx (hfitl p) (hfitr r) hlo hhi hr h).mono ?_
  intro root s' hT
  obtain ⟨T, hT, hentries, hheight⟩ := hT
  refine ⟨T, hT, ?_, by omega⟩
  rw [hentries, hcut]
  simp

end PageStore.Shared

namespace BPlusTree

variable {K V : Type} [LinearOrder K] {tree : BPlusTree}
  {frame : PageId → Option (BPlusTreePage K V)} {s : PageStore (BPlusTreePage K V)} {root : PageId}
  {T : Whole K V} {frames : ℕ∞} {fuel : ℕ}

/-- A new entry in its place in the leaf. -/
lemma shaped_insert {p : PageId} {A B : List (K × V)} {lo : WithBot K} {hi : WithTop (WithBot K)}
    {key : K} (h : (leaf p (A ++ B)).Shaped tree lo hi) (hlo : lo ≤ key)
    (hhi : ((key : WithBot K) : WithTop (WithBot K)) < hi) (hA : ∀ x ∈ A, x.1 < key)
    (hB : ∀ x ∈ B, key < x.1) (value : V) :
    (leaf p (A ++ (key, value) :: B)).Shaped tree lo hi := by
  obtain ⟨hsorted, hbounds⟩ := shaped_leaf.1 h
  obtain ⟨hsA, hsB, hAB⟩ := List.pairwise_append.1 hsorted
  refine shaped_leaf.2 ⟨List.pairwise_append.2 ⟨hsA, hsB.cons hB, ?_⟩, ?_⟩
  · intro x hx y hy
    rcases List.mem_cons.1 hy with rfl | hy
    · exact hA x hx
    · exact hAB x hx y hy
  · intro x hx
    rcases List.mem_append.1 hx with hx | hx
    · exact hbounds x (List.mem_append.2 (.inl hx))
    · rcases List.mem_cons.1 hx with rfl | hx
      · exact ⟨hlo, hhi⟩
      · exact hbounds x (List.mem_append.2 (.inr hx))

omit [LinearOrder K] in
/-- What is in a list with one more element. -/
lemma mem_with {L M : List (K × V)} {x y : K × V} : x ∈ L ++ y :: M ↔ x = y ∨ x ∈ L ++ M := by
  rw [List.mem_append, List.mem_cons, List.mem_append]
  exact or_left_comm

variable [Inhabited K] [Inhabited V]

/-- `Insert` into a tree without a root. -/
lemma Represents.insert_empty (hv : tree.Sound) (hframes : ((3 : ℕ) : ℕ∞) ≤ frames)
    (h : tree.Represents frame none root s) (key : K) (value : V) :
    wp (PageStore.handler frames) (tree.insert fuel root key value)
      (fun r s' => r.1 = true ∧ ∃ p,
        tree.Represents frame (some ⟨0, leaf p [(key, value)]⟩) r.2 s') s := by
  have hroot : root = invalidPageId := h.root_eq
  have hmax := hv.two_le_leafMaxSize
  have hblank : tree.Shows (default : BPlusTreePage K V) .blank := trivial
  rw [BPlusTree.insert, if_pos hroot]
  refine wp_seq (h.owned.newPage (lt_frames hframes (by simp)) hblank) ?_
  intro r s₁ hnew
  obtain ⟨p, rfl, -, howned⟩ := hnew
  have hinit : (BPlusTreeLeafPage.init tree.leafMaxSize : BPlusTreeLeafPage K V).Holds ([] ++ []) :=
    ⟨rfl, by simp⟩
  have hnil : ∀ x ∈ ([] : List (K × V)), x.1 < key ∧ key < x.1 := by simp
  obtain ⟨a, ha, hholds⟩ := hinit.insert_of_lt (f := tree.leafFits) (hv.leafFits.mono (by simp; omega))
    (fun x hx => (hnil x hx).1) (fun x hx => (hnil x hx).2) value
  refine (wp_bind ..).2 ((wp_ofOption ..).2 ⟨_, ha, ?_⟩)
  have hshows : tree.Shows (.leaf { (.init tree.leafMaxSize : BPlusTreeLeafPage K V) with
      array := a, size := ([] ++ [] : List (K × V)).length + 1 })
      (.leaf [(key, value)] invalidPageId invalidPageId) := ⟨hholds, rfl, rfl, rfl⟩
  refine wp_seq (howned.write hshows) ?_
  intro _ s₂ howned
  refine wp_seq (howned.unpin fun _ => rfl) ?_
  intro _ s₃ howned
  refine (wp_pure ..).2 ⟨rfl, p, ⟨⟨?_, ?_⟩, ?_⟩, rfl, ?_⟩
  · exact le_refl 1
  · exact hmax.trans' (by simp)
  · exact shaped_leaf.2 ⟨by simp, by simp⟩
  · exact howned.perm rfl (add_zero _)

/-- What `Insert` leaves: a tree with the entry, or the tree that already had one for the key. -/
def Inserted (tree : BPlusTree) (frame : PageId → Option (BPlusTreePage K V)) (T : Whole K V)
    (key : K) (value : V) (r : Bool × PageId) (s : PageStore (BPlusTreePage K V)) : Prop :=
  ∃ T', tree.Represents frame T' r.2 s ∧
    (T'.levels ≤ max 1 T.levels ∨ tree.Valid ∧ T'.levels ≤ T.levels + 1) ∧
    (((∃ v, (key, v) ∈ T.entries) ∧ r.1 = false ∧ T' = T) ∨
      ((∀ v, (key, v) ∉ T.entries) ∧ r.1 = true ∧
        ∀ x, x ∈ T'.entries ↔ x = (key, value) ∨ x ∈ T.entries))

section Leaf

variable {others : Finset PageId} {frames : ℕ} {ctx : Context K V 0} {p : PageId}
  {es : List (K × V)} {key : K}

/-- The part of `Insert` at the leaf for the key, which is pinned. -/
def insertAt (tree : BPlusTree) (fuel : ℕ) (root : PageId) (key : K) (value : V) (p : PageId) :
    Program (PoolCall (BPlusTreePage K V)) (Bool × PageId) := do
  let leaf ← readLeaf p
  let oldSize := leaf.size
  let leaf ← ofOption (leaf.insert tree.leafFits key value)
  if leaf.size = oldSize then
    PageClient.unpin p false
    pure (false, root)
  else
    PageClient.write p (.leaf leaf)
    if leaf.size ≤ leaf.maxSize then
      PageClient.unpin p true
      pure (true, root)
    else
      let root ← tree.splitLeaf fuel root p leaf
      pure (true, root)

/-- `Insert` from the leaf on. -/
lemma hingesOn_insertAt (hv : tree.Sound) (hlo : ctx.lo ≤ key)
    (hhi : ((key : WithBot K) : WithTop (WithBot K)) < ctx.hi) (hctx : ctx.WellFormed tree)
    (hadmits : ctx.Admits tree (leaf p es)) (hfuel : ctx.depth < fuel)
    (hroom : tree.Valid ∨ es.length < tree.leafMaxSize ∨ ∃ v, (key, v) ∈ es) (value : V)
    (h : tree.Shared others frame ({(p, .leaf es ctx.parent ctx.next, false)} + 0)
      (ctx.cells p p) s) :
    (tree.insertAt fuel (ctx.rootPage p) key value p).HingesOn
      (PageStore.sharedHandler others frames) PoolCall.IsNull
      ((if key ∈ es.map Prod.fst ∨ es.length < tree.leafMaxSize then 0
        else ctx.splitLeafFrames tree others p) ≤ frames)
      (tree.Inserted frame (some (ctx.plug (leaf p es))) key value) s := by
  have hentries : ∀ v, (key, v) ∈ (ctx.plug (leaf p es)).2.entries ↔ (key, v) ∈ es :=
    mem_entries_iff hctx hlo hhi
  refine .step h.readLeaf ?_
  intro page s₂ hread
  obtain ⟨hshows, h⟩ := hread
  have hsize : es.length ≤ tree.leafMaxSize := hadmits.1.2
  rcases BPlusTreeLeafPage.cut_cases hadmits.2.1 key with ⟨A, v, B, hes, hA, hB⟩ | ⟨A, B, hes, hA, hB⟩
  · change es = _ at hes
    subst hes
    have hfits := hv.leafFits.mono hsize
    have hinsert := hshows.1.insert_of_eq hfits hA hB value
    refine .of_some hinsert ?_
    rw [if_pos rfl, if_pos (.inl (by simp))]
    refine .of_clean (Nat.zero_le _) (.seq (h.unpin fun h => h) ?_)
    intro _ s₃ h
    refine .ret ⟨_, ?_, .inl (le_max_right _ _), .inl ⟨⟨v, (hentries v).2 (by simp)⟩, rfl, rfl⟩⟩
    refine represents_plug hctx hadmits (h.owned.perm rfl ?_)
    rw [cells_eq]
    simp
  · change es = _ at hes
    subst hes
    have hleaf : ∀ v, (key, v) ∉ A ++ B := by
      intro v hmem
      rcases List.mem_append.1 hmem with hmem | hmem
      · exact lt_irrefl key (hA _ hmem)
      · exact lt_irrefl key (hB _ hmem)
    have hroom : tree.Valid ∨ (A ++ B).length < tree.leafMaxSize :=
      hroom.imp_right fun hroom => hroom.resolve_right fun ⟨v, hmem⟩ => hleaf v hmem
    have hfits : FitsBelow tree.leafFits ((A ++ B).length + 1) := by
      rcases hroom with hvalid | hlt
      · exact hvalid.leafFits.mono (by omega)
      · exact hv.leafFits.mono hlt
    obtain ⟨a, ha, hholds⟩ := hshows.1.insert_of_lt hfits hA hB value
    refine .of_some ha ?_
    have hpage : page.size = (A ++ B).length := hshows.1.size_eq
    rw [if_neg (show ¬ (A ++ B).length + 1 = page.size by omega)]
    have hshows' : tree.Shows (.leaf { page with array := a, size := (A ++ B).length + 1 })
        (.leaf (A ++ (key, value) :: B) ctx.parent ctx.next) := ⟨hholds, hshows.2⟩
    refine .step (h.write hshows') ?_
    intro _ s₃ h
    have hshaped := shaped_insert hadmits.2 hlo hhi hA hB value
    have habsent : ∀ v, (key, v) ∉ (ctx.plug (leaf p (A ++ B))).2.entries :=
      fun v hmem => hleaf v ((hentries v).1 hmem)
    have hlen : (A ++ (key, value) :: B).length = (A ++ B).length + 1 := by
      simp
      omega
    have hmax : page.maxSize = tree.leafMaxSize := hshows.2.1
    by_cases hfull : (A ++ B).length + 1 ≤ tree.leafMaxSize
    · rw [if_pos (show (A ++ B).length + 1 ≤ page.maxSize by rw [hmax]; exact hfull),
        if_pos (.inr hfull)]
      refine .of_clean (Nat.zero_le _) (.seq (h.unpin fun _ => rfl) ?_)
      intro _ s₄ h
      have hadmits' : ctx.Admits tree (leaf p (A ++ (key, value) :: B)) := by
        refine ⟨⟨hadmits.1.1.trans ?_, ?_⟩, hshaped⟩
        · simp only [size_leaf]
          omega
        · change (A ++ (key, value) :: B).length ≤ tree.leafMaxSize
          omega
      have hrep : tree.Represents frame (some (ctx.plug (leaf p (A ++ (key, value) :: B))))
          (ctx.rootPage p) s₄ := by
        refine represents_plug hctx hadmits' (h.owned.perm rfl ?_)
        rw [cells_eq]
        simp
      refine .ret ⟨_, hrep, .inl ?_, .inr ⟨habsent, rfl, ?_⟩⟩
      · simp only [Whole.levels, Context.height_plug]
        omega
      · intro x
        rw [Whole.entries, Context.entries_plug, Whole.entries, Context.entries_plug, entries_leaf,
          entries_leaf]
        simpa using mem_with (L := ctx.left ++ A) (M := B ++ ctx.right)
    · have hkey : ¬ (key ∈ (A ++ B).map Prod.fst ∨ (A ++ B).length < tree.leafMaxSize) := by
        rintro (hmem | hlt)
        · obtain ⟨⟨k, v⟩, hkv, rfl⟩ := List.mem_map.1 hmem
          exact hleaf v hkv
        · exact hfull hlt
      rw [if_neg (show ¬ (A ++ B).length + 1 ≤ page.maxSize by rw [hmax]; exact hfull),
        if_neg hkey]
      have hvalid : tree.Valid := hroom.resolve_right fun hlt => hfull hlt
      refine .congr (.seq (h.splitLeaf hvalid hfuel hctx hshaped (by omega) hshows') ?_)
        (and_iff_left trivial).symm
      intro root' s₄ hT
      obtain ⟨T, hrep, hT, hheight⟩ := hT
      refine .of_clean trivial (.ret ⟨_, hrep, .inr ⟨hvalid, ?_⟩, .inr ⟨habsent, rfl, ?_⟩⟩)
      · simp only [Whole.levels, Context.height_plug]
        omega
      · intro x
        rw [Whole.entries, hT, Whole.entries, Context.entries_plug, entries_leaf]
        simpa using mem_with (L := ctx.left ++ A) (M := B ++ ctx.right)

/-- `Insert` into a tree with a root, in a pool in which others hold pins: it runs to the end if
there are enough frames, and is returned `nullptr` if not. -/
theorem Represents.hingesOn_insert (hv : tree.Sound)
    (h : tree.Represents frame (some (ctx.plug (leaf p es))) root s)
    (hothers : ∀ q ∈ others, q < s.nextPageId) (hfuel : ctx.depth < fuel) (hlo : ctx.lo ≤ key)
    (hhi : ((key : WithBot K) : WithTop (WithBot K)) < ctx.hi)
    (hroom : tree.Valid ∨ es.length < tree.leafMaxSize ∨ ∃ v, (key, v) ∈ es) (value : V) :
    (tree.insert fuel root key value).HingesOn (PageStore.sharedHandler others frames)
      PoolCall.IsNull (tree.insertFrames others ctx p es key ≤ frames)
      (tree.Inserted frame (some (ctx.plug (leaf p es))) key value) s := by
  obtain ⟨hctx, hadmits⟩ := Context.wellFormed_of_plug h.wellFormed
  have hroot : root = (ctx.plug (leaf p es)).2.pid := h.root_eq
  have hne : root ≠ invalidPageId := by
    rcases h.cases with ⟨hnone, -⟩ | ⟨n, t, -, -, hne⟩
    · cases hnone
    · exact hne
  have hrest : tree.insert fuel root key value =
      findLeaf (fun page => page.lookup tree.internalFits key) fuel root >>=
        tree.insertAt fuel root key value := by
    rw [BPlusTree.insert, if_neg hne]
    rfl
  obtain ⟨k, rfl⟩ : ∃ k, fuel = k + 1 + ctx.depth := ⟨fuel - ctx.depth - 1, by omega⟩
  rw [hrest, hroot]
  refine .congr (PageStore.Shared.findLeaf hv hlo hhi hctx hadmits ?_ ⟨h.owned, hothers⟩) max_le_iff
  intro s₁ h
  rw [BPlusTree.descend, Program.bind_assoc]
  refine .step h.read ?_
  rintro (_ | page | page) s₂ ⟨hshows, h⟩
  · exact hshows.elim
  · rw [Context.pid_plug]
    exact hingesOn_insertAt hv hlo hhi hctx hadmits hfuel hroom value
      (h.perm rfl (by rw [below_leaf, zero_add, pid_leaf, firstLeaf_leaf]))
  · exact hshows.elim

end Leaf

/-- `Insert` adds the entry if there is none for the key, and changes nothing otherwise. Where the
pages do not have the slot for the moment before a split, the leaf must have room for the entry, and
the tree does not grow beyond a leaf. -/
theorem Represents.insert (hv : tree.Sound) (hframes : ((3 : ℕ) : ℕ∞) ≤ frames)
    (h : tree.Represents frame T root s) (hfuel : T.levels ≤ fuel) {key : K}
    (hroom : tree.Valid ∨ ∀ (ctx : Context K V 0) (p : PageId) (es : List (K × V)),
      T = some (ctx.plug (leaf p es)) → es.length < tree.leafMaxSize ∨ ∃ v, (key, v) ∈ es)
    (value : V) :
    wp (PageStore.handler frames) (tree.insert fuel root key value)
      (fun r s' => ∃ T', tree.Represents frame T' r.2 s' ∧
        (T'.levels ≤ max 1 T.levels ∨ tree.Valid ∧ T'.levels ≤ T.levels + 1) ∧
        (((∃ v, (key, v) ∈ T.entries) ∧ r.1 = false ∧ T' = T) ∨
          ((∀ v, (key, v) ∉ T.entries) ∧ r.1 = true ∧
            ∀ x, x ∈ T'.entries ↔ x = (key, value) ∨ x ∈ T.entries))) s := by
  rcases h.cases with ⟨rfl, hroot⟩ | ⟨n, t, rfl, hroot, hne⟩
  · refine wp_mono (h.insert_empty hv hframes key value) ?_
    intro r s' hr
    obtain ⟨hr, p, hrep⟩ := hr
    exact ⟨_, hrep, .inl (by simp [Whole.levels]), .inr ⟨by simp [Whole.entries], hr, by
      simp [Whole.entries]⟩⟩
  · obtain ⟨ctx, p, es, hplug, hlo, hhi⟩ := h.exists_context hv key
    rw [← hplug] at h hfuel hroom ⊢
    rw [Whole.levels, Context.height_plug] at hfuel
    exact PageStore.wp_of_clean hframes ((h.hingesOn_insert hv (by simp) (by omega) hlo hhi
      (hroom.imp_right fun hroom => hroom ctx p es rfl) value).clean
        (tree.insertFrames_empty_le ctx p es key))

end BPlusTree

end OneBase
