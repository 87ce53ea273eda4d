import OneBase.Storage.Index.FiniteMap

set_option relaxedAutoImplicit false
set_option autoImplicit false

/-!
# The structure of a B+ tree in its pages

What the pages of a tree look like from the root, without reference to the search tree that they
represent. A node is addressed by its path, the list of the child indices from the root; paths in
lexicographic order go through the nodes from left to right.

## Main definitions

* `OneBase.BPlusTree.follow` — the page at a path.
* `OneBase.BPlusTree.Structured` — the invariant of the pages.

## Main results

* `OneBase.BPlusTree.Represents.structured` — pages that represent a tree have this structure.
* `OneBase.BPlusTree.performAll_structured` — so have those that any sequence of calls leaves.
-/

namespace OneBase

open Effect Effect.Program Segments SearchTree

namespace BPlusTreePage

variable {K V : Type}

/-- `GetSize`. -/
def getSize : BPlusTreePage K V → ℕ
  | .invalid => 0
  | .leaf page => page.size
  | .internal page => page.size

/-- `GetMaxSize`. -/
def getMaxSize : BPlusTreePage K V → ℕ
  | .invalid => 0
  | .leaf page => page.maxSize
  | .internal page => page.maxSize

/-- `GetMinSize`. -/
def getMinSize : BPlusTreePage K V → ℕ
  | .invalid => 0
  | .leaf page => page.getMinSize
  | .internal page => page.getMinSize

end BPlusTreePage

namespace BPlusTree

section Paths

variable {K V : Type} (content : PageId → Option (BPlusTreePage K V))

/-- The page at the path from the page `p`. -/
def follow : PageId → List ℕ → Option PageId
  | p, [] => some p
  | p, i :: path =>
    match content p with
    | some (.internal page) => if i < page.size then follow (page.array i).2 path else none
    | _ => none

/-- The key is in a leaf below the page `p`. -/
def HasKey (p : PageId) (k : K) : Prop :=
  ∃ path q leaf i, follow content p path = some q ∧ content q = some (.leaf leaf) ∧
    i < leaf.size ∧ (leaf.array i).1 = k

/-- From the page `p`, the links to the next leaves go through the leaves `ps` and end at `next`. -/
def Links : PageId → List PageId → PageId → Prop
  | p, [], next => p = next
  | p, q :: qs, next =>
    p = q ∧ ∃ leaf, content q = some (.leaf leaf) ∧ Links leaf.nextPageId qs next

end Paths

/-- The invariant of the pages of a tree with the root page `root`. -/
structure Structured {K V : Type} [LT K] [LE K] (tree : BPlusTree)
    (content : PageId → Option (BPlusTreePage K V)) (root : PageId) : Prop where
  /-- Every node is a leaf or an internal page, of the capacity of the tree. -/
  node : ∀ path p, follow content root path = some p → p ≠ invalidPageId ∧
    ((∃ leaf, content p = some (.leaf leaf) ∧ leaf.maxSize = tree.leafMaxSize) ∨
      ∃ page, content p = some (.internal page) ∧ page.maxSize = tree.internalMaxSize)
  /-- All leaves are at the same depth. -/
  depth : ∀ path path' p p' leaf leaf', follow content root path = some p →
    content p = some (.leaf leaf) → follow content root path' = some p' →
    content p' = some (.leaf leaf') → path.length = path'.length
  /-- The sizes of the nodes other than the root. -/
  size : ∀ path p page, path ≠ [] → follow content root path = some p → content p = some page →
    page.getMinSize ≤ page.getSize ∧ page.getSize ≤ page.getMaxSize
  rootLeaf : ∀ leaf, content root = some (.leaf leaf) → 1 ≤ leaf.size
  rootInternal : ∀ page, content root = some (.internal page) → 2 ≤ page.size
  /-- The keys of a leaf are strictly increasing. -/
  leafKeys : ∀ path p leaf, follow content root path = some p → content p = some (.leaf leaf) →
    ∀ i j, i < j → j < leaf.size → (leaf.array i).1 < (leaf.array j).1
  /-- So are the keys of an internal page, of which there is none in the first slot. -/
  internalKeys : ∀ path p page, follow content root path = some p →
    content p = some (.internal page) → ∀ i j, 1 ≤ i → i < j → j < page.size →
    (page.array i).1 < (page.array j).1
  /-- The keys of an internal page separate those below it. -/
  separators : ∀ path p page, follow content root path = some p →
    content p = some (.internal page) → ∀ i, 1 ≤ i → i < page.size →
    (∀ k, HasKey content (page.array (i - 1)).2 k → k < (page.array i).1) ∧
      ∀ k, HasKey content (page.array i).2 k → (page.array i).1 ≤ k
  /-- The root has no parent, and the parent of every other node is the page that lists it. -/
  rootParent : ∀ page, content root = some page → page.parentPageId = invalidPageId
  parent : ∀ path p page, follow content root path = some p →
    content p = some (.internal page) → ∀ i, i < page.size →
    ∃ child, content (page.array i).2 = some child ∧ child.parentPageId = p
  /-- Every node is listed once. -/
  listedOnce : ∀ path path' p, follow content root path = some p →
    follow content root path' = some p → path = path'
  /-- The links to the next leaves go through all leaves from left to right. -/
  links : ∃ (paths : List (List ℕ)) (ps : List PageId) (first : PageId),
    paths.Pairwise (· < ·) ∧
    (∀ path, path ∈ paths ↔
      ∃ p leaf, follow content root path = some p ∧ content p = some (.leaf leaf)) ∧
    paths.map (follow content root) = ps.map some ∧ ps.Nodup ∧ ps ≠ [] ∧
    Links content first ps invalidPageId

end BPlusTree

/-! ## The paths of a search tree -/

namespace SearchTree

variable {K V : Type} {n : ℕ}

/-- The paths of all nodes with their pages. -/
def nodePaths : {n : ℕ} → SearchTree K V n → List (List ℕ × PageId)
  | 0, t => [([], LeafNode.pid t)]
  | _ + 1, t => ([], InternalNode.pid t) ::
    (InternalNode.children t).zipIdx.flatMap fun c =>
      (nodePaths c.1.2).map fun x => (c.2 :: x.1, x.2)

/-- The paths of the leaves with their pages, from left to right. -/
def leafPaths : {n : ℕ} → SearchTree K V n → List (List ℕ × PageId)
  | 0, t => [([], LeafNode.pid t)]
  | _ + 1, t =>
    (InternalNode.children t).zipIdx.flatMap fun c =>
      (leafPaths c.1.2).map fun x => (c.2 :: x.1, x.2)

/-- The paths in children whose indices start at `k`, for the paths `f` in each. -/
def pathsOf (f : SearchTree K V n → List (List ℕ × PageId))
    (cs : List (WithBot K × SearchTree K V n)) (k : ℕ) : List (List ℕ × PageId) :=
  (cs.zipIdx k).flatMap fun c => (f c.1.2).map fun x => (c.2 :: x.1, x.2)

variable {f : SearchTree K V n → List (List ℕ × PageId)} {p : PageId} {es : List (K × V)}
  {c : WithBot K × SearchTree K V n} {cs : List (WithBot K × SearchTree K V n)} {k : ℕ}

/-- A leaf is its only node, at the empty path. -/
@[simp] lemma nodePaths_leaf : (leaf p es).nodePaths = [([], p)] := rfl

/-- The nodes of an internal node are itself and, below the number of a child, the nodes of the
child. -/
@[simp] lemma nodePaths_node : (node p cs).nodePaths = ([], p) :: pathsOf nodePaths cs 0 := rfl

/-- A leaf is its only leaf, at the empty path. -/
@[simp] lemma leafPaths_leaf : (leaf p es).leafPaths = [([], p)] := rfl

/-- The leaves of an internal node are those of its children, each below the number of the child. -/
@[simp] lemma leafPaths_node : (node p cs).leafPaths = pathsOf leafPaths cs 0 := rfl

/-- Without children there are no paths. -/
@[simp] lemma pathsOf_nil : pathsOf f [] k = [] := rfl

/-- The paths below the children, of which the first has the number `k`: those below the first child
start with `k`, and the others belong to the children from `k + 1` on. -/
@[simp] lemma pathsOf_cons : pathsOf f (c :: cs) k =
    (f c.2).map (fun x => (k :: x.1, x.2)) ++ pathsOf f cs (k + 1) := by
  simp [pathsOf, List.zipIdx_cons]

/-- A path below the children starts with the number of a child and goes on with a path below it.

**Proof sketch.** Induction on the children, with the number of the first one generalized: a path is
below the first child, or the place of its child is shifted by one. -/
lemma mem_pathsOf {x : List ℕ × PageId} : x ∈ pathsOf f cs k ↔
    ∃ i, ∃ h : i < cs.length, ∃ path, x.1 = (k + i) :: path ∧ (path, x.2) ∈ f cs[i].2 := by
  induction cs generalizing k with
  | nil => simp
  | cons c cs ih =>
    rw [pathsOf_cons, List.mem_append, ih]
    constructor
    · rintro (hx | ⟨i, hi, path, hx, hmem⟩)
      · obtain ⟨y, hy, rfl⟩ := List.mem_map.1 hx
        exact ⟨0, by simp, y.1, rfl, hy⟩
      · refine ⟨i + 1, by simpa using hi, path, ?_, by simpa using hmem⟩
        rw [hx, Nat.add_right_comm, Nat.add_assoc]
    · rintro ⟨i, hi, path, hx, hmem⟩
      cases i with
      | zero => exact .inl (List.mem_map.2 ⟨(path, x.2), hmem, Prod.ext hx.symm rfl⟩)
      | succ i =>
        refine .inr ⟨i, by simpa using hi, path, ?_, by simpa using hmem⟩
        rw [hx, Nat.add_right_comm, Nat.add_assoc]

/-- The pages of the nodes are those of the cells. -/
lemma map_nodePaths (t : SearchTree K V n) (parent next : PageId) :
    (t.cells parent next).map Prod.fst = (t.nodePaths.map Prod.snd : List PageId) := by
  induction n generalizing parent next with
  | zero => rfl
  | succ n ih =>
    obtain ⟨p, cs, rfl⟩ := t.exists_node
    have hcs : ∀ k, (cellsOf cs p next).map Prod.fst =
        ((pathsOf nodePaths cs k).map Prod.snd : List PageId) := by
      induction cs with
      | nil => intro k; rfl
      | cons c cs ihcs =>
        intro k
        rw [cellsOf_cons, Multiset.map_add, ih, ihcs (k + 1), pathsOf_cons, List.map_append,
          List.map_map]
        rfl
    rw [cells_eq, Multiset.map_add, nodePaths_node, below_node, hcs 0]
    rfl

/-- The paths of the leaves are in lexicographic order. -/
lemma leafPaths_sorted (t : SearchTree K V n) :
    (t.leafPaths.map Prod.fst).Pairwise (· < ·) := by
  induction n with
  | zero => exact List.pairwise_singleton ..
  | succ n ih =>
    obtain ⟨p, cs, rfl⟩ := t.exists_node
    have hcs : ∀ k, ((pathsOf leafPaths cs k).map Prod.fst).Pairwise (· < ·) := by
      induction cs with
      | nil => intro k; exact .nil
      | cons c cs ihcs =>
        intro k
        rw [pathsOf_cons, List.map_append, List.pairwise_append]
        refine ⟨?_, ihcs (k + 1), ?_⟩
        · have hc := ih c.2
          rw [List.map_map, List.pairwise_map]
          rw [List.pairwise_map] at hc
          refine hc.imp ?_
          intro x y hxy
          exact List.cons_lt_cons_iff.2 (.inr ⟨rfl, hxy⟩)
        · intro x hx y hy
          obtain ⟨x', hx', rfl⟩ := List.mem_map.1 hx
          obtain ⟨x'', -, rfl⟩ := List.mem_map.1 hx'
          obtain ⟨y', hy', rfl⟩ := List.mem_map.1 hy
          obtain ⟨i, -, path, hpath, -⟩ := mem_pathsOf.1 hy'
          rw [hpath]
          exact List.cons_lt_cons_iff.2 (.inl (by omega))
    exact hcs 0

/-! ## The paths in the pages -/

section Stored

variable {tree : BPlusTree} {content : PageId → Option (BPlusTreePage K V)} {parent next : PageId}

/-- The pages of the tree contain what they should. -/
def Stored (tree : BPlusTree) (content : PageId → Option (BPlusTreePage K V))
    (M : Multiset (PageId × Cell K V)) : Prop :=
  ∀ p c, (p, c) ∈ M → ∃ x, content p = some x ∧ tree.Shows x c

/-- With fewer pages to store, the rest of them is stored too. -/
lemma Stored.mono {M N : Multiset (PageId × Cell K V)} (h : Stored tree content N) (hMN : M ≤ N) :
    Stored tree content M :=
  fun p c hmem => h p c (Multiset.mem_of_le hMN hmem)

/-- The page of a leaf. -/
lemma Stored.leaf (h : Stored tree content ((leaf p es).cells parent next)) :
    ∃ page, content p = some (.leaf page) ∧ page.Holds es ∧ page.maxSize = tree.leafMaxSize ∧
      page.parentPageId = parent ∧ page.nextPageId = next := by
  obtain ⟨x, hx, hshows⟩ := h p (.leaf es parent next) (Multiset.mem_singleton_self _)
  match x, hshows with
  | .leaf page, hshows => exact ⟨page, hx, hshows⟩

/-- The page of an internal node. -/
lemma Stored.node (h : Stored tree content ((node p cs).cells parent next)) :
    ∃ page, content p = some (.internal page) ∧ page.Holds (slots cs) ∧
      page.maxSize = tree.internalMaxSize ∧ page.parentPageId = parent := by
  have hmem : (p, .internal (slots cs) parent) ∈ (SearchTree.node p cs).cells parent next := by
    rw [cells_eq]
    simp
  obtain ⟨x, hx, hshows⟩ := h _ _ hmem
  match x, hshows with
  | .internal page, hshows => exact ⟨page, hx, hshows⟩

/-- The pages of a child. -/
lemma Stored.child (h : Stored tree content ((SearchTree.node p cs).cells parent next)) {i : ℕ}
    (hi : i < cs.length) :
    Stored tree content (cs[i].2.cells p (firstLeafs (cs.drop (i + 1)) next)) := by
  refine h.mono ?_
  have hsum : cellsOf cs p next = cellsOf (cs.take i) p (firstLeafs (cs.drop i) next) +
      (cs[i].2.cells p (firstLeafs (cs.drop (i + 1)) next) + cellsOf (cs.drop (i + 1)) p next) := by
    rw [← cellsOf_cons, ← List.drop_eq_getElem_cons hi, ← cellsOf_append, List.take_append_drop]
  rw [cells_eq (SearchTree.node p cs), below_node, hsum]
  exact (Multiset.le_add_right _ _).trans
    ((Multiset.le_add_left _ _).trans (Multiset.le_add_left _ _))

/-- What the slots of an internal page contain. -/
lemma array_eq_of_holds {page : BPlusTreeInternalPage K} (h : page.Holds (slots cs)) {i : ℕ}
    (hi : i < cs.length) :
    (page.array i).2 = cs[i].2.pid ∧ (0 < i → ((page.array i).1 : WithBot K) = cs[i].1) := by
  have hslot : (slots cs)[i]? = some (cs[i].1, cs[i].2.pid) := by
    rw [slots, List.getElem?_map, List.getElem?_eq_getElem hi]
    rfl
  exact h.array_eq i _ hslot

open BPlusTree in
/-- A path from an internal node goes through one of its children. -/
lemma follow_node (h : Stored tree content ((SearchTree.node p cs).cells parent next)) (i : ℕ)
    (path : List ℕ) :
    follow content p (i :: path) =
      if hi : i < cs.length then follow content cs[i].2.pid path else none := by
  obtain ⟨page, hpage, hholds, -⟩ := h.node
  have hsize : page.size = cs.length := by rw [hholds.size_eq, length_slots]
  rw [follow, hpage]
  simp only [hsize]
  split_ifs with hi
  · rw [(array_eq_of_holds hholds hi).1]
  · rfl

open BPlusTree in
/-- A path from a leaf ends there. -/
lemma follow_leaf (h : Stored tree content ((SearchTree.leaf p es).cells parent next)) (i : ℕ)
    (path : List ℕ) : follow content p (i :: path) = none := by
  obtain ⟨page, hpage, -⟩ := h.leaf
  rw [follow, hpage]

open BPlusTree in
/-- The paths of the nodes are those that can be followed. -/
lemma mem_nodePaths_iff {t : SearchTree K V n} (h : Stored tree content (t.cells parent next))
    (path : List ℕ) (q : PageId) : (path, q) ∈ t.nodePaths ↔ follow content t.pid path = some q := by
  induction n generalizing path parent next with
  | zero =>
    obtain ⟨p, es, rfl⟩ := t.exists_leaf
    cases path with
    | nil => simp [follow, eq_comm]
    | cons i path => simp [follow_leaf h]
  | succ n ih =>
    obtain ⟨p, cs, rfl⟩ := t.exists_node
    rw [nodePaths_node, List.mem_cons, mem_pathsOf]
    cases path with
    | nil => simp [follow, eq_comm]
    | cons i path =>
      rw [pid_node, follow_node h]
      constructor
      · rintro (hnil | ⟨j, hj, path', hpath, hmem⟩)
        · cases hnil
        · obtain ⟨rfl, rfl⟩ := List.cons.inj hpath
          simp only [Nat.zero_add] at hj ⊢
          rw [dif_pos hj]
          exact (ih (h.child hj) _).1 hmem
      · intro hfollow
        split_ifs at hfollow with hi
        exact .inr ⟨i, hi, path, by rw [Nat.zero_add], (ih (h.child hi) _).2 hfollow⟩

open BPlusTree in
/-- The paths of the leaves are those that end at a leaf. -/
lemma mem_leafPaths_iff {t : SearchTree K V n} (h : Stored tree content (t.cells parent next))
    (path : List ℕ) (q : PageId) : (path, q) ∈ t.leafPaths ↔
      follow content t.pid path = some q ∧ ∃ page, content q = some (.leaf page) := by
  induction n generalizing path parent next with
  | zero =>
    obtain ⟨p, es, rfl⟩ := t.exists_leaf
    obtain ⟨page, hpage, -⟩ := h.leaf
    cases path with
    | nil =>
      simp only [leafPaths_leaf, List.mem_singleton, Prod.mk.injEq, true_and, pid_leaf, follow,
        Option.some.injEq]
      constructor
      · rintro rfl
        exact ⟨rfl, page, hpage⟩
      · rintro ⟨rfl, -⟩
        rfl
    | cons i path => simp [follow_leaf h]
  | succ n ih =>
    obtain ⟨p, cs, rfl⟩ := t.exists_node
    obtain ⟨page, hpage, -⟩ := h.node
    rw [leafPaths_node, mem_pathsOf]
    cases path with
    | nil =>
      simp only [pid_node, follow, Option.some.injEq]
      constructor
      · rintro ⟨i, hi, path, hpath, -⟩
        cases hpath
      · rintro ⟨rfl, leaf, hleaf⟩
        rw [hpage] at hleaf
        cases hleaf
    | cons i path =>
      rw [pid_node, follow_node h]
      constructor
      · rintro ⟨j, hj, path', hpath, hmem⟩
        obtain ⟨rfl, rfl⟩ := List.cons.inj hpath
        simp only [Nat.zero_add] at hj ⊢
        rw [dif_pos hj]
        exact (ih (h.child hj) _).1 hmem
      · rintro ⟨hfollow, hleaf⟩
        split_ifs at hfollow with hi
        exact ⟨i, hi, path, by rw [Nat.zero_add], (ih (h.child hi) _).2 ⟨hfollow, hleaf⟩⟩

open BPlusTree in
/-- The keys in the leaves below a node are those of its entries. -/
lemma Stored.mem_entries_of_hasKey {t : SearchTree K V n}
    (h : Stored tree content (t.cells parent next)) {k : K} (hk : HasKey content t.pid k) :
    ∃ v, (k, v) ∈ t.entries := by
  obtain ⟨path, q, page, i, hfollow, hpage, hi, rfl⟩ := hk
  induction n generalizing path parent next with
  | zero =>
    obtain ⟨p, es, rfl⟩ := t.exists_leaf
    cases path with
    | nil =>
      obtain ⟨page', hpage', hholds, -⟩ := h.leaf
      obtain rfl : p = q := by simpa [follow] using hfollow
      obtain rfl : page' = page := by
        rw [hpage'] at hpage
        simpa using hpage
      rw [hholds.size_eq] at hi
      rw [hholds.array_getElem hi]
      exact ⟨es[i].2, List.getElem_mem hi⟩
    | cons j path => simp [follow_leaf h] at hfollow
  | succ n ih =>
    obtain ⟨p, cs, rfl⟩ := t.exists_node
    cases path with
    | nil =>
      obtain ⟨page', hpage', -⟩ := h.node
      obtain rfl : p = q := by simpa [follow] using hfollow
      rw [hpage'] at hpage
      cases hpage
    | cons j path =>
      rw [pid_node, follow_node h] at hfollow
      split_ifs at hfollow with hj
      obtain ⟨v, hv⟩ := ih (h.child hj) path hfollow
      exact ⟨v, List.mem_flatMap.2 ⟨cs[j], List.getElem_mem hj, hv⟩⟩

/-- The page of the root names the parent. -/
lemma Stored.parentPageId {t : SearchTree K V n} (h : Stored tree content (t.cells parent next)) :
    ∃ page, content t.pid = some page ∧ page.parentPageId = parent := by
  obtain ⟨page, hpage, hshows⟩ := h t.pid (t.rootCell parent next) (by rw [cells_eq]; simp)
  exact ⟨page, hpage, PageStore.Owned.parentPageId_of_shows hshows⟩

open BPlusTree in
/-- Two chains of links that meet in a leaf make one. -/
lemma links_append {content : PageId → Option (BPlusTreePage K V)} {p q r : PageId}
    {ps qs : List PageId} (hps : Links content p ps q) (hqs : Links content q qs r) :
    Links content p (ps ++ qs) r := by
  induction ps generalizing p with
  | nil =>
    obtain rfl : p = q := hps
    exact hqs
  | cons p' ps ih =>
    obtain ⟨rfl, leaf, hleaf, hrest⟩ := hps
    exact ⟨rfl, leaf, hleaf, ih hrest⟩

open BPlusTree in
/-- The links go through the leaves of the tree to the leaf behind it. -/
lemma Stored.links {t : SearchTree K V n} (h : Stored tree content (t.cells parent next)) :
    Links content (t.firstLeaf next) (t.leafPaths.map Prod.snd) next := by
  induction n generalizing parent next with
  | zero =>
    obtain ⟨p, es, rfl⟩ := t.exists_leaf
    obtain ⟨page, hpage, -, -, -, hnext⟩ := h.leaf
    exact ⟨rfl, page, hpage, hnext⟩
  | succ n ih =>
    obtain ⟨p, cs, rfl⟩ := t.exists_node
    have hcs : Stored tree content (cellsOf cs p next) := by
      refine h.mono ?_
      rw [cells_eq]
      exact Multiset.le_add_left _ _
    have hlinks : ∀ k,
        Links content (firstLeafs cs next) ((pathsOf leafPaths cs k).map Prod.snd) next := by
      clear h
      induction cs with
      | nil => exact fun k => rfl
      | cons c cs ihcs =>
        intro k
        rw [cellsOf_cons] at hcs
        have hhead := ih (hcs.mono (Multiset.le_add_right _ _))
        have htail := ihcs (hcs.mono (Multiset.le_add_left _ _)) (k + 1)
        rw [pathsOf_cons, List.map_append, List.map_map]
        exact links_append hhead htail
    exact hlinks 0

/-- A tree with entries has a leaf. -/
lemma leafPaths_ne_nil {t : SearchTree K V n} (h : t.entries ≠ []) : t.leafPaths ≠ [] := by
  induction n with
  | zero =>
    obtain ⟨p, es, rfl⟩ := t.exists_leaf
    exact List.cons_ne_nil _ _
  | succ n ih =>
    obtain ⟨p, cs, rfl⟩ := t.exists_node
    obtain ⟨x, hx⟩ := List.exists_mem_of_ne_nil _ h
    obtain ⟨c, hc, hxc⟩ := List.mem_flatMap.1 hx
    obtain ⟨i, hi, rfl⟩ := List.getElem_of_mem hc
    obtain ⟨y, hy⟩ := List.exists_mem_of_ne_nil _ (ih (List.ne_nil_of_mem hxc))
    have hmem : (i :: y.1, y.2) ∈ pathsOf leafPaths cs 0 :=
      mem_pathsOf.2 ⟨i, hi, y.1, by rw [Nat.zero_add], hy⟩
    exact List.ne_nil_of_mem hmem

end Stored

/-! ## The nodes in their holes -/

section Located

variable [LinearOrder K] {tree : BPlusTree} {content : PageId → Option (BPlusTreePage K V)}

omit [LinearOrder K] in
/-- The pages of a tree in a hole are among those of the whole tree. -/
lemma Stored.hole {ctx : Context K V n} {t : SearchTree K V n}
    (h : Stored tree content ((ctx.plug t).2.cells invalidPageId invalidPageId)) :
    Stored tree content (t.cells ctx.parent ctx.next) := by
  rw [Context.cells_plug] at h
  exact h.mono (Multiset.le_add_right _ _)

open BPlusTree in
/-- What stands at a path below a tree in a hole stands in a hole itself. -/
lemma exists_hole {ctx : Context K V n} {t : SearchTree K V n}
    (h : Stored tree content ((ctx.plug t).2.cells invalidPageId invalidPageId))
    (hctx : ctx.WellFormed tree) (ht : ctx.Admits tree t) {path : List ℕ}
    (hpath : follow content t.pid path = some p) :
    ∃ (m : ℕ) (ctx' : Context K V m) (u : SearchTree K V m), ctx'.plug u = ctx.plug t ∧
      u.pid = p ∧ ctx'.depth = ctx.depth + path.length ∧ ctx'.WellFormed tree ∧
      ctx'.Admits tree u := by
  induction path generalizing n with
  | nil => exact ⟨n, ctx, t, rfl, by simpa [follow] using hpath, rfl, hctx, ht⟩
  | cons i path ih =>
    cases n with
    | zero =>
      obtain ⟨q, es, rfl⟩ := t.exists_leaf
      simp [follow_leaf h.hole] at hpath
    | succ n =>
      obtain ⟨q, cs, rfl⟩ := t.exists_node
      rw [pid_node, follow_node h.hole] at hpath
      split_ifs at hpath with hi
      obtain ⟨before, c, after, hcs, hlen⟩ := exists_append_cons hi
      have hc : cs[i] = c := by
        subst hlen
        simp [hcs]
      rw [hc] at hpath
      rw [hcs] at ht h
      obtain ⟨hctx', hshaped, hsize⟩ := Context.wellFormed_node.2 ⟨hctx, ht⟩
      obtain ⟨m, ctx', u, hplug, hpid, hdepth, hwf, hadmits⟩ :=
        @ih n (.node q before c.1 after ctx) c.2 h hctx' ⟨hsize, hshaped⟩ hpath
      refine ⟨m, ctx', u, ?_, hpid, ?_, hwf, hadmits⟩
      · rw [hplug, Context.plug_node, hcs]
      · rw [hdepth, Context.depth_node, List.length_cons]
        omega

open BPlusTree in
/-- The node at a path: a leaf or an internal node in a hole, and its page. -/
lemma exists_located {t : SearchTree K V n}
    (h : Stored tree content (t.cells invalidPageId invalidPageId)) (ht : t.WellFormed tree)
    {path : List ℕ} (hpath : follow content t.pid path = some p) :
    (∃ (ctx : Context K V 0) (es : List (K × V)) (page : BPlusTreeLeafPage K V),
      ctx.plug (leaf p es) = ⟨n, t⟩ ∧ ctx.depth = path.length ∧ ctx.WellFormed tree ∧
      ctx.Admits tree (leaf p es) ∧ content p = some (.leaf page) ∧ page.Holds es ∧
      page.maxSize = tree.leafMaxSize) ∨
    ∃ (m : ℕ) (ctx : Context K V (m + 1)) (cs : List (WithBot K × SearchTree K V m))
      (page : BPlusTreeInternalPage K),
      ctx.plug (.node p cs) = ⟨n, t⟩ ∧ ctx.depth = path.length ∧ ctx.WellFormed tree ∧
      ctx.Admits tree (.node p cs) ∧ content p = some (.internal page) ∧
      page.Holds (slots cs) ∧ page.maxSize = tree.internalMaxSize ∧
      Stored tree content ((SearchTree.node p cs).cells ctx.parent ctx.next) := by
  have hroot : (Context.root : Context K V n).Admits tree t := ht
  have hwf₀ : (Context.root : Context K V n).WellFormed tree := trivial
  obtain ⟨m, ctx, u, hplug, rfl, hdepth, hwf, hadmits⟩ := exists_hole h hwf₀ hroot hpath
  rw [Context.depth_root, Nat.zero_add] at hdepth
  have hu : Stored tree content (u.cells ctx.parent ctx.next) := by
    apply Stored.hole
    rw [hplug]
    exact h
  cases m with
  | zero =>
    obtain ⟨q, es, rfl⟩ := u.exists_leaf
    obtain ⟨page, hpage, hholds, hmax, -⟩ := hu.leaf
    exact .inl ⟨ctx, es, page, hplug, hdepth, hwf, hadmits, hpage, hholds, hmax⟩
  | succ m =>
    obtain ⟨q, cs, rfl⟩ := u.exists_node
    obtain ⟨page, hpage, hholds, hmax, -⟩ := hu.node
    exact .inr ⟨m, ctx, cs, page, hplug, hdepth, hwf, hadmits, hpage, hholds, hmax, hu⟩

/-- The size of a node other than the root. -/
lemma minSize_le_of_depth {ctx : Context K V n} {t : SearchTree K V n} {path : List ℕ}
    (hne : path ≠ []) (hdepth : ctx.depth = path.length) (ht : ctx.Admits tree t) :
    tree.minSize n ≤ t.size ∧ t.size ≤ tree.maxSize n := by
  cases ctx with
  | root => exact absurd (List.length_eq_zero_iff.1 hdepth.symm) hne
  | node q before key after up => exact ht.1

/-- The keys of an internal node separate the entries of its children. -/
lemma separates {cs : List (WithBot K × SearchTree K V n)} {lo : WithBot K}
    {hi : WithTop (WithBot K)} (h : (SearchTree.node p cs).Shaped tree lo hi) {i : ℕ}
    (hi : i < cs.length) :
    (∀ j, (hj : j < i) → ∀ x ∈ cs[j].2.entries, (x.1 : WithBot K) < cs[i].1) ∧
      ∀ x ∈ cs[i].2.entries, cs[i].1 ≤ x.1 := by
  obtain ⟨-, hcs⟩ := shaped_node.1 h
  obtain ⟨before, c, after, rfl, rfl⟩ := exists_append_cons hi
  rw [segmented_append, segmented_cons] at hcs
  obtain ⟨hbefore, -, hc, -⟩ := hcs
  constructor
  · intro j hj x hx
    have hmem : x ∈ entriesOf before := by
      rw [List.getElem_append_left hj] at hx
      exact List.mem_flatMap.2 ⟨before[j], List.getElem_mem hj, hx⟩
    have hlt := (entriesOf_bounds hbefore x hmem).2
    simpa using WithTop.coe_lt_coe.1 hlt
  · intro x hx
    simp only [List.getElem_append_right (le_refl before.length), Nat.sub_self,
      List.getElem_cons_zero] at hx ⊢
    exact (hc.2.bounds x hx).1

end Located

end SearchTree

/-! ## The invariant -/

namespace BPlusTree

variable {K V : Type} [LinearOrder K] {tree : BPlusTree}
  {frame : PageId → Option (BPlusTreePage K V)} {s : PageStore (BPlusTreePage K V)} {root : PageId}
  {n : ℕ} {t : SearchTree K V n}

/-- A represented tree is stored in the pages of the buffer pool. -/
lemma Represents.stored (h : tree.Represents frame (some ⟨n, t⟩) root s) :
    Stored tree s.content (t.cells invalidPageId invalidPageId) := by
  intro p c hpc
  refine h.owned.owns.shows_of_mem p c ?_
  simpa [Whole.cells] using hpc

/-- The pages that can be reached from the root are those of the tree. -/
lemma Represents.reachable_iff (h : tree.Represents frame (some ⟨n, t⟩) root s) (p : PageId) :
    (∃ path, follow s.content root path = some p) ↔
      p ∈ (t.cells invalidPageId invalidPageId).map Prod.fst := by
  have hroot : root = t.pid := h.root_eq
  rw [map_nodePaths, Multiset.mem_coe, List.mem_map, hroot]
  constructor
  · rintro ⟨path, hpath⟩
    exact ⟨(path, p), (mem_nodePaths_iff h.stored path p).2 hpath, rfl⟩
  · rintro ⟨⟨path, p⟩, hmem, rfl⟩
    exact ⟨path, (mem_nodePaths_iff h.stored path p).1 hmem⟩

/-- Two paths to one page are equal. -/
lemma Represents.listedOnce (h : tree.Represents frame (some ⟨n, t⟩) root s) {path path' : List ℕ}
    {p : PageId} (hpath : follow s.content root path = some p)
    (hpath' : follow s.content root path' = some p) : path = path' := by
  have hroot : root = t.pid := h.root_eq
  rw [hroot] at hpath hpath'
  have hnodup := h.owned.owns.nodup
  have hcells : (Multiset.map (fun x : PageId × Cell K V × Bool => (x.1, x.2.1)) 0 +
      Whole.cells (some ⟨n, t⟩)) = t.cells invalidPageId invalidPageId := by
    rw [Multiset.map_zero, zero_add]
    rfl
  rw [hcells, map_nodePaths, Multiset.coe_nodup] at hnodup
  have hmem := (mem_nodePaths_iff h.stored path p).2 hpath
  have hmem' := (mem_nodePaths_iff h.stored path' p).2 hpath'
  have heq : ((path, p) : List ℕ × PageId) = (path', p) :=
    List.inj_on_of_nodup_map hnodup hmem hmem' rfl
  exact congrArg Prod.fst heq

omit [LinearOrder K] in
/-- An internal page lists the roots of the children, with their bounds. -/
lemma children_of_holds {m i : ℕ} {cs : List (WithBot K × SearchTree K V m)}
    {page : BPlusTreeInternalPage K} (hholds : page.Holds (slots cs)) (hi : i < page.size) :
    ∃ hlt : i < cs.length, (page.array i).2 = cs[i].2.pid ∧
      (0 < i → ((page.array i).1 : WithBot K) = cs[i].1) := by
  rw [hholds.size_eq, length_slots] at hi
  exact ⟨hi, array_eq_of_holds hholds hi⟩

/-- A leaf that can be reached from the root holds the entries of a leaf of the tree, in some hole. -/
lemma Represents.leafAt (h : tree.Represents frame (some ⟨n, t⟩) t.pid s) {path : List ℕ}
    {p : PageId} {leaf : BPlusTreeLeafPage K V} (hpath : follow s.content t.pid path = some p)
    (hleaf : s.content p = some (.leaf leaf)) :
    ∃ (ctx : Context K V 0) (es : List (K × V)), ctx.plug (.leaf p es) = ⟨n, t⟩ ∧
      ctx.depth = path.length ∧ ctx.Admits tree (.leaf p es) ∧ leaf.Holds es ∧
      leaf.maxSize = tree.leafMaxSize := by
  rcases exists_located h.stored h.wellFormed hpath with
    ⟨ctx, es, page, hplug, hdepth, -, hadmits, hpage, hholds, hmax⟩ |
    ⟨m, ctx, cs, page, -, -, -, -, hpage, -⟩
  · obtain rfl : page = leaf := by
      rw [hpage] at hleaf
      simpa using hleaf
    exact ⟨ctx, es, hplug, hdepth, hadmits, hholds, hmax⟩
  · rw [hpage] at hleaf
    cases hleaf

/-- An internal page that can be reached from the root lists the children of an internal node of the
tree, in some hole, and its pages are stored. -/
lemma Represents.internalAt (h : tree.Represents frame (some ⟨n, t⟩) t.pid s) {path : List ℕ}
    {p : PageId} {node : BPlusTreeInternalPage K} (hpath : follow s.content t.pid path = some p)
    (hnode : s.content p = some (.internal node)) :
    ∃ (m : ℕ) (ctx : Context K V (m + 1)) (cs : List (WithBot K × SearchTree K V m)),
      ctx.depth = path.length ∧ ctx.Admits tree (.node p cs) ∧ node.Holds (slots cs) ∧
      node.maxSize = tree.internalMaxSize ∧
      Stored tree s.content ((SearchTree.node p cs).cells ctx.parent ctx.next) := by
  rcases exists_located h.stored h.wellFormed hpath with
    ⟨ctx, es, page, -, -, -, -, hpage, -⟩ |
    ⟨m, ctx, cs, page, -, hdepth, -, hadmits, hpage, hholds, hmax, hstored⟩
  · rw [hpage] at hnode
    cases hnode
  · obtain rfl : page = node := by
      rw [hpage] at hnode
      simpa using hnode
    exact ⟨m, ctx, cs, hdepth, hadmits, hholds, hmax, hstored⟩

/-- A page that can be reached from the root is a leaf or an internal page, of the capacity of the
tree. -/
lemma Represents.isNode (h : tree.Represents frame (some ⟨n, t⟩) t.pid s) {path : List ℕ}
    {p : PageId} (hpath : follow s.content t.pid path = some p) :
    p ≠ invalidPageId ∧
      ((∃ leaf, s.content p = some (.leaf leaf) ∧ leaf.maxSize = tree.leafMaxSize) ∨
        ∃ page, s.content p = some (.internal page) ∧ page.maxSize = tree.internalMaxSize) := by
  have hmem := (h.reachable_iff p).1 ⟨path, hpath⟩
  obtain ⟨⟨q, c⟩, hc, rfl⟩ := Multiset.mem_map.1 hmem
  refine ⟨h.owned.ne_invalid (c := c) (by simpa [Whole.cells] using hc), ?_⟩
  rcases exists_located h.stored h.wellFormed hpath with
    ⟨ctx, es, page, -, -, -, -, hpage, -, hmax⟩ | ⟨m, ctx, cs, page, -, -, -, -, hpage, -, hmax, -⟩
  · exact .inl ⟨page, hpage, hmax⟩
  · exact .inr ⟨page, hpage, hmax⟩

/-- A leaf is as deep as the tree is high. -/
lemma Represents.length_of_leaf (h : tree.Represents frame (some ⟨n, t⟩) t.pid s) {path : List ℕ}
    {p : PageId} {leaf : BPlusTreeLeafPage K V} (hpath : follow s.content t.pid path = some p)
    (hleaf : s.content p = some (.leaf leaf)) : path.length = n := by
  obtain ⟨ctx, es, hplug, hdepth, -⟩ := h.leafAt hpath hleaf
  obtain ⟨-, -, hheight⟩ := Context.of_plug_eq hplug
  omega

/-- A page other than the root is filled at least half, and not beyond its capacity. -/
lemma Represents.sizes (h : tree.Represents frame (some ⟨n, t⟩) t.pid s) {path : List ℕ}
    {p : PageId} {page : BPlusTreePage K V} (hne : path ≠ [])
    (hpath : follow s.content t.pid path = some p) (hpage : s.content p = some page) :
    page.getMinSize ≤ page.getSize ∧ page.getSize ≤ page.getMaxSize := by
  obtain ⟨-, ⟨leaf, hleaf, -⟩ | ⟨node, hnode, -⟩⟩ := h.isNode hpath
  · obtain rfl : BPlusTreePage.leaf leaf = page := Option.some.inj (hleaf.symm.trans hpage)
    obtain ⟨ctx, es, -, hdepth, hadmits, hholds, hmax⟩ := h.leafAt hpath hleaf
    have hsize := minSize_le_of_depth hne hdepth hadmits
    simp only [BPlusTreePage.getMinSize, BPlusTreePage.getSize, BPlusTreePage.getMaxSize,
      BPlusTreeLeafPage.getMinSize, hmax, hholds.size_eq]
    exact hsize
  · obtain rfl : BPlusTreePage.internal node = page := Option.some.inj (hnode.symm.trans hpage)
    obtain ⟨m, ctx, cs, hdepth, hadmits, hholds, hmax, -⟩ := h.internalAt hpath hnode
    have hsize := minSize_le_of_depth hne hdepth hadmits
    simp only [BPlusTreePage.getMinSize, BPlusTreePage.getSize, BPlusTreePage.getMaxSize,
      BPlusTreeInternalPage.getMinSize, hmax, hholds.size_eq, length_slots]
    exact hsize

/-- A root that is a leaf has an entry. -/
lemma Represents.one_le_rootLeaf (h : tree.Represents frame (some ⟨n, t⟩) t.pid s)
    {leaf : BPlusTreeLeafPage K V} (hleaf : s.content t.pid = some (.leaf leaf)) :
    1 ≤ leaf.size := by
  cases n with
  | zero =>
    obtain ⟨p, es, rfl⟩ := t.exists_leaf
    obtain ⟨page, hpage, hholds, -⟩ := h.stored.leaf
    obtain rfl : page = leaf := by
      rw [pid_leaf, hpage] at hleaf
      simpa using hleaf
    rw [hholds.size_eq]
    exact h.wellFormed.1.1
  | succ n =>
    obtain ⟨p, cs, rfl⟩ := t.exists_node
    obtain ⟨page, hpage, -⟩ := h.stored.node
    rw [pid_node, hpage] at hleaf
    cases hleaf

/-- A root that is an internal page has two children. -/
lemma Represents.two_le_rootInternal (h : tree.Represents frame (some ⟨n, t⟩) t.pid s)
    {node : BPlusTreeInternalPage K} (hnode : s.content t.pid = some (.internal node)) :
    2 ≤ node.size := by
  cases n with
  | zero =>
    obtain ⟨p, es, rfl⟩ := t.exists_leaf
    obtain ⟨page, hpage, -⟩ := h.stored.leaf
    rw [pid_leaf, hpage] at hnode
    cases hnode
  | succ n =>
    obtain ⟨p, cs, rfl⟩ := t.exists_node
    obtain ⟨page, hpage, hholds, -⟩ := h.stored.node
    obtain rfl : page = node := by
      rw [pid_node, hpage] at hnode
      simpa using hnode
    rw [hholds.size_eq, length_slots]
    exact h.wellFormed.1.1

/-- The keys of a leaf are strictly increasing, as the entries of a leaf of the tree are. -/
lemma Represents.leafKeys (h : tree.Represents frame (some ⟨n, t⟩) t.pid s) {path : List ℕ}
    {p : PageId} {leaf : BPlusTreeLeafPage K V} (hpath : follow s.content t.pid path = some p)
    (hleaf : s.content p = some (.leaf leaf)) {i j : ℕ} (hij : i < j) (hj : j < leaf.size) :
    (leaf.array i).1 < (leaf.array j).1 := by
  obtain ⟨ctx, es, -, -, hadmits, hholds, -⟩ := h.leafAt hpath hleaf
  rw [hholds.size_eq] at hj
  rw [hholds.array_getElem hj, hholds.array_getElem (hij.trans hj)]
  exact List.pairwise_iff_getElem.1 hadmits.2.1 i j (hij.trans hj) hj hij

/-- The keys of an internal page after its first slot are strictly increasing, as the bounds of the
children of a node of the tree are. -/
lemma Represents.internalKeys (h : tree.Represents frame (some ⟨n, t⟩) t.pid s) {path : List ℕ}
    {p : PageId} {node : BPlusTreeInternalPage K} (hpath : follow s.content t.pid path = some p)
    (hnode : s.content p = some (.internal node)) {i j : ℕ} (hi : 1 ≤ i) (hij : i < j)
    (hj : j < node.size) : (node.array i).1 < (node.array j).1 := by
  obtain ⟨m, ctx, cs, -, hadmits, hholds, -, -⟩ := h.internalAt hpath hnode
  obtain ⟨hlti, -, hkeyi⟩ := children_of_holds hholds (hij.trans hj)
  obtain ⟨hltj, -, hkeyj⟩ := children_of_holds hholds hj
  have hlt := List.pairwise_iff_getElem.1 (shaped_node.1 hadmits.2).2.pairwise i j hlti hltj hij
  rw [← hkeyi (by omega), ← hkeyj (by omega)] at hlt
  exact WithBot.coe_lt_coe.1 hlt

/-- The key of a slot of an internal page separates the keys below the page of this slot from those
below the page of the slot before it. -/
lemma Represents.separators (h : tree.Represents frame (some ⟨n, t⟩) t.pid s) {path : List ℕ}
    {p : PageId} {node : BPlusTreeInternalPage K} (hpath : follow s.content t.pid path = some p)
    (hnode : s.content p = some (.internal node)) {i : ℕ} (hi : 1 ≤ i) (hsize : i < node.size) :
    (∀ k, HasKey s.content (node.array (i - 1)).2 k → k < (node.array i).1) ∧
      ∀ k, HasKey s.content (node.array i).2 k → (node.array i).1 ≤ k := by
  obtain ⟨m, ctx, cs, -, hadmits, hholds, -, hstored⟩ := h.internalAt hpath hnode
  obtain ⟨hlti, hchild, hkey⟩ := children_of_holds hholds hsize
  obtain ⟨hltj, hchild', -⟩ := children_of_holds hholds (show i - 1 < node.size by omega)
  obtain ⟨hleft, hright⟩ := separates hadmits.2 hlti
  rw [hchild, hchild']
  rw [← hkey (by omega)] at hleft hright
  constructor
  · intro k hk
    obtain ⟨v, hv⟩ := (hstored.child hltj).mem_entries_of_hasKey hk
    exact WithBot.coe_lt_coe.1 (hleft (i - 1) (by omega) _ hv)
  · intro k hk
    obtain ⟨v, hv⟩ := (hstored.child hlti).mem_entries_of_hasKey hk
    exact WithBot.coe_le_coe.1 (hright _ hv)

/-- A page that an internal page lists has it as its parent. -/
lemma Represents.parentOf (h : tree.Represents frame (some ⟨n, t⟩) t.pid s) {path : List ℕ}
    {p : PageId} {node : BPlusTreeInternalPage K} (hpath : follow s.content t.pid path = some p)
    (hnode : s.content p = some (.internal node)) {i : ℕ} (hi : i < node.size) :
    ∃ child, s.content (node.array i).2 = some child ∧ child.parentPageId = p := by
  obtain ⟨m, ctx, cs, -, -, hholds, -, hstored⟩ := h.internalAt hpath hnode
  obtain ⟨hlt, hchild, -⟩ := children_of_holds hholds hi
  rw [hchild]
  exact (hstored.child hlt).parentPageId

/-- The links to the next leaves go through all leaves from left to right.

**Proof sketch.** The paths of the leaves of the tree are sorted, and lead to exactly the pages that
are leaves. Two of them with one page would be equal, so the pages are distinct; the links follow
them because the cells of the tree say so. -/
lemma Represents.leafLinks (hv : tree.Valid) (h : tree.Represents frame (some ⟨n, t⟩) t.pid s) :
    ∃ (paths : List (List ℕ)) (ps : List PageId) (first : PageId),
      paths.Pairwise (· < ·) ∧
      (∀ path, path ∈ paths ↔
        ∃ p leaf, follow s.content t.pid path = some p ∧ s.content p = some (.leaf leaf)) ∧
      paths.map (follow s.content t.pid) = ps.map some ∧ ps.Nodup ∧ ps ≠ [] ∧
      Links s.content first ps invalidPageId := by
  have hmem := fun path q => mem_leafPaths_iff h.stored path q
  have hpaths : t.leafPaths.Nodup := by
    refine List.Nodup.of_map Prod.fst (t.leafPaths_sorted.imp ?_)
    intro path path' hlt heq
    rw [heq] at hlt
    exact List.lt_irrefl path' hlt
  refine ⟨t.leafPaths.map Prod.fst, t.leafPaths.map Prod.snd, t.firstLeaf invalidPageId,
    t.leafPaths_sorted, ?_, ?_, ?_, ?_, h.stored.links⟩
  · intro path
    constructor
    · intro hpath
      obtain ⟨⟨path, q⟩, hq, rfl⟩ := List.mem_map.1 hpath
      obtain ⟨hfollow, leaf, hleaf⟩ := (hmem path q).1 hq
      exact ⟨q, leaf, hfollow, hleaf⟩
    · rintro ⟨q, leaf, hfollow, hleaf⟩
      exact List.mem_map.2 ⟨(path, q), (hmem path q).2 ⟨hfollow, leaf, hleaf⟩, rfl⟩
  · rw [List.map_map, List.map_map]
    apply List.map_congr_left
    intro x hx
    exact ((hmem x.1 x.2).1 hx).1
  · refine hpaths.map_on ?_
    intro x hx y hy hxy
    have hfollow := ((hmem x.1 x.2).1 hx).1
    rw [hxy] at hfollow
    exact Prod.ext (h.listedOnce hfollow ((hmem y.1 y.2).1 hy).1) hxy
  · intro hnil
    exact leafPaths_ne_nil (h.wellFormed.entries_ne_nil hv.sound) (List.map_eq_nil_iff.1 hnil)

/-- The pages of a tree are structured.

**Proof sketch.** A page that can be reached from the root shows a node of the tree in some hole
(`leafAt`, `internalAt`), so each part of the invariant follows from the shape of that node. -/
theorem Represents.structured (hv : tree.Valid) (h : tree.Represents frame (some ⟨n, t⟩) root s) :
    tree.Structured s.content root := by
  obtain rfl : root = t.pid := h.root_eq
  constructor
  case node => exact fun path p hpath => h.isNode hpath
  case depth =>
    intro path path' p p' leaf leaf' hpath hleaf hpath' hleaf'
    rw [h.length_of_leaf hpath hleaf, h.length_of_leaf hpath' hleaf']
  case size => exact fun path p page hne hpath hpage => h.sizes hne hpath hpage
  case rootLeaf => exact fun leaf hleaf => h.one_le_rootLeaf hleaf
  case rootInternal => exact fun node hnode => h.two_le_rootInternal hnode
  case leafKeys => exact fun path p leaf hpath hleaf i j hij hj => h.leafKeys hpath hleaf hij hj
  case internalKeys =>
    exact fun path p node hpath hnode i j hi hij hj => h.internalKeys hpath hnode hi hij hj
  case separators =>
    exact fun path p node hpath hnode i hi hsize => h.separators hpath hnode hi hsize
  case rootParent =>
    intro page hpage
    obtain ⟨page', hpage', hparent⟩ := h.stored.parentPageId
    obtain rfl : page' = page := Option.some.inj (hpage'.symm.trans hpage)
    exact hparent
  case parent => exact fun path p node hpath hnode i hi => h.parentOf hpath hnode hi
  case listedOnce => exact fun path path' p hpath hpath' => h.listedOnce hpath hpath'
  case links => exact h.leafLinks hv

/-- Whatever sequence of calls is made on an initially empty tree, the pages that it leaves are
structured, unless the tree is empty. Every leaf and every internal page has room for the slots
that the code uses for a moment, one more than the maximal size, and the pool is never exhausted. -/
theorem performAll_structured [Inhabited K] [Inhabited V] (hv : tree.Valid)
    (calls : List (IndexCall K V)) :
    ∃ N, ∀ fuel ≥ N, ∃ results root s,
      (tree.performAll fuel invalidPageId calls).run (PageStore.handler ⊤) {} =
        some ((results, root), s) ∧
      (root ≠ invalidPageId → tree.Structured s.content root) := by
  refine ⟨calls.length, fun fuel hfuel => ?_⟩
  obtain ⟨⟨results, root⟩, s, hrun, -, T, hrep, -, -⟩ := hv.performAll calls hfuel
  refine ⟨results, root, s, hrun, ?_⟩
  intro hne
  rcases hrep.cases with ⟨rfl, hroot⟩ | ⟨n, t, rfl, -, -⟩
  · exact absurd hroot hne
  · exact hrep.structured hv

/-- The pages after three insertions into leaves of two entries. -/
theorem performAll_structured_split :
    ∃ N, ∀ fuel ≥ N, ∃ results root s,
      ((⟨2, 3, fun _ => true, fun _ => true⟩ : BPlusTree).performAll fuel invalidPageId
        ([.insert 1 ⟨0, 1⟩, .insert 2 ⟨0, 2⟩, .insert 3 ⟨0, 3⟩] : List (IndexCall ℤ RID))).run
          (PageStore.handler ⊤) {} = some ((results, root), s) ∧
      (root ≠ invalidPageId →
        (⟨2, 3, fun _ => true, fun _ => true⟩ : BPlusTree).Structured s.content root) :=
  performAll_structured ⟨by decide, by decide, fun _ _ => rfl, fun _ _ => rfl⟩ _

end BPlusTree

end OneBase
