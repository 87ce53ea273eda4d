import OneBase.Lib.Segments
import OneBase.Storage.Index.BPlusTree
import OneBase.Storage.Page.BPlusTreePageSpec
import Mathlib.Data.Multiset.Basic
import Mathlib.Tactic.Abel

set_option relaxedAutoImplicit false
set_option autoImplicit false

/-!
# Search trees over pages

What the pages of a B+ tree are meant to represent: a search tree whose leaves are all at the same
depth, by its type. Every child comes with the lower bound of its keys; the upper bound is the lower
bound of the next child. A context is a tree with a hole, as the loops that go up from a leaf see
it.

## Main definitions

* `OneBase.SearchTree` — the trees, by height.
* `OneBase.SearchTree.entries`, `cells` — the entries of a tree, and the pages that represent it.
* `OneBase.SearchTree.Shaped`, `WellFormed` — the invariant.
* `OneBase.SearchTree.Context` — trees with a hole.

## Main results

* `OneBase.SearchTree.Context.wellFormed_plug`, `entries_plug`, `cells_plug` — the tree around the
  hole is put together again.
-/

namespace OneBase

open Segments

/-- What a page contains, as a list. -/
inductive Cell (K V : Type)
  | blank
  | leaf (entries : List (K × V)) (parent next : PageId)
  | internal (children : List (WithBot K × PageId)) (parent : PageId)

/-- A leaf: its page and its entries. -/
structure LeafNode (K V : Type) where
  pid : PageId
  entries : List (K × V)

/-- An internal node: its page and its children, each with the lower bound of its keys. -/
structure InternalNode (K T : Type) where
  pid : PageId
  children : List (WithBot K × T)

/-- The search trees of height `n`, all of whose leaves are at depth `n`. -/
def SearchTree (K V : Type) : ℕ → Type
  | 0 => LeafNode K V
  | n + 1 => InternalNode K (SearchTree K V n)

namespace SearchTree

variable {K V : Type} {n : ℕ}

/-- A leaf. -/
def leaf (pid : PageId) (entries : List (K × V)) : SearchTree K V 0 := LeafNode.mk pid entries

/-- An internal node. -/
def node (pid : PageId) (children : List (WithBot K × SearchTree K V n)) :
    SearchTree K V (n + 1) :=
  InternalNode.mk pid children

/-- The page of the root. -/
def pid : {n : ℕ} → SearchTree K V n → PageId
  | 0, t => LeafNode.pid t
  | _ + 1, t => InternalNode.pid t

/-- The size of the root. -/
def size : {n : ℕ} → SearchTree K V n → ℕ
  | 0, t => (LeafNode.entries t).length
  | _ + 1, t => (InternalNode.children t).length

/-- The entries, from left to right. -/
def entries : {n : ℕ} → SearchTree K V n → List (K × V)
  | 0, t => LeafNode.entries t
  | _ + 1, t => (InternalNode.children t).flatMap fun c => entries c.2

/-- The page of the leftmost leaf, or `next` if there is no leaf. -/
def firstLeaf : {n : ℕ} → SearchTree K V n → PageId → PageId
  | 0, t, _ => LeafNode.pid t
  | _ + 1, t, next => (InternalNode.children t).foldr (fun c r => firstLeaf c.2 r) next

/-- A sum over trees that stand next to each other, of a function that depends on the page of the
leaf behind the tree. -/
def sumLeft {T M : Type} [Zero M] [Add M] (first : T → PageId → PageId) (f : T → PageId → M) :
    List T → PageId → M
  | [], _ => 0
  | c :: cs, next => f c (cs.foldr first next) + sumLeft first f cs next

/-- The pages of a tree whose parent is `parent` and whose last leaf is followed by `next`. -/
def cells : {n : ℕ} → SearchTree K V n → PageId → PageId → Multiset (PageId × Cell K V)
  | 0, t, parent, next => {(LeafNode.pid t, .leaf (LeafNode.entries t) parent next)}
  | _ + 1, t, parent, next =>
    {(InternalNode.pid t,
      .internal ((InternalNode.children t).map fun c => (c.1, pid c.2)) parent)} +
    sumLeft (fun c r => firstLeaf c.2 r) (fun c r => cells c.2 (InternalNode.pid t) r)
      (InternalNode.children t) next

/-- The page of the leftmost leaf of trees that stand next to each other. -/
def firstLeafs (cs : List (WithBot K × SearchTree K V n)) (next : PageId) : PageId :=
  cs.foldr (fun c r => firstLeaf c.2 r) next

/-- The children as their parent lists them. -/
def slots (cs : List (WithBot K × SearchTree K V n)) : List (WithBot K × PageId) :=
  cs.map fun c => (c.1, pid c.2)

/-- The entries of trees that stand next to each other. -/
def entriesOf (cs : List (WithBot K × SearchTree K V n)) : List (K × V) :=
  cs.flatMap fun c => entries c.2

/-- The pages of trees that stand next to each other. -/
def cellsOf (cs : List (WithBot K × SearchTree K V n)) (parent next : PageId) :
    Multiset (PageId × Cell K V) :=
  sumLeft (fun c r => firstLeaf c.2 r) (fun c r => cells c.2 parent r) cs next

/-- The page of the root as a cell. -/
def rootCell : {n : ℕ} → SearchTree K V n → PageId → PageId → Cell K V
  | 0, t, parent, next => .leaf (LeafNode.entries t) parent next
  | _ + 1, t, parent, _ => .internal (slots (InternalNode.children t)) parent

/-- The pages below the root. -/
def below : {n : ℕ} → SearchTree K V n → PageId → Multiset (PageId × Cell K V)
  | 0, _, _ => 0
  | _ + 1, t, next => cellsOf (InternalNode.children t) (InternalNode.pid t) next

section Equations

variable (p parent next : PageId) (es : List (K × V)) (cs ds : List (WithBot K × SearchTree K V n))
  (c : WithBot K × SearchTree K V n)

/-- The page of a leaf. -/
@[simp] lemma pid_leaf : (leaf p es).pid = p := rfl

/-- The page of an internal node. -/
@[simp] lemma pid_node : (node p cs).pid = p := rfl

/-- The size of a leaf is the number of its entries. -/
@[simp] lemma size_leaf : (leaf p es).size = es.length := rfl

/-- The size of an internal node is the number of its children. -/
@[simp] lemma size_node : (node p cs).size = cs.length := rfl

/-- The entries of a leaf. -/
@[simp] lemma entries_leaf : (leaf p es).entries = es := rfl

/-- The entries of an internal node are those of its children, from left to right. -/
@[simp] lemma entries_node : (node p cs).entries = entriesOf cs := rfl

/-- A leaf is its own leftmost leaf. -/
@[simp] lemma firstLeaf_leaf : (leaf p es).firstLeaf next = p := rfl

/-- The leftmost leaf of an internal node lies below its first child that has a leaf. -/
@[simp] lemma firstLeaf_node : (node p cs).firstLeaf next = firstLeafs cs next := rfl

/-- The page of a leaf lists its entries and knows its parent and the next leaf. -/
@[simp] lemma rootCell_leaf : (leaf p es).rootCell parent next = .leaf es parent next := rfl

/-- The page of an internal node lists the pages of its children with their lower bounds. -/
@[simp] lemma rootCell_node : (node p cs).rootCell parent next = .internal (slots cs) parent := rfl

/-- Below a leaf there is nothing. -/
@[simp] lemma below_leaf : (leaf p es).below next = 0 := rfl

/-- Below an internal node there are the pages of its children. -/
@[simp] lemma below_node : (node p cs).below next = cellsOf cs p next := rfl

/-- Without trees, the first leaf is the one that comes next. -/
@[simp] lemma firstLeafs_nil :
    firstLeafs ([] : List (WithBot K × SearchTree K V n)) next = next := rfl

/-- The first leaf is looked for in the first tree, with the trees behind it as what comes next. -/
@[simp] lemma firstLeafs_cons :
    firstLeafs (c :: cs) next = c.2.firstLeaf (firstLeafs cs next) := rfl

/-- The first leaf of two rows of trees. -/
@[simp] lemma firstLeafs_append : firstLeafs (cs ++ ds) next = firstLeafs cs (firstLeafs ds next) :=
  List.foldr_append

/-- No children, no slots. -/
@[simp] lemma slots_nil : slots ([] : List (WithBot K × SearchTree K V n)) = [] := rfl

/-- The slot of a child is its lower bound and its page. -/
@[simp] lemma slots_cons : slots (c :: cs) = (c.1, c.2.pid) :: slots cs := rfl

/-- The slots of two rows of children. -/
@[simp] lemma slots_append : slots (cs ++ ds) = slots cs ++ slots ds := List.map_append

/-- A node has as many slots as children. -/
@[simp] lemma length_slots : (slots cs).length = cs.length := List.length_map _

/-- No trees, no entries. -/
@[simp] lemma entriesOf_nil : entriesOf ([] : List (WithBot K × SearchTree K V n)) = [] := rfl

/-- The entries of the first tree come first. -/
@[simp] lemma entriesOf_cons : entriesOf (c :: cs) = c.2.entries ++ entriesOf cs := rfl

/-- The entries of two rows of trees. -/
@[simp] lemma entriesOf_append : entriesOf (cs ++ ds) = entriesOf cs ++ entriesOf ds :=
  List.flatMap_append

/-- No trees, no pages. -/
@[simp] lemma cellsOf_nil :
    cellsOf ([] : List (WithBot K × SearchTree K V n)) parent next = 0 := rfl

/-- The pages of the first tree, whose last leaf is followed by the first leaf behind it, and those
of the others. -/
@[simp] lemma cellsOf_cons : cellsOf (c :: cs) parent next =
    c.2.cells parent (firstLeafs cs next) + cellsOf cs parent next := rfl

/-- The root and what is below it. -/
lemma cells_eq (t : SearchTree K V n) (parent next : PageId) :
    t.cells parent next = {(t.pid, t.rootCell parent next)} + t.below next := by
  cases n with
  | zero => exact (add_zero _).symm
  | succ n => rfl

/-- The pages of two rows of trees.

**Proof sketch.** Induction on the first row. The leaf behind a tree of the first row is the first
leaf of what is left of this row and of the second one, and the sums are regrouped. -/
@[simp] lemma cellsOf_append : cellsOf (cs ++ ds) parent next =
    cellsOf cs parent (firstLeafs ds next) + cellsOf ds parent next := by
  induction cs with
  | nil => simp
  | cons c cs ih => simp [ih, add_assoc]

end Equations

/-- A tree of height `0` is a leaf. -/
lemma exists_leaf (t : SearchTree K V 0) : ∃ p es, t = leaf p es :=
  ⟨LeafNode.pid t, LeafNode.entries t, rfl⟩

/-- A tree of height `n + 1` is an internal node. -/
lemma exists_node (t : SearchTree K V (n + 1)) : ∃ p cs, t = node p cs :=
  ⟨InternalNode.pid t, InternalNode.children t, rfl⟩

/-! ## Trees with a hole -/

/-- A tree with a hole for a tree of height `n`: at its root, or among the children of the node
`pid`, which is itself in a hole of `up`. -/
inductive Context (K V : Type) : ℕ → Type
  | root {n : ℕ} : Context K V n
  | node {n : ℕ} (pid : PageId) (before : List (WithBot K × SearchTree K V n)) (key : WithBot K)
      (after : List (WithBot K × SearchTree K V n)) (up : Context K V (n + 1)) : Context K V n

namespace Context

/-- The hole is filled. -/
def plug : {n : ℕ} → Context K V n → SearchTree K V n → (m : ℕ) × SearchTree K V m
  | n, .root, t => ⟨n, t⟩
  | _, .node pid before key after up, t => up.plug (.node pid (before ++ (key, t) :: after))

/-- The page of the parent. -/
def parent : {n : ℕ} → Context K V n → PageId
  | _, .root => invalidPageId
  | _, .node pid _ _ _ _ => pid

/-- The page of the leaf behind the hole. -/
def next : {n : ℕ} → Context K V n → PageId
  | _, .root => invalidPageId
  | _, .node _ _ _ after up => firstLeafs after up.next

/-- The lower bound of the keys in the hole. -/
def lo : {n : ℕ} → Context K V n → WithBot K
  | _, .root => ⊥
  | _, .node _ _ key _ _ => key

/-- The upper bound of the keys in the hole. -/
def hi : {n : ℕ} → Context K V n → WithTop (WithBot K)
  | _, .root => ⊤
  | _, .node _ _ _ after up => start after up.hi

/-- The entries on the left of the hole. -/
def left : {n : ℕ} → Context K V n → List (K × V)
  | _, .root => []
  | _, .node _ before _ _ up => up.left ++ entriesOf before

/-- The entries on the right of the hole. -/
def right : {n : ℕ} → Context K V n → List (K × V)
  | _, .root => []
  | _, .node _ _ _ after up => entriesOf after ++ up.right

/-- The pages around a hole that is filled with a tree with the root `pid` and the leftmost leaf
`first`. -/
def cells : {n : ℕ} → Context K V n → (pid first : PageId) → Multiset (PageId × Cell K V)
  | _, .root, _, _ => 0
  | _, .node q before key after up, pid, first =>
    {(q, .internal (slots before ++ (key, pid) :: slots after) up.parent)} +
    (cellsOf before q first + cellsOf after q up.next) + up.cells q (firstLeafs before first)

/-- The page of the root, if `pid` is that of the root of the tree in the hole. -/
def rootPage : {n : ℕ} → Context K V n → (pid : PageId) → PageId
  | _, .root, pid => pid
  | _, .node q _ _ _ up, _ => up.rootPage q

/-- How far the hole is below the root. -/
def depth : {n : ℕ} → Context K V n → ℕ
  | _, .root => 0
  | _, .node _ _ _ _ up => up.depth + 1

section Equations

variable (q pid first : PageId) (before after : List (WithBot K × SearchTree K V n))
  (key : WithBot K) (up : Context K V (n + 1)) (t : SearchTree K V n)

/-- A tree in the hole at the root is the whole tree. -/
@[simp] lemma plug_root : (root : Context K V n).plug t = ⟨n, t⟩ := rfl

/-- A tree among the children of a node makes this node, which is put in the hole above. -/
@[simp] lemma plug_node : (node q before key after up).plug t =
    up.plug (.node q (before ++ (key, t) :: after)) := rfl

/-- The root has no parent. -/
@[simp] lemma parent_root : (root : Context K V n).parent = invalidPageId := rfl

/-- The parent of the hole is the node around it. -/
@[simp] lemma parent_node : (node q before key after up).parent = q := rfl

/-- Nothing comes behind the root. -/
@[simp] lemma next_root : (root : Context K V n).next = invalidPageId := rfl

/-- The leaf behind the hole is the first leaf of the children to its right, or the one behind the
node. -/
@[simp] lemma next_node : (node q before key after up).next = firstLeafs after up.next := rfl

/-- The keys of the root are not bounded from below. -/
@[simp] lemma lo_root : (root : Context K V n).lo = ⊥ := rfl

/-- The lower bound of the hole is the key of its slot. -/
@[simp] lemma lo_node : (node q before key after up).lo = key := rfl

/-- The keys of the root are not bounded from above. -/
@[simp] lemma hi_root : (root : Context K V n).hi = ⊤ := rfl

/-- The upper bound of the hole is the lower bound of the next child, or the one of the node. -/
@[simp] lemma hi_node : (node q before key after up).hi = start after up.hi := rfl

/-- No entries are to the left of the root. -/
@[simp] lemma left_root : (root : Context K V n).left = [] := rfl

/-- To the left of the hole are the entries to the left of the node, and those of the children
before the hole. -/
@[simp] lemma left_node : (node q before key after up).left = up.left ++ entriesOf before := rfl

/-- No entries are to the right of the root. -/
@[simp] lemma right_root : (root : Context K V n).right = [] := rfl

/-- To the right of the hole are the entries of the children behind it, and those to the right of
the node. -/
@[simp] lemma right_node :
    (node q before key after up).right = entriesOf after ++ up.right := rfl

/-- Around the root there are no pages. -/
@[simp] lemma cells_root : (root : Context K V n).cells pid first = 0 := rfl

/-- Around the hole there are the page of the node, the pages of the other children and the pages
around the node. -/
@[simp] lemma cells_node : (node q before key after up).cells pid first =
    {(q, .internal (slots before ++ (key, pid) :: slots after) up.parent)} +
    (cellsOf before q first + cellsOf after q up.next) + up.cells q (firstLeafs before first) := rfl

/-- A tree in the hole at the root is the root. -/
@[simp] lemma rootPage_root : (root : Context K V n).rootPage pid = pid := rfl

/-- The root is the one above the node around the hole. -/
@[simp] lemma rootPage_node : (node q before key after up).rootPage pid = up.rootPage q := rfl

/-- The hole at the root has depth zero. -/
@[simp] lemma depth_root : (root : Context K V n).depth = 0 := rfl

/-- A hole among the children of a node is one deeper than the node. -/
@[simp] lemma depth_node : (node q before key after up).depth = up.depth + 1 := rfl

end Equations

/-- The entries of the whole tree. -/
lemma entries_plug (ctx : Context K V n) (t : SearchTree K V n) :
    (ctx.plug t).2.entries = ctx.left ++ t.entries ++ ctx.right := by
  induction ctx with
  | root => simp
  | node q before key after up ih => simp [ih]

/-- The pages of the whole tree. -/
lemma cells_plug (ctx : Context K V n) (t : SearchTree K V n) :
    (ctx.plug t).2.cells invalidPageId invalidPageId =
      t.cells ctx.parent ctx.next + ctx.cells t.pid (t.firstLeaf ctx.next) := by
  induction ctx with
  | root => simp
  | node q before key after up ih =>
    rw [plug_node, ih, SearchTree.cells_eq (.node _ _)]
    simp only [rootCell_node, below_node, pid_node, firstLeaf_node, slots_append, slots_cons,
      cellsOf_append, cellsOf_cons, firstLeafs_append, firstLeafs_cons, parent_node, next_node,
      cells_node]
    abel

/-- The root of the whole tree. -/
lemma pid_plug (ctx : Context K V n) (t : SearchTree K V n) :
    (ctx.plug t).2.pid = ctx.rootPage t.pid := by
  induction ctx with
  | root => rfl
  | node q before key after up ih => rw [plug_node, ih, rootPage_node, pid_node]

/-- The height of the whole tree. -/
lemma height_plug (ctx : Context K V n) (t : SearchTree K V n) :
    (ctx.plug t).1 = n + ctx.depth := by
  induction ctx with
  | root => rfl
  | node q before key after up ih =>
    rw [plug_node, ih, depth_node]
    omega

/-- A tree that is known to be a tree with a hole that is filled. -/
lemma of_plug_eq {ctx : Context K V n} {u : SearchTree K V n} {m : ℕ} {t : SearchTree K V m}
    (h : ctx.plug u = ⟨m, t⟩) :
    t.entries = ctx.left ++ u.entries ++ ctx.right ∧ t.pid = ctx.rootPage u.pid ∧
      m = n + ctx.depth := by
  have hentries := entries_plug ctx u
  have hpid := pid_plug ctx u
  have hheight := height_plug ctx u
  rw [h] at hentries hpid hheight
  exact ⟨hentries, hpid, hheight⟩

end Context

end SearchTree

/-! ## The invariant -/

/-- `GetMinSize`, of the nodes of height `n`. -/
def BPlusTree.minSize (tree : BPlusTree) : ℕ → ℕ
  | 0 => tree.leafMaxSize / 2
  | _ + 1 => (tree.internalMaxSize + 1) / 2

/-- `GetMaxSize`, of the nodes of height `n`. -/
def BPlusTree.maxSize (tree : BPlusTree) : ℕ → ℕ
  | 0 => tree.leafMaxSize
  | _ + 1 => tree.internalMaxSize

/-- The least size of a root of height `n`. -/
def BPlusTree.rootMinSize : ℕ → ℕ
  | 0 => 1
  | _ + 1 => 2

/-- The least sizes for which the tree works, and room for one more slot than the sizes allow. -/
structure BPlusTree.Valid (tree : BPlusTree) : Prop where
  two_le_leafMaxSize : 2 ≤ tree.leafMaxSize
  three_le_internalMaxSize : 3 ≤ tree.internalMaxSize
  leafFits : FitsBelow tree.leafFits (tree.leafMaxSize + 1)
  internalFits : FitsBelow tree.internalFits (tree.internalMaxSize + 1)

/-- The same, with room for no more slots than the sizes allow. -/
structure BPlusTree.Sound (tree : BPlusTree) : Prop where
  two_le_leafMaxSize : 2 ≤ tree.leafMaxSize
  three_le_internalMaxSize : 3 ≤ tree.internalMaxSize
  leafFits : FitsBelow tree.leafFits tree.leafMaxSize
  internalFits : FitsBelow tree.internalFits tree.internalMaxSize

/-- A tree with room for one slot more than the sizes allow has room for as many as they allow. -/
lemma BPlusTree.Valid.sound {tree : BPlusTree} (h : tree.Valid) : tree.Sound where
  two_le_leafMaxSize := h.two_le_leafMaxSize
  three_le_internalMaxSize := h.three_le_internalMaxSize
  leafFits := h.leafFits.mono (Nat.le_succ _)
  internalFits := h.internalFits.mono (Nat.le_succ _)

/-- The transient entry behind a full page lies in the page too, up to these maximal sizes. -/
lemma BPlusTree.init_valid {leafMaxSize internalMaxSize : ℕ}
    (hleaf : 2 ≤ leafMaxSize ∧ leafMaxSize ≤ 338)
    (hinternal : 3 ≤ internalMaxSize ∧ internalMaxSize ≤ 509) :
    (BPlusTree.init leafMaxSize internalMaxSize).Valid := by
  have hleafMax : (BPlusTree.init leafMaxSize internalMaxSize).leafMaxSize = leafMaxSize :=
    if_neg (by omega)
  have hinternalMax :
      (BPlusTree.init leafMaxSize internalMaxSize).internalMaxSize = internalMaxSize :=
    if_neg (by omega)
  constructor
  · rw [hleafMax]
    exact hleaf.1
  · rw [hinternalMax]
    exact hinternal.1
  · intro i hi
    rw [hleafMax] at hi
    apply decide_eq_true
    rw [pageSize]
    omega
  · intro i hi
    rw [hinternalMax] at hi
    apply decide_eq_true
    rw [pageSize]
    omega

namespace SearchTree

variable {K V : Type} [LinearOrder K] {n : ℕ} {tree : BPlusTree}

/-- The tree is a search tree for the keys from `lo` to `hi`, and every node below the root has an
admissible size. -/
def Shaped (tree : BPlusTree) :
    {n : ℕ} → WithBot K → WithTop (WithBot K) → SearchTree K V n → Prop
  | 0, lo, hi, t =>
    (LeafNode.entries t).Pairwise (fun x y => x.1 < y.1) ∧
    ∀ x ∈ LeafNode.entries t, lo ≤ x.1 ∧ ((x.1 : WithBot K) : WithTop (WithBot K)) < hi
  | n + 1, lo, hi, t =>
    start (InternalNode.children t) ⊤ = lo ∧
    Segmented
      (fun a b c => (tree.minSize n ≤ size c ∧ size c ≤ tree.maxSize n) ∧ Shaped tree a b c)
      (InternalNode.children t) hi

/-- The tree can be a child. -/
def Fit (tree : BPlusTree) {n : ℕ} (lo : WithBot K) (hi : WithTop (WithBot K))
    (t : SearchTree K V n) : Prop :=
  (tree.minSize n ≤ t.size ∧ t.size ≤ tree.maxSize n) ∧ t.Shaped tree lo hi

/-- The tree can be the whole tree. -/
def WellFormed (tree : BPlusTree) {n : ℕ} (t : SearchTree K V n) : Prop :=
  (BPlusTree.rootMinSize n ≤ t.size ∧ t.size ≤ tree.maxSize n) ∧ t.Shaped tree ⊥ ⊤

/-- A leaf has the right shape if its keys ascend and lie between the bounds. -/
lemma shaped_leaf {p : PageId} {es : List (K × V)} {lo : WithBot K} {hi : WithTop (WithBot K)} :
    (leaf p es).Shaped tree lo hi ↔ es.Pairwise (fun x y => x.1 < y.1) ∧
      ∀ x ∈ es, lo ≤ x.1 ∧ ((x.1 : WithBot K) : WithTop (WithBot K)) < hi := Iff.rfl

/-- An internal node has the right shape if its first child starts at the lower bound and every
child fits between its own bound and the next one. -/
lemma shaped_node {p : PageId} {cs : List (WithBot K × SearchTree K V n)} {lo : WithBot K}
    {hi : WithTop (WithBot K)} :
    (node p cs).Shaped tree lo hi ↔ start cs ⊤ = lo ∧ Segmented (Fit tree) cs hi := Iff.rfl

/-- The entries of children that stand next to each other lie in their interval. -/
lemma bounds_of_segmented {P : WithBot K → WithTop (WithBot K) → SearchTree K V n → Prop}
    {cs : List (WithBot K × SearchTree K V n)} {hi : WithTop (WithBot K)}
    (hP : ∀ a b c, P a b c → ∀ x ∈ c.entries,
      a ≤ x.1 ∧ ((x.1 : WithBot K) : WithTop (WithBot K)) < b)
    (h : Segmented P cs hi) : ∀ x ∈ entriesOf cs,
      start cs hi ≤ ((x.1 : WithBot K) : WithTop (WithBot K)) ∧
      ((x.1 : WithBot K) : WithTop (WithBot K)) < hi := by
  intro x hx
  obtain ⟨⟨a, c⟩, hc, hxc⟩ := List.mem_flatMap.1 hx
  obtain ⟨b, hPc, hstart, -, hb⟩ := h.bounds hc
  have hbounds := hP a b c hPc x hxc
  exact ⟨hstart.trans (WithTop.coe_le_coe.2 hbounds.1), hbounds.2.trans_le hb⟩

/-- The entries lie in the interval. -/
lemma Shaped.bounds {t : SearchTree K V n} {lo : WithBot K} {hi : WithTop (WithBot K)}
    (h : t.Shaped tree lo hi) :
    ∀ x ∈ t.entries, lo ≤ x.1 ∧ ((x.1 : WithBot K) : WithTop (WithBot K)) < hi := by
  induction n generalizing lo hi with
  | zero => exact h.2
  | succ n ih =>
    obtain ⟨p, cs, rfl⟩ := t.exists_node
    obtain ⟨hlo, hcs⟩ := shaped_node.1 h
    intro x hx
    have hbounds := bounds_of_segmented (fun a b c hc => ih hc.2) hcs x hx
    cases cs with
    | nil => cases hx
    | cons c cs =>
      refine ⟨?_, hbounds.2⟩
      have hlo' : c.1 = lo := WithTop.coe_inj.1 hlo
      rw [← hlo']
      exact WithTop.coe_le_coe.1 hbounds.1

/-! ### Cutting and joining nodes -/

section Cut

variable {p q r : PageId} {lo mid : WithBot K} {hi : WithTop (WithBot K)}

/-- A leaf is cut at the key of an entry. -/
lemma shaped_leaf_cut {xs ys : List (K × V)} {m : K} {v : V}
    (h : (leaf p (xs ++ (m, v) :: ys)).Shaped tree lo hi) (hxs : xs ≠ []) (q r : PageId) :
    lo < m ∧ ((m : WithBot K) : WithTop (WithBot K)) < hi ∧
      (leaf q xs).Shaped tree lo (m : WithBot K) ∧
      (leaf r ((m, v) :: ys)).Shaped tree m hi := by
  obtain ⟨hsorted, hbounds⟩ := shaped_leaf.1 h
  obtain ⟨hxsorted, hysorted, hxy⟩ := List.pairwise_append.1 hsorted
  have hxm : ∀ x ∈ xs, x.1 < m := fun x hx => hxy x hx (m, v) (by simp)
  have hlo : lo < m := by
    obtain ⟨x, hx⟩ := List.exists_mem_of_ne_nil xs hxs
    have hle := (hbounds x (List.mem_append.2 (.inl hx))).1
    exact lt_of_le_of_lt hle (WithBot.coe_lt_coe.2 (hxm x hx))
  refine ⟨hlo, (hbounds (m, v) (by simp)).2, shaped_leaf.2 ⟨hxsorted, ?_⟩,
    shaped_leaf.2 ⟨hysorted, ?_⟩⟩
  · intro x hx
    exact ⟨(hbounds x (List.mem_append.2 (.inl hx))).1,
      WithTop.coe_lt_coe.2 (WithBot.coe_lt_coe.2 (hxm x hx))⟩
  · intro x hx
    refine ⟨?_, (hbounds x (List.mem_append.2 (.inr hx))).2⟩
    rcases List.mem_cons.1 hx with rfl | hx
    · exact le_refl _
    · exact (WithBot.coe_lt_coe.2 ((List.pairwise_cons.1 hysorted).1 x hx)).le

/-- Two leaves next to each other are joined. -/
lemma shaped_leaf_join {xs ys : List (K × V)} (hxs : (leaf p xs).Shaped tree lo mid)
    (hys : (leaf q ys).Shaped tree mid hi) (hlo : lo ≤ mid)
    (hhi : (mid : WithTop (WithBot K)) ≤ hi) (r : PageId) :
    (leaf r (xs ++ ys)).Shaped tree lo hi := by
  obtain ⟨hxsorted, hxbounds⟩ := shaped_leaf.1 hxs
  obtain ⟨hysorted, hybounds⟩ := shaped_leaf.1 hys
  refine shaped_leaf.2 ⟨List.pairwise_append.2 ⟨hxsorted, hysorted, ?_⟩, ?_⟩
  · intro x hx y hy
    have hlt := WithTop.coe_lt_coe.1 (hxbounds x hx).2
    exact WithBot.coe_lt_coe.1 (hlt.trans_le (hybounds y hy).1)
  · intro x hx
    rcases List.mem_append.1 hx with hx | hx
    · exact ⟨(hxbounds x hx).1, (hxbounds x hx).2.trans_le hhi⟩
    · exact ⟨hlo.trans (hybounds x hx).1, (hybounds x hx).2⟩

/-- A node is cut at a child other than the first. -/
lemma shaped_node_cut {xs ys : List (WithBot K × SearchTree K V n)} {k : WithBot K}
    {c : SearchTree K V n} (h : (node p (xs ++ (k, c) :: ys)).Shaped tree lo hi) (hxs : xs ≠ [])
    (q r : PageId) :
    ∃ m : K, k = m ∧ lo < m ∧ ((m : WithBot K) : WithTop (WithBot K)) < hi ∧
      (node q xs).Shaped tree lo (m : WithBot K) ∧
      (node r (((m : WithBot K), c) :: ys)).Shaped tree m hi := by
  obtain ⟨hstart, hsegs⟩ := shaped_node.1 h
  have hpair := hsegs.pairwise
  rw [segmented_append, segmented_cons] at hsegs
  obtain ⟨hxseg, hk, hfit, hyseg⟩ := hsegs
  cases xs with
  | nil => exact absurd rfl hxs
  | cons x xs =>
    have hlo : lo < k := by
      have hx : x.1 = lo := WithTop.coe_inj.1 hstart
      rw [← hx]
      exact (List.pairwise_cons.1 hpair).1 (k, c) (by simp)
    obtain ⟨m, rfl⟩ := WithBot.ne_bot_iff_exists.1 (ne_bot_of_gt hlo)
    exact ⟨m, rfl, hlo, hk.trans_le hyseg.start_le, shaped_node.2 ⟨hstart, hxseg⟩,
      shaped_node.2 ⟨rfl, segmented_cons.2 ⟨hk, hfit, hyseg⟩⟩⟩

/-- Two nodes next to each other are joined. -/
lemma shaped_node_join {xs ys : List (WithBot K × SearchTree K V n)}
    (hxs : (node p xs).Shaped tree lo mid) (hys : (node q ys).Shaped tree mid hi) (r : PageId) :
    (node r (xs ++ ys)).Shaped tree lo hi := by
  obtain ⟨hxstart, hxseg⟩ := shaped_node.1 hxs
  obtain ⟨hystart, hyseg⟩ := shaped_node.1 hys
  have hmid : start ys hi = (mid : WithTop (WithBot K)) := by
    cases ys with
    | nil => cases hystart
    | cons y ys => exact hystart
  refine shaped_node.2 ⟨?_, segmented_append.2 ⟨?_, hyseg⟩⟩
  · cases xs with
    | nil => cases hxstart
    | cons x xs => exact hxstart
  · rwa [hmid]

end Cut

/-- The bounds of children that stand next to each other. -/
lemma entriesOf_bounds {cs : List (WithBot K × SearchTree K V n)} {hi : WithTop (WithBot K)}
    (h : Segmented (Fit tree) cs hi) : ∀ x ∈ entriesOf cs,
      start cs hi ≤ ((x.1 : WithBot K) : WithTop (WithBot K)) ∧
      ((x.1 : WithBot K) : WithTop (WithBot K)) < hi :=
  bounds_of_segmented (fun _ _ _ hc => hc.2.bounds) h

/-- The keys of the entries are strictly increasing. -/
lemma Shaped.sorted {t : SearchTree K V n} {lo : WithBot K} {hi : WithTop (WithBot K)}
    (h : t.Shaped tree lo hi) : t.entries.Pairwise fun x y => x.1 < y.1 := by
  induction n generalizing lo hi with
  | zero => exact h.1
  | succ n ih =>
    obtain ⟨p, cs, rfl⟩ := t.exists_node
    obtain ⟨-, hcs⟩ := shaped_node.1 h
    rw [entries_node]
    clear h
    induction cs with
    | nil => exact .nil
    | cons c cs ihcs =>
      obtain ⟨a, c⟩ := c
      obtain ⟨-, hc, hcs⟩ := hcs
      rw [entriesOf_cons, List.pairwise_append]
      refine ⟨ih hc.2, ihcs hcs, ?_⟩
      intro x hx y hy
      have hxb := (hc.2.bounds x hx).2
      have hyb := (entriesOf_bounds hcs y hy).1
      exact WithBot.coe_lt_coe.1 (WithTop.coe_lt_coe.1 (hxb.trans_le hyb))

namespace Context

/-- The least size of a tree in the hole. -/
def minSize (tree : BPlusTree) : {n : ℕ} → Context K V n → ℕ
  | n, .root => BPlusTree.rootMinSize n
  | n, .node _ _ _ _ _ => tree.minSize n

/-- Everything around the hole is as it should be. -/
def WellFormed (tree : BPlusTree) : {n : ℕ} → Context K V n → Prop
  | _, .root => True
  | n, .node _ before key after up =>
    (up.minSize tree ≤ before.length + 1 + after.length ∧
      before.length + 1 + after.length ≤ tree.maxSize (n + 1)) ∧
    start before key = up.lo ∧ Segmented (Fit tree) before key ∧
    (key : WithTop (WithBot K)) < start after up.hi ∧ Segmented (Fit tree) after up.hi ∧
    up.WellFormed tree

/-- A tree that may stand in the hole. -/
def Admits (tree : BPlusTree) {n : ℕ} (ctx : Context K V n) (t : SearchTree K V n) : Prop :=
  (ctx.minSize tree ≤ t.size ∧ t.size ≤ tree.maxSize n) ∧ t.Shaped tree ctx.lo ctx.hi

section WellFormed

variable {ctx : Context K V n} {t : SearchTree K V n}

/-- The children of a node around a hole. -/
lemma wellFormed_node {q : PageId} {before after : List (WithBot K × SearchTree K V n)}
    {key : WithBot K} {up : Context K V (n + 1)} :
    ((Context.node q before key after up).WellFormed tree ∧ t.Shaped tree key (start after up.hi) ∧
        (tree.minSize n ≤ t.size ∧ t.size ≤ tree.maxSize n)) ↔
      up.WellFormed tree ∧ up.Admits tree (.node q (before ++ (key, t) :: after)) := by
  simp only [WellFormed, Admits, shaped_node, segmented_append, segmented_cons, start_append,
    start_cons, size_node, List.length_append, List.length_cons, Fit]
  rw [show before.length + (after.length + 1) = before.length + 1 + after.length by omega]
  tauto

/-- Filling the hole with a tree that it admits gives a tree that is as it should be. -/
lemma wellFormed_plug (hctx : ctx.WellFormed tree) (ht : ctx.Admits tree t) :
    (ctx.plug t).2.WellFormed tree := by
  induction ctx with
  | root => exact ht
  | node q before key after up ih =>
    obtain ⟨hup, hnode⟩ := wellFormed_node.1 ⟨hctx, ht.2, ht.1⟩
    exact ih hup hnode

/-- A tree that is as it should be, taken apart at a hole. -/
lemma wellFormed_of_plug (h : (ctx.plug t).2.WellFormed tree) :
    ctx.WellFormed tree ∧ ctx.Admits tree t := by
  induction ctx with
  | root => exact ⟨trivial, h⟩
  | node q before key after up ih =>
    obtain ⟨hctx, hshaped, hsize⟩ := wellFormed_node.2 (ih h)
    exact ⟨hctx, hsize, hshaped⟩

/-- The entries on the left of the hole are smaller. -/
lemma WellFormed.left_lt (hctx : ctx.WellFormed tree) :
    ∀ x ∈ ctx.left, ((x.1 : WithBot K)) < ctx.lo := by
  induction ctx with
  | root => simp [left]
  | node q before key after up ih =>
    obtain ⟨-, hlo, hbefore, -, -, hup⟩ := hctx
    intro x hx
    have hle : up.lo ≤ key := WithTop.coe_le_coe.1 (hlo ▸ hbefore.start_le)
    rcases List.mem_append.1 hx with hx | hx
    · exact (ih hup x hx).trans_le hle
    · exact WithTop.coe_lt_coe.1 (entriesOf_bounds hbefore x hx).2

/-- The entries on the right of the hole are not smaller. -/
lemma WellFormed.le_right (hctx : ctx.WellFormed tree) :
    ∀ x ∈ ctx.right, ctx.hi ≤ ((x.1 : WithBot K) : WithTop (WithBot K)) := by
  induction ctx with
  | root => simp [right]
  | node q before key after up ih =>
    obtain ⟨-, -, -, -, hafter, hup⟩ := hctx
    intro x hx
    rcases List.mem_append.1 hx with hx | hx
    · exact (entriesOf_bounds hafter x hx).1
    · exact hafter.start_le.trans (ih hup x hx)

end WellFormed

end Context

end SearchTree

/-! ## The pages -/

/-- A page represents a cell of the tree. -/
def BPlusTree.Shows (tree : BPlusTree) {K V : Type} : BPlusTreePage K V → Cell K V → Prop
  | .invalid, .blank => True
  | .leaf p, .leaf es parent next =>
    p.Holds es ∧ p.maxSize = tree.leafMaxSize ∧ p.parentPageId = parent ∧ p.nextPageId = next
  | .internal p, .internal cs parent =>
    p.Holds cs ∧ p.maxSize = tree.internalMaxSize ∧ p.parentPageId = parent
  | _, _ => False

end OneBase
