import OneBase.Buffer.PageClient
import OneBase.Storage.Page.BPlusTreePage

set_option relaxedAutoImplicit false
set_option autoImplicit false

/-!
# The B+ tree

`storage/index/b_plus_tree.cpp` and `b_plus_tree_iterator.cpp`, as programs that call the buffer
pool. The loops carry fuel. A page is used without a check for `nullptr` wherever the source does
so, and it is written back where the source modifies it.

## Main definitions

* `OneBase.BPlusTree` — the parameters of a tree.
* `OneBase.BPlusTree.init` — the constructor for `int` keys and `RID` values.
* `OneBase.BPlusTree.insert`, `remove`, `getValue`, `begin`, `beginAt` — its operations; they take
  `root_page_id_` and return it where they may change it.
* `OneBase.BPlusTreeIterator` — the iterators.
-/

namespace OneBase

open Effect

/-- A `BPlusTree` without its `root_page_id_`: the maximal sizes of its pages, and which slots of
`array_` lie in a page. -/
structure BPlusTree where
  leafMaxSize : ℕ
  internalMaxSize : ℕ
  leafFits : ℕ → Bool
  internalFits : ℕ → Bool

namespace BPlusTree

/-- The bytes of `array_[i]` of a leaf page lie in the page, for `int` keys and `RID` values: the
array starts at byte 20, and its entries have 12 bytes. -/
def leafSlotFits (i : ℕ) : Bool := decide (20 + (i + 1) * 12 ≤ pageSize)

/-- The bytes of `array_[i]` of an internal page lie in the page, for `int` keys: the array starts
at byte 16, and its entries have 8 bytes. -/
def internalSlotFits (i : ℕ) : Bool := decide (16 + (i + 1) * 8 ≤ pageSize)

/-- The constructor of `BPlusTree<int, RID>`: a maximal size of 0 stands for the capacity of a page,
`(ONEBASE_PAGE_SIZE - 16 - 4) / (4 + 8)` entries of a leaf and `(ONEBASE_PAGE_SIZE - 16) / (4 + 4)`
of an internal page. -/
def init (leafMaxSize internalMaxSize : ℕ) : BPlusTree where
  leafMaxSize := if leafMaxSize = 0 then (pageSize - 16 - 4) / (4 + 8) else leafMaxSize
  internalMaxSize := if internalMaxSize = 0 then (pageSize - 16) / (4 + 4) else internalMaxSize
  leafFits := leafSlotFits
  internalFits := internalSlotFits

open Program PageClient

variable {K V : Type}

/-- `reinterpret_cast` of the page to a leaf page. -/
def readLeaf (p : PageId) : Program (PoolCall (BPlusTreePage K V)) (BPlusTreeLeafPage K V) := do
  match ← read p with
  | .leaf page => pure page
  | _ => .fail

/-- `reinterpret_cast` of the page to an internal page. -/
def readInternal (p : PageId) : Program (PoolCall (BPlusTreePage K V)) (BPlusTreeInternalPage K) := do
  match ← read p with
  | .internal page => pure page
  | _ => .fail

/-- `SetParentPageId` on a pinned page. -/
def setParent (p parent : PageId) : Program (PoolCall (BPlusTreePage K V)) Unit := do
  let page ← read p
  write p (← ofOption (page.setParentPageId parent))

/-- `if (page_id != INVALID_PAGE_ID)`. -/
def ifValid (p : PageId) (body : Program (PoolCall (BPlusTreePage K V)) Unit) :
    Program (PoolCall (BPlusTreePage K V)) Unit :=
  if p ≠ invalidPageId then body else pure ()

/-- The loop that fetches `n` children of the page from the `i`-th on, to set their parent. -/
def adoptChildren (tree : BPlusTree) (node : BPlusTreeInternalPage K) (parent : PageId) (i : ℕ) :
    ℕ → Program (PoolCall (BPlusTreePage K V)) Unit
  | 0 => pure ()
  | n + 1 => do
    let child ← ofOption (node.valueAt tree.internalFits i)
    fetch child
    setParent child parent
    unpin child true
    tree.adoptChildren node parent (i + 1) n

/-- The loop that goes from the pinned page `p` down to a leaf, by `next` at internal pages. The
leaf stays pinned. -/
def descend (next : BPlusTreeInternalPage K → Option PageId) :
    ℕ → PageId → Program (PoolCall (BPlusTreePage K V)) PageId
  | 0, _ => .fail
  | fuel + 1, p => do
    match ← read p with
    | .leaf _ => pure p
    | .internal page =>
      let q ← ofOption (next page)
      unpin p false
      fetch q
      descend next fuel q
    | .invalid => .fail

/-- The search for a leaf, from the root. -/
def findLeaf (next : BPlusTreeInternalPage K → Option PageId) (fuel : ℕ) (root : PageId) :
    Program (PoolCall (BPlusTreePage K V)) PageId := do
  fetch root
  descend next fuel root

variable [Inhabited K] [Inhabited V] [LinearOrder K] (tree : BPlusTree)

/-! ## Insertion -/

/-- The loop of `Insert` after a split: `left` and the new page `right`, whose first key is
`middleKey`, are pinned. It returns `root_page_id_`. -/
def splitLoop (root : PageId) :
    ℕ → PageId → K → PageId → Program (PoolCall (BPlusTreePage K V)) PageId
  | 0, _, _, _ => .fail
  | fuel + 1, left, middleKey, right => do
    let leftPage ← read left
    if leftPage.isRootPage then
      let parent ← new
      let node : BPlusTreeInternalPage K := .init tree.internalMaxSize
      let node ← ofOption (node.populateNewRoot tree.internalFits left middleKey right)
      write parent (.internal node)
      setParent left parent
      setParent right parent
      unpin parent true
      unpin left true
      unpin right true
      pure parent
    else
      let parent := leftPage.parentPageId
      setParent right parent
      fetch parent
      let node ← readInternal parent
      let node ← ofOption (node.insertNodeAfter tree.internalFits left middleKey right)
      write parent (.internal node)
      unpin left true
      unpin right true
      if node.size ≤ node.maxSize then
        unpin parent true
        pure root
      else
        let right ← new
        let newNode : BPlusTreeInternalPage K :=
          { BPlusTreeInternalPage.init tree.internalMaxSize with parentPageId := node.parentPageId }
        let newMiddleKey ← ofOption (node.keyAt tree.internalFits (node.size / 2))
        let (node, newNode) ← ofOption (node.moveHalfTo tree.internalFits newNode newMiddleKey)
        write parent (.internal node)
        write right (.internal newNode)
        tree.adoptChildren newNode right 0 newNode.size
        splitLoop root fuel parent newMiddleKey right

/-- The part of `Insert` that splits the pinned leaf `p`, which contains `leaf` and has become too
large. It returns `root_page_id_`. -/
def splitLeaf (fuel : ℕ) (root p : PageId) (leaf : BPlusTreeLeafPage K V) :
    Program (PoolCall (BPlusTreePage K V)) PageId := do
  let right ← new
  let newLeaf : BPlusTreeLeafPage K V :=
    { BPlusTreeLeafPage.init tree.leafMaxSize with
      parentPageId := leaf.parentPageId, nextPageId := leaf.nextPageId }
  let (leaf, newLeaf) ← ofOption
    ({ leaf with nextPageId := right }.moveHalfTo tree.leafFits newLeaf)
  write p (.leaf leaf)
  write right (.leaf newLeaf)
  let middleKey ← ofOption (newLeaf.keyAt tree.leafFits 0)
  tree.splitLoop root fuel p middleKey right

/-- `Insert`: the result and `root_page_id_`. -/
def insert (fuel : ℕ) (root : PageId) (key : K) (value : V) :
    Program (PoolCall (BPlusTreePage K V)) (Bool × PageId) := do
  if root = invalidPageId then
    match ← op .newPage with
    | none => pure (false, root)
    | some p =>
      let leaf : BPlusTreeLeafPage K V := .init tree.leafMaxSize
      let leaf ← ofOption (leaf.insert tree.leafFits key value)
      write p (.leaf leaf)
      unpin p true
      pure (true, p)
  else
    let p ← findLeaf (fun page => page.lookup tree.internalFits key) fuel root
    let leaf ← readLeaf p
    let oldSize := leaf.size
    let leaf ← ofOption (leaf.insert tree.leafFits key value)
    if leaf.size = oldSize then
      unpin p false
      pure (false, root)
    else
      write p (.leaf leaf)
      if leaf.size ≤ leaf.maxSize then
        unpin p true
        pure (true, root)
      else
        let root ← tree.splitLeaf fuel root p leaf
        pure (true, root)

/-! ## Removal -/

/-- The two neighbours to balance when `page` underflows, left and right: `page` with its left
sibling, or, if it is the first child, with its right one, which is fetched. With the index of the
right one in the parent, and `right_underflow`. -/
def fetchSibling (node : BPlusTreeInternalPage K) (page : PageId) :
    Program (PoolCall (BPlusTreePage K V)) (PageId × PageId × ℕ × Bool) := do
  match ← ofOption (node.valueIndex tree.internalFits page) with
  | none => .fail
  | some 0 =>
    let right ← ofOption (node.valueAt tree.internalFits 1)
    fetch right
    pure (page, right, 1, false)
  | some (i + 1) =>
    let left ← ofOption (node.valueAt tree.internalFits i)
    fetch left
    pure (left, page, i + 1, true)

/-- The internal page `right` takes the last child of `left`. The keys go through the parent, and
the child gets its new parent. -/
def borrowFromLeft (left right parent : PageId) (rightIndex : ℕ)
    (leftNode rightNode parentNode : BPlusTreeInternalPage K) (middleKey : K) :
    Program (PoolCall (BPlusTreePage K V)) Unit := do
  let keyToPushUp ← ofOption (leftNode.keyAt tree.internalFits (leftNode.size - 1))
  let (leftNode, rightNode) ←
    ofOption (leftNode.moveLastToFrontOf tree.internalFits rightNode middleKey)
  write left (.internal leftNode)
  write right (.internal rightNode)
  let parentNode ← ofOption (parentNode.setKeyAt tree.internalFits rightIndex keyToPushUp)
  write parent (.internal parentNode)
  let movedChild ← ofOption (rightNode.valueAt tree.internalFits 0)
  fetch movedChild
  setParent movedChild right
  unpin movedChild true

/-- The internal page `left` takes the first child of `right`. -/
def borrowFromRight (left right parent : PageId) (rightIndex : ℕ)
    (leftNode rightNode parentNode : BPlusTreeInternalPage K) (middleKey : K) :
    Program (PoolCall (BPlusTreePage K V)) Unit := do
  let keyToPushUp ← ofOption (rightNode.keyAt tree.internalFits 1)
  let (rightNode, leftNode) ←
    ofOption (rightNode.moveFirstToEndOf tree.internalFits leftNode middleKey)
  write right (.internal rightNode)
  write left (.internal leftNode)
  let parentNode ← ofOption (parentNode.setKeyAt tree.internalFits rightIndex keyToPushUp)
  write parent (.internal parentNode)
  let movedChild ← ofOption (leftNode.valueAt tree.internalFits (leftNode.size - 1))
  fetch movedChild
  setParent movedChild left
  unpin movedChild true

/-- The internal page that is too small takes a child from the other one. -/
def borrowInternal (left right parent : PageId) (rightIndex : ℕ) (rightUnderflow : Bool)
    (leftNode rightNode parentNode : BPlusTreeInternalPage K) (middleKey : K) :
    Program (PoolCall (BPlusTreePage K V)) Unit := do
  (if rightUnderflow then tree.borrowFromLeft left right parent rightIndex leftNode rightNode
      parentNode middleKey
    else tree.borrowFromRight left right parent rightIndex leftNode rightNode parentNode middleKey)
  unpin parent true
  unpin left true
  unpin right true

/-- The internal page `right` is merged into `left`. It returns the parent. -/
def joinInternal (left right parent : PageId) (rightIndex : ℕ)
    (leftNode rightNode parentNode : BPlusTreeInternalPage K) (middleKey : K) :
    Program (PoolCall (BPlusTreePage K V)) (BPlusTreeInternalPage K) := do
  let (rightNode, leftNode) ←
    ofOption (rightNode.moveAllTo tree.internalFits leftNode middleKey)
  write right (.internal rightNode)
  write left (.internal leftNode)
  tree.adoptChildren leftNode left 0 leftNode.size
  let parentNode ← ofOption (parentNode.remove tree.internalFits rightIndex)
  write parent (.internal parentNode)
  unpin right true
  delete right
  unpin left true
  pure parentNode

/-- The loop of `Remove` at the pinned internal page `page`, which is too small. It returns
`root_page_id_`. -/
def mergeLoop (root : PageId) : ℕ → PageId → Program (PoolCall (BPlusTreePage K V)) PageId
  | 0, _ => .fail
  | fuel + 1, page => do
    let node ← readInternal page
    if node.isRootPage then
      if node.size = 1 then
        let (child, node) ← ofOption (node.removeAndReturnOnlyChild tree.internalFits)
        write page (.internal node)
        fetch child
        setParent child invalidPageId
        unpin child true
        unpin page true
        delete page
        pure child
      else
        unpin page true
        pure root
    else
      let parent := node.parentPageId
      fetch parent
      let parentNode ← readInternal parent
      let (left, right, rightIndex, rightUnderflow) ← tree.fetchSibling parentNode page
      let leftNode ← readInternal left
      let rightNode ← readInternal right
      let middleKey ← ofOption (parentNode.keyAt tree.internalFits rightIndex)
      if leftNode.getMinSize < leftNode.size ∨ rightNode.getMinSize < rightNode.size then
        tree.borrowInternal left right parent rightIndex rightUnderflow leftNode rightNode
          parentNode middleKey
        pure root
      else
        let parentNode ←
          tree.joinInternal left right parent rightIndex leftNode rightNode parentNode middleKey
        if parentNode.getMinSize ≤ parentNode.size then
          unpin parent true
          pure root
        else
          mergeLoop root fuel parent

/-- The leaf `right` or `left` takes an entry from the other one, and the parent its new key. -/
def borrowLeaf (left right parent : PageId) (rightIndex : ℕ) (rightUnderflow : Bool)
    (leftLeaf rightLeaf : BPlusTreeLeafPage K V) (parentNode : BPlusTreeInternalPage K) :
    Program (PoolCall (BPlusTreePage K V)) Unit := do
  let (leftLeaf, rightLeaf) ← ofOption <|
    if rightUnderflow then leftLeaf.moveLastToFrontOf tree.leafFits rightLeaf
    else (rightLeaf.moveFirstToEndOf tree.leafFits leftLeaf).map Prod.swap
  write left (.leaf leftLeaf)
  write right (.leaf rightLeaf)
  let key ← ofOption (rightLeaf.keyAt tree.leafFits 0)
  let parentNode ← ofOption (parentNode.setKeyAt tree.internalFits rightIndex key)
  write parent (.internal parentNode)
  unpin left true
  unpin right true
  unpin parent true

/-- The leaf `right` is merged into `left`. It returns the parent. -/
def joinLeaf (left right parent : PageId) (rightIndex : ℕ)
    (leftLeaf rightLeaf : BPlusTreeLeafPage K V) (parentNode : BPlusTreeInternalPage K) :
    Program (PoolCall (BPlusTreePage K V)) (BPlusTreeInternalPage K) := do
  let (rightLeaf, leftLeaf) ← ofOption (rightLeaf.moveAllTo tree.leafFits leftLeaf)
  write right (.leaf rightLeaf)
  write left (.leaf leftLeaf)
  let parentNode ← ofOption (parentNode.remove tree.internalFits rightIndex)
  write parent (.internal parentNode)
  unpin left true
  unpin right true
  delete right
  pure parentNode

/-- `Remove` at the leaf `p`, which is too small and has the parent `parent`, both pinned. It
returns `root_page_id_`. -/
def balanceLeaf (fuel : ℕ) (root p parent : PageId) :
    Program (PoolCall (BPlusTreePage K V)) PageId := do
  let parentNode ← readInternal parent
  let (left, right, rightIndex, rightUnderflow) ← tree.fetchSibling parentNode p
  let leftLeaf ← readLeaf left
  let rightLeaf ← readLeaf right
  if leftLeaf.getMinSize < leftLeaf.size ∨ rightLeaf.getMinSize < rightLeaf.size then
    tree.borrowLeaf left right parent rightIndex rightUnderflow leftLeaf rightLeaf parentNode
    pure root
  else
    let parentNode ← tree.joinLeaf left right parent rightIndex leftLeaf rightLeaf parentNode
    if parentNode.getMinSize ≤ parentNode.size then
      unpin parent true
      pure root
    else
      tree.mergeLoop root fuel parent

/-- `Remove` from the pinned leaf `p`, in which the key belongs. It returns `root_page_id_`. -/
def removeFromLeaf (fuel : ℕ) (root p : PageId) (key : K) :
    Program (PoolCall (BPlusTreePage K V)) PageId := do
  let leaf ← readLeaf p
  let parent := leaf.parentPageId
  ifValid parent (fetch parent)
  let oldSize := leaf.size
  let leaf ← ofOption (leaf.removeAndDeleteRecord tree.leafFits key)
  if leaf.size = oldSize then
    unpin p false
    ifValid parent (unpin parent false)
    pure root
  else
    write p (.leaf leaf)
    if leaf.getMinSize ≤ leaf.size then
      unpin p true
      ifValid parent (unpin parent true)
      pure root
    else if leaf.isRootPage then
      if leaf.size = 0 then
        unpin p true
        delete p
        pure invalidPageId
      else
        unpin p true
        pure root
    else
      tree.balanceLeaf fuel root p parent

/-- `Remove`: it returns `root_page_id_`. -/
def remove (fuel : ℕ) (root : PageId) (key : K) :
    Program (PoolCall (BPlusTreePage K V)) PageId := do
  if root = invalidPageId then pure root
  else
    let p ← findLeaf (fun page => page.lookup tree.internalFits key) fuel root
    tree.removeFromLeaf fuel root p key

/-! ## Search and iteration -/

/-- `IsEmpty`. -/
def isEmpty (root : PageId) : Bool := root == invalidPageId

/-- `GetValue`: the result and the vector with what was appended. -/
def getValue (fuel : ℕ) (root : PageId) (key : K) (result : List V) :
    Program (PoolCall (BPlusTreePage K V)) (Bool × List V) := do
  if root = invalidPageId then pure (false, result)
  else
    let p ← findLeaf (fun page => page.lookup tree.internalFits key) fuel root
    let leaf ← readLeaf p
    let val ← ofOption (leaf.lookup tree.leafFits key)
    unpin p false
    match val with
    | some v => pure (true, result ++ [v])
    | none => pure (false, result)

end BPlusTree

/-- `BPlusTreeIterator`: a page and an index in it. -/
structure BPlusTreeIterator where
  pageId : PageId := invalidPageId
  index : ℕ := 0
  deriving DecidableEq

namespace BPlusTreeIterator

open Program PageClient

variable {K V : Type}

/-- `IsEnd`. -/
def isEnd (it : BPlusTreeIterator) : Bool := it.pageId == invalidPageId

/-- `operator*`. -/
def deref (tree : BPlusTree) (it : BPlusTreeIterator) :
    Program (PoolCall (BPlusTreePage K V)) (K × V) := do
  fetch it.pageId
  let leaf ← BPlusTree.readLeaf it.pageId
  let k ← ofOption (leaf.keyAt tree.leafFits it.index)
  let v ← ofOption (leaf.valueAt tree.leafFits it.index)
  unpin it.pageId false
  pure (k, v)

/-- `operator++`. -/
def next (it : BPlusTreeIterator) :
    Program (PoolCall (BPlusTreePage K V)) BPlusTreeIterator := do
  if it.isEnd then pure it
  else
    fetch it.pageId
    let leaf ← BPlusTree.readLeaf (V := V) (K := K) it.pageId
    let it' : BPlusTreeIterator :=
      if leaf.size ≤ it.index + 1 then ⟨leaf.nextPageId, 0⟩ else ⟨it.pageId, it.index + 1⟩
    unpin it.pageId false
    pure it'

end BPlusTreeIterator

namespace BPlusTree

open Program PageClient

variable {K V : Type} (tree : BPlusTree)

/-- `End()`. -/
def «end» : BPlusTreeIterator := ⟨invalidPageId, 0⟩

/-- `Begin()`. -/
def begin (fuel : ℕ) (root : PageId) :
    Program (PoolCall (BPlusTreePage K V)) BPlusTreeIterator := do
  if root = invalidPageId then pure ⟨invalidPageId, 0⟩
  else
    let p ← findLeaf (fun page => page.valueAt tree.internalFits 0) fuel root
    unpin p false
    pure ⟨p, 0⟩

/-- `Begin(key)`. -/
def beginAt [LinearOrder K] (fuel : ℕ) (root : PageId) (key : K) :
    Program (PoolCall (BPlusTreePage K V)) BPlusTreeIterator := do
  if root = invalidPageId then pure ⟨invalidPageId, 0⟩
  else
    let p ← findLeaf (fun page => page.lookup tree.internalFits key) fuel root
    let leaf ← readLeaf p
    let index ← ofOption (leaf.keyIndex tree.leafFits key)
    unpin p false
    if leaf.size ≤ index then
      if leaf.nextPageId = invalidPageId then pure ⟨invalidPageId, 0⟩
      else pure ⟨leaf.nextPageId, 0⟩
    else pure ⟨p, index⟩

end BPlusTree

end OneBase
