import OneBase.Buffer.PageClient
import OneBase.Storage.Page.TablePage
import OneBase.Storage.Table.Tuple

set_option relaxedAutoImplicit false
set_option autoImplicit false

/-!
# Table heaps

`storage/table/table_heap.cpp`: a chain of slotted pages on the buffer pool. The walks along the
chain take fuel, and running out of it is undefined. The buffer pool hands out unbounded page ids,
but a `page_id_t` has 32 bits, so a page beyond them is undefined here.

## Main definitions

* `OneBase.TableHeap` — the heap, with `create` (the constructor), `insertTuple`, `getTuple`,
  `updateTuple`, `deleteTuple`.
* `OneBase.TableHeap.begin`, `endIterator`, `increment` — the iterator, which is its row id.
-/

namespace OneBase

open Effect Effect.Program

instance : Inhabited TablePage := ⟨⟨fun _ => 0⟩⟩

/-- `GetTuple` into a buffer of `ONEBASE_PAGE_SIZE` bytes, from a page of that many. -/
def TablePage.copyTuple (p : TablePage) (slotNum : ℕ) : Option (List UInt8) :=
  if p.getTupleOffsetAtSlot slotNum + p.getTupleLengthAtSlot slotNum ≤ pageSize then
    some (p.getTuple slotNum)
  else none

/-- The first slot from `slot` on, among the first `numTuples`, whose tuple has a size. -/
def TablePage.nextSlot (p : TablePage) (slot : ℕ) : Option ℕ :=
  (List.range' slot (p.getNumTuples - slot)).find? fun s => decide (p.getTupleSize s > 0)

/-- `TableHeap`; `bpm_` is the interface of the programs. -/
structure TableHeap where
  firstPageId : PageId
  deriving DecidableEq, Repr

namespace TableHeap

/-- The constructor. -/
def create : Program (PoolCall TablePage) (Except Exception TableHeap) := do
  match ← op .newPage with
  | none => pure (.error (.runtimeError "Cannot allocate page for table heap"))
  | some pageId =>
    let tablePage ← PageClient.read pageId
    PageClient.write pageId (tablePage.init invalidPageId)
    PageClient.unpin pageId true
    pure (.ok ⟨pageId⟩)

/-- The bytes that `GetData()` and `GetLength()` hand over. -/
def bytesOf (tuple : Tuple) : List UInt8 := tuple.data.take tuple.getLength

/-- The new page at the end of the chain, behind the pinned page `pageId`. -/
def appendPage (pageId : PageId) (tablePage : TablePage) (data : List UInt8) :
    Program (PoolCall TablePage) (Option RID) := do
  match ← op .newPage with
  | none =>
    PageClient.unpin pageId false
    pure none
  | some newPageId =>
    if newPageId < 2 ^ 31 then
      let newTablePage ← PageClient.read newPageId
      PageClient.write newPageId (newTablePage.init invalidPageId)
      PageClient.write pageId (tablePage.setNextPageId newPageId)
      PageClient.unpin pageId true
      let newTablePage ← PageClient.read newPageId
      PageClient.write newPageId (newTablePage.insertTuple data).2
      PageClient.unpin newPageId true
      pure ((newTablePage.insertTuple data).1.map fun newSlot => ⟨newPageId, newSlot⟩)
    else .fail

/-- The loop of `InsertTuple`. -/
def insertFrom (data : List UInt8) : ℕ → PageId → Program (PoolCall TablePage) (Option RID)
  | 0, _ => .fail
  | fuel + 1, pageId =>
    if pageId = invalidPageId then pure none
    else do
      match ← op (.fetchPage pageId) with
      | none => pure none
      | some page =>
        let tablePage ← PageClient.read page
        match tablePage.insertTuple data with
        | (some slot, tablePage') =>
          PageClient.write page tablePage'
          PageClient.unpin pageId true
          pure (some ⟨pageId, slot⟩)
        | (none, _) =>
          let nextPageId := tablePage.getNextPageId
          if nextPageId = invalidPageId then appendPage pageId tablePage data
          else
            PageClient.unpin pageId false
            insertFrom data fuel nextPageId

/-- `InsertTuple`. -/
def insertTuple (fuel : ℕ) (heap : TableHeap) (tuple : Tuple) :
    Program (PoolCall TablePage) (Option RID) :=
  insertFrom (bytesOf tuple) fuel heap.firstPageId

/-- `GetTuple`. -/
def getTuple (rid : RID) : Program (PoolCall TablePage) (Except Exception Tuple) := do
  match ← op (.fetchPage rid.pageId) with
  | none => pure (.error (.runtimeError "Cannot fetch page for GetTuple"))
  | some page =>
    let tablePage ← PageClient.read page
    let buffer ← ofOption (tablePage.copyTuple (rid.slotNum % 2 ^ 16))
    PageClient.unpin rid.pageId false
    pure (.ok { rid := rid, data := buffer })

/-- `UpdateTuple`. -/
def updateTuple (rid : RID) (newTuple : Tuple) : Program (PoolCall TablePage) Bool := do
  match ← op (.fetchPage rid.pageId) with
  | none => pure false
  | some page =>
    let tablePage ← PageClient.read page
    match tablePage.updateTuple (rid.slotNum % 2 ^ 16) (bytesOf newTuple) with
    | (true, tablePage') =>
      PageClient.write page tablePage'
      PageClient.unpin rid.pageId true
      pure true
    | (false, _) =>
      PageClient.unpin rid.pageId false
      pure false

/-- `DeleteTuple`. -/
def deleteTuple (rid : RID) : Program (PoolCall TablePage) Unit := do
  match ← op (.fetchPage rid.pageId) with
  | none => pure ()
  | some page =>
    let tablePage ← PageClient.read page
    PageClient.write page (tablePage.deleteTuple (rid.slotNum % 2 ^ 16))
    PageClient.unpin rid.pageId true

/-- `End()`. -/
def endIterator : RID := ⟨invalidPageId, 0⟩

/-- The loop of `Begin` and of `operator++`: the first live row from the slot on. -/
def seek : ℕ → PageId → ℕ → Program (PoolCall TablePage) RID
  | 0, _, _ => .fail
  | fuel + 1, pageId, slot =>
    if pageId = invalidPageId then pure endIterator
    else do
      match ← op (.fetchPage pageId) with
      | none => pure endIterator
      | some page =>
        let tablePage ← PageClient.read page
        match tablePage.nextSlot slot with
        | some s =>
          PageClient.unpin pageId false
          pure ⟨pageId, s⟩
        | none =>
          let nextPageId := tablePage.getNextPageId
          PageClient.unpin pageId false
          seek fuel nextPageId 0

/-- `Begin()`. -/
def begin (fuel : ℕ) (heap : TableHeap) : Program (PoolCall TablePage) RID :=
  seek fuel heap.firstPageId 0

/-- `operator++`. -/
def increment (fuel : ℕ) (rid : RID) : Program (PoolCall TablePage) RID :=
  seek fuel rid.pageId ((rid.slotNum + 1) % 2 ^ 16)

end TableHeap

end OneBase
