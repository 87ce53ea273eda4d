import OneBase.Buffer.LRUKReplacer

set_option relaxedAutoImplicit false
set_option autoImplicit false

/-!
# The buffer pool manager

`buffer/buffer_pool_manager.cpp` and `storage/page/page.h`. The bytes of a page are a type `D`
whose `default` is the zeroed page, and the disk is a state `δ` with operations that may throw.
An operation returns its result, or the exception it threw, together with the state it left.

The timestamps of the replacer are unbounded here. `pin_count_` is an `int`: a count that leaves
this type is undefined behaviour, and `Overflows` says which calls reach it.

## Main definitions

* `OneBase.DiskIO` — `ReadPage` and `WritePage` of the disk manager.
* `OneBase.BufferPoolManager` — the pool, with `newPage`, `fetchPage`, `unpinPage`, `deletePage`,
  `flushPage`, `flushAllPages`.
* `OneBase.PoolOp`, `OneBase.BufferPoolManager.perform` — one call of any of them.
* `OneBase.BufferPoolManager.Overflows` — the calls whose behaviour is undefined.
-/

namespace OneBase

/-- `Page`: a frame of the pool and the metadata of the page in it. The exact pin count stands for
the `int` as long as it is one. -/
structure Page (D : Type) where
  data : D
  pageId : PageId := invalidPageId
  pinCount : ℤ := 0
  isDirty : Bool := false

instance {D : Type} [Inhabited D] : Inhabited (Page D) := ⟨{ data := default }⟩

/-- The disk operations of `DiskManager` on the state `δ`. -/
structure DiskIO (δ D : Type) where
  readPage : PageId → δ → Except Exception D × δ
  writePage : PageId → D → δ → Except Exception Unit × δ

/-- No disk operation throws. -/
structure DiskIO.Reliable {δ D : Type} (io : DiskIO δ D) : Prop where
  read : ∀ p d, ∃ x, (io.readPage p d).1 = .ok x
  write : ∀ p x d, (io.writePage p x d).1 = .ok ()

/-- What an operation leaves behind: its result or the exception it threw, and the state. -/
abbrev Outcome (S α : Type) := Except Exception α × S

/-- `BufferPoolManager`, with the state of its `DiskManager`. -/
structure BufferPoolManager (D δ : Type) where
  poolSize : ℕ
  disk : δ
  /-- `DiskManager::next_page_id_`. -/
  nextPageId : PageId
  replacer : LRUKReplacer
  pages : FrameId → Page D
  pageTable : AList (fun _ : PageId => FrameId) := ∅
  freeList : List FrameId

namespace BufferPoolManager

variable {D δ : Type} [Inhabited D]

/-- The constructor: all frames are free. -/
def init (poolSize k : ℕ) (disk : δ) (nextPageId : PageId) : BufferPoolManager D δ where
  poolSize := poolSize
  disk := disk
  nextPageId := nextPageId
  replacer := { maxFrames := poolSize, k := k }
  pages := fun _ => default
  freeList := List.range poolSize

/-- `pages_[f]` after an assignment to its fields. -/
def setPage (s : BufferPoolManager D δ) (f : FrameId) (page : Page D) : BufferPoolManager D δ :=
  { s with pages := Function.update s.pages f page }

/-- `WritePage(page_id, pages_[f].data_)`. -/
def writeFrame (io : DiskIO δ D) (s : BufferPoolManager D δ) (p : PageId) (f : FrameId) :
    Outcome (BufferPoolManager D δ) Unit :=
  let r := io.writePage p (s.pages f).data s.disk
  (r.1, { s with disk := r.2 })

/-- `RecordAccess(f)` and `SetEvictable(f, false)`. -/
def accessFrame (s : BufferPoolManager D δ) (f : FrameId) :
    Outcome (BufferPoolManager D δ) Unit :=
  match s.replacer.recordAccess f with
  | .error e => (.error e, s)
  | .ok r => (.ok (), { s with replacer := r.setEvictable f false })

/-- The frame for a new page, as `NewPage` and `FetchPage` both find it: the front of the free
list, else a victim of the replacer, written back if it is dirty; `none` is the early return of
`nullptr`. -/
def takeFrame (io : DiskIO δ D) (s : BufferPoolManager D δ) :
    Outcome (BufferPoolManager D δ) (Option FrameId) :=
  match s.freeList with
  | f :: rest => (.ok (some f), { s with freeList := rest })
  | [] =>
    match s.replacer.evict with
    | none => (.ok none, s)
    | some (f, replacer) =>
      let s := { s with replacer := replacer }
      let victim := s.pages f
      match if victim.isDirty then s.writeFrame io victim.pageId f else (.ok (), s) with
      | (.error e, s) => (.error e, s)
      | (.ok (), s) => (.ok (some f), { s with pageTable := s.pageTable.erase victim.pageId })

/-- The assignments to the metadata of the frame, `page_table_[page_id] = f` and the access, as
`NewPage` and `FetchPage` both end. -/
def installPage (s : BufferPoolManager D δ) (f : FrameId) (p : PageId) (data : D) :
    Outcome (BufferPoolManager D δ) Unit :=
  let s := s.setPage f { data := data, pageId := p, pinCount := 1, isDirty := false }
  { s with pageTable := s.pageTable.insert p f }.accessFrame f

/-- `NewPage`: the new page id and the frame that holds it, or `none` for `nullptr`. -/
def newPage (io : DiskIO δ D) (s : BufferPoolManager D δ) :
    Outcome (BufferPoolManager D δ) (Option (PageId × FrameId)) :=
  match s.takeFrame io with
  | (.error e, s) => (.error e, s)
  | (.ok none, s) => (.ok none, s)
  | (.ok (some f), s) =>
    let p := s.nextPageId
    match { s with nextPageId := p + 1 }.installPage f p default with
    | (.error e, s) => (.error e, s)
    | (.ok (), s) => (.ok (some (p, f)), s)

/-- `FetchPage`: the frame that holds the page, or `none` for `nullptr`. -/
def fetchPage (io : DiskIO δ D) (s : BufferPoolManager D δ) (p : PageId) :
    Outcome (BufferPoolManager D δ) (Option FrameId) :=
  match s.pageTable.lookup p with
  | some f =>
    let page := s.pages f
    match (s.setPage f { page with pinCount := page.pinCount + 1 }).accessFrame f with
    | (.error e, s) => (.error e, s)
    | (.ok (), s) => (.ok (some f), s)
  | none =>
    match s.takeFrame io with
    | (.error e, s) => (.error e, s)
    | (.ok none, s) => (.ok none, s)
    | (.ok (some f), s) =>
      match io.readPage p s.disk with
      | (.error e, disk) => (.error e, { s with disk := disk })
      | (.ok data, disk) =>
        match { s with disk := disk }.installPage f p data with
        | (.error e, s) => (.error e, s)
        | (.ok (), s) => (.ok (some f), s)

/-- `UnpinPage`. -/
def unpinPage (s : BufferPoolManager D δ) (p : PageId) (isDirty : Bool) :
    Bool × BufferPoolManager D δ :=
  match s.pageTable.lookup p with
  | none => (false, s)
  | some f =>
    let page := s.pages f
    if page.pinCount ≤ 0 then (false, s)
    else
      let page := { page with
        pinCount := page.pinCount - 1
        isDirty := if isDirty then true else page.isDirty }
      let s := s.setPage f page
      if page.pinCount = 0 then (true, { s with replacer := s.replacer.setEvictable f true })
      else (true, s)

/-- `DeletePage`. -/
def deletePage (s : BufferPoolManager D δ) (p : PageId) :
    Outcome (BufferPoolManager D δ) Bool :=
  match s.pageTable.lookup p with
  | none => (.ok true, s)
  | some f =>
    if (s.pages f).pinCount ≠ 0 then (.ok false, s)
    else
      let s := { s with pageTable := s.pageTable.erase p }
      match s.replacer.remove f with
      | .error e => (.error e, s)
      | .ok r =>
        (.ok true, { s with replacer := r, freeList := s.freeList ++ [f] }.setPage f default)

/-- `WritePage` of the frame `f` and `is_dirty_ = false`, as both flushes do it. -/
def flushFrame (io : DiskIO δ D) (s : BufferPoolManager D δ) (p : PageId) (f : FrameId) :
    Outcome (BufferPoolManager D δ) Unit :=
  match s.writeFrame io p f with
  | (.error e, s) => (.error e, s)
  | (.ok (), s) => (.ok (), s.setPage f { s.pages f with isDirty := false })

/-- `FlushPage`. -/
def flushPage (io : DiskIO δ D) (s : BufferPoolManager D δ) (p : PageId) :
    Outcome (BufferPoolManager D δ) Bool :=
  match s.pageTable.lookup p with
  | none => (.ok false, s)
  | some f =>
    match s.flushFrame io p f with
    | (.error e, s) => (.error e, s)
    | (.ok (), s) => (.ok true, s)

/-- The loop of `FlushAllPages` over the entries of the page table. -/
def flushEntries (io : DiskIO δ D) :
    List (Sigma fun _ : PageId => FrameId) → BufferPoolManager D δ →
      Outcome (BufferPoolManager D δ) Unit
  | [], s => (.ok (), s)
  | it :: rest, s =>
    match s.flushFrame io it.1 it.2 with
    | (.error e, s) => (.error e, s)
    | (.ok (), s) => flushEntries io rest s

/-- `FlushAllPages`. -/
def flushAllPages (io : DiskIO δ D) (s : BufferPoolManager D δ) :
    Outcome (BufferPoolManager D δ) Unit :=
  flushEntries io s.pageTable.entries s

end BufferPoolManager

/-- A call of one of the operations of the pool. -/
inductive PoolOp
  | newPage
  | fetchPage (p : PageId)
  | unpinPage (p : PageId) (isDirty : Bool)
  | deletePage (p : PageId)
  | flushPage (p : PageId)
  | flushAllPages
  deriving DecidableEq, Repr

namespace BufferPoolManager

variable {D δ : Type} [Inhabited D]

/-- The state after a call, and the exception if it threw one. -/
def perform (io : DiskIO δ D) (s : BufferPoolManager D δ) :
    PoolOp → Outcome (BufferPoolManager D δ) Unit
  | .newPage => let r := s.newPage io; (r.1.map fun _ => (), r.2)
  | .fetchPage p => let r := s.fetchPage io p; (r.1.map fun _ => (), r.2)
  | .unpinPage p d => (.ok (), (s.unpinPage p d).2)
  | .deletePage p => let r := s.deletePage p; (r.1.map fun _ => (), r.2)
  | .flushPage p => let r := s.flushPage io p; (r.1.map fun _ => (), r.2)
  | .flushAllPages => s.flushAllPages io

/-- A call that the clients of the pool make: only allocated page ids are fetched. -/
def Permits (s : BufferPoolManager D δ) : PoolOp → Prop
  | .fetchPage p => 0 ≤ p ∧ p < s.nextPageId
  | _ => True

/-- The largest `int`. -/
def maxPinCount : ℤ := 2 ^ 31 - 1

/-- The call increments a `pin_count_` that is the largest `int`, which is undefined behaviour. The
other calls only decrement positive counts, or set them. -/
def Overflows (s : BufferPoolManager D δ) : PoolOp → Prop
  | .fetchPage p => ∃ f, s.pageTable.lookup p = some f ∧ (s.pages f).pinCount = maxPinCount
  | _ => False

/-- A permitted call that is defined and does not throw takes the pool from `s` to `s'`. -/
def Step (io : DiskIO δ D) (s : BufferPoolManager D δ) (op : PoolOp)
    (s' : BufferPoolManager D δ) : Prop :=
  s.Permits op ∧ ¬ s.Overflows op ∧ s.perform io op = (.ok (), s')

end BufferPoolManager

end OneBase
