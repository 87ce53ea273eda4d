import OneBase.Buffer.PinCounts
import OneBase.Common.Types

set_option relaxedAutoImplicit false
set_option autoImplicit false

/-!
# Page guards

`buffer/page_guard.cpp`, with the latches of `common/rwlatch.h`. A `Page *` is its frame, and
`bpm_` is whether it points to the pool. The objects of a program are guard variables of the three
classes, and beside them the program and others call the pool.

## Main definitions

* `OneBase.Latch` — `ReaderWriterLatch`.
* `OneBase.PageGuard`, `OneBase.LatchedPool.drop` — the three guards and their `Drop`.
* `OneBase.GuardOp`, `OneBase.GuardState.perform` — what a program does with guard variables.
-/

namespace OneBase

/-- `ReaderWriterLatch`: who holds its `std::shared_mutex`. -/
structure Latch where
  readers : ℕ := 0
  writer : Bool := false
  deriving DecidableEq, Repr

namespace Latch

/-- `RLock` waits for this. -/
def RGrantable (l : Latch) : Prop := l.writer = false

/-- `WLock` waits for this. -/
def WGrantable (l : Latch) : Prop := l.writer = false ∧ l.readers = 0

/-- `RLock`, when it is granted. -/
def rLock (l : Latch) : Latch := { l with readers := l.readers + 1 }

/-- `WLock`, when it is granted. -/
def wLock (l : Latch) : Latch := { l with writer := true }

/-- `RUnlock`; unlocking what is not locked is undefined. -/
def rUnlock (l : Latch) : Cpp Latch :=
  if l.readers = 0 then Cpp.undefined else pure { l with readers := l.readers - 1 }

/-- `WUnlock`. -/
def wUnlock (l : Latch) : Cpp Latch :=
  if l.writer then pure { l with writer := false } else Cpp.undefined

end Latch

/-- The classes of guards. -/
inductive GuardClass
  | basic
  | read
  | write
  deriving DecidableEq, Repr

/-- `BasicPageGuard`, `ReadPageGuard` and `WritePageGuard`; `is_dirty_` is a field of the first
only. -/
structure PageGuard where
  bpm : Bool := false
  page : Option FrameId := none
  isDirty : Bool := false
  deriving DecidableEq, Repr

/-- The pool and the latches of its pages. -/
structure LatchedPool (D δ : Type) where
  pool : BufferPoolManager D δ
  latches : FrameId → Latch := fun _ => {}

namespace LatchedPool

variable {D δ : Type} [Inhabited D]

/-- The `Drop`s: the latch is released and the page unpinned, and the fields are reset. Nothing
happens without a page. -/
def dropWith (unlatch : Latch → Cpp Latch) (isDirty : PageGuard → Bool) (m : LatchedPool D δ)
    (g : PageGuard) : Cpp (PageGuard × LatchedPool D δ) :=
  match g.page with
  | none => pure (g, m)
  | some f => do
    let latch ← unlatch (m.latches f)
    if g.bpm then
      pure ({},
        { pool := (m.pool.unpinPage (m.pool.pages f).pageId (isDirty g)).2
          latches := Function.update m.latches f latch })
    else Cpp.undefined

/-- `BasicPageGuard::Drop`. -/
def basicDrop : LatchedPool D δ → PageGuard → Cpp (PageGuard × LatchedPool D δ) :=
  dropWith pure fun g => g.isDirty

/-- `ReadPageGuard::Drop`. -/
def readDrop : LatchedPool D δ → PageGuard → Cpp (PageGuard × LatchedPool D δ) :=
  dropWith Latch.rUnlock fun _ => false

/-- `WritePageGuard::Drop`. -/
def writeDrop : LatchedPool D δ → PageGuard → Cpp (PageGuard × LatchedPool D δ) :=
  dropWith Latch.wUnlock fun _ => true

/-- `Drop` of a guard of this class. -/
def drop : GuardClass → LatchedPool D δ → PageGuard → Cpp (PageGuard × LatchedPool D δ)
  | .basic => basicDrop
  | .read => readDrop
  | .write => writeDrop

/-- The latch after a constructor with this page. -/
def latch (cls : GuardClass) (l : Latch) : Latch :=
  match cls with
  | .basic => l
  | .read => l.rLock
  | .write => l.wLock

/-- The constructors from a page, which may be a `nullptr`. -/
def construct (cls : GuardClass) (m : LatchedPool D δ) (page : Option FrameId) :
    PageGuard × LatchedPool D δ :=
  ({ bpm := true, page := page },
    match page with
    | none => m
    | some f => { m with latches := Function.update m.latches f (latch cls (m.latches f)) })

end LatchedPool

/-- What is left of a guard behind its move constructor: `is_dirty_` is not reset. -/
def PageGuard.movedFrom (that : PageGuard) : PageGuard := { that with bpm := false, page := none }

/-- A step of a program with guard variables `V`. -/
inductive GuardOp (V : Type)
  /-- The default constructor. -/
  | default (v : V)
  /-- The constructor from a page. -/
  | construct (v : V) (page : Option FrameId)
  /-- The move constructor of `v` from `u`. -/
  | moveConstruct (v u : V)
  /-- The move assignment `v = std::move(u)`. -/
  | moveAssign (v u : V)
  | getDataMut (v : V)
  | drop (v : V)
  /-- The destructor. -/
  | destroy (v : V)
  /-- A call of the pool, of this program or of others. -/
  | call (op : PoolOp)

/-- The pool, the latches and the guard objects that are alive. -/
structure GuardState (V D δ : Type) extends LatchedPool D δ where
  guards : V → Option PageGuard := fun _ => none

namespace GuardState

variable {V D δ : Type} [DecidableEq V] [Inhabited D]

/-- Assigning to the object of a variable. -/
def setGuard (w : GuardState V D δ) (v : V) (g : Option PageGuard) : GuardState V D δ :=
  { w with guards := Function.update w.guards v g }

/-- `GetDataMut`, which reads `page_`. A `ReadPageGuard` has none. -/
def getDataMut (cls : GuardClass) (g : PageGuard) : Cpp PageGuard :=
  match cls, g.page with
  | .basic, some _ => pure { g with isDirty := true }
  | .write, some _ => pure g
  | _, _ => Cpp.undefined

/-- A step; using an object outside its lifetime is undefined. -/
def perform (io : DiskIO δ D) (cls : V → GuardClass) (w : GuardState V D δ) :
    GuardOp V → Cpp (GuardState V D δ)
  | .default v => pure (w.setGuard v (some {}))
  | .construct v page =>
    let (g, m) := LatchedPool.construct (cls v) w.toLatchedPool page
    pure { toLatchedPool := m, guards := Function.update w.guards v (some g) }
  | .moveConstruct v u =>
    match w.guards u with
    | some that => pure ((w.setGuard v (some that)).setGuard u (some that.movedFrom))
    | none => Cpp.undefined
  | .moveAssign v u =>
    match w.guards v, w.guards u with
    | some this, some that =>
      if v = u then pure w
      else do
        let (_, m) ← LatchedPool.drop (cls v) w.toLatchedPool this
        pure
          { toLatchedPool := m
            guards := Function.update (Function.update w.guards v (some that)) u (some {}) }
    | _, _ => Cpp.undefined
  | .getDataMut v =>
    match w.guards v with
    | some g => do
      let g ← getDataMut (cls v) g
      pure (w.setGuard v (some g))
    | none => Cpp.undefined
  | .drop v =>
    match w.guards v with
    | some g => do
      let (g, m) ← LatchedPool.drop (cls v) w.toLatchedPool g
      pure { toLatchedPool := m, guards := Function.update w.guards v (some g) }
    | none => Cpp.undefined
  | .destroy v =>
    match w.guards v with
    | some g => do
      let (_, m) ← LatchedPool.drop (cls v) w.toLatchedPool g
      pure { toLatchedPool := m, guards := Function.update w.guards v none }
    | none => Cpp.undefined
  | .call op =>
    match w.pool.perform io op with
    | (.ok (), pool) => pure { w with pool := pool }
    | (.error e, _) => throw e

end GuardState

end OneBase
