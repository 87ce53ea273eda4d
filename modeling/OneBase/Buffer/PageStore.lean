import OneBase.Buffer.BufferPoolManager
import OneBase.Lib.Program
import Mathlib.Data.Multiset.Basic

set_option relaxedAutoImplicit false
set_option autoImplicit false

/-!
# The pages that a buffer pool is for

What the clients of a buffer pool mean by it: pages with contents, and the pins they hold. There
are no frames here, no disk and no eviction. The clients follow a discipline: they fetch allocated
pages only, touch a page only under a pin, and end a pin under which they wrote with
`is_dirty = true`.

## Main definitions

* `OneBase.PageStore` — the contents of the pages and the pins held.
* `OneBase.PoolCall` — the calls of a client that runs as one program.
* `OneBase.PageStore.handler` — their meaning on a page store with at most `frames` pinned pages.
* `OneBase.BufferPoolManager.handler` — their meaning on the buffer pool.
* `OneBase.PoolEvent`, `OneBase.PoolEvent.lastWritten` — traces of any number of clients.
-/

namespace OneBase

/-- The pages as the clients see them. A pin is a page together with whether its holder has
written to the page under it. -/
@[ext]
structure PageStore (D : Type) where
  /-- What a page that was allocated and not deleted contains. -/
  content : PageId → Option D := fun _ => none
  nextPageId : PageId := 0
  pins : Multiset (PageId × Bool) := 0

namespace PageStore

variable {D : Type}

/-- How many pins of the page are held. -/
def pinCount (t : PageStore D) (p : PageId) : ℕ := (t.pins.map Prod.fst).count p

/-- The pages that are pinned. -/
def pinnedPages (t : PageStore D) : Finset PageId := (t.pins.map Prod.fst).toFinset

/-- A pin of the page is added. -/
def pin (t : PageStore D) (p : PageId) : PageStore D := { t with pins := (p, false) ::ₘ t.pins }

/-- The pin is given up. -/
def unpin (t : PageStore D) (p : PageId) (wrote : Bool) : PageStore D :=
  { t with pins := t.pins.erase (p, wrote) }

/-- A zeroed page is allocated and pinned. -/
def allocate [Inhabited D] (t : PageStore D) : PageStore D :=
  { content := Function.update t.content t.nextPageId (some default)
    nextPageId := t.nextPageId + 1
    pins := (t.nextPageId, false) ::ₘ t.pins }

/-- The page is written under the pin. -/
def write (t : PageStore D) (p : PageId) (wrote : Bool) (d : D) : PageStore D :=
  { t with
    content := Function.update t.content p ((t.content p).map fun _ => d)
    pins := (p, true) ::ₘ t.pins.erase (p, wrote) }

/-- The page is deleted. -/
def delete (t : PageStore D) (p : PageId) : PageStore D :=
  { t with content := Function.update t.content p none }

/-- A page has pins if its count is not zero. -/
lemma pinCount_ne_zero {t : PageStore D} {p : PageId} :
    t.pinCount p ≠ 0 ↔ ∃ b, (p, b) ∈ t.pins := by
  rw [pinCount, Multiset.count_ne_zero]
  simp

/-- A pin adds one to the count of its page. -/
@[simp] lemma pinCount_pin (t : PageStore D) (p q : PageId) :
    (t.pin p).pinCount q = t.pinCount q + if q = p then 1 else 0 := by
  simp [pinCount, pin, Multiset.count_cons]

/-- A new page has one pin. -/
@[simp] lemma pinCount_allocate [Inhabited D] (t : PageStore D) (q : PageId) :
    t.allocate.pinCount q = t.pinCount q + if q = t.nextPageId then 1 else 0 := by
  simp [pinCount, allocate, Multiset.count_cons]

/-- Deleting a page leaves the pins alone. -/
@[simp] lemma pinCount_delete (t : PageStore D) (p q : PageId) :
    (t.delete p).pinCount q = t.pinCount q := rfl

/-- A new page is zeroed, and the others are as before. -/
lemma content_allocate [Inhabited D] (t : PageStore D) (q : PageId) :
    t.allocate.content q = if q = t.nextPageId then some default else t.content q :=
  Function.update_apply ..

/-- A write changes the page, if there is one, and no other. -/
lemma content_write (t : PageStore D) (p : PageId) (b : Bool) (d : D) (q : PageId) :
    (t.write p b d).content q = if q = p then (t.content p).map fun _ => d else t.content q :=
  Function.update_apply ..

/-- A deleted page has no content, and the others are as before. -/
lemma content_delete (t : PageStore D) (p q : PageId) :
    (t.delete p).content q = if q = p then none else t.content q :=
  Function.update_apply ..

/-- A pin that was just taken is the one that is given up. -/
@[simp] lemma unpin_pin (t : PageStore D) (p : PageId) : (t.pin p).unpin p false = t := by
  rw [unpin, pin, Multiset.erase_cons_head]

/-- Giving up a pin that is held. -/
lemma pinCount_unpin {t : PageStore D} {p : PageId} {b : Bool} (h : (p, b) ∈ t.pins) (q : PageId) :
    (t.unpin p b).pinCount q + (if q = p then 1 else 0) = t.pinCount q := by
  have hcons := Multiset.cons_erase h
  rw [pinCount, pinCount, unpin, ← hcons]
  simp [Multiset.count_cons]

/-- Writing under a pin does not change how many there are. -/
lemma pinCount_write {t : PageStore D} {p : PageId} {b : Bool} (h : (p, b) ∈ t.pins) (d : D)
    (q : PageId) : (t.write p b d).pinCount q = t.pinCount q := by
  have hcons := Multiset.cons_erase h
  rw [pinCount, pinCount, write, ← hcons]
  simp [Multiset.count_cons]

end PageStore

/-- A call of a client. A `Page *` is represented by the id of the page it was obtained for. -/
inductive PoolCall (D : Type) : Type → Type
  | newPage : PoolCall D (Option PageId)
  | fetchPage (p : PageId) : PoolCall D (Option PageId)
  | unpinPage (p : PageId) (isDirty : Bool) : PoolCall D Bool
  | deletePage (p : PageId) : PoolCall D Bool
  /-- Reading through the pointer. -/
  | read (p : PageId) : PoolCall D D
  /-- Writing through the pointer. -/
  | write (p : PageId) (d : D) : PoolCall D Unit

/-- The meaning of the calls on the buffer pool: undefined when a call throws, and when a pointer
is used whose page is not in its frame. -/
def BufferPoolManager.handler {D δ : Type} [Inhabited D] (io : DiskIO δ D) :
    Effect.Handler (PoolCall D) (BufferPoolManager D δ)
  | _, .newPage, s =>
    match s.newPage io with
    | (.ok r, s) => some (r.map Prod.fst, s)
    | (.error _, _) => none
  | _, .fetchPage p, s =>
    match s.fetchPage io p with
    | (.ok r, s) => some (r.map fun _ => p, s)
    | (.error _, _) => none
  | _, .unpinPage p d, s => some (s.unpinPage p d)
  | _, .deletePage p, s =>
    match s.deletePage p with
    | (.ok r, s) => some (r, s)
    | (.error _, _) => none
  | _, .read p, s => (s.pageTable.lookup p).map fun f => ((s.pages f).data, s)
  | _, .write p d, s =>
    (s.pageTable.lookup p).map fun f => ((), s.setPage f { s.pages f with data := d })

/-- The same calls, where a `nullptr` from `NewPage` or `FetchPage` counts as undefined too. -/
def PoolCall.neverNull {D σ : Type} (h : Effect.Handler (PoolCall D) σ) :
    Effect.Handler (PoolCall D) σ
  | _, .newPage, s => (h _ .newPage s).filter fun r => r.1.isSome
  | _, .fetchPage p, s => (h _ (.fetchPage p) s).filter fun r => r.1.isSome
  | _, e, s => h _ e s

/-- The meaning of the calls on the pages themselves. Undefined are calls outside the discipline
of the clients, and a call that needs more than `frames` pinned pages. -/
def PageStore.handler {D : Type} [Inhabited D] (frames : ℕ∞) :
    Effect.Handler (PoolCall D) (PageStore D)
  | _, .newPage, t =>
    if (t.pinnedPages.card : ℕ∞) < frames then some (some t.nextPageId, t.allocate) else none
  | _, .fetchPage p, t =>
    if t.content p = none then none
    else if p ∈ t.pinnedPages ∨ (t.pinnedPages.card : ℕ∞) < frames then some (some p, t.pin p)
    else none
  | _, .unpinPage p d, t =>
    if (p, d) ∈ t.pins then some (true, t.unpin p d)
    else if (p, !d) ∈ t.pins ∧ d = true then some (true, t.unpin p false)
    else none
  | _, .deletePage p, t =>
    if t.content p = none then none
    else if p ∈ t.pinnedPages then some (false, t)
    else some (true, t.delete p)
  | _, .read p, t => if p ∈ t.pinnedPages then (t.content p).map fun d => (d, t) else none
  | _, .write p d, t =>
    if t.content p = none then none
    else if (p, true) ∈ t.pins then some ((), t.write p true d)
    else if (p, false) ∈ t.pins then some ((), t.write p false d)
    else none

/-- More frames give more calls a meaning. -/
lemma PageStore.handler_extends {D : Type} [Inhabited D] {frames frames' : ℕ∞}
    (hle : frames ≤ frames') (γ : Type) (e : PoolCall D γ) (t : PageStore D) (r : γ × PageStore D)
    (h : PageStore.handler frames γ e t = some r) : PageStore.handler frames' γ e t = some r := by
  cases e with
  | newPage =>
    have hcall : (if (t.pinnedPages.card : ℕ∞) < frames then some (some t.nextPageId, t.allocate)
        else none) = some r := h
    split_ifs at hcall with hcard
    exact (if_pos (hcard.trans_le hle)).trans hcall
  | fetchPage p =>
    have hcall : (if t.content p = none then none
        else if p ∈ t.pinnedPages ∨ (t.pinnedPages.card : ℕ∞) < frames then some (some p, t.pin p)
        else none) = some r := h
    split_ifs at hcall with hnone hframe
    exact (if_neg hnone).trans
      ((if_pos (hframe.imp_right fun hcard => hcard.trans_le hle)).trans hcall)
  | unpinPage p d => exact h
  | deletePage p => exact h
  | read p => exact h
  | write p d => exact h

/-! ## Traces -/

/-- A call of some client on the buffer pool, with its result, or a write to a page. Calls that
concern a pin say whether its holder had written under it. -/
inductive PoolEvent (D : Type)
  | newPage (result : Option PageId)
  | fetchPage (p : PageId) (ok : Bool)
  | write (p : PageId) (wrote : Bool) (d : D)
  | unpinPage (p : PageId) (wrote isDirty ok : Bool)
  | flushPage (p : PageId)
  | flushAllPages
  | deletePage (p : PageId) (ok : Bool)

namespace PoolEvent

variable {D : Type} [Inhabited D]

/-- The bytes last written to each page that was allocated and not deleted, after one more event. -/
def contentAfter (content : PageId → Option D) : PoolEvent D → PageId → Option D
  | newPage (some p) => Function.update content p (some default)
  | write p _ d => Function.update content p ((content p).map fun _ => d)
  | deletePage p true => Function.update content p none
  | _ => content

/-- The bytes last written to each page that was allocated and not deleted, zeros if none. -/
def lastWritten (events : List (PoolEvent D)) : PageId → Option D :=
  events.foldl contentAfter fun _ => none

end PoolEvent

namespace PageStore

variable {D : Type}

/-- The discipline of the clients: only allocated pages are fetched, none of which has as many pins
as an `int` can count; writes happen under a pin, a pin under which its holder wrote is ended with
`is_dirty = true`, and an `UnpinPage` that ends no pin concerns a page without pins. -/
def Allows (t : PageStore D) : PoolEvent D → Prop
  | .fetchPage p _ => (0 ≤ p ∧ p < t.nextPageId) ∧ t.pinCount p < 2 ^ 31 - 1
  | .write p wrote _ => (p, wrote) ∈ t.pins
  | .unpinPage p wrote isDirty _ =>
    ((p, wrote) ∈ t.pins ∧ (wrote = true → isDirty = true)) ∨ t.pinCount p = 0
  | _ => True

/-- The page store after the event. -/
def after [Inhabited D] (t : PageStore D) : PoolEvent D → PageStore D
  | .newPage (some _) => t.allocate
  | .fetchPage p true => t.pin p
  | .write p wrote d => t.write p wrote d
  | .unpinPage p wrote _ true => t.unpin p wrote
  | .deletePage p true => t.delete p
  | _ => t

end PageStore

end OneBase
