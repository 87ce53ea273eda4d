import OneBase.Buffer.PageStore
import OneBase.Lib.Ownership
import Mathlib.Tactic.Abel

set_option relaxedAutoImplicit false
set_option autoImplicit false

/-!
# Clients of the buffer pool

The idioms in which the clients call the buffer pool, and the rules to reason about a client that
owns some of the pages: it holds pins of a few of them, and the pages that it does not own are the
frame.

## Main definitions

* `OneBase.PageClient.fetch`, `new`, `read`, `write`, `unpin`, `delete` — the calls of a client
  that does not check them.
* `OneBase.PageStore.Owned` — the pages that a client owns, and the pins that it holds.

## Main results

* `OneBase.PageStore.Owned.fetch`, `new`, `read`, `write`, `unpin`, `delete` — the rules.
-/

namespace OneBase

open Effect Effect.Program Ownership

namespace PageClient

variable {D : Type}

/-- `FetchPage`, where the page is used without a check for `nullptr`. -/
def fetch (p : PageId) : Program (PoolCall D) Unit := do
  match ← op (.fetchPage p) with
  | some _ => pure ()
  | none => .fail

/-- `NewPage`, where the page is used without a check for `nullptr`. -/
def new : Program (PoolCall D) PageId := do
  match ← op .newPage with
  | some p => pure p
  | none => .fail

/-- Reading `page->GetData()`. -/
def read (p : PageId) : Program (PoolCall D) D := op (.read p)

/-- Writing to `page->GetData()`. -/
def write (p : PageId) (d : D) : Program (PoolCall D) Unit := op (.write p d)

/-- `UnpinPage`, without looking at the result. -/
def unpin (p : PageId) (isDirty : Bool) : Program (PoolCall D) Unit := do
  let _ ← op (.unpinPage p isDirty)
  pure ()

/-- `DeletePage`, without looking at the result. -/
def delete (p : PageId) : Program (PoolCall D) Unit := do
  let _ ← op (.deletePage p)
  pure ()

end PageClient

namespace PageStore

variable {D C : Type} {shows : D → C → Prop} {frame : PageId → Option D}
  {held held' : Multiset (PageId × C × Bool)} {free free' : Multiset (PageId × C)}
  {t : PageStore D} {p : PageId} {c d : C} {b : Bool}

/-- The client holds pins of the pages `held`, each with whether it has written there, and owns
the pages `free` without pins. Nobody else holds pins. -/
structure Owned (shows : D → C → Prop) (frame : PageId → Option D)
    (held : Multiset (PageId × C × Bool)) (free : Multiset (PageId × C)) (t : PageStore D) :
    Prop where
  owns : Owns shows t.content frame (held.map (fun x => (x.1, x.2.1)) + free)
  pins_eq : t.pins = held.map fun x => (x.1, x.2.2)
  allocated : ∀ q, t.content q ≠ none → 0 ≤ q ∧ q < t.nextPageId
  next_nonneg : 0 ≤ t.nextPageId

namespace Owned

/-- The order of the cells does not matter. -/
lemma perm (h : Owned shows frame held free t) (hheld : held = held') (hfree : free = free') :
    Owned shows frame held' free' t := by
  rw [← hheld, ← hfree]
  exact h

/-- Who owns nothing sees the frame. -/
lemma zero (shows : D → C → Prop) (hpins : t.pins = 0)
    (hallocated : ∀ q, t.content q ≠ none → 0 ≤ q ∧ q < t.nextPageId) (hnext : 0 ≤ t.nextPageId) :
    Owned shows t.content 0 0 t where
  owns := Owns.zero shows t.content
  pins_eq := hpins
  allocated := hallocated
  next_nonneg := hnext

/-- What the client owns, with a pinned page in front. -/
lemma owns_held (h : Owned shows frame ({(p, c, b)} + held) free t) :
    Owns shows t.content frame ({(p, c)} + (held.map (fun x => (x.1, x.2.1)) + free)) := by
  have howns := h.owns
  rwa [Multiset.map_add, Multiset.map_singleton, add_assoc] at howns

/-- What the client owns, with a page that is not pinned in front. -/
lemma owns_free (h : Owned shows frame held ({(p, c)} + free) t) :
    Owns shows t.content frame ({(p, c)} + (held.map (fun x => (x.1, x.2.1)) + free)) := by
  have howns := h.owns
  rwa [add_left_comm] at howns

/-- A page that is pinned is one that the client owns. -/
lemma mem_keys_of_mem_pins {q : PageId} (h : (q, b) ∈ held.map fun x => (x.1, x.2.2)) :
    q ∈ (held.map (fun x => (x.1, x.2.1)) + free).map Prod.fst := by
  obtain ⟨⟨q', c, b'⟩, hmem, heq⟩ := Multiset.mem_map.1 h
  obtain rfl : q' = q := congrArg Prod.fst heq
  rw [Multiset.map_add, Multiset.mem_add]
  exact .inl (Multiset.mem_map.2 ⟨(q', c), Multiset.mem_map.2 ⟨(q', c, b'), hmem, rfl⟩, rfl⟩)

/-- The pins of the store, with the pin of a held page in front. -/
lemma pins_eq_cons (h : Owned shows frame ({(p, c, b)} + held) free t) :
    t.pins = (p, b) ::ₘ held.map fun x => (x.1, x.2.2) := by
  rw [h.pins_eq, Multiset.map_add, Multiset.map_singleton, Multiset.singleton_add]

/-- There is no other pin of the page. -/
lemma notMem_pins (h : Owned shows frame ({(p, c, b)} + held) free t) (b' : Bool) :
    (p, b') ∉ held.map fun x => (x.1, x.2.2) :=
  fun hmem => h.owns_held.notMem (mem_keys_of_mem_pins hmem)

/-- A held page has a single pin, and the client knows whether it has written under it.

**Proof sketch.** Another pin of the page would belong to another held page with the same number,
and the pages that a client owns are all different. -/
lemma mem_pins_iff (h : Owned shows frame ({(p, c, b)} + held) free t) (b' : Bool) :
    (p, b') ∈ t.pins ↔ b' = b := by
  have hnot := h.notMem_pins b'
  rw [h.pins_eq_cons, Multiset.mem_cons]
  constructor
  · rintro (heq | hmem)
    · exact congrArg Prod.snd heq
    · exact absurd hmem hnot
  · rintro rfl
    exact .inl rfl

/-- A held page is pinned. -/
lemma mem_pinnedPages (h : Owned shows frame ({(p, c, b)} + held) free t) :
    p ∈ t.pinnedPages := by
  have hmem := (h.mem_pins_iff b).2 rfl
  exact Multiset.mem_toFinset.2 (Multiset.mem_map_of_mem Prod.fst hmem)

/-- A page that the client owns without a pin is not pinned. -/
lemma notMem_pinnedPages (h : Owned shows frame held ({(p, c)} + free) t) :
    p ∉ t.pinnedPages := by
  intro hmem
  obtain ⟨⟨q, b⟩, hqb, rfl⟩ := Multiset.mem_map.1 (Multiset.mem_toFinset.1 hmem)
  rw [h.pins_eq] at hqb
  exact h.owns_free.notMem (mem_keys_of_mem_pins hqb)

/-- There are no more pinned pages than held ones. -/
lemma card_pinnedPages_le (h : Owned shows frame held free t) :
    t.pinnedPages.card ≤ Multiset.card held := by
  calc t.pinnedPages.card
      ≤ Multiset.card (t.pins.map Prod.fst) := Multiset.toFinset_card_le _
    _ = Multiset.card held := by rw [h.pins_eq, Multiset.card_map, Multiset.card_map]

/-- Who holds fewer pages than there are frames has left a frame without pins. -/
lemma card_lt {frames : ℕ∞} (h : Owned shows frame held free t)
    (hcard : (Multiset.card held : ℕ∞) < frames) : (t.pinnedPages.card : ℕ∞) < frames :=
  lt_of_le_of_lt (Nat.cast_le.2 h.card_pinnedPages_le) hcard

variable [Inhabited D] {frames : ℕ∞}

/-- Fetching a page pins it. -/
lemma fetch (h : Owned shows frame held ({(p, c)} + free) t)
    (hcard : (Multiset.card held : ℕ∞) < frames) :
    wp (PageStore.handler frames) (PageClient.fetch p)
      (fun _ t' => Owned shows frame ({(p, c, false)} + held) free t') t := by
  obtain ⟨x, hx, -⟩ := h.owns_free.content_eq
  refine ⟨(), t.pin p, ?_, ?_, ?_, h.allocated, h.next_nonneg⟩
  · simp [PageClient.fetch, PageStore.handler, hx, h.card_lt hcard]
  · rw [Multiset.map_add, Multiset.map_singleton, add_assoc]
    exact h.owns_free
  · simp [pin, h.pins_eq]

/-- A page that is pinned may be read. -/
lemma read (h : Owned shows frame ({(p, c, b)} + held) free t) :
    wp (PageStore.handler frames) (PageClient.read p)
      (fun x t' => shows x c ∧ Owned shows frame ({(p, c, b)} + held) free t') t := by
  obtain ⟨x, hx, hshows⟩ := h.owns_held.content_eq
  refine ⟨x, t, ?_, hshows, h⟩
  simp [PageClient.read, PageStore.handler, h.mem_pinnedPages, hx]

/-- A page that is pinned may be written, which its pin remembers. -/
lemma write (h : Owned shows frame ({(p, c, b)} + held) free t) {x : D} (hx : shows x d) :
    wp (PageStore.handler frames) (PageClient.write p x)
      (fun _ t' => Owned shows frame ({(p, d, true)} + held) free t') t := by
  obtain ⟨y, hy, -⟩ := h.owns_held.content_eq
  have hne : t.content p ≠ none := by simp [hy]
  have hmem := (h.mem_pins_iff b).2 rfl
  refine ⟨(), t.write p b x, ?_, ?_, ?_, ?_, h.next_nonneg⟩
  · cases b
    · have htrue : (p, true) ∉ t.pins := by simp [h.mem_pins_iff]
      simp [PageClient.write, PageStore.handler, hne, htrue, hmem]
    · simp [PageClient.write, PageStore.handler, hne, hmem]
  · have hcontent : (t.write p b x).content = Function.update t.content p (some x) := by
      simp [PageStore.write, hy]
    rw [hcontent, Multiset.map_add, Multiset.map_singleton, add_assoc]
    exact h.owns_held.update hx
  · simp [PageStore.write, h.pins_eq_cons]
  · intro q hq
    apply h.allocated q
    intro hnone
    apply hq
    rw [content_write]
    split_ifs with hqp
    · rw [← hqp, hnone]
      rfl
    · exact hnone

/-- Ending a pin, with `is_dirty` if the page was written under it. -/
lemma unpin {isDirty : Bool} (h : Owned shows frame ({(p, c, b)} + held) free t)
    (hb : b = true → isDirty = true) :
    wp (PageStore.handler frames) (PageClient.unpin p isDirty)
      (fun _ t' => Owned shows frame held ({(p, c)} + free) t') t := by
  refine ⟨(), t.unpin p b, ?_, ?_, ?_, h.allocated, h.next_nonneg⟩
  · by_cases hd : isDirty = b
    · subst hd
      simp [PageClient.unpin, PageStore.handler, h.mem_pins_iff]
    · obtain ⟨rfl, rfl⟩ : b = false ∧ isDirty = true := by
        cases b <;> cases isDirty <;> simp_all
      simp [PageClient.unpin, PageStore.handler, h.mem_pins_iff]
  · have howns := h.owns_held
    rwa [add_left_comm] at howns
  · simp [PageStore.unpin, h.pins_eq_cons]

/-- A new page is pinned and zeroed. -/
lemma newPage (h : Owned shows frame held free t) (hcard : (Multiset.card held : ℕ∞) < frames)
    (hc : shows default c) :
    wp (PageStore.handler frames) (op .newPage)
      (fun r t' => ∃ p, r = some p ∧ 0 ≤ p ∧ Owned shows frame ({(p, c, false)} + held) free t')
      t := by
  have hnone : t.content t.nextPageId = none := by
    by_contra hne
    exact lt_irrefl _ (h.allocated _ hne).2
  refine ⟨some t.nextPageId, t.allocate, ?_, t.nextPageId, rfl, h.next_nonneg, ?_, ?_, ?_, ?_⟩
  · simp [PageStore.handler, h.card_lt hcard]
  · rw [Multiset.map_add, Multiset.map_singleton, add_assoc]
    exact h.owns.alloc hnone hc
  · simp [allocate, h.pins_eq]
  · intro q hq
    have hnext := h.next_nonneg
    change 0 ≤ q ∧ q < t.nextPageId + 1
    rw [content_allocate] at hq
    split_ifs at hq with hqn
    · lia
    · have hlt := h.allocated q hq
      lia
  · have hnext := h.next_nonneg
    change 0 ≤ t.nextPageId + 1
    lia

/-- The same, without the check for `nullptr`. -/
lemma new (h : Owned shows frame held free t) (hcard : (Multiset.card held : ℕ∞) < frames)
    (hc : shows default c) :
    wp (PageStore.handler frames) PageClient.new
      (fun p t' => 0 ≤ p ∧ Owned shows frame ({(p, c, false)} + held) free t') t := by
  refine wp_seq (h.newPage hcard hc) ?_
  intro r t' hnew
  obtain ⟨p, rfl, hp, h⟩ := hnew
  exact (wp_pure ..).2 ⟨hp, h⟩

/-- A page without pins may be deleted. -/
lemma delete (h : Owned shows frame held ({(p, c)} + free) t) :
    wp (PageStore.handler frames) (PageClient.delete p)
      (fun _ t' => Owned shows frame held free t') t := by
  obtain ⟨x, hx, -⟩ := h.owns_free.content_eq
  refine ⟨(), t.delete p, ?_, h.owns_free.free, h.pins_eq, ?_, h.next_nonneg⟩
  · simp [PageClient.delete, PageStore.handler, hx, h.notMem_pinnedPages]
  · intro q hq
    apply h.allocated q
    intro hnone
    apply hq
    rw [content_delete]
    split_ifs with hqp
    · rfl
    · exact hnone

end Owned

end PageStore

end OneBase
