import OneBase.Buffer.SharedClient
import OneBase.Buffer.Transparency

set_option relaxedAutoImplicit false
set_option autoImplicit false

/-!
# Pools that run out of frames

The calls of a client on a pool of which other clients hold any number of pins. `NewPage` and
`FetchPage` return `nullptr` as soon as every frame has a pinned page.

## Main definitions

* `OneBase.PageStore.boundedHandler` — the meaning of the calls on a page store, of which the pool
  can pin `frames` pages.
* `OneBase.BufferPoolManager.pinCount` — how often a page is pinned in the pool.
* `OneBase.PageStore.among` — a page store with the pins of others.

## Main results

* `OneBase.BufferPoolManager.boundedHandler_simulates` — programs run on the pool as on the page
  store.
* `OneBase.BufferPoolManager.sharedHandler_simulates` — the same, for the pages and pins of one
  client.
-/

namespace OneBase

variable {D : Type}

/-- The meaning of the calls on the pages themselves, in a pool of `frames` frames. Undefined are
calls outside the discipline of the clients. -/
def PageStore.boundedHandler [Inhabited D] (frames : ℕ) : Effect.Handler (PoolCall D) (PageStore D)
  | _, .newPage, t =>
    if t.pinnedPages.card < frames then some (some t.nextPageId, t.allocate) else some (none, t)
  | _, .fetchPage p, t =>
    if t.content p = none then none
    else if p ∈ t.pinnedPages ∨ t.pinnedPages.card < frames then some (some p, t.pin p)
    else some (none, t)
  | _, e, t => PageStore.handler frames _ e t

/-- A call that is not undefined without `nullptr` is not undefined. -/
lemma PoolCall.of_neverNull {σ β : Type} {handler : Effect.Handler (PoolCall D) σ}
    {e : PoolCall D β} {s s' : σ} {b : β} (h : PoolCall.neverNull handler _ e s = some (b, s')) :
    handler _ e s = some (b, s') := by
  cases e with
  | newPage => exact (Option.filter_eq_some_iff.1 h).1
  | fetchPage p => exact (Option.filter_eq_some_iff.1 h).1
  | unpinPage p d => exact h
  | deletePage p => exact h
  | read p => exact h
  | write p d => exact h

namespace BufferPoolManager

/-- How often the page is pinned. -/
def pinCount {δ : Type} (s : BufferPoolManager D δ) (p : PageId) : ℤ :=
  match s.pageTable.lookup p with
  | some f => (s.pages f).pinCount
  | none => 0

variable [Inhabited D] {s s' : BufferPoolManager D (PageId → D)} {t : PageStore D} {p : PageId}

/-- The pool counts the pins that the store has. -/
lemma Refines.pinCount_eq (h : Refines s t) (p : PageId) : s.pinCount p = t.pinCount p := by
  unfold pinCount
  cases hl : s.pageTable.lookup p with
  | some f => exact h.pin_eq p f hl
  | none =>
    have hzero : t.pinCount p = 0 := by
      by_contra hne
      obtain ⟨f, hf⟩ := h.pinned p hne
      cases hl.symm.trans hf
    rw [hzero]
    rfl

/-- Each pinned page has a frame of its own. -/
lemma Refines.card_pinnedPages_le (h : Refines s t) : t.pinnedPages.card ≤ s.poolSize := by
  have hframe : ∀ p ∈ t.pinnedPages, ∃ f, s.Resident p f := by
    intro p hp
    exact h.pinned p (mem_pinnedPages.1 hp)
  have hmaps : Set.MapsTo (fun p => (s.pageTable.lookup p).getD 0) (t.pinnedPages : Set PageId)
      (Finset.range s.poolSize : Set FrameId) := by
    intro p hp
    obtain ⟨f, hf⟩ := hframe p hp
    have hlk : s.pageTable.lookup p = some f := hf
    simpa [hlk] using h.consistent.resident_lt p f hf
  have hinj : Set.InjOn (fun p => (s.pageTable.lookup p).getD 0) (t.pinnedPages : Set PageId) := by
    intro p hp q hq heq
    obtain ⟨f, hf⟩ := hframe p hp
    obtain ⟨g, hg⟩ := hframe q hq
    have hlf : s.pageTable.lookup p = some f := hf
    have hlg : s.pageTable.lookup q = some g := hg
    simp only [hlf, hlg, Option.getD_some] at heq
    exact h.consistent.resident_inj p q f hf (heq ▸ hg)
  have hcard := Finset.card_le_card_of_injOn _ hmaps hinj
  rwa [Finset.card_range] at hcard

/-- `NewPage` returns `nullptr` if there are as many pinned pages as frames. -/
lemma Refines.newPage_full (h : Refines s t) (hfull : s.poolSize ≤ t.pinnedPages.card) :
    s.newPage (idealDisk D) = (.ok none, s) := by
  rcases h.newPage with ⟨hnone, -⟩ | ⟨f, s', -, hr, -, hsize, -⟩
  · exact hnone
  · -- one more page would be pinned than there are frames
    exfalso
    have hnew : t.nextPageId ∉ t.pinnedPages := by
      intro hmem
      obtain ⟨g, hg⟩ := h.pinned _ (mem_pinnedPages.1 hmem)
      have hlt := (h.consistent.resident_allocated _ g hg).2
      rw [h.next_eq] at hlt
      exact lt_irrefl _ hlt
    have hpinned : t.allocate.pinnedPages = insert t.nextPageId t.pinnedPages := by
      simp [PageStore.pinnedPages, PageStore.allocate]
    have hcard := hr.card_pinnedPages_le
    rw [hpinned, Finset.card_insert_of_notMem hnew, hsize] at hcard
    omega

/-- So does `FetchPage` of a page that is not one of these. -/
lemma Refines.fetchPage_full (h : Refines s t) (hfull : s.poolSize ≤ t.pinnedPages.card)
    (hp : p ∉ t.pinnedPages) (hlt : 0 ≤ p ∧ p < t.nextPageId) :
    s.fetchPage (idealDisk D) p = (.ok none, s) := by
  rcases h.fetchPage hlt with ⟨hnone, -⟩ | ⟨f, s', -, hr, -, hsize⟩
  · exact hnone
  · exfalso
    have hpinned : (t.pin p).pinnedPages = insert p t.pinnedPages := by
      simp [PageStore.pinnedPages, PageStore.pin]
    have hcard := hr.card_pinnedPages_le
    rw [hpinned, Finset.card_insert_of_notMem hp, hsize] at hcard
    omega

/-- A client that keeps the discipline runs on every pool as it runs on the page store, whatever
pins others hold. -/
theorem boundedHandler_simulates (frames : ℕ) :
    Effect.Handler.Simulates (PageStore.boundedHandler frames) (handler (idealDisk D))
      fun t s => Refines s t ∧ s.poolSize = frames := by
  rintro β e t s b t' ⟨h, rfl⟩ hrun
  -- a call that returns no `nullptr`
  have hcall : ∀ {γ : Type} {e : PoolCall D γ} {b : γ} {t' : PageStore D},
      PageStore.handler (s.poolSize : ℕ∞) _ e t = some (b, t') →
      ∃ s', handler (idealDisk D) _ e s = some (b, s') ∧ Refines s' t' ∧
        s'.poolSize = s.poolSize := by
    intro γ e b t' hrun
    obtain ⟨s', hs', hr, hsize⟩ := h.handler le_rfl hrun
    exact ⟨s', PoolCall.of_neverNull hs', hr, hsize⟩
  cases e with
  | newPage =>
    simp only [PageStore.boundedHandler] at hrun
    split_ifs at hrun with hcard
    · obtain ⟨rfl, rfl⟩ := Prod.mk.inj (Option.some.inj hrun)
      exact hcall (by simp [PageStore.handler, hcard])
    · obtain ⟨rfl, rfl⟩ := Prod.mk.inj (Option.some.inj hrun)
      have hs := h.newPage_full (not_lt.1 hcard)
      exact ⟨s, by simp [handler, hs], h, rfl⟩
  | fetchPage p =>
    simp only [PageStore.boundedHandler] at hrun
    split_ifs at hrun with hnone hcard
    · obtain ⟨rfl, rfl⟩ := Prod.mk.inj (Option.some.inj hrun)
      exact hcall (by simp [PageStore.handler, hnone, hcard])
    · obtain ⟨rfl, rfl⟩ := Prod.mk.inj (Option.some.inj hrun)
      obtain ⟨d, hd⟩ := Option.ne_none_iff_exists'.1 hnone
      rw [not_or, not_lt] at hcard
      have hs := h.fetchPage_full hcard.2 hcard.1 (h.content_lt p d hd)
      exact ⟨s, by simp [handler, hs], h, rfl⟩
  | unpinPage p d => exact hcall hrun
  | deletePage p => exact hcall hrun
  | read p => exact hcall hrun
  | write p d => exact hcall hrun

end BufferPoolManager

/-! ## The pins of others -/

namespace PageStore

variable {t : PageStore D} {others : Multiset (PageId × Bool)} {p : PageId} {b : Bool}

/-- The page store, with the pins of others too. -/
def among (t : PageStore D) (others : Multiset (PageId × Bool)) : PageStore D :=
  { t with pins := others + t.pins }

/-- The pages that are pinned by others. -/
def pagesOf (others : Multiset (PageId × Bool)) : Finset PageId :=
  (others.map Prod.fst).toFinset

/-- Where others hold pins too, their pages are pinned besides the client's. -/
@[simp] lemma pinnedPages_among (t : PageStore D) (others : Multiset (PageId × Bool)) :
    (t.among others).pinnedPages = pagesOf others ∪ t.pinnedPages := by
  rw [pinnedPages, among, Multiset.map_add, Multiset.toFinset_add]
  rfl

/-- The client's pins are among all of them. -/
lemma mem_pins_among (h : (p, b) ∈ t.pins) : (p, b) ∈ (t.among others).pins :=
  Multiset.mem_add.2 (.inr h)

/-- Pinning a page commutes with the pins of the others. -/
@[simp] lemma among_pin (t : PageStore D) (p : PageId) :
    (t.among others).pin p = (t.pin p).among others := by
  rw [pin, pin, among, among]
  simp

/-- So does allocating a page. -/
@[simp] lemma among_allocate [Inhabited D] (t : PageStore D) :
    (t.among others).allocate = t.allocate.among others := by
  rw [allocate, allocate, among, among]
  simp

/-- So does deleting a page. -/
@[simp] lemma among_delete (t : PageStore D) (p : PageId) :
    (t.among others).delete p = (t.delete p).among others := rfl

/-- So does giving up one of the client's own pins. -/
lemma among_unpin (h : (p, b) ∈ t.pins) :
    (t.among others).unpin p b = (t.unpin p b).among others := by
  rw [unpin, unpin, among, among]
  simp [Multiset.erase_add_right_pos _ h]

/-- So does writing under one of the client's own pins. -/
lemma among_write (h : (p, b) ∈ t.pins) (d : D) :
    (t.among others).write p b d = (t.write p b d).among others := by
  rw [write, write, among, among]
  simp [Multiset.erase_add_right_pos _ h]

end PageStore

namespace BufferPoolManager

variable [Inhabited D] {s s' : BufferPoolManager D (PageId → D)} {t t' : PageStore D}
  {others : Multiset (PageId × Bool)} {p : PageId}

/-- The pages that others have pinned are allocated. -/
lemma Refines.lt_nextPageId (h : Refines s (t.among others)) :
    ∀ q ∈ PageStore.pagesOf others, q < t.nextPageId := by
  intro q hq
  have hmem : q ∈ (t.among others).pinnedPages := by
    rw [PageStore.pinnedPages_among]
    exact Finset.mem_union_left _ hq
  obtain ⟨f, hf⟩ := h.pinned q (mem_pinnedPages.1 hmem)
  have hlt := (h.consistent.resident_allocated q f hf).2
  rwa [h.next_eq] at hlt

/-- A call that concerns the client's own pins. -/
lemma Refines.quietCall (h : Refines s (t.among others)) {β : Type} {e : PoolCall D β} {b : β}
    (he : e.IsQuiet) (hrun : PageStore.handler ⊤ β e t = some (b, t')) :
    ∃ s', BufferPoolManager.handler (idealDisk D) β e s = some (b, s') ∧
      Refines s' (t'.among others) ∧ s'.poolSize = s.poolSize := by
  cases e with
  | newPage => exact he.elim
  | fetchPage p => exact he.elim
  | deletePage p => exact he.elim
  | unpinPage p d =>
    -- the client ends one of its own pins
    obtain ⟨wrote, hmem, hd, rfl, rfl⟩ : ∃ wrote, (p, wrote) ∈ t.pins ∧ (wrote = true → d = true) ∧
        true = b ∧ t.unpin p wrote = t' := by
      simp only [PageStore.handler] at hrun
      split_ifs at hrun with h₁ h₂
      · exact ⟨d, h₁, id, Prod.mk.inj (Option.some.inj hrun)⟩
      · obtain ⟨hmem, rfl⟩ := h₂
        exact ⟨false, hmem, fun _ => rfl, Prod.mk.inj (Option.some.inj hrun)⟩
    obtain ⟨s', hs', hr, hsize⟩ := h.unpinPage (PageStore.mem_pins_among hmem) hd
    rw [PageStore.among_unpin hmem] at hr
    exact ⟨s', by rw [BufferPoolManager.handler, hs'], hr, hsize⟩
  | read p =>
    have hread : PageStore.handler (s.poolSize : ℕ∞) _ (.read p) (t.among others) =
        some (b, t'.among others) := by
      simp only [PageStore.handler] at hrun ⊢
      split_ifs at hrun with hp
      obtain ⟨d, hd, heq⟩ := Option.map_eq_some_iff.1 hrun
      obtain ⟨rfl, rfl⟩ := Prod.mk.inj heq
      have hmem : p ∈ (t.among others).pinnedPages := by
        rw [PageStore.pinnedPages_among]
        exact Finset.mem_union_right _ hp
      rw [if_pos hmem]
      exact Option.map_eq_some_iff.2 ⟨d, hd, rfl⟩
    exact h.handler le_rfl hread
  | write p d =>
    obtain ⟨wrote, hmem, rfl⟩ : ∃ wrote, (p, wrote) ∈ t.pins ∧ t.write p wrote d = t' := by
      simp only [PageStore.handler] at hrun
      split_ifs at hrun with h₁ h₂ h₃
      · exact ⟨true, h₂, (Prod.mk.inj (Option.some.inj hrun)).2⟩
      · exact ⟨false, h₃, (Prod.mk.inj (Option.some.inj hrun)).2⟩
    have hmem' : (p, wrote) ∈ (t.among others).pins := PageStore.mem_pins_among hmem
    obtain ⟨f, hf, -⟩ := h.resident_of_pin hmem'
    have hlk : s.pageTable.lookup p = some f := hf
    have hr := h.write hmem' hf d
    rw [PageStore.among_write hmem] at hr
    exact ⟨_, by simp [BufferPoolManager.handler, hlk], hr, rfl⟩

/-- A client that keeps the discipline runs on a pool in which others hold pins as it runs on the
pages and pins of its own. -/
theorem sharedHandler_simulates (others : Multiset (PageId × Bool)) (frames : ℕ) :
    Effect.Handler.Simulates (PageStore.sharedHandler (PageStore.pagesOf others) frames)
      (handler (idealDisk D)) fun t s => Refines s (t.among others) ∧ s.poolSize = frames := by
  rintro β e t s b t' ⟨h, rfl⟩ hrun
  have hle := h.card_pinnedPages_le
  have hfull := h.not_allPinned
  rw [PageStore.pinnedPages_among] at hle hfull
  cases e with
  | newPage =>
    simp only [PageStore.sharedHandler] at hrun
    split_ifs at hrun with hcard
    · obtain ⟨rfl, rfl⟩ := Prod.mk.inj (Option.some.inj hrun)
      rcases h.newPage with ⟨-, hall⟩ | ⟨f, s', hs', hr, -, hsize, -⟩
      · exact absurd hall (hfull hcard)
      · rw [PageStore.among_allocate] at hr
        exact ⟨s', by rw [handler, hs']; rfl, hr, hsize⟩
    · obtain ⟨rfl, rfl⟩ := Prod.mk.inj (Option.some.inj hrun)
      have hs := h.newPage_full (by rw [PageStore.pinnedPages_among]; omega)
      exact ⟨s, by simp [handler, hs], h, rfl⟩
  | fetchPage p =>
    simp only [PageStore.sharedHandler] at hrun
    split_ifs at hrun with hnone hcard
    · obtain ⟨rfl, rfl⟩ := Prod.mk.inj (Option.some.inj hrun)
      obtain ⟨d, hd⟩ := Option.ne_none_iff_exists'.1 hnone
      rcases h.fetchPage (h.content_lt p d hd) with ⟨-, hall, hzero⟩ | ⟨f, s', hs', hr, -, hsize⟩
      · have hp : p ∉ PageStore.pagesOf others ∪ t.pinnedPages := by
          rw [← PageStore.pinnedPages_among, mem_pinnedPages, not_not]
          exact hzero
        rw [Finset.card_insert_of_notMem hp] at hcard
        exact absurd hall (hfull hcard)
      · rw [PageStore.among_pin] at hr
        exact ⟨s', by rw [handler, hs']; rfl, hr, hsize⟩
    · obtain ⟨rfl, rfl⟩ := Prod.mk.inj (Option.some.inj hrun)
      obtain ⟨d, hd⟩ := Option.ne_none_iff_exists'.1 hnone
      have hp : p ∉ PageStore.pagesOf others ∪ t.pinnedPages := by
        intro hp
        rw [Finset.insert_eq_of_mem hp] at hcard
        exact hcard hle
      rw [Finset.card_insert_of_notMem hp] at hcard
      rw [← PageStore.pinnedPages_among] at hp hcard
      have hs := h.fetchPage_full (by omega) hp (h.content_lt p d hd)
      exact ⟨s, by simp [handler, hs], h, rfl⟩
  | deletePage p =>
    simp only [PageStore.sharedHandler] at hrun
    rw [← PageStore.pinnedPages_among] at hrun
    split_ifs at hrun with hnone hp
    · obtain ⟨rfl, rfl⟩ := Prod.mk.inj (Option.some.inj hrun)
      have hs := h.deletePage_pinned (mem_pinnedPages.1 hp)
      exact ⟨s, by simp [handler, hs], h, rfl⟩
    · obtain ⟨rfl, rfl⟩ := Prod.mk.inj (Option.some.inj hrun)
      rw [mem_pinnedPages, not_not] at hp
      obtain ⟨s', hs', hr, hsize⟩ := h.deletePage hp
      rw [PageStore.among_delete] at hr
      exact ⟨s', by simp [handler, hs'], hr, hsize⟩
  | unpinPage p d => exact h.quietCall trivial hrun
  | read p => exact h.quietCall trivial hrun
  | write p d => exact h.quietCall trivial hrun

end BufferPoolManager

end OneBase
